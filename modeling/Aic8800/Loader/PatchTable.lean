import Aic8800.Lib.Cells
import Mathlib

/-! # The patch table of the Bluetooth firmware

The file begins with a tag of 16 bytes. An entry has a name of 16 bytes, a type, a length, and as
many pairs of words. `aicbt_patch_table_alloc` makes a list of the entries, in which those of an
unknown type have no data. The list is then unpacked, by its first entry, and loaded;
`rwnx_plat_bin_fw_patch_table_upload_android` makes it with the same loop and loads it at once.
-/

namespace Aic8800.Loader.PatchTable

open Lib

abbrev Bytes := List UInt8

/-- `AICBT_PT_TAG`, with the zero behind it -/
def tag : Bytes := [65, 73, 67, 66, 84, 95, 80, 84, 95, 84, 65, 71, 0]

def aicbtPtInf : Nat := 0

def aicbtPtBtmode : Nat := 3

/-- The type of the version text -/
def versionType : Nat := 6

/-- The types from here on have no data. -/
def unknownType : Nat := 1000

/-- The numbers of pairs between `adid_addrinf` and `ext_patch_nb_addr` -/
def baseLen : Nat := 4

def le32 (n : Nat) : Bytes :=
  [.ofNat n, .ofNat (n / 2 ^ 8), .ofNat (n / 2 ^ 16), .ofNat (n / 2 ^ 24)]

/-- `*(uint32_t *)p` -/
def ofLe32 : Bytes → Nat
  | [] => 0
  | b :: rest => b.toNat + 2 ^ 8 * ofLe32 rest

/-- `struct aicbt_patch_table`, without the link -/
structure Entry where
  name : Bytes
  type : Nat
  data : Bytes
  len : Nat
  deriving DecidableEq

/-- What is allocated: the file, and the node, the name and the data of the `n`-th entry -/
inductive Block where
  | rawdata
  | node (n : Nat)
  | name (n : Nat)
  | data (n : Nat)
  deriving DecidableEq

def vfree (b : Block) (heap : List Block) : List Block := heap.filter (· ≠ b)

/-- The list, which is empty where there is none, and what is allocated -/
structure Table where
  head : List Entry
  heap : List Block

def Table.cons (e : Entry) (t : Table) : Table := { t with head := e :: t.head }

/-- `aicbt_patch_table_free` of the entries from the `n`-th on -/
def aicbtPatchTableFree : List Entry → (n : Nat) → List Block → List Block
  | [], _, heap => heap
  | _ :: rest, n, heap =>
      aicbtPatchTableFree rest (n + 1) (vfree (.node n) (vfree (.data n) (vfree (.name n) heap)))

/-- Which calls of `vmalloc` succeed for the entries, and whether `LOGDEBUG` is on -/
structure Env where
  node : Nat → Bool
  name : Nat → Bool
  data : Nat → Nat → Bool
  debug : Bool

/-- `n` bytes from the cursor, if they are in the file, and what follows them -/
def take (n : Nat) (p : Bytes) : Option (Bytes × Bytes) :=
  if n ≤ p.length then some (p.take n, p.drop n) else none

/-- The loop over the entries, from the `n`-th on. A byte that is read behind the file, and memory
    that was not allocated, have no result. The length in bytes is 64 bits wide where memory is
    allocated, and 32 bits where it is copied. -/
def readEntries (env : Env) : (fuel n : Nat) → (p : Bytes) → (heap : List Block) → Option Table
  | _, _, [], heap => some ⟨[], heap⟩
  | 0, _, _ :: _, _ => none
  | fuel + 1, n, b :: rest, heap => do
      guard (env.node n ∧ env.name n)
      let heap := .name n :: .node n :: heap
      let (name, p) ← take 16 (b :: rest)
      let (type, p) ← take 4 p
      let (len, p) ← take 4 p
      if unknownType ≤ ofLe32 type ∨ ofLe32 len = 0 then
        return (← readEntries env fuel (n + 1) p heap).cons ⟨name, ofLe32 type, [], 0⟩
      else
        guard (env.data n (ofLe32 len * 8))
        let (bytes, p) ← take (ofLe32 len * 8 % 2 ^ 32) p
        let data := Cells.fill bytes (List.replicate (ofLe32 len * 8) 0)
        return (← readEntries env fuel (n + 1) p (.data n :: heap)).cons
          ⟨name, ofLe32 type, data, ofLe32 len⟩

/-- What `aic_load_firmware` has read, if it has; its size is an `int`. Of an empty file nothing is
    allocated. -/
structure File where
  bytes : Option Bytes
  size : ∀ raw, bytes = some raw → raw.length < 2 ^ 31

/-- `aicbt_patch_table_alloc`. The list is freed where no entry has been made yet. -/
def aicbtPatchTableAlloc (env : Env) (file : File) : Option Table :=
  match file.bytes with
  | none => some ⟨[], aicbtPatchTableFree [] 0 []⟩
  | some raw =>
      if raw.length = 0 then some ⟨[], aicbtPatchTableFree [] 0 []⟩
      else do
        let (start, _) ← take tag.length raw
        if start ≠ tag then return ⟨[], vfree .rawdata (aicbtPatchTableFree [] 0 [.rawdata])⟩
        let t ← readEntries env raw.length 0 (raw.drop 16) [.rawdata]
        return { t with heap := vfree .rawdata t.heap }

namespace Entry

/-- The word `data[i]` of an entry, if there is one -/
def word (e : Entry) (i : Nat) : Option Nat :=
  if 4 * i + 4 ≤ e.data.length then some (ofLe32 ((e.data.drop (4 * i)).take 4)) else none

/-- `data[i] = w` -/
def setWord (e : Entry) (i w : Nat) : Option Entry := do
  return { e with data := ← Cells.copyAt (4 * i) (le32 w) e.data }

end Entry

/-- `struct aicbt_patch_info_t`: the words between `info_len` and the pointer, and where in the
    data of the entry that points -/
structure PatchInfo where
  infoLen : Nat
  words : List Nat
  extPatchParam : Option Nat

/-- What the callers begin with -/
def PatchInfo.start (addrAdid addrPatch : Nat) : PatchInfo :=
  ⟨0, [0, addrAdid, 0, addrPatch, 0, 0, 0, 0, 0, 0], none⟩

def PatchInfo.extPatchNb (info : PatchInfo) : Nat := info.words.getD 9 0

/-- `aicbt_patch_info_unpack`. The extension patches are printed if `LOGDEBUG` is on. -/
def aicbtPatchInfoUnpack (env : Env) (info : PatchInfo) (head : Entry) : Option PatchInfo :=
  if head.type ≠ aicbtPtInf then some info
  else
    let infoLen := if baseLen < head.len then baseLen else head.len
    let memcpyLen := if baseLen < head.len then baseLen + 1 else head.len
    if infoLen = 0 then some { info with infoLen }
    else do
      let copied ← (List.range (memcpyLen * 2)).mapM head.word
      let info := { info with infoLen, words := Cells.fill copied info.words }
      if info.extPatchNb = 0 then return info
      if env.debug then
        let _ ← (List.range (info.extPatchNb * 2)).mapM fun i => head.word (memcpyLen * 2 + i)
      return { info with extPatchParam := some (memcpyLen * 2) }

/-- What is written to `data[1]`, `data[3]` up to `data[17]` of a BTMODE entry -/
structure Settings where
  words : List Nat
  nine : words.length = 9

/-- The writes to a BTMODE entry -/
def setBtmode (settings : List Nat) (i : Nat) (e : Entry) : Option Entry :=
  match settings with
  | [] => some e
  | w :: rest => do setBtmode rest (i + 2) (← e.setWord i w)

/-- An entry as it is loaded -/
def prepare (settings : Settings) (p : Entry) : Option Entry :=
  if p.type = aicbtPtBtmode then setBtmode settings.words 1 p else some p

/-- `rwnx_send_dbg_mem_write_req` for `left` pairs of an entry from the `i`-th on: what is sent,
    and what is returned -/
def sendPairs (reply : Nat → Int) (e : Entry) :
    (left i : Nat) → (sent : List (Nat × Nat)) → Option (List (Nat × Nat) × Int)
  | 0, _, sent => some (sent, 0)
  | left + 1, i, sent => do
      let addr ← e.word (2 * i)
      let data ← e.word (2 * i + 1)
      if reply sent.length ≠ 0 then return (sent ++ [(addr, data)], reply sent.length)
      else sendPairs reply e left (i + 1) (sent ++ [(addr, data)])

/-- `printk("%s", data)` of a text, or of no data at all -/
def printText (data : Bytes) : Option Unit := if data = [] ∨ 0 ∈ data then some () else none

/-- The loop over the list -/
def loadEntries (settings : Settings) (reply : Nat → Int) :
    List Entry → (sent : List (Nat × Nat)) → Option (List (Nat × Nat) × Int)
  | [], sent => some (sent, 0)
  | p :: rest, sent => do
      let p ← prepare settings p
      if p.type = versionType then
        printText p.data
        loadEntries settings reply rest sent
      else
        let (sent, ret) ← sendPairs reply p p.len 0 sent
        if ret ≠ 0 then return (sent, ret)
        loadEntries settings reply rest sent

/-- What is sent, what is returned, and what is allocated then -/
structure Loaded where
  sent : List (Nat × Nat)
  ret : Int
  heap : List Block

/-- `aicbt_patch_table_load`. The list is kept where a request has failed. -/
def aicbtPatchTableLoad (settings : Settings) (reply : Nat → Int) (t : Table) : Option Loaded := do
  let (sent, ret) ← loadEntries settings reply t.head []
  if ret ≠ 0 then return ⟨sent, ret, t.heap⟩
  return ⟨sent, 0, aicbtPatchTableFree t.head 0 t.heap⟩

/-- `rwnx_plat_bin_fw_patch_table_upload_android`. What the load returns is not looked at. -/
def rwnxPlatBinFwPatchTableUploadAndroid (env : Env) (settings : Settings) (reply : Nat → Int)
    (file : File) : Option Loaded :=
  match file.bytes with
  | none => some ⟨[], -1, []⟩
  | some raw =>
      if raw.length = 0 then some ⟨[], -1, []⟩
      else do
        let (start, _) ← take tag.length raw
        if start ≠ tag then return ⟨[], -1, vfree .rawdata [.rawdata]⟩
        let t ← readEntries env raw.length 0 (raw.drop 16) [.rawdata]
        let out ← aicbtPatchTableLoad settings reply { t with heap := vfree .rawdata t.heap }
        return { out with ret := 0 }

/-! ## Files that are well formed -/

/-- An entry, as it is in the file -/
structure Record where
  name : Bytes
  type : Nat
  len : Nat
  data : Bytes

namespace Record

variable (r : Record)

/-- An entry of an unknown type has no data. -/
structure Valid : Prop where
  name : r.name.length = 16
  type : r.type < 2 ^ 32
  len : r.len < 2 ^ 32
  data : r.data.length = if unknownType ≤ r.type then 0 else 8 * r.len

def encode : Bytes := r.name ++ le32 r.type ++ le32 r.len ++ r.data

/-- The entry that is made of it -/
def entry : Entry := ⟨r.name, r.type, r.data, if unknownType ≤ r.type then 0 else r.len⟩

end Record

/-- The bytes behind the tag are these entries. -/
def Holds (p : Bytes) (records : List Record) : Prop :=
  (∀ r ∈ records, r.Valid) ∧ p = records.flatMap Record.encode

/-- The file is made of the tag and these entries. -/
def WellFormed (raw : Bytes) (records : List Record) : Prop :=
  16 ≤ raw.length ∧ raw.take tag.length = tag ∧ Holds (raw.drop 16) records

/-- The data of an entry has its length, and is in the file. -/
def Entry.Within (raw : Bytes) (e : Entry) : Prop := e.data.length = 8 * e.len ∧ e.data <:+: raw

/-- What is promised of a file: nothing but the list is allocated then, and the entries of the list
    are in the file, and in order if it is well formed; unpacking and loading the list find the
    words they look for, as the upload of the whole file does. -/
def Sound (env : Env) (file : File) : Prop :=
  ∃ out, aicbtPatchTableAlloc env file = some out ∧
    aicbtPatchTableFree out.head 0 out.heap = [] ∧
    ∀ raw, file.bytes = some raw →
      (∀ e ∈ out.head, e.Within raw) ∧
      (∀ records, WellFormed raw records → out.head = records.map Record.entry) ∧
      (∀ head rest, out.head = head :: rest → ∀ addrAdid addrPatch,
        aicbtPatchInfoUnpack env (.start addrAdid addrPatch) head ≠ none) ∧
      ∀ settings reply, aicbtPatchTableLoad settings reply out ≠ none ∧
        rwnxPlatBinFwPatchTableUploadAndroid env settings reply file ≠ none

/-! ## What is allocated -/

theorem mem_vfree {b c : Block} {heap : List Block} : c ∈ vfree b heap ↔ c ∈ heap ∧ c ≠ b := by
  simp [vfree]

/-- The blocks of the `n`-th entry -/
def Block.Of (n : Nat) (b : Block) : Prop := b = .node n ∨ b = .name n ∨ b = .data n

theorem mem_free {list : List Entry} {n : Nat} {heap : List Block} {b : Block} :
    b ∈ aicbtPatchTableFree list n heap ↔
      b ∈ heap ∧ ∀ m, n ≤ m → m < n + list.length → ¬b.Of m := by
  induction list generalizing n heap with
  | nil =>
      refine (and_iff_left ?_).symm
      intro m low high
      exact absurd high (Nat.not_lt.mpr low)
  | cons e rest ih =>
      have split : (∀ m, n ≤ m → m < n + (e :: rest).length → ¬b.Of m) ↔
          ¬b.Of n ∧ ∀ m, n + 1 ≤ m → m < n + 1 + rest.length → ¬b.Of m := by
        rw [List.length_cons]
        constructor
        · intro all
          exact ⟨all n (Nat.le_refl n) (by omega), fun m low high => all m (by omega) (by omega)⟩
        · rintro ⟨first, others⟩ m low high
          by_cases same : m = n
          · rw [same]
            exact first
          · exact others m (by omega) (by omega)
      rw [aicbtPatchTableFree, ih, split, mem_vfree, mem_vfree, mem_vfree]
      unfold Block.Of
      tauto

/-- What the loop allocates are the blocks of the entries that it makes. -/
theorem mem_heap_of_readEntries {env : Env} {fuel n : Nat} {p : Bytes} {heap : List Block}
    {t : Table} (read : readEntries env fuel n p heap = some t) :
    ∀ b ∈ t.heap, b ∈ heap ∨ ∃ m, n ≤ m ∧ m < n + t.head.length ∧ b.Of m := by
  induction fuel generalizing n p heap t with
  | zero =>
      cases p with
      | nil =>
          unfold readEntries at read
          obtain rfl := Option.some.inj read
          exact fun b member => .inl member
      | cons b p => cases read
  | succ fuel ih =>
      cases p with
      | nil =>
          unfold readEntries at read
          obtain rfl := Option.some.inj read
          exact fun b member => .inl member
      | cons c p =>
          unfold readEntries at read
          simp only [Option.bind_eq_bind, Option.bind_eq_some_iff, Option.pure_def] at read
          obtain ⟨_, -, ⟨name, q⟩, -, ⟨type, q'⟩, -, ⟨len, q''⟩, -, read⟩ := read
          -- the entry of this turn, and those of the others
          have turn {q : Bytes} {heap' : List Block} {e : Entry} {rest : Table}
              (own : ∀ b ∈ heap', b ∈ heap ∨ b.Of n)
              (tail : readEntries env fuel (n + 1) q heap' = some rest)
              (same : rest.cons e = t) :
              ∀ b ∈ t.heap, b ∈ heap ∨ ∃ m, n ≤ m ∧ m < n + t.head.length ∧ b.Of m := by
            subst same
            intro b member
            have length : (rest.cons e).head.length = rest.head.length + 1 := List.length_cons
            rcases ih tail b member with before | ⟨m, low, high, of⟩
            · refine (own b before).imp_right fun of => ⟨n, Nat.le_refl n, ?_, of⟩
              omega
            · exact .inr ⟨m, by omega, by omega, of⟩
          dsimp only at read
          split at read
          · obtain ⟨rest, tail, same⟩ := Option.bind_eq_some_iff.mp read
            refine turn (fun b member => ?_) tail (Option.some.inj same)
            rcases List.mem_cons.mp member with rfl | member
            · exact .inr (.inr (.inl rfl))
            rcases List.mem_cons.mp member with rfl | member
            · exact .inr (.inl rfl)
            · exact .inl member
          · obtain ⟨_, -, read⟩ := Option.bind_eq_some_iff.mp read
            obtain ⟨⟨bytes, q⟩, -, read⟩ := Option.bind_eq_some_iff.mp read
            obtain ⟨rest, tail, same⟩ := Option.bind_eq_some_iff.mp read
            refine turn (fun b member => ?_) tail (Option.some.inj same)
            rcases List.mem_cons.mp member with rfl | member
            · exact .inr (.inr (.inr rfl))
            rcases List.mem_cons.mp member with rfl | member
            · exact .inr (.inr (.inl rfl))
            rcases List.mem_cons.mp member with rfl | member
            · exact .inr (.inl rfl)
            · exact .inl member

/-- Without the file and the list, nothing is allocated. -/
theorem free_readEntries {env : Env} {fuel : Nat} {p : Bytes} {t : Table}
    (read : readEntries env fuel 0 p [.rawdata] = some t) :
    aicbtPatchTableFree t.head 0 (vfree .rawdata t.heap) = [] := by
  apply List.eq_nil_iff_forall_not_mem.mpr
  intro b member
  obtain ⟨there, none⟩ := mem_free.mp member
  obtain ⟨there, other⟩ := mem_vfree.mp there
  rcases mem_heap_of_readEntries read b there with file | ⟨m, low, high, of⟩
  · exact other (List.mem_singleton.mp file)
  · exact none m low high of

/-! ## The loop over the entries -/

section Bytes

variable {p xs ys : Bytes} {n : Nat}

theorem le32_length (n : Nat) : (le32 n).length = 4 := rfl

theorem ofLe32_le32 (short : n < 2 ^ 32) : ofLe32 (le32 n) = n := by
  simp only [ofLe32, le32, UInt8.toNat_ofNat']
  omega

theorem le32_ofLe32 (four : xs.length = 4) : le32 (ofLe32 xs) = xs ∧ ofLe32 xs < 2 ^ 32 := by
  obtain ⟨a, b, c, d, rfl⟩ := List.length_eq_four.mp four
  have bounds := (⟨a.toNat_lt, b.toNat_lt, c.toNat_lt, d.toNat_lt⟩ :
    a.toNat < 2 ^ 8 ∧ b.toNat < 2 ^ 8 ∧ c.toNat < 2 ^ 8 ∧ d.toNat < 2 ^ 8)
  have byte (x : UInt8) (m : Nat) (same : m % 2 ^ 8 = x.toNat) : UInt8.ofNat m = x := by
    apply UInt8.toNat_inj.mp
    rw [UInt8.toNat_ofNat', same]
  constructor
  · unfold le32
    congr 1
    · apply byte
      simp only [ofLe32]
      omega
    congr 1
    · apply byte
      simp only [ofLe32]
      omega
    congr 1
    · apply byte
      simp only [ofLe32]
      omega
    congr 1
    apply byte
    simp only [ofLe32]
    omega
  · simp only [ofLe32]
    omega

theorem take_append (length : xs.length = n) (ys : Bytes) : take n (xs ++ ys) = some (xs, ys) := by
  unfold take
  rw [if_pos (by rw [List.length_append]; omega), List.take_left' length, List.drop_left' length]

theorem of_take (taken : take n p = some (xs, ys)) : xs.length = n ∧ p = xs ++ ys := by
  unfold take at taken
  split at taken
  · rename_i fits
    obtain ⟨rfl, rfl⟩ := Prod.mk.inj (Option.some.inj taken)
    exact ⟨by rw [List.length_take, Nat.min_eq_left fits], (List.take_append_drop n p).symm⟩
  · cases taken

end Bytes

/-- The memory for the entries, from the `n`-th on -/
def Env.Memory (env : Env) : Nat → List Record → Prop
  | _, [] => True
  | n, r :: rest => (env.node n ∧ env.name n) ∧
      (r.type < unknownType → r.len ≠ 0 → env.data n (r.len * 8)) ∧ env.Memory (n + 1) rest

section Read

variable {env : Env} {r : Record} {fuel n : Nat} {rest : Bytes} {heap : List Block}

namespace Record

theorem Valid.entry_length (valid : r.Valid) : r.entry.data.length = 8 * r.entry.len := by
  unfold entry
  rw [valid.data]
  split <;> rfl

theorem Valid.encode_ne (valid : r.Valid) : r.encode ++ rest ≠ [] := by
  intro none
  have length := congrArg List.length none
  simp only [encode, List.length_append, valid.name, List.length_nil] at length
  omega

end Record

/-- A turn of the loop at an entry that is in the file -/
theorem readEntries_encode (valid : r.Valid) (memory : env.node n ∧ env.name n)
    (data : r.type < unknownType → r.len ≠ 0 → env.data n (r.len * 8))
    (small : r.len * 8 < 2 ^ 32 ∨ unknownType ≤ r.type) :
    ∃ heap', readEntries env (fuel + 1) n (r.encode ++ rest) heap =
      (readEntries env fuel (n + 1) rest heap').map (Table.cons r.entry) := by
  obtain ⟨b, p, cons⟩ := List.exists_cons_of_ne_nil (valid.encode_ne)
  have parts : r.encode ++ rest = r.name ++ (le32 r.type ++ (le32 r.len ++ (r.data ++ rest))) := by
    simp only [Record.encode, List.append_assoc]
  rw [cons, readEntries, ← cons, parts]
  simp only [guard, memory, and_self, if_true, Option.bind_eq_bind, Option.pure_def,
    Option.bind_some, take_append valid.name, take_append (le32_length _), ofLe32_le32 valid.type,
    ofLe32_le32 valid.len]
  split
  · rename_i bare
    have empty : r.data = [] := by
      apply List.length_eq_zero_iff.mp
      rw [valid.data]
      split
      · rfl
      · rename_i known
        rw [bare.resolve_left known]
    have entry : r.entry = ⟨r.name, r.type, [], 0⟩ := by
      unfold Record.entry
      rw [empty]
      split
      · rfl
      · rename_i known
        rw [bare.resolve_left known]
    rw [empty, entry, List.nil_append]
    refine ⟨.name n :: .node n :: heap, ?_⟩
    cases readEntries env fuel (n + 1) rest (.name n :: .node n :: heap) <;> rfl
  · rename_i full
    obtain ⟨known, some'⟩ := not_or.mp full
    have length : r.data.length = r.len * 8 := by
      rw [valid.data, if_neg known, Nat.mul_comm]
    have whole : r.len * 8 % 2 ^ 32 = r.len * 8 := Nat.mod_eq_of_lt (small.resolve_right known)
    have filled : Cells.fill r.data (List.replicate (r.len * 8) 0) = r.data := by
      unfold Cells.fill
      rw [List.drop_replicate, length, Nat.sub_self]
      exact List.append_nil _
    have entry : r.entry = ⟨r.name, r.type, r.data, r.len⟩ := by
      unfold Record.entry
      rw [if_neg known]
    rw [if_pos (data (Nat.lt_of_not_le known) some'), Option.bind_some, whole, take_append length,
      Option.bind_some, filled, entry]
    refine ⟨.data n :: .name n :: .node n :: heap, ?_⟩
    cases readEntries env fuel (n + 1) rest (.data n :: .name n :: .node n :: heap) <;> rfl

/-- The entries of a file that is not too long are read as they are. -/
theorem readEntries_holds {records : List Record} (valid : ∀ r ∈ records, r.Valid)
    (memory : env.Memory n records) (size : (records.flatMap Record.encode).length < 2 ^ 31)
    (enough : (records.flatMap Record.encode).length ≤ fuel) :
    ∃ heap', readEntries env fuel n (records.flatMap Record.encode) heap =
      some ⟨records.map Record.entry, heap'⟩ := by
  induction records generalizing fuel n heap with
  | nil =>
      unfold readEntries
      exact ⟨heap, rfl⟩
  | cons r records ih =>
      have first := valid r List.mem_cons_self
      obtain ⟨allocated, data, memory⟩ := memory
      rw [List.flatMap_cons] at size enough ⊢
      have length : r.encode.length = 24 + r.data.length := by
        simp only [Record.encode, List.length_append, first.name, le32_length]
      rw [List.length_append, length] at size enough
      obtain ⟨fuel, rfl⟩ := Nat.exists_eq_succ_of_ne_zero (show fuel ≠ 0 by omega)
      have small : r.len * 8 < 2 ^ 32 ∨ unknownType ≤ r.type := by
        have same := first.data
        split at same
        · rename_i unknown
          exact .inr unknown
        · exact .inl (by omega)
      obtain ⟨heap', turn⟩ := @readEntries_encode env r fuel n (records.flatMap Record.encode) heap
        first allocated data small
      obtain ⟨heap'', others⟩ := @ih fuel (n + 1) heap'
        (fun r member => valid r (List.mem_cons_of_mem _ member)) memory (by omega) (by omega)
      rw [turn, others]
      exact ⟨heap'', rfl⟩

theorem Holds.nil : Holds [] [] := ⟨fun _ none => absurd none List.not_mem_nil, rfl⟩

theorem Holds.cons {records : List Record} (valid : r.Valid) (holds : Holds rest records) :
    Holds (r.encode ++ rest) (r :: records) := by
  obtain ⟨all, rfl⟩ := holds
  refine ⟨fun s member => ?_, (List.flatMap_cons ..).symm⟩
  rcases List.mem_cons.mp member with rfl | member
  · exact valid
  · exact all s member

theorem of_guard {c : Prop} [Decidable c] {u : Unit} (passed : (guard c : Option Unit) = some u) :
    c := by
  unfold guard at passed
  split at passed
  · assumption
  · cases passed

/-- What a turn of the loop has read, if it has not more data than can be copied -/
theorem of_readEntries_cons {t : Table} {p : Bytes} (more : p ≠ [])
    (read : readEntries env (fuel + 1) n p heap = some t)
    (short : ∀ e ∈ t.head, e.data.length < 2 ^ 32) :
    ∃ (r : Record) (rest : Bytes) (heap' : List Block) (tail : Table),
      r.Valid ∧ p = r.encode ++ rest ∧ t.head = r.entry :: tail.head ∧
      readEntries env fuel (n + 1) rest heap' = some tail ∧ (env.node n ∧ env.name n) ∧
      (r.type < unknownType → r.len ≠ 0 → env.data n (r.len * 8)) := by
  obtain ⟨b, p, rfl⟩ := List.exists_cons_of_ne_nil more
  unfold readEntries at read
  simp only [Option.bind_eq_bind, Option.bind_eq_some_iff, Option.pure_def] at read
  obtain ⟨_, allocated, ⟨name, q⟩, taken, ⟨type, q'⟩, taken', ⟨len, q''⟩, taken'', read⟩ := read
  obtain ⟨sixteen, whole⟩ := of_take taken
  obtain ⟨four, rfl⟩ := of_take taken'
  obtain ⟨four', rfl⟩ := of_take taken''
  obtain ⟨typeSame, typeShort⟩ := le32_ofLe32 four
  obtain ⟨lenSame, lenShort⟩ := le32_ofLe32 four'
  have encoded (data : Bytes) : Record.encode ⟨name, ofLe32 type, ofLe32 len, data⟩ =
      name ++ (type ++ (len ++ data)) := by
    simp only [Record.encode, typeSame, lenSame, List.append_assoc]
  dsimp only at read
  split at read
  · rename_i bare
    have none : unknownType ≤ ofLe32 type ∨ 8 * ofLe32 len = 0 :=
      bare.imp_right fun zero => by rw [zero]
    obtain ⟨tail, readTail, same⟩ := Option.bind_eq_some_iff.mp read
    obtain rfl := Option.some.inj same
    refine ⟨⟨name, ofLe32 type, ofLe32 len, []⟩, q'', _, tail,
      ⟨sixteen, typeShort, lenShort, ?_⟩, ?_, ?_, readTail, of_guard allocated,
      fun known some' => ?_⟩
    · split
      · rfl
      · rename_i known
        exact (none.resolve_left known).symm
    · rw [whole, encoded, List.append_nil, List.append_assoc, List.append_assoc]
    · unfold Table.cons Record.entry
      split
      · rfl
      · rename_i known
        rw [bare.resolve_left known]
    · exact absurd (bare.resolve_left (Nat.not_le.mpr known)) some'
  · rename_i full
    obtain ⟨known, -⟩ := not_or.mp full
    obtain ⟨_, room, read⟩ := Option.bind_eq_some_iff.mp read
    obtain ⟨⟨bytes, rest⟩, copied, read⟩ := Option.bind_eq_some_iff.mp read
    obtain ⟨tail, readTail, same⟩ := Option.bind_eq_some_iff.mp read
    obtain rfl := Option.some.inj same
    obtain ⟨length, rfl⟩ := of_take copied
    have size : (List.replicate (ofLe32 len * 8) (0 : UInt8)).length = ofLe32 len * 8 :=
      List.length_replicate
    have all := short _ List.mem_cons_self
    dsimp only at all
    rw [Cells.length_fill (by rw [size, length]; exact Nat.mod_le _ _), size] at all
    rw [Nat.mod_eq_of_lt all] at length
    have filled : Cells.fill bytes (List.replicate (ofLe32 len * 8) 0) = bytes := by
      unfold Cells.fill
      rw [List.drop_replicate, length, Nat.sub_self]
      exact List.append_nil _
    refine ⟨⟨name, ofLe32 type, ofLe32 len, bytes⟩, rest, _, tail,
      ⟨sixteen, typeShort, lenShort, ?_⟩, ?_, ?_, readTail, of_guard allocated,
      fun _ _ => of_guard room⟩
    · rw [if_neg known]
      exact length.trans (Nat.mul_comm _ _)
    · rw [whole, encoded]
      simp only [List.append_assoc]
    · unfold Table.cons Record.entry
      rw [if_neg known, filled]

/-- What is read was there, if no entry has more data than can be copied. -/
theorem holds_of_readEntries {t : Table} {p : Bytes}
    (read : readEntries env fuel n p heap = some t)
    (short : ∀ e ∈ t.head, e.data.length < 2 ^ 32) :
    ∃ records, Holds p records ∧ t.head = records.map Record.entry ∧ env.Memory n records := by
  induction fuel generalizing n p heap t with
  | zero =>
      cases p with
      | nil =>
          unfold readEntries at read
          obtain rfl := Option.some.inj read
          exact ⟨[], Holds.nil, rfl, trivial⟩
      | cons b p => cases read
  | succ fuel ih =>
      by_cases done : p = []
      · subst done
        unfold readEntries at read
        obtain rfl := Option.some.inj read
        exact ⟨[], Holds.nil, rfl, trivial⟩
      · obtain ⟨r, rest, heap', tail, valid, rfl, head, readTail, allocated, data⟩ :=
          of_readEntries_cons done read short
        rw [head] at short ⊢
        obtain ⟨records, holds, same, memory⟩ := ih readTail
          fun e member => short e (List.mem_cons_of_mem _ member)
        exact ⟨r :: records, Holds.cons valid holds, congrArg (r.entry :: ·) same, allocated, data,
          memory⟩

end Read

/-- An entry tells where it ends. -/
theorem Record.encode_inj {r s : Record} {xs ys : Bytes} (valid : r.Valid) (valid' : s.Valid)
    (same : r.encode ++ xs = s.encode ++ ys) : r = s ∧ xs = ys := by
  obtain ⟨name, type, len, data⟩ := r
  obtain ⟨name', type', len', data'⟩ := s
  simp only [encode, List.append_assoc] at same
  obtain ⟨names, behind⟩ := List.append_inj same (valid.name.trans valid'.name.symm)
  obtain ⟨types, behind'⟩ := List.append_inj behind rfl
  obtain ⟨lens, behind''⟩ := List.append_inj behind' rfl
  have types : type = type' :=
    (ofLe32_le32 valid.type).symm.trans ((congrArg ofLe32 types).trans (ofLe32_le32 valid'.type))
  have lens : len = len' :=
    (ofLe32_le32 valid.len).symm.trans ((congrArg ofLe32 lens).trans (ofLe32_le32 valid'.len))
  subst types lens names
  obtain ⟨rfl, rfl⟩ := List.append_inj behind'' (valid.data.trans valid'.data.symm)
  exact ⟨rfl, rfl⟩

theorem Holds.unique {p : Bytes} {a b : List Record} (holds : Holds p a) (holds' : Holds p b) :
    a = b := by
  induction a generalizing p b with
  | nil =>
      cases b with
      | nil => rfl
      | cons s b =>
          have none := holds.2.symm.trans holds'.2
          rw [List.flatMap_cons] at none
          exact absurd none.symm (holds'.1 s List.mem_cons_self).encode_ne
  | cons r a ih =>
      cases b with
      | nil =>
          have none := holds'.2.symm.trans holds.2
          rw [List.flatMap_cons] at none
          exact absurd none.symm (holds.1 r List.mem_cons_self).encode_ne
      | cons s b =>
          have same := holds.2.symm.trans holds'.2
          rw [List.flatMap_cons, List.flatMap_cons] at same
          obtain ⟨rfl, rest⟩ := Record.encode_inj (holds.1 r List.mem_cons_self)
            (holds'.1 s List.mem_cons_self) same
          have tails := ih ⟨fun r member => holds.1 r (List.mem_cons_of_mem _ member), rfl⟩
            ⟨fun r member => holds'.1 r (List.mem_cons_of_mem _ member), rest⟩
          rw [tails]

/-! ## What is looked for in the entries -/

section Words

variable {env : Env} {e : Entry} {i : Nat}

theorem word_isSome (length : e.data.length = 8 * e.len) : (e.word i).isSome ↔ i < 2 * e.len := by
  unfold Entry.word
  rw [length]
  split
  · rename_i inside
    exact iff_of_true rfl (by omega)
  · rename_i outside
    exact iff_of_false Bool.false_ne_true (by omega)

theorem mapM_isSome {α β : Type} {f : α → Option β} {l : List α} :
    (l.mapM f).isSome ↔ ∀ x ∈ l, (f x).isSome := by
  induction l with
  | nil => simp
  | cons a l ih =>
      rw [List.mapM_cons, List.forall_mem_cons, ← ih]
      cases f a with
      | none => simp
      | some b => cases l.mapM f <;> simp

/-- The words from one place on are there. -/
theorem words_isSome (length : e.data.length = 8 * e.len) (start n : Nat) :
    ((List.range n).mapM fun i => e.word (start + i)).isSome ↔ n = 0 ∨ start + n ≤ 2 * e.len := by
  rw [mapM_isSome]
  simp only [word_isSome length, List.mem_range]
  constructor
  · intro all
    by_cases some' : n = 0
    · exact .inl some'
    · have last := all (n - 1) (by omega)
      exact .inr (by omega)
  · intro fits i inside
    omega

/-- The extension patches of an information entry are in it, if they are printed. -/
def UnpackFits (env : Env) (e : Entry) : Prop :=
  e.type = aicbtPtInf → env.debug → baseLen < e.len →
    ∀ nb, e.word 9 = some nb → 0 < nb → baseLen + 1 + nb ≤ e.len

theorem of_mapM {α β : Type} {f : α → Option β} {l : List α} {out : List β}
    (made : l.mapM f = some out) :
    out.length = l.length ∧ ∀ i : Nat, out[i]? = l[i]?.bind f := by
  induction l generalizing out with
  | nil =>
      obtain rfl := Option.some.inj made
      exact ⟨rfl, fun i => rfl⟩
  | cons a l ih =>
      rw [List.mapM_cons] at made
      obtain ⟨b, first, made⟩ := Option.bind_eq_some_iff.mp made
      obtain ⟨tail, rest, made⟩ := Option.bind_eq_some_iff.mp made
      obtain rfl := Option.some.inj made
      obtain ⟨length, each⟩ := ih rest
      refine ⟨by rw [List.length_cons, length, List.length_cons], fun i => ?_⟩
      cases i with
      | zero => exact first.symm
      | succ i => exact each i

/-- What is behind what was filled in is as it was. -/
theorem getD_fill {xs a : List Nat} (h : xs.length ≤ i) :
    (Cells.fill xs a).getD i 0 = a.getD i 0 := by
  unfold Cells.fill
  rw [List.getD_eq_getElem?_getD, List.getD_eq_getElem?_getD, List.getElem?_append_right h,
    List.getElem?_drop, Nat.add_sub_cancel' h]

theorem unpack_isSome (length : e.data.length = 8 * e.len) (addrAdid addrPatch : Nat) :
    (aicbtPatchInfoUnpack env (.start addrAdid addrPatch) e).isSome ↔ UnpackFits env e := by
  unfold aicbtPatchInfoUnpack UnpackFits
  split
  · rename_i other
    exact iff_of_true rfl fun inf => absurd inf other
  · rename_i inf
    rw [not_ne_iff] at inf
    have words (n : Nat) := words_isSome length 0 n
    simp only [Nat.zero_add] at words
    simp only [baseLen, Option.bind_eq_bind, PatchInfo.extPatchNb]
    by_cases long : 4 < e.len
    · obtain ⟨copied, made⟩ := Option.isSome_iff_exists.mp
        ((words ((4 + 1) * 2)).mpr (.inr (by omega)))
      obtain ⟨nb, ninth⟩ := Option.isSome_iff_exists.mp
        ((word_isSome length (i := 9)).mpr (by omega))
      have count (words : List Nat) : (Cells.fill copied words).getD 9 0 = nb := by
        have same : copied[9]? = some nb := ((of_mapM made).2 9).trans ninth
        unfold Cells.fill
        rw [List.getD_eq_getElem?_getD, List.getElem?_append_left
          (List.getElem?_eq_some_iff.mp same).1, same]
        rfl
      simp only [long, if_true, made, Option.bind_some, count, ninth, Option.some.injEq,
        forall_eq', inf, forall_const]
      have extra := words_isSome length ((4 + 1) * 2) (nb * 2)
      have four : ¬(4 = 0) := by decide
      rw [if_neg four]
      by_cases none : nb = 0
      · rw [if_pos none]
        exact iff_of_true rfl fun _ some' => absurd none (Nat.ne_of_gt some')
      · rw [if_neg none]
        cases env.debug with
        | false => exact iff_of_true rfl fun debug => nomatch debug
        | true =>
            rw [if_pos rfl]
            have bound : (nb * 2 = 0 ∨ (4 + 1) * 2 + nb * 2 ≤ 2 * e.len) ↔
                (true = true → 0 < nb → 4 + 1 + nb ≤ e.len) := by
              rw [forall_prop_of_true rfl, forall_prop_of_true (Nat.pos_of_ne_zero none)]
              omega
            rw [← bound, ← extra]
            cases (List.range (nb * 2)).mapM fun i => e.word ((4 + 1) * 2 + i) <;> rfl
    · simp only [long, if_false]
      refine iff_of_true ?_ fun _ _ absurd' => absurd'.elim
      split
      · rfl
      · obtain ⟨copied, made⟩ := Option.isSome_iff_exists.mp
          ((words (e.len * 2)).mpr (.inr (Nat.le_of_eq (Nat.mul_comm _ _))))
        have size : copied.length ≤ 9 := by
          rw [(of_mapM made).1, List.length_range]
          omega
        have count : (Cells.fill copied (PatchInfo.start addrAdid addrPatch).words).getD 9 0 = 0 :=
          getD_fill size
        simp only [made, Option.bind_some, count, if_true]
        rfl

/-- A BTMODE entry has the words that are set, and a version text has an end. -/
def LoadFits (e : Entry) : Prop :=
  (e.type = aicbtPtBtmode → 9 ≤ e.len) ∧ (e.type = versionType → e.data = [] ∨ 0 ∈ e.data)

/-- What is set in an entry changes neither its type nor its length. -/
theorem setWord_eq {e' : Entry} {w : Nat} (written : e.setWord i w = some e') :
    4 * i + 4 ≤ e.data.length ∧
      e'.type = e.type ∧ e'.len = e.len ∧ e'.data.length = e.data.length := by
  obtain ⟨data, copied, same⟩ := Option.bind_eq_some_iff.mp written
  obtain rfl := Option.some.inj same
  obtain ⟨fits, length⟩ := Cells.copyAt_fits copied
  exact ⟨fits, rfl, rfl, length⟩

theorem setWord_isSome (inside : 4 * i + 4 ≤ e.data.length) (w : Nat) :
    ∃ e', e.setWord i w = some e' := by
  unfold Entry.setWord Cells.copyAt
  rw [le32_length, if_pos inside]
  exact ⟨_, rfl⟩

theorem setBtmode_eq {e' : Entry} {words : List Nat} (written : setBtmode words i e = some e') :
    e'.type = e.type ∧ e'.len = e.len ∧ e'.data.length = e.data.length := by
  induction words generalizing i e with
  | nil =>
      obtain rfl := Option.some.inj written
      exact ⟨rfl, rfl, rfl⟩
  | cons w words ih =>
      obtain ⟨next, first, rest⟩ := Option.bind_eq_some_iff.mp written
      obtain ⟨-, type, len, length⟩ := setWord_eq first
      obtain ⟨type', len', length'⟩ := ih rest
      exact ⟨type'.trans type, len'.trans len, length'.trans length⟩

/-- The last word that is set tells whether there are enough. -/
theorem setBtmode_isSome (words : List Nat) (w : Nat) (i : Nat) (e : Entry) :
    (setBtmode (w :: words) i e).isSome ↔ 4 * (i + 2 * words.length) + 4 ≤ e.data.length := by
  induction words generalizing w i e with
  | nil =>
      unfold setBtmode setBtmode Entry.setWord Cells.copyAt
      rw [le32_length]
      split <;> simp_all
  | cons w' words ih =>
      rw [setBtmode]
      cases written : e.setWord i w with
      | none =>
          have outside : ¬4 * i + 4 ≤ e.data.length := by
            intro inside
            obtain ⟨e', same⟩ := setWord_isSome inside w
            cases written.symm.trans same
          refine iff_of_false Bool.false_ne_true ?_
          rw [List.length_cons]
          omega
      | some next =>
          obtain ⟨-, -, -, length⟩ := setWord_eq written
          rw [Option.bind_eq_bind, Option.bind_some, ih, length, List.length_cons]
          omega

theorem sendPairs_isSome (length : e.data.length = 8 * e.len) (reply : Nat → Int) {left : Nat}
    (inside : i + left ≤ e.len) (sent : List (Nat × Nat)) :
    (sendPairs reply e left i sent).isSome := by
  induction left generalizing i sent with
  | zero => rfl
  | succ left ih =>
      obtain ⟨addr, first⟩ := Option.isSome_iff_exists.mp
        ((word_isSome length (i := 2 * i)).mpr (by omega))
      obtain ⟨data, second⟩ := Option.isSome_iff_exists.mp
        ((word_isSome length (i := 2 * i + 1)).mpr (by omega))
      rw [sendPairs, first, second]
      simp only [Option.bind_eq_bind, Option.bind_some]
      split
      · rfl
      · exact ih (by omega) _

/-- Where no request fails, all pairs are sent. -/
theorem sendPairs_ret {left : Nat} {sent : List (Nat × Nat)} {out : List (Nat × Nat) × Int}
    (made : sendPairs (fun _ => 0) e left i sent = some out) : out.2 = 0 := by
  induction left generalizing i sent with
  | zero =>
      obtain rfl := Option.some.inj made
      rfl
  | succ left ih =>
      rw [sendPairs] at made
      obtain ⟨addr, -, made⟩ := Option.bind_eq_some_iff.mp made
      obtain ⟨data, -, made⟩ := Option.bind_eq_some_iff.mp made
      rw [if_neg (not_not.mpr rfl)] at made
      exact ih made

/-- An entry with its settings, if there is room for them -/
theorem prepare_isSome {settings : Settings} (length : e.data.length = 8 * e.len) :
    (prepare settings e).isSome ↔ (e.type = aicbtPtBtmode → 9 ≤ e.len) := by
  unfold prepare
  split
  · rename_i btmode
    have nine := settings.nine
    obtain ⟨w, words, cons⟩ := List.exists_cons_of_ne_nil
      (show settings.words ≠ [] by rintro none; rw [none] at nine; cases nine)
    rw [cons, List.length_cons] at nine
    rw [cons, setBtmode_isSome, length, forall_prop_of_true btmode]
    omega
  · rename_i other
    exact iff_of_true rfl fun btmode => absurd btmode other

theorem prepare_eq {settings : Settings} {p : Entry} (made : prepare settings e = some p) :
    p.type = e.type ∧ p.len = e.len ∧ p.data.length = e.data.length ∧
      (e.type = versionType → p.data = e.data) := by
  unfold prepare at made
  split at made
  · rename_i btmode
    obtain ⟨type, len, length⟩ := setBtmode_eq made
    refine ⟨type, len, length, fun version => ?_⟩
    exact absurd (btmode.symm.trans version) (by decide)
  · obtain rfl := Option.some.inj made
    exact ⟨rfl, rfl, rfl, fun _ => rfl⟩

theorem printText_isSome {data : Bytes} : (printText data).isSome ↔ data = [] ∨ 0 ∈ data := by
  unfold printText
  split
  · rename_i ends
    exact iff_of_true rfl ends
  · rename_i endless
    exact iff_of_false Bool.false_ne_true endless

variable {settings : Settings} {rest : List Entry} {sent : List (Nat × Nat)}

/-- An entry that fits is loaded, and then the rest is, or a request has failed. -/
theorem load_cons (length : e.data.length = 8 * e.len) (fits : LoadFits e) (reply : Nat → Int) :
    (∃ out, loadEntries settings reply (e :: rest) sent = some out) ∨
      ∃ sent', loadEntries settings reply (e :: rest) sent =
        loadEntries settings reply rest sent' := by
  obtain ⟨p, prepared⟩ := Option.isSome_iff_exists.mp
    ((@prepare_isSome e settings length).mpr fits.1)
  obtain ⟨type, len, length', text⟩ := prepare_eq prepared
  rw [loadEntries, prepared]
  simp only [Option.bind_eq_bind, Option.bind_some, type]
  split
  · rename_i version
    obtain ⟨u, printed⟩ := Option.isSome_iff_exists.mp (printText_isSome.mpr (fits.2 version))
    rw [text version, printed]
    exact .inr ⟨sent, rfl⟩
  · obtain ⟨⟨sent', ret⟩, pairs⟩ := Option.isSome_iff_exists.mp
      (sendPairs_isSome (length'.trans (length.trans (by rw [len]))) reply
        (Nat.le_of_eq (Nat.zero_add p.len)) sent)
    rw [pairs]
    simp only [Option.bind_some]
    split
    · exact .inl ⟨_, rfl⟩
    · exact .inr ⟨sent', rfl⟩

/-- Where no request fails, an entry that is loaded fits, and the rest is loaded. -/
theorem of_load_cons (length : e.data.length = 8 * e.len)
    (loaded : (loadEntries settings (fun _ => 0) (e :: rest) sent).isSome) :
    LoadFits e ∧ ∃ sent', (loadEntries settings (fun _ => 0) rest sent').isSome := by
  obtain ⟨out, loaded⟩ := Option.isSome_iff_exists.mp loaded
  rw [loadEntries] at loaded
  obtain ⟨p, prepared, loaded⟩ := Option.bind_eq_some_iff.mp loaded
  obtain ⟨type, len, length', text⟩ := prepare_eq prepared
  have btmode := (@prepare_isSome e settings length).mp
    (Option.isSome_iff_exists.mpr ⟨p, prepared⟩)
  rw [type] at loaded
  split at loaded
  · rename_i version
    obtain ⟨u, printed, loaded⟩ := Option.bind_eq_some_iff.mp loaded
    rw [text version] at printed
    exact ⟨⟨btmode, fun _ => printText_isSome.mp (Option.isSome_iff_exists.mpr ⟨u, printed⟩)⟩,
      sent, Option.isSome_iff_exists.mpr ⟨out, loaded⟩⟩
  · rename_i other
    obtain ⟨⟨sent', ret⟩, pairs, loaded⟩ := Option.bind_eq_some_iff.mp loaded
    have zero : ret = 0 := sendPairs_ret pairs
    dsimp only at loaded
    rw [if_neg (not_not.mpr zero)] at loaded
    exact ⟨⟨btmode, fun version => absurd version other⟩,
      sent', Option.isSome_iff_exists.mpr ⟨out, loaded⟩⟩

theorem load_isSome {list : List Entry} (lengths : ∀ e ∈ list, e.data.length = 8 * e.len)
    (fits : ∀ e ∈ list, LoadFits e) (reply : Nat → Int) (sent : List (Nat × Nat)) :
    loadEntries settings reply list sent ≠ none := by
  induction list generalizing sent with
  | nil => exact Option.some_ne_none _
  | cons e rest ih =>
      obtain ⟨out, loaded⟩ | ⟨sent', same⟩ := @load_cons e settings rest sent
        (lengths e List.mem_cons_self) (fits e List.mem_cons_self) reply
      · rw [loaded]
        exact Option.some_ne_none out
      · rw [same]
        exact ih (fun e member => lengths e (List.mem_cons_of_mem _ member))
          (fun e member => fits e (List.mem_cons_of_mem _ member)) sent'

theorem fits_of_load {list : List Entry} (lengths : ∀ e ∈ list, e.data.length = 8 * e.len)
    (loaded : (loadEntries settings (fun _ => 0) list sent).isSome) :
    ∀ e ∈ list, LoadFits e := by
  induction list generalizing sent with
  | nil => exact fun e none => absurd none List.not_mem_nil
  | cons e rest ih =>
      obtain ⟨fits, sent', loaded⟩ := of_load_cons (lengths e List.mem_cons_self) loaded
      intro e' member
      rcases List.mem_cons.mp member with rfl | member
      · exact fits
      · exact ih (fun e member => lengths e (List.mem_cons_of_mem _ member)) loaded e' member

/-- The load has a result if its loop has one. -/
theorem load_ne_none {t : Table} {reply : Nat → Int} :
    aicbtPatchTableLoad settings reply t ≠ none ↔ loadEntries settings reply t.head [] ≠ none := by
  unfold aicbtPatchTableLoad
  rw [Option.bind_eq_bind]
  cases loadEntries settings reply t.head [] with
  | none => exact iff_of_false (not_not.mpr rfl) (not_not.mpr rfl)
  | some out =>
      refine iff_of_true ?_ (Option.some_ne_none _)
      rw [Option.bind_some]
      dsimp only
      split
      · exact Option.some_ne_none _
      · exact Option.some_ne_none _

end Words

/-! ## Which files are treated soundly -/

/-- The file has room for the tag. If it has the tag, it holds entries, there is memory for them,
    the first can be unpacked, and all can be loaded. -/
def Regular (env : Env) (file : File) : Prop :=
  ∀ raw, file.bytes = some raw → raw ≠ [] → tag.length ≤ raw.length ∧
    (raw.take tag.length = tag → ∃ records, Holds (raw.drop 16) records ∧ env.Memory 0 records ∧
      (∀ r rest, records = r :: rest → UnpackFits env r.entry) ∧ ∀ r ∈ records, LoadFits r.entry)

section Files

variable {env : Env} {file : File} {raw : Bytes}

theorem take_tag (raw : Bytes) : take tag.length raw =
    if raw.length < tag.length then none else some (raw.take tag.length, raw.drop tag.length) := by
  unfold take
  by_cases short : raw.length < tag.length
  · rw [if_pos short, if_neg (Nat.not_le.mpr short)]
  · rw [if_neg short, if_pos (Nat.le_of_not_lt short)]

theorem alloc_eq (bytes : file.bytes = some raw) (some' : raw ≠ []) :
    aicbtPatchTableAlloc env file =
      if raw.length < tag.length then none
      else if raw.take tag.length ≠ tag then some ⟨[], []⟩
      else (readEntries env raw.length 0 (raw.drop 16) [.rawdata]).map fun t =>
        { t with heap := vfree .rawdata t.heap } := by
  have long : ¬raw.length = 0 := fun none => some' (List.length_eq_zero_iff.mp none)
  unfold aicbtPatchTableAlloc
  rw [bytes]
  dsimp only
  rw [if_neg long, take_tag]
  split
  · rfl
  · simp only [Option.bind_eq_bind, Option.bind_some]
    split
    · rfl
    · cases readEntries env raw.length 0 (raw.drop 16) [.rawdata] <;> rfl

/-- The upload makes the list of `aicbt_patch_table_alloc`, and loads it. -/
theorem upload_ne_none {out : Table} {settings : Settings} {reply : Nat → Int}
    (made : aicbtPatchTableAlloc env file = some out)
    (loads : aicbtPatchTableLoad settings reply out ≠ none) :
    rwnxPlatBinFwPatchTableUploadAndroid env settings reply file ≠ none := by
  unfold rwnxPlatBinFwPatchTableUploadAndroid
  unfold aicbtPatchTableAlloc at made
  split
  · exact Option.some_ne_none _
  · rename_i raw bytes
    rw [bytes] at made
    dsimp only at made
    split
    · exact Option.some_ne_none _
    · rename_i long
      rw [if_neg long, Option.bind_eq_bind, Option.bind_eq_some_iff] at made
      obtain ⟨⟨start, behind⟩, begins, made⟩ := made
      rw [begins, Option.bind_eq_bind, Option.bind_some]
      dsimp only at made ⊢
      split
      · exact Option.some_ne_none _
      · rename_i tagged
        rw [if_neg tagged, Option.bind_eq_bind, Option.bind_eq_some_iff] at made
        obtain ⟨t, read, same⟩ := made
        obtain rfl := Option.some.inj same
        obtain ⟨loaded, same⟩ := Option.ne_none_iff_exists'.mp loads
        rw [read, Option.bind_eq_bind, Option.bind_some, same]
        exact Option.some_ne_none _

/-- A file that is not looked at beyond its tag -/
theorem sound_of_refused (refused : aicbtPatchTableAlloc env file = some ⟨[], []⟩)
    (other : ∀ raw, file.bytes = some raw → raw.take tag.length ≠ tag) : Sound env file := by
  refine ⟨_, refused, rfl, fun raw same => ⟨fun e none => absurd none List.not_mem_nil,
    fun records formed => absurd formed.2.1 (other raw same), fun _ _ none => (nomatch none),
    fun settings reply => ?_⟩⟩
  have loads : aicbtPatchTableLoad settings reply ⟨[], []⟩ ≠ none := Option.some_ne_none _
  exact ⟨loads, upload_ne_none refused loads⟩

/-- The data of an entry is in the file. -/
theorem within_of_holds {records : List Record} (holds : Holds (raw.drop 16) records) :
    ∀ e ∈ records.map Record.entry, e.Within raw := by
  intro e member
  obtain ⟨r, there, rfl⟩ := List.mem_map.mp member
  refine ⟨(holds.1 r there).entry_length, ?_⟩
  obtain ⟨before, after, rfl⟩ := List.append_of_mem there
  have parts := holds.2
  rw [List.flatMap_append, List.flatMap_cons] at parts
  refine List.IsInfix.trans ?_ (List.drop_suffix 16 raw).isInfix
  rw [parts]
  refine ⟨before.flatMap Record.encode ++ (r.name ++ le32 r.type ++ le32 r.len),
    after.flatMap Record.encode, ?_⟩
  simp only [Record.encode, Record.entry, List.append_assoc]

/-- What a file that is treated soundly holds -/
theorem regular_of_sound {out : Table} (bytes : file.bytes = some raw) (some' : raw ≠ [])
    (made : aicbtPatchTableAlloc env file = some out) (size : raw.length < 2 ^ 31)
    (all : (∀ e ∈ out.head, e.Within raw) ∧
      (∀ records, WellFormed raw records → out.head = records.map Record.entry) ∧
      (∀ head rest, out.head = head :: rest → ∀ addrAdid addrPatch,
        aicbtPatchInfoUnpack env (.start addrAdid addrPatch) head ≠ none) ∧
      ∀ settings reply, aicbtPatchTableLoad settings reply out ≠ none ∧
        rwnxPlatBinFwPatchTableUploadAndroid env settings reply file ≠ none) :
    tag.length ≤ raw.length ∧
      (raw.take tag.length = tag → ∃ records, Holds (raw.drop 16) records ∧
        env.Memory 0 records ∧ (∀ r rest, records = r :: rest → UnpackFits env r.entry) ∧
        ∀ r ∈ records, LoadFits r.entry) := by
  obtain ⟨within, -, unpacks, loads⟩ := all
  have opened := @alloc_eq env file raw bytes some'
  rw [made] at opened
  split at opened
  · cases opened
  · rename_i room
    refine ⟨Nat.le_of_not_lt room, fun tagged => ?_⟩
    rw [if_neg (not_not.mpr tagged)] at opened
    obtain ⟨t, read, rfl⟩ := Option.map_eq_some_iff.mp opened.symm
    dsimp only at within unpacks
    have short : ∀ e ∈ t.head, e.data.length < 2 ^ 32 := fun e member =>
      Nat.lt_of_le_of_lt (within e member).2.length_le (by omega)
    obtain ⟨records, holds, head, memory⟩ := holds_of_readEntries read short
    have loaded := load_ne_none.mp (loads ⟨List.replicate 9 0, List.length_replicate⟩ fun _ => 0).1
    have fits := fits_of_load (fun e member => (within e member).1)
      (Option.ne_none_iff_isSome.mp loaded)
    rw [head] at within unpacks fits
    refine ⟨records, holds, memory, ?_, fun r member => fits _ (List.mem_map_of_mem member)⟩
    rintro r rest rfl
    exact (unpack_isSome (within r.entry List.mem_cons_self).1 0 0).mp
      (Option.ne_none_iff_isSome.mp (unpacks r.entry _ rfl 0 0))

theorem patch_table_sound_iff (env : Env) (file : File) : Sound env file ↔ Regular env file := by
  cases bytes : file.bytes with
  | none =>
      refine iff_of_true (sound_of_refused (by rw [aicbtPatchTableAlloc, bytes]; rfl) ?_) ?_
      · intro raw same
        cases bytes.symm.trans same
      · intro raw same
        cases bytes.symm.trans same
  | some raw =>
      have only : ∀ raw', file.bytes = some raw' → raw' = raw := fun raw' same =>
        (Option.some.inj (bytes.symm.trans same)).symm
      by_cases some' : raw = []
      · subst some'
        refine iff_of_true (sound_of_refused (by rw [aicbtPatchTableAlloc, bytes]; rfl) ?_) ?_
        · intro raw same
          rw [only raw same]
          decide
        · intro raw same some'
          exact absurd (only raw same) some'
      · have opened := @alloc_eq env file raw bytes some'
        constructor
        · rintro ⟨out, made, -, all⟩ raw' same -
          obtain rfl := only raw' same
          exact regular_of_sound bytes some' made (file.size _ bytes) (all _ bytes)
        · intro regular
          obtain ⟨room, entries⟩ := regular raw bytes some'
          rw [if_neg (Nat.not_lt.mpr room)] at opened
          by_cases tagged : raw.take tag.length = tag
          · obtain ⟨records, holds, memory, unpack, loads⟩ := entries tagged
            have size := file.size raw bytes
            have shorter : (raw.drop 16).length ≤ raw.length := by
              rw [List.length_drop]
              omega
            obtain ⟨heap, read⟩ : ∃ heap, readEntries env raw.length 0 (raw.drop 16) [.rawdata] =
                some ⟨records.map Record.entry, heap⟩ := by
              rw [holds.2] at shorter ⊢
              exact readEntries_holds holds.1 memory (by omega) shorter
            rw [if_neg (not_not.mpr tagged), read] at opened
            refine ⟨_, opened, free_readEntries read, fun raw' same => ?_⟩
            obtain rfl := only raw' same
            have within := within_of_holds holds
            refine ⟨within, fun records' formed => ?_, ?_, ?_⟩
            · rw [holds.unique formed.2.2]
            · intro head rest cons addrAdid addrPatch
              obtain ⟨r, records, rfl⟩ := List.exists_cons_of_ne_nil
                (show records ≠ [] by rintro rfl; cases cons)
              obtain ⟨rfl, -⟩ := List.cons.inj cons
              have length := (within r.entry List.mem_cons_self).1
              exact Option.ne_none_iff_isSome.mpr
                ((unpack_isSome length addrAdid addrPatch).mpr (unpack r records rfl))
            · intro settings reply
              have loaded : aicbtPatchTableLoad settings reply
                  ⟨records.map Record.entry, vfree .rawdata heap⟩ ≠ none := by
                refine load_ne_none.mpr (load_isSome (fun e member => (within e member).1)
                  (fun e member => ?_) reply [])
                obtain ⟨r, there, rfl⟩ := List.mem_map.mp member
                exact loads r there
              exact ⟨loaded, upload_ne_none opened loaded⟩
          · rw [if_pos tagged] at opened
            refine sound_of_refused opened fun raw' same => ?_
            obtain rfl := only raw' same
            exact tagged

end Files

/-! ## A file that is cut off -/

def plentyEnv : Env where
  node _ := true
  name _ := true
  data _ _ := true
  debug := true

/-- A table with one entry, of two pairs, that ends behind the first of them -/
def cutBytes : Bytes :=
  tag ++ List.replicate 3 0 ++ List.replicate 16 0 ++ le32 1 ++ le32 2 ++ List.replicate 8 0

def cutFile : File where
  bytes := some cutBytes
  size raw same := by
    obtain rfl := Option.some.inj same
    decide

/-- The second pair is copied from behind the file. -/
theorem cut_table_overread : ¬Sound plentyEnv cutFile := by
  rintro ⟨out, made, -⟩
  have overread : aicbtPatchTableAlloc plentyEnv cutFile = none := rfl
  cases overread.symm.trans made

end Aic8800.Loader.PatchTable
