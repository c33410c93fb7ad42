import Aic8800.Package.Build

/-! # Builder and verifier agree

A package that the builder makes is unpacked and verified elsewhere, by code that
has its own rules for names. The builder takes whatever lies under `firmware/` and
writes its name into `SHA256SUMS` as it is; the verifier wants firmware for the
AIC8800D80 only and reads ASCII lines.
-/

namespace Aic8800.Package

/-! ## Unpacking -/

/-- The name below the package's root. -/
def relativeName (item : Member) : Str := item.name.drop (packagePrefix.length + 1)

/-- The directories on the way to a file. -/
def parents (name : Str) : List Str :=
  (pathParts name).dropLast.inits.tail.map joinPath

/-- Whether a name is in another's place: a file cannot be a directory too. -/
def obstructs (a b : Str) : Bool := (a ++ ['/']).isPrefixOf b

/-- The members of a package, unpacked by a file system that can hold the paths for
    which `storable` is true. -/
def extract (storable : Str → Bool) (members : List Member) : Option Root :=
  let names := members.map relativeName
  if names.all storable && names.all fun a => names.all fun b => !obstructs a b then
    some ⟨members.map (fun item => (relativeName item, item.node)) ++
      (names.flatMap parents).map fun dir => (dir, .dir)⟩
  else none

/-- The names of the payload among the members of the prebuilt archive. -/
def payloadNames (archivePrefix : Str) (members : List Member) : List Str :=
  members.filterMap fun item =>
    match payloadOf archivePrefix item with
    | some (some (name, _)) => some name
    | _ => none

/-- The names of the other files of a package. -/
def addedNames : List Str :=
  ["scripts/install_prebuilt.sh".toList, "scripts/collect_diagnostics.sh".toList,
    "scripts/verify_package.py".toList, "LICENSE".toList, "NOTICE.md".toList, "VERSION".toList,
    "build.json".toList, "native.json".toList, "README.release.md".toList, sumsName]

/-- A file name that both scripts understand alike. -/
def plainName (name : Str) : Bool := name.all fun c => isAscii c && !isLineBreak c

/-- The payload has firmware for the AIC8800D80 only, its names are ASCII without line
    breaks, and the file system can hold the package. -/
structure Portable (storable : Str → Bool) (names : List Str) : Prop where
  firmware : ∀ name ∈ names, "firmware/".toList.isPrefixOf name = true →
    firmwarePrefix.isPrefixOf name = true
  plain : ∀ name ∈ names, plainName name = true
  stored : ∀ name ∈ names ++ addedNames, storable name = true
  apart : ∀ a ∈ names ++ addedNames, ∀ b ∈ names ++ addedNames, obstructs a b = false

/-! ## What the builder takes -/

theorem Files.set_known {files : Files} {name : Str} (known : name ∈ files.map Prod.fst)
    (data : Bytes) : (files.set name data).map Prod.fst = files.map Prod.fst := by
  have among : (files.map Prod.fst).contains name = true := by simpa using known
  rw [Files.set, if_pos among, List.map_map]
  apply List.map_congr_left
  intro item member
  simp only [Function.comp_apply]
  split
  · rename_i same
    exact same.symm
  · rfl

theorem Files.set_fresh {files : Files} {name : Str} (fresh : name ∉ files.map Prod.fst)
    (data : Bytes) : files.set name data = files ++ [(name, data)] := by
  apply if_neg
  simpa using fresh

theorem Files.set_names (files : Files) (name : Str) (data : Bytes) (other : Str) :
    other ∈ (files.set name data).map Prod.fst ↔ other ∈ files.map Prod.fst ∨ other = name := by
  by_cases known : name ∈ files.map Prod.fst
  · rw [Files.set_known known]
    exact ⟨.inl, fun either => either.elim id fun same => same ▸ known⟩
  · rw [Files.set_fresh known, List.map_append]
    simp

theorem Files.set_nodup {files : Files} (h : (files.map Prod.fst).Nodup) (name : Str)
    (data : Bytes) : ((files.set name data).map Prod.fst).Nodup := by
  by_cases known : name ∈ files.map Prod.fst
  · rw [Files.set_known known]
    exact h
  · rw [Files.set_fresh known, List.map_append]
    exact List.nodup_append'.mpr ⟨h, List.nodup_singleton _, by simpa using known⟩

/-- What the builder makes sure of for a name of the payload. -/
structure IsPayload (name : Str) : Prop where
  normal : isNormal name = true
  kind : "modules/".toList.isPrefixOf name = true ∨ "firmware/".toList.isPrefixOf name = true ∨
    name = "udev/aic.rules".toList ∨ name = "modules-load/aic8800.conf".toList

theorem payloadOf_isPayload {archivePrefix name : Str} {data : Bytes} {names : List Str}
    {item : Member} (ok : allowed names item = true)
    (h : payloadOf archivePrefix item = some (some (name, data))) : IsPayload name := by
  simp only [allowed, Bool.and_eq_true, Bool.not_eq_true', List.contains_eq_mem,
    decide_eq_false_iff_not] at ok
  obtain ⟨⟨⟨⟨⟨-, noParent⟩, noBackslash⟩, -⟩, -⟩, -⟩ := ok
  simp only [payloadOf] at h
  split at h
  · split at h
    · cases h
    · rename_i first parts whole
      split at h
      · cases h
      · split at h
        · rename_i kind
          simp only [Option.some.injEq, Prod.mk.injEq] at h
          obtain ⟨rfl, -⟩ := h
          simp only [Bool.or_eq_true, beq_iff_eq, or_assoc] at kind
          refine ⟨isNormal_joinPath ?_ ?_ ?_ ?_, kind⟩
          · rintro rfl
            revert kind
            decide
          · intro part member
            have among : part ∈ pathParts item.name := whole ▸ List.mem_cons_of_mem first member
            exact (mem_pathParts among).1
          · intro member
            exact noParent (whole ▸ List.mem_cons_of_mem first member)
          · intro part member backslash
            have among : part ∈ pathParts item.name := whole ▸ List.mem_cons_of_mem first member
            exact noBackslash ((mem_pathParts among).2 _ backslash)
        · cases h
  · cases h

/-- The loop over the members collects the payload, each name once. -/
theorem takeMembers {archivePrefix : Str} {members : List Member} {seen seen' : List Str}
    {files files' : Files}
    (h : members.foldlM (takeMember archivePrefix) (seen, files) = some (seen', files')) :
    (∀ name, name ∈ files'.map Prod.fst ↔
      name ∈ files.map Prod.fst ∨ name ∈ payloadNames archivePrefix members) ∧
    ((files.map Prod.fst).Nodup → (files'.map Prod.fst).Nodup) ∧
    ∀ name ∈ payloadNames archivePrefix members, IsPayload name := by
  induction members generalizing seen files with
  | nil =>
      simp only [List.foldlM_nil, Option.pure_def, Option.some.injEq, Prod.mk.injEq] at h
      obtain ⟨-, rfl⟩ := h
      simp [payloadNames]
  | cons item rest ih =>
      rw [List.foldlM_cons] at h
      obtain ⟨⟨names, next⟩, taken, later⟩ := Option.bind_eq_some_iff.mp h
      obtain ⟨collected, once, each⟩ := ih later
      unfold takeMember at taken
      split at taken
      · rename_i ok
        obtain ⟨payload, found, same⟩ := Option.map_eq_some_iff.mp taken
        cases payload with
        | none =>
            obtain ⟨-, rfl⟩ := Prod.mk.inj same
            have skipped : payloadNames archivePrefix (item :: rest) =
                payloadNames archivePrefix rest := by
              simp [payloadNames, found]
            rw [skipped]
            exact ⟨collected, once, each⟩
        | some entry =>
            obtain ⟨name, data⟩ := entry
            obtain ⟨-, rfl⟩ := Prod.mk.inj same
            have added : payloadNames archivePrefix (item :: rest) =
                name :: payloadNames archivePrefix rest := by
              simp [payloadNames, found]
            rw [added]
            refine ⟨fun other => ?_, fun distinct => once (Files.set_nodup distinct name data),
              fun other member => ?_⟩
            · rw [collected, Files.set_names, List.mem_cons, or_assoc]
            · cases List.mem_cons.mp member with
              | inl here => exact here ▸ payloadOf_isPayload ok found
              | inr there => exact each other there
      · cases taken

/-! ## What the verifier reads of it -/

section Sums

variable {lib : Library}

/-- A line of `SHA256SUMS`. -/
def sumLine (lib : Library) (item : Str × Bytes × Nat) : Str :=
  lib.digest item.2.1 ++ [' ', ' '] ++ item.1

def sumOf (lib : Library) (item : Str × Bytes × Nat) : Str × Str := (item.1, lib.digest item.2.1)

theorem digest_length (lib : Library) (data : Bytes) : (lib.digest data).length = 64 := by
  have hex := lib.digest_isSha256 data
  simp only [isSha256, isHex, Bool.and_eq_true, beq_iff_eq] at hex
  exact hex.1

theorem readSum_sumLine (lib : Library) {expected : List (Str × Str)} {item : Str × Bytes × Nat}
    (normal : isNormal item.1 = true) (notSums : item.1 ≠ sumsName)
    (fresh : item.1 ∉ expected.map Prod.fst) :
    readSum expected (sumLine lib item) = some (expected ++ [sumOf lib item]) := by
  have size := digest_length lib item.2.1
  have start : (sumLine lib item).take 64 = lib.digest item.2.1 := by
    simp [sumLine, size]
  have gap : ((sumLine lib item).drop 64).take 2 = "  ".toList := by
    simp only [sumLine, List.append_assoc, List.drop_left' size]
    rfl
  have name : (sumLine lib item).drop 66 = item.1 := by
    have total : (lib.digest item.2.1 ++ [' ', ' ']).length = 66 := by simp [size]
    exact List.drop_left' total
  have nonempty : 0 < item.1.length := by
    apply List.length_pos_iff.mpr
    intro empty
    rw [empty] at normal
    cases normal
  have long : 67 ≤ (sumLine lib item).length := by
    simp only [sumLine, List.length_append, size, List.length_cons, List.length_nil]
    omega
  simp only [readSum, start, gap, name, long, lib.digest_isSha256, normal]
  simp [fresh, notSums, sumOf]

theorem readSums_lines {items : List (Str × Bytes × Nat)} {expected : List (Str × Str)}
    (normal : ∀ item ∈ items, isNormal item.1 = true) (notSums : ∀ item ∈ items, item.1 ≠ sumsName)
    (once : (expected.map Prod.fst ++ items.map Prod.fst).Nodup) :
    (items.map (sumLine lib)).foldlM readSum expected = some (expected ++ items.map (sumOf lib)) := by
  induction items generalizing expected with
  | nil => simp
  | cons item rest ih =>
      have fresh : item.1 ∉ expected.map Prod.fst := by
        intro member
        exact (List.nodup_append.mp once).2.2 _ member _ List.mem_cons_self rfl
      have first := readSum_sumLine lib (normal item List.mem_cons_self)
        (notSums item List.mem_cons_self) fresh
      rw [List.map_cons, List.foldlM_cons, first]
      have apart : ((expected ++ [sumOf lib item]).map Prod.fst ++ rest.map Prod.fst).Nodup := by
        simpa [sumOf] using once
      have later := ih (fun other member => normal other (List.mem_cons_of_mem item member))
        (fun other member => notSums other (List.mem_cons_of_mem item member)) apart
      simpa using later

theorem plainName_iff {name : Str} :
    plainName name = true ↔ name.all isAscii = true ∧ ∀ c ∈ name, isLineBreak c = false := by
  simp only [plainName, List.all_eq_true, Bool.and_eq_true, Bool.not_eq_true']
  exact ⟨fun h => ⟨fun c member => (h c member).1, fun c member => (h c member).2⟩,
    fun h c member => ⟨h.1 c member, h.2 c member⟩⟩

theorem sumLine_plain {item : Str × Bytes × Nat} (plain : plainName item.1 = true) :
    plainName (sumLine lib item) = true := by
  have digits : plainName (lib.digest item.2.1) = true := by
    have hex := lib.digest_isSha256 item.2.1
    simp only [isSha256, isHex, Bool.and_eq_true] at hex
    simp only [plainName, List.all_eq_true, Bool.and_eq_true, Bool.not_eq_true']
    exact fun c member => hexDigit_plain (List.all_eq_true.mp hex.2 c member)
  have gap : plainName [' ', ' '] = true := by decide
  simp only [plainName, sumLine, List.all_append, Bool.and_eq_true] at digits gap plain ⊢
  exact ⟨⟨digits, gap⟩, plain⟩

theorem sortItems_perm {α : Type} (items : List (Str × α)) : (sortItems items).Perm items :=
  List.perm_insertionSort _ items

/-- The verifier reads from plain names what the builder has written. -/
theorem readSums_checksums {files : List (Str × Bytes × Nat)}
    (normal : ∀ item ∈ files, isNormal item.1 = true) (notSums : ∀ item ∈ files, item.1 ≠ sumsName)
    (once : (files.map Prod.fst).Nodup) (plain : ∀ item ∈ files, plainName item.1 = true) :
    readSums (checksums lib files) = some ((sortItems files).map (sumOf lib)) := by
  have among : ∀ item ∈ sortItems files, item ∈ files := fun item => (sortItems_perm files).mem_iff.mp
  have lines : checksums lib files =
      encode (((sortItems files).map (sumLine lib)).flatMap (· ++ ['\n'])) := by
    simp only [checksums, List.flatMap_map, sumLine]
  have clear : ∀ line ∈ (sortItems files).map (sumLine lib), plainName line = true := by
    intro line member
    obtain ⟨item, here, rfl⟩ := List.mem_map.mp member
    exact sumLine_plain (plain item (among item here))
  have ascii : (((sortItems files).map (sumLine lib)).flatMap (· ++ ['\n'])).all isAscii = true := by
    rw [List.all_flatMap, List.all_eq_true]
    intro line member
    rw [List.all_append, (plainName_iff.mp (clear line member)).1]
    rfl
  rw [lines, readSums, decodeAscii_encode, if_pos ascii, Option.bind_some,
    splitlines_lines fun line member => (plainName_iff.mp (clear line member)).2]
  have distinct : ((([] : List (Str × Str)).map Prod.fst) ++ (sortItems files).map Prod.fst).Nodup :=
    ((sortItems_perm files).map Prod.fst).nodup_iff.mpr once
  exact readSums_lines (fun item here => normal item (among item here))
    (fun item here => notSums item (among item here)) distinct

/-- Only plain names come out of `SHA256SUMS`. -/
theorem readSums_plain {sums : Bytes} {expected : List (Str × Str)}
    (h : readSums sums = some expected) : ∀ entry ∈ expected, plainName entry.1 = true := by
  obtain ⟨text, decoded, lines⟩ := readSums_entries h
  have ascii := decodeAscii_ascii decoded
  intro entry member
  obtain ⟨line, among, rfl, -, -⟩ := lines entry member
  have plain : plainName line = true := by
    refine plainName_iff.mpr ⟨?_, splitlines_plain text line among⟩
    exact List.all_eq_true.mpr fun c inside => ascii c (splitlines_among among c inside)
  simp only [plainName, List.all_eq_true] at plain ⊢
  exact fun c inside => plain c (List.mem_of_mem_drop inside)

end Sums

/-! ## Destinations -/

/-- The name in the package of what an installation puts at a path. -/
def origin (path : Str) : Str :=
  if "lib/firmware/".toList.isPrefixOf path then path.drop 4
  else if "lib/modules/".toList.isPrefixOf path then modulePrefix ++ pathName path
  else if path = "usr/lib/udev/rules.d/aic.rules".toList then "udev/aic.rules".toList
  else "modules-load/aic8800.conf".toList

theorem destination_module : ∀ name ∈ moduleNames.map (modulePrefix ++ ·),
    ∀ path ∈ destination name, origin path = name := by decide

/-- No two names have one destination. -/
theorem origin_destination {name path : Str} (h : destination name = some path) :
    origin path = name := by
  by_cases module : modulePrefix.isPrefixOf name ∧
      moduleNames.contains (name.drop modulePrefix.length) = true
  · obtain ⟨start, known⟩ := module
    obtain ⟨rest, rfl⟩ := List.isPrefixOf_iff_prefix.mp start
    rw [List.drop_left, List.contains_iff_mem] at known
    exact destination_module _ (List.mem_map.mpr ⟨rest, known, rfl⟩) path h
  · have notModule : (modulePrefix.isPrefixOf name &&
        moduleNames.contains (name.drop modulePrefix.length)) = false := by
      simpa using module
    simp only [destination, notModule, Bool.false_eq_true, if_false] at h
    split at h
    · rename_i firmware
      obtain rfl := Option.some.inj h
      obtain ⟨rest, rfl⟩ := List.isPrefixOf_iff_prefix.mp firmware
      have lies : "lib/firmware/".toList.isPrefixOf
          ("lib/".toList ++ (firmwarePrefix ++ rest)) = true := by
        apply List.isPrefixOf_iff_prefix.mpr
        exact ⟨"aic8800D80/".toList ++ rest, rfl⟩
      rw [origin, if_pos lies]
      rfl
    · split at h
      · rename_i rules
        obtain rfl := Option.some.inj h
        rw [beq_iff_eq.mp rules]
        decide
      · split at h
        · rename_i load
          obtain rfl := Option.some.inj h
          rw [beq_iff_eq.mp load]
          decide
        · cases h

theorem destination_firmware {name : Str} (h : firmwarePrefix.isPrefixOf name = true) :
    destination name = some ("lib/".toList ++ name) := by
  obtain ⟨rest, rfl⟩ := List.isPrefixOf_iff_prefix.mp h
  rfl

theorem firmware_lies {name : Str} (h : firmwarePrefix.isPrefixOf name = true) :
    "lib/firmware/aic8800D80/".toList.isPrefixOf ("lib/".toList ++ name) = true := by
  obtain ⟨rest, rfl⟩ := List.isPrefixOf_iff_prefix.mp h
  exact List.isPrefixOf_iff_prefix.mpr ⟨rest, rfl⟩

theorem destination_added : ∀ name ∈ addedNames, destination name = none := by decide

theorem lookup_of_mem {α : Type} {items : List (Str × α)} {name : Str} {value : α}
    (once : (items.map Prod.fst).Nodup) (member : (name, value) ∈ items) :
    items.lookup name = some value := by
  induction items with
  | nil => cases member
  | cons item rest ih =>
      obtain ⟨fresh, distinct⟩ := List.nodup_cons.mp once
      cases List.mem_cons.mp member with
      | inl same =>
          subst same
          simp
      | inr later =>
          have other : name ≠ item.1 := by
            rintro rfl
            exact fresh (List.mem_map.mpr ⟨_, later, rfl⟩)
          rw [List.lookup_cons, beq_false_of_ne other]
          exact ih distinct later

theorem mem_of_lookup {α : Type} {items : List (Str × α)} {name : Str} {value : α}
    (h : items.lookup name = some value) : (name, value) ∈ items := by
  obtain ⟨before, later, rfl, -⟩ := List.lookup_eq_some_iff.mp h
  simp

theorem mapM_entries {α β : Type} {f : α → Option β} {items : List α} {results : List β}
    (h : items.mapM f = some results) :
    List.Forall₂ (fun item result => f item = some result) items results := by
  induction items generalizing results with
  | nil =>
      obtain rfl := Option.some.inj h
      exact .nil
  | cons item rest ih =>
      rw [List.mapM_cons] at h
      obtain ⟨result, first, h⟩ := Option.bind_eq_some_iff.mp h
      obtain ⟨later, second, h⟩ := Option.bind_eq_some_iff.mp h
      obtain rfl := Option.some.inj h
      exact .cons first (ih second)

theorem Forall₂.origin {α β : Type} {R : α → β → Prop} {items : List α} {results : List β}
    (h : List.Forall₂ R items results) {result : β} (member : result ∈ results) :
    ∃ item ∈ items, R item result := by
  induction h with
  | nil => cases member
  | @cons item first rest later holds _ ih =>
      cases List.mem_cons.mp member with
      | inl same => exact ⟨item, List.mem_cons_self, same ▸ holds⟩
      | inr inside =>
          obtain ⟨other, among, found⟩ := ih inside
          exact ⟨other, List.mem_cons_of_mem item among, found⟩

/-! ## A package that was built -/

/-- The payload that `source_payload` has taken from the members. -/
structure TakenFrom (lib : Library) (archivePrefix : Str) (members : List Member) (payload : Files)
    (native : Json) : Prop where
  names : ∀ name, name ∈ payload.map Prod.fst ↔ name ∈ payloadNames archivePrefix members
  once : (payload.map Prod.fst).Nodup
  each : ∀ name ∈ payload.map Prod.fst, IsPayload name
  modules : ∀ name ∈ payload.map Prod.fst, "modules/".toList.isPrefixOf name = true →
    name ∈ expectedModules
  complete : ∀ name ∈ expectedModules ++ ["udev/aic.rules".toList, "modules-load/aic8800.conf".toList],
    name ∈ payload.map Prod.fst
  firmware : ∃ name ∈ payload.map Prod.fst, firmwarePrefix.isPrefixOf name = true
  facts : ∃ value modules, expectedModules.mapM (moduleFacts lib payload) = some modules ∧
    native = nativeRecord value modules

theorem sourcePayload_taken {lib : Library} {tree : SourceTree} {payload : Files} {native : Json}
    (h : sourcePayload lib tree = some (payload, native)) :
    ∃ value source members, archiveMembers lib tree = some (value, source, members) ∧
      TakenFrom lib source.archivePrefix members payload native := by
  simp only [sourcePayload] at h
  obtain ⟨⟨value, source, members⟩, declared, h⟩ := Option.bind_eq_some_iff.mp h
  obtain ⟨⟨seen, files⟩, looped, h⟩ := Option.bind_eq_some_iff.mp h
  rw [Option.ite_none_right_eq_some] at h
  obtain ⟨modulesOk, h⟩ := h
  obtain ⟨modules, facts, h⟩ := Option.bind_eq_some_iff.mp h
  rw [Option.ite_none_right_eq_some] at h
  obtain ⟨rest, h⟩ := h
  obtain ⟨rfl, rfl⟩ := Prod.mk.inj (Option.some.inj h)
  obtain ⟨collected, once, each⟩ := takeMembers looped
  have names : ∀ name, name ∈ files.map Prod.fst ↔
      name ∈ payloadNames source.archivePrefix members := by
    intro name
    simpa using collected name
  simp only [Bool.and_eq_true, List.all_eq_true, Bool.or_eq_true, Bool.not_eq_true',
    List.contains_iff_mem] at modulesOk
  simp only [Bool.and_eq_true, List.any_eq_true, List.contains_iff_mem] at rest
  obtain ⟨only, both⟩ := modulesOk
  obtain ⟨⟨firmware, rules⟩, load⟩ := rest
  refine ⟨value, source, members, declared, names, once List.nodup_nil,
    fun name member => each name ((names name).mp member), fun name member start => ?_,
    fun name member => ?_, firmware, value, modules, facts, rfl⟩
  · obtain no | known := only name member
    · cases no.symm.trans start
    · exact known
  · cases List.mem_append.mp member with
    | inl module => exact both name module
    | inr other =>
        simp only [List.mem_cons, List.not_mem_nil, or_false] at other
        obtain rfl | rfl := other
        · exact rules
        · exact load

/-- The files of a package but for `SHA256SUMS`. -/
def listedFiles (lib : Library) (tree : SourceTree) (value native : Json) (version : Str)
    (payload : Files) : List (Str × Bytes × Nat) :=
  payload.map (fun (name, data) => (name, data, 0o644)) ++ addedFiles lib tree value native version

theorem build_spec {lib : Library} {value : Json} {tree : SourceTree} {tarball : List Member}
    (h : build lib value tree = some tarball) :
    ∃ payload native version, sourcePayload lib tree = some (payload, native) ∧
      value.getStr "version".toList = some version ∧
      tarball = (sortItems (allFiles lib
        (listedFiles lib tree value native version payload))).map tarMember := by
  obtain ⟨files, packed, rfl⟩ := Option.map_eq_some_iff.mp h
  obtain ⟨⟨payload, native⟩, taken, packed⟩ := Option.bind_eq_some_iff.mp packed
  obtain ⟨version, named, rfl⟩ := Option.map_eq_some_iff.mp packed
  exact ⟨payload, native, version, taken, named, rfl⟩

section Unpacked

variable {lib : Library} {files : List (Str × Bytes × Nat)} {storable : Str → Bool} {root : Root}

/-- Unpacking a package gives its files back, if the file system can hold them. -/
theorem extract_iff {items : List (Str × Bytes × Nat)} :
    extract storable (items.map tarMember) = some root ↔
      ((∀ name ∈ items.map Prod.fst, storable name = true) ∧
        ∀ a ∈ items.map Prod.fst, ∀ b ∈ items.map Prod.fst, obstructs a b = false) ∧
      ⟨items.map (fun item => (item.1, .file item.2.1)) ++
        ((items.map Prod.fst).flatMap parents).map fun dir => (dir, .dir)⟩ = root := by
  have names : (items.map tarMember).map relativeName = items.map Prod.fst := by
    rw [List.map_map]
    rfl
  have files : (items.map tarMember).map (fun item => (relativeName item, item.node)) =
      items.map (fun item => (item.1, .file item.2.1)) := by
    rw [List.map_map]
    rfl
  simp only [extract, names, files, Option.ite_none_right_eq_some, Option.some.injEq,
    Bool.and_eq_true, List.all_eq_true, Bool.not_eq_true']

/-- The unpacked files: `items` by name, and directories. -/
structure Holds (root : Root) (items : List (Str × Bytes × Nat)) : Prop where
  entries : root.entries = items.map (fun item => (item.1, .file item.2.1)) ++
    ((items.map Prod.fst).flatMap parents).map fun dir => (dir, .dir)
  once : (items.map Prod.fst).Nodup

namespace Holds

variable {items : List (Str × Bytes × Nat)}

theorem readFile (h : Holds root items) {item : Str × Bytes × Nat} (member : item ∈ items) :
    root.readFile item.1 = some item.2.1 := by
  have once : ((items.map fun item => (item.1, Node.file item.2.1)).map Prod.fst).Nodup := by
    rw [List.map_map]
    exact h.once
  have found : (items.map fun item => (item.1, Node.file item.2.1)).lookup item.1 =
      some (.file item.2.1) := lookup_of_mem once (List.mem_map.mpr ⟨item, member, rfl⟩)
  simp only [Root.readFile, h.entries, List.lookup_append, found, Option.some_or]

theorem fileNames (h : Holds root items) : root.fileNames = items.map Prod.fst := by
  have files : (items.map fun item => (item.1, Node.file item.2.1)).filter (·.2.isFile) =
      items.map fun item => (item.1, Node.file item.2.1) := by
    apply List.filter_eq_self.mpr
    intro entry member
    obtain ⟨item, -, rfl⟩ := List.mem_map.mp member
    rfl
  have dirs : (((items.map Prod.fst).flatMap parents).map fun dir => (dir, Node.dir)).filter
      (·.2.isFile) = [] := by
    apply List.filter_eq_nil_iff.mpr
    intro entry member
    obtain ⟨dir, -, rfl⟩ := List.mem_map.mp member
    exact Bool.false_ne_true
  rw [Root.fileNames, h.entries, List.filter_append, files, dirs, List.append_nil, List.map_map]
  rfl

theorem checkEntries (h : Holds root items) {expected : List (Str × Str)} :
    root.entries.all (checkEntry lib expected) = true ↔
      ∀ item ∈ items, item.1 = sumsName ∨ expected.lookup item.1 = some (lib.digest item.2.1) := by
  simp [h.entries, checkEntry]

end Holds

end Unpacked

section Agreement

variable {lib : Library} {tree : SourceTree} {value native : Json} {version archivePrefix : Str}
  {members : List Member} {payload : Files} {storable : Str → Bool} {root : Root}

theorem addedNames_not_payload {name : Str} (h : IsPayload name) : name ∉ addedNames := by
  intro member
  have none : ∀ other ∈ addedNames, "modules/".toList.isPrefixOf other = false ∧
      "firmware/".toList.isPrefixOf other = false ∧ other ≠ "udev/aic.rules".toList ∧
      other ≠ "modules-load/aic8800.conf".toList := by decide
  obtain ⟨notModule, notFirmware, notRules, notLoad⟩ := none name member
  obtain module | firmware | rules | load := h.kind
  · cases notModule.symm.trans module
  · cases notFirmware.symm.trans firmware
  · exact notRules rules
  · exact notLoad load

/-- The files of the package by name. -/
theorem items_perm : ((sortItems (allFiles lib
    (listedFiles lib tree value native version payload))).map Prod.fst).Perm
      (payload.map Prod.fst ++ addedNames) := by
  refine ((sortItems_perm _).map Prod.fst).trans (.of_eq ?_)
  simp [allFiles, listedFiles, addedFiles, addedNames, Function.comp_def]

theorem listed_names : (listedFiles lib tree value native version payload).map Prod.fst =
    payload.map Prod.fst ++ addedNames.dropLast := by
  simp [listedFiles, addedFiles, addedNames, Function.comp_def]

theorem names_nodup (taken : TakenFrom lib archivePrefix members payload native) :
    (payload.map Prod.fst ++ addedNames).Nodup := by
  have added : addedNames.Nodup := by decide
  refine List.nodup_append.mpr ⟨taken.once, added, fun a member b here same => ?_⟩
  exact addedNames_not_payload (taken.each a member) (same ▸ here)

/-- The package that the builder has made, as its files lie unpacked. -/
theorem extract_built (taken : TakenFrom lib archivePrefix members payload native)
    (h : extract storable ((sortItems (allFiles lib
      (listedFiles lib tree value native version payload))).map tarMember) = some root) :
    Holds root (sortItems (allFiles lib (listedFiles lib tree value native version payload))) := by
  obtain ⟨-, rfl⟩ := extract_iff.mp h
  exact ⟨rfl, items_perm.nodup_iff.mpr (names_nodup taken)⟩

/-- A package that can be unpacked and is accepted has portable names. -/
theorem portable_of_verified (taken : TakenFrom lib archivePrefix members payload native)
    (unpacked : extract storable ((sortItems (allFiles lib
      (listedFiles lib tree value native version payload))).map tarMember) = some root)
    {record : Record} (h : verify lib root = some record) :
    Portable storable (payloadNames archivePrefix members) := by
  have holds := extract_built taken unpacked
  obtain ⟨⟨stored, apart⟩, -⟩ := extract_iff.mp unpacked
  obtain ⟨build, sums, expected, verified, -⟩ := verify_iff.mp h
  have among : ∀ name ∈ payloadNames archivePrefix members ++ addedNames,
      name ∈ (sortItems (allFiles lib
        (listedFiles lib tree value native version payload))).map Prod.fst := by
    intro name member
    apply items_perm.mem_iff.mpr
    simpa [taken.names] using member
  have listed : ∀ name ∈ payloadNames archivePrefix members, name ∈ expected.map Prod.fst := by
    intro name member
    obtain ⟨item, here, rfl⟩ := List.mem_map.mp (among name (List.mem_append_left _ member))
    obtain sums | found := holds.checkEntries.mp verified.entries item here
    · have added : item.1 ∈ addedNames := sums ▸ by decide
      exact absurd added (addedNames_not_payload (taken.each _ ((taken.names _).mpr member)))
    · exact List.mem_map.mpr ⟨_, mem_of_lookup found, rfl⟩
  refine ⟨fun name member firmware => ?_, fun name member => ?_, fun name member => ?_,
    fun a left b right => ?_⟩
  · obtain needed | declared := verified.declared name (listed name member)
    · have none : ∀ other ∈ required, "firmware/".toList.isPrefixOf other = false := by decide
      cases (none name needed).symm.trans firmware
    · exact declared
  · obtain ⟨entry, here, rfl⟩ := List.mem_map.mp (listed name member)
    exact readSums_plain verified.parsed entry here
  · exact stored name (among name member)
  · exact apart a (among a left) b (among b right)

theorem expectedModules_eq : expectedModules = moduleNames.map (modulePrefix ++ ·) := by decide

/-- What the record of a package says of its payload. -/
structure Describes (lib : Library) (record : Record) (b : Build) (payload : Files) : Prop where
  build : record.build = b
  once : (record.files.map Prod.fst).Nodup
  files : ∀ path sha, (path, sha) ∈ record.files ↔ ∃ name data, (name, data) ∈ payload ∧
    destination name = some path ∧ sha = lib.digest data

theorem installed_once {expected : List (Str × Str)} (once : (expected.map Prod.fst).Nodup) :
    ((sortItems (installed expected)).map Prod.fst).Nodup := by
  refine ((sortItems_perm _).map Prod.fst).nodup_iff.mpr ?_
  induction expected with
  | nil => exact List.nodup_nil
  | cons entry rest ih =>
      obtain ⟨fresh, distinct⟩ := List.nodup_cons.mp once
      cases goes : destination entry.1 with
      | none => simpa [installed, goes] using ih distinct
      | some path =>
          have cut : installed (entry :: rest) = (path, entry.2) :: installed rest := by
            simp [installed, goes]
          rw [cut, List.map_cons]
          refine List.nodup_cons.mpr ⟨fun member => ?_, ih distinct⟩
          obtain ⟨⟨target, sha⟩, among, same⟩ := List.mem_map.mp member
          obtain rfl : target = path := same
          obtain ⟨name, inside, toward⟩ := mem_installed.mp among
          have named : name = entry.1 :=
            (origin_destination toward).symm.trans (origin_destination goes)
          exact fresh (named ▸ List.mem_map.mpr ⟨_, inside, rfl⟩)

/-- What `SHA256SUMS` of the package lists. -/
def listedSums (lib : Library) (files : List (Str × Bytes × Nat)) : List (Str × Str) :=
  (sortItems files).map (sumOf lib)

theorem listedSums_perm {files : List (Str × Bytes × Nat)} :
    (listedSums lib files).Perm (files.map (sumOf lib)) := (sortItems_perm files).map _

theorem listedSums_names : ((listedSums lib
    (listedFiles lib tree value native version payload)).map Prod.fst).Perm
      (payload.map Prod.fst ++ addedNames.dropLast) := by
  refine (listedSums_perm.map Prod.fst).trans (.of_eq ?_)
  rw [← listed_names, List.map_map]
  rfl

theorem listedSums_once (taken : TakenFrom lib archivePrefix members payload native) :
    ((listedSums lib (listedFiles lib tree value native version payload)).map Prod.fst).Nodup := by
  apply listedSums_names.nodup_iff.mpr
  exact (names_nodup taken).sublist ((List.dropLast_sublist _).append_left _)

theorem mem_listedSums {name : Str} {data : Bytes} {mode : Nat}
    (member : (name, data, mode) ∈ listedFiles lib tree value native version payload) :
    (name, lib.digest data) ∈
      listedSums lib (listedFiles lib tree value native version payload) :=
  listedSums_perm.mem_iff.mpr (List.mem_map.mpr ⟨_, member, rfl⟩)

theorem mem_listed {name : Str} {data : Bytes} (member : (name, data) ∈ payload) :
    (name, data, 0o644) ∈ listedFiles lib tree value native version payload :=
  List.mem_append_left _ (List.mem_map.mpr ⟨_, member, rfl⟩)

theorem moduleFacts_entry {name : Str} {entry : Str × Json}
    (h : moduleFacts lib payload name = some entry) : entry.1 = pathName name ∧ ∃ data f,
      (name, data) ∈ payload ∧ entry.2 = Facts.toJson f ∧ f.compressedSha256 = lib.digest data ∧
        (kernel ++ [' ']).isPrefixOf f.vermagic = true := by
  obtain ⟨data, lies, h⟩ := Option.bind_eq_some_iff.mp h
  obtain ⟨f, read, h⟩ := Option.bind_eq_some_iff.mp h
  rw [Option.ite_none_right_eq_some] at h
  obtain ⟨-, h⟩ := h
  obtain rfl := Option.some.inj h
  obtain ⟨digest, target⟩ := nativeModule_facts read
  exact ⟨rfl, data, f, mem_of_lookup lies, rfl, digest, target⟩

theorem moduleFacts_names {names : List Str} {modules : List (Str × Json)}
    (h : List.Forall₂ (fun name entry => moduleFacts lib payload name = some entry) names modules) :
    modules.map Prod.fst = names.map pathName := by
  induction h with
  | nil => rfl
  | cons found _ ih => rw [List.map_cons, List.map_cons, (moduleFacts_entry found).1, ih]

theorem modulePrefix_pathName : ∀ name ∈ expectedModules, modulePrefix ++ pathName name = name := by
  decide

theorem Facts.toJson_fields (f : Facts) :
    f.toJson.getStr "compressed_sha256".toList = some f.compressedSha256 ∧
      f.toJson.getStr "vermagic".toList = some f.vermagic ∧
      f.toJson.getStr "architecture".toList = some architecture := ⟨rfl, rfl, rfl⟩

/-- The facts of the modules pass the verifier's checks. -/
theorem checkNative_built {modules : List (Str × Json)} {source : Json} {expected : List (Str × Str)}
    (facts : expectedModules.mapM (moduleFacts lib payload) = some modules)
    (once : (expected.map Prod.fst).Nodup)
    (has : ∀ name data, (name, data) ∈ payload → (name, lib.digest data) ∈ expected) :
    checkNative (nativeRecord source modules) expected = true := by
  have each := mapM_entries facts
  have keys : modules.map Prod.fst = moduleNames := by
    rw [moduleFacts_names each]
    decide
  have fields : (Json.obj modules).hasFields moduleNames = true := by
    simp [Json.hasFields, Json.keys, keys]
  have all : modules.all (checkFacts expected) = true := by
    apply List.all_eq_true.mpr
    intro entry member
    obtain ⟨name, known, found⟩ := Forall₂.origin each member
    obtain ⟨named, data, f, lies, same, digest, target⟩ := moduleFacts_entry found
    obtain ⟨sha, vermagic, arch⟩ := f.toJson_fields
    have listed : expected.lookup (modulePrefix ++ entry.1) = some f.compressedSha256 := by
      rw [named, modulePrefix_pathName name known, digest]
      exact lookup_of_mem once (has name data lies)
    simp only [checkFacts, same, sha, vermagic, arch, listed, target, beq_self_eq_true, Bool.and_self]
  have modulesField : (nativeRecord source modules).get "modules".toList = some (.obj modules) := rfl
  simp only [checkNative, modulesField, fields, all, Bool.and_true]
  rfl

theorem mem_items {item : Str × Bytes × Nat}
    (member : item ∈ listedFiles lib tree value native version payload) :
    item ∈ sortItems (allFiles lib (listedFiles lib tree value native version payload)) :=
  (sortItems_perm _).mem_iff.mpr (List.mem_append_left _ member)

theorem mem_added {item : Str × Bytes × Nat} (member : item ∈ addedFiles lib tree value native version) :
    item ∈ listedFiles lib tree value native version payload := List.mem_append_right _ member

/-- The names that `SHA256SUMS` lists are the payload's and those of the added files. -/
theorem listed_cases {item : Str × Bytes × Nat}
    (member : item ∈ listedFiles lib tree value native version payload) :
    item.1 ∈ payload.map Prod.fst ∨ item.1 ∈ addedNames.dropLast := by
  have named : item.1 ∈ payload.map Prod.fst ++ addedNames.dropLast := by
    rw [← listed_names]
    exact List.mem_map.mpr ⟨item, member, rfl⟩
  exact List.mem_append.mp named

theorem readSums_built (taken : TakenFrom lib archivePrefix members payload native)
    (portable : Portable storable (payloadNames archivePrefix members)) :
    readSums (checksums lib (listedFiles lib tree value native version payload)) =
      some (listedSums lib (listedFiles lib tree value native version payload)) := by
  apply readSums_checksums
  · intro item member
    obtain payload | added := listed_cases member
    · exact (taken.each _ payload).normal
    · have normal : ∀ name ∈ addedNames.dropLast, isNormal name = true := by decide
      exact normal _ added
  · intro item member same
    obtain payload | added := listed_cases member
    · exact addedNames_not_payload (taken.each _ payload) (same ▸ by decide)
    · rw [same] at added
      revert added
      decide
  · rw [listed_names]
    exact (names_nodup taken).sublist ((List.dropLast_sublist _).append_left _)
  · intro item member
    obtain payload | added := listed_cases member
    · exact portable.plain _ ((taken.names _).mp payload)
    · have plain : ∀ name ∈ addedNames.dropLast, plainName name = true := by decide
      exact plain _ added

theorem required_listed (taken : TakenFrom lib archivePrefix members payload native) {name : Str}
    (member : name ∈ required) : name ∈ payload.map Prod.fst ++ addedNames.dropLast := by
  have split : ∀ other ∈ required, other ∈ addedNames.dropLast ∨ other ∈ expectedModules ++
      ["udev/aic.rules".toList, "modules-load/aic8800.conf".toList] := by decide
  obtain added | payload := split name member
  · exact List.mem_append_right _ added
  · exact List.mem_append_left _ (taken.complete name payload)

theorem listed_declared (taken : TakenFrom lib archivePrefix members payload native)
    (portable : Portable storable (payloadNames archivePrefix members)) {name : Str}
    (member : name ∈ payload.map Prod.fst ++ addedNames.dropLast) :
    name ∈ required ∨ firmwarePrefix.isPrefixOf name = true := by
  cases List.mem_append.mp member with
  | inl payload =>
      obtain module | firmware | rfl | rfl := (taken.each name payload).kind
      · have needed : ∀ other ∈ expectedModules, other ∈ required := by decide
        exact .inl (needed name (taken.modules name payload module))
      · exact .inr (portable.firmware name ((taken.names name).mp payload) firmware)
      · exact .inl (by decide)
      · exact .inl (by decide)
  | inr added =>
      have needed : ∀ other ∈ addedNames.dropLast, other ∈ required := by decide
      exact .inl (needed name added)

/-- A package with portable names can be unpacked and passes every check. -/
theorem verified_of_portable {b : Build} (taken : TakenFrom lib archivePrefix members payload native)
    (valid : validateBuild value = some b) (valueTrips : lib.RoundTrips value)
    (nativeTrips : lib.RoundTrips native)
    (portable : Portable storable (payloadNames archivePrefix members)) :
    ∃ root, extract storable ((sortItems (allFiles lib
      (listedFiles lib tree value native b.version payload))).map tarMember) = some root ∧
        Verified lib root b (checksums lib (listedFiles lib tree value native b.version payload))
          (listedSums lib (listedFiles lib tree value native b.version payload)) := by
  have among : ∀ name ∈ (sortItems (allFiles lib
      (listedFiles lib tree value native b.version payload))).map Prod.fst,
      name ∈ payloadNames archivePrefix members ++ addedNames := by
    intro name member
    simpa [taken.names] using items_perm.mem_iff.mp member
  have unpacked := extract_iff.mpr ⟨⟨fun name member => portable.stored name (among name member),
    fun a left b right => portable.apart a (among a left) b (among b right)⟩, rfl⟩
  have holds := extract_built taken unpacked
  have sumsHere : (sumsName, checksums lib (listedFiles lib tree value native b.version payload),
      0o644) ∈ sortItems (allFiles lib (listedFiles lib tree value native b.version payload)) :=
    (sortItems_perm _).mem_iff.mpr (List.mem_append_right _ (List.mem_singleton.mpr rfl))
  have once : ((listedSums lib (listedFiles lib tree value native b.version payload)).map
      Prod.fst).Nodup := listedSums_once taken
  refine ⟨_, unpacked, ?_⟩
  constructor
  · have added : ("build.json".toList, lib.encoded value, 0o644) ∈
        addedFiles lib tree value native b.version := by simp [addedFiles]
    have read := holds.readFile (mem_items (mem_added added))
    have parsed : lib.loads (lib.encoded value) = some value := valueTrips
    rw [read, Option.bind_some, parsed, Option.bind_some, valid]
  · have added : ("VERSION".toList, encode (b.version ++ ['\n']), 0o644) ∈
        addedFiles lib tree value native b.version := by simp [addedFiles]
    exact holds.readFile (mem_items (mem_added added))
  · exact holds.readFile sumsHere
  · exact readSums_built taken portable
  · intro name member
    exact listedSums_names.mem_iff.mpr (required_listed taken member)
  · intro name member
    exact listed_declared taken portable (listedSums_names.mem_iff.mp member)
  · apply holds.checkEntries.mpr
    intro item member
    cases List.mem_append.mp ((sortItems_perm _).mem_iff.mp member) with
    | inl listed => exact .inr (lookup_of_mem once (mem_listedSums listed))
    | inr sums => exact .inl (by rw [List.mem_singleton.mp sums])
  · intro name member
    rw [holds.fileNames]
    apply items_perm.mem_iff.mpr
    cases List.mem_append.mp (listedSums_names.mem_iff.mp member) with
    | inl payload => exact List.mem_append_left _ payload
    | inr added => exact List.mem_append_right _ ((List.dropLast_sublist _).subset added)
  · rw [holds.fileNames]
    exact List.mem_map.mpr ⟨_, sumsHere, rfl⟩
  · obtain ⟨source, modules, facts, same⟩ := taken.facts
    have added : ("native.json".toList, lib.encoded native, 0o644) ∈
        addedFiles lib tree value native b.version := by simp [addedFiles]
    have read := holds.readFile (mem_items (mem_added added))
    have parsed : lib.loads (lib.encoded native) = some native := nativeTrips
    refine ⟨native, by rw [read, Option.bind_some, parsed], ?_⟩
    have has : ∀ name data, (name, data) ∈ payload → (name, lib.digest data) ∈
        listedSums lib (listedFiles lib tree value native b.version payload) :=
      fun name data member => mem_listedSums (mem_listed member)
    have passes : checkNative (nativeRecord source modules)
        (listedSums lib (listedFiles lib tree value native b.version payload)) = true :=
      checkNative_built facts once has
    rw [← same] at passes
    exact passes
  · obtain ⟨name, member, firmware⟩ := taken.firmware
    obtain ⟨⟨name, data⟩, lies, rfl⟩ := List.mem_map.mp member
    have listed : (name, lib.digest data) ∈
        listedSums lib (listedFiles lib tree value native b.version payload) :=
      mem_listedSums (mem_listed lies)
    have goes := mem_installed.mpr ⟨name, listed, destination_firmware firmware⟩
    exact List.any_eq_true.mpr ⟨_, goes, firmware_lies firmware⟩

/-- A package that is accepted has firmware for the AIC8800D80 only. -/
theorem verified_firmware {tarball : List Member} (built : build lib value tree = some tarball)
    (taken : sourcePayload lib tree = some (payload, native))
    (unpacked : extract storable tarball = some root) {record : Record}
    (verified : verify lib root = some record) :
    ∀ name ∈ payload.map Prod.fst, "firmware/".toList.isPrefixOf name = true →
      firmwarePrefix.isPrefixOf name = true := by
  obtain ⟨payload', native', version, taken', -, rfl⟩ := build_spec built
  obtain ⟨rfl, rfl⟩ := Prod.mk.inj (Option.some.inj (taken.symm.trans taken'))
  obtain ⟨declaration, source, members, -, from'⟩ := sourcePayload_taken taken
  have portable := portable_of_verified from' unpacked verified
  exact fun name member => portable.firmware name ((from'.names name).mp member)

end Agreement

/-- A package that was built can be unpacked and verified, with the record of its
    payload, exactly when its names are portable. -/
theorem builder_installer_agree (lib : Library) (storable : Str → Bool) (value : Json) (b : Build)
    (tree : SourceTree) (declaration : Json) (source : Source) (members tarball : List Member)
    (payload : Files) (native : Json) (valid : validateBuild value = some b)
    (declared : archiveMembers lib tree = some (declaration, source, members))
    (taken : sourcePayload lib tree = some (payload, native)) (valueTrips : lib.RoundTrips value)
    (nativeTrips : lib.RoundTrips native) (built : build lib value tree = some tarball) :
    (∃ root record, extract storable tarball = some root ∧ verify lib root = some record ∧
      Describes lib record b payload) ↔
        Portable storable (payloadNames source.archivePrefix members) := by
  obtain ⟨payload', native', version, taken', named, rfl⟩ := build_spec built
  obtain ⟨rfl, rfl⟩ := Prod.mk.inj (Option.some.inj (taken.symm.trans taken'))
  obtain rfl := Option.some.inj (named.symm.trans (validateBuild_spec valid).1)
  obtain ⟨declaration', source', members', declared', from'⟩ := sourcePayload_taken taken
  have same := Option.some.inj (declared.symm.trans declared')
  obtain ⟨-, rfl, rfl⟩ : declaration = declaration' ∧ source = source' ∧ members = members' := by
    simpa using same
  constructor
  · rintro ⟨root, record, unpacked, verified, -⟩
    exact portable_of_verified from' unpacked verified
  · intro portable
    obtain ⟨root, unpacked, verified⟩ := verified_of_portable from' valid valueTrips nativeTrips portable
    refine ⟨root, _, unpacked, verify_iff.mpr ⟨_, _, _, verified, rfl⟩, rfl, ?_, fun path sha => ?_⟩
    · exact installed_once (listedSums_once from')
    · rw [(sortItems_perm _).mem_iff]
      constructor
      · intro member
        obtain ⟨name, listed, toward⟩ := mem_installed.mp member
        obtain ⟨item, here, same⟩ := List.mem_map.mp (listedSums_perm.mem_iff.mp listed)
        obtain ⟨rfl, rfl⟩ := Prod.mk.inj same
        cases List.mem_append.mp here with
        | inl payload =>
            obtain ⟨⟨name, data⟩, lies, rfl⟩ := List.mem_map.mp payload
            exact ⟨name, data, lies, toward, rfl⟩
        | inr added =>
            have all : (addedFiles lib tree value native b.version).map Prod.fst =
                addedNames.dropLast := rfl
            have named : item.1 ∈ addedNames.dropLast := all ▸ List.mem_map.mpr ⟨item, added, rfl⟩
            have none := destination_added item.1 ((List.dropLast_sublist _).subset named)
            cases none.symm.trans toward
      · rintro ⟨name, data, lies, toward, rfl⟩
        exact mem_installed.mpr ⟨name, mem_listedSums (mem_listed lies), toward⟩

/-! ## A small package -/

namespace Sample

mutual
/-- `json.dumps` of a value whose texts need no escapes. -/
def dumps : Json → Str
  | .null => "null".toList
  | .bool b => if b then "true".toList else "false".toList
  | .int n => (toString n).toList
  | .float text => text
  | .str s => ['"'] ++ s ++ ['"']
  | .arr items => ['['] ++ dumpsItems items ++ [']']
  | .obj fields => ['\x7b'] ++ dumpsFields fields ++ ['\x7d']

def dumpsItems : List Json → Str
  | [] => []
  | [v] => dumps v
  | v :: w :: rest => dumps v ++ [','] ++ dumpsItems (w :: rest)

def dumpsFields : List (Str × Json) → Str
  | [] => []
  | [(key, v)] => ['"'] ++ key ++ ['"', ':'] ++ dumps v
  | (key, v) :: w :: rest => ['"'] ++ key ++ ['"', ':'] ++ dumps v ++ [','] ++ dumpsFields (w :: rest)
end

/-- A number in `n` bytes, the lowest first. -/
def pack : Nat → Nat → Bytes
  | 0, _ => []
  | n + 1, v => UInt8.ofNat v :: pack n (v / 256)

def hexDigit (d : Nat) : Char := Char.ofNat (if d < 10 then 48 + d else 87 + d)

/-- A number in `n` hexadecimal digits. -/
def hex : Nat → Nat → Str
  | 0, _ => []
  | n + 1, v => hex n (v / 16) ++ [hexDigit (v % 16)]

theorem hex_isHex (n v : Nat) : isHex n (hex n v) = true := by
  have digit : ∀ d < 16, ((hexDigit d).isDigit || ('a' ≤ hexDigit d && hexDigit d ≤ 'f')) = true := by
    decide
  simp only [isHex, Bool.and_eq_true, beq_iff_eq]
  induction n generalizing v with
  | zero => exact ⟨rfl, rfl⟩
  | succ n ih =>
      obtain ⟨size, digits⟩ := ih (v / 16)
      have last := digit (v % 16) (Nat.mod_lt v (by decide))
      constructor
      · rw [hex, List.length_append, size, List.length_singleton]
      · rw [hex, List.all_append, digits, List.all_cons, last]
        rfl

def header (name type offset size : Nat) : Bytes :=
  pack 4 name ++ pack 4 type ++ pack 8 0 ++ pack 8 0 ++ pack 8 offset ++ pack 8 size ++ pack 24 0

def modinfo (name version : String) : Bytes :=
  encode ("name=" ++ name).toList ++ [0] ++ encode ("version=" ++ version).toList ++ [0] ++
    encode "srcversion=0".toList ++ [0] ++ encode "vermagic=6.17.0-14-generic SMP".toList ++ [0]

/-- A relocatable object with a string table and a `.modinfo`. -/
def elf (name version : String) : Bytes :=
  let names := [0] ++ encode ".modinfo".toList ++ [0]
  let info := modinfo name version
  [0x7f, 0x45, 0x4c, 0x46, 2, 1] ++ pack 10 0 ++ pack 2 1 ++ pack 2 62 ++ pack 20 0 ++
    pack 8 (64 + names.length + info.length) ++ pack 10 0 ++ pack 2 64 ++ pack 2 3 ++ pack 2 1 ++
    names ++ info ++ header 0 0 0 0 ++ header 0 3 64 names.length ++
    header 1 1 (64 + names.length) info.length

/-- A frame of `zstd` with one raw block. -/
def compressed (data : Bytes) : Bytes :=
  [0x28, 0xb5, 0x2f, 0xfd, 0x60] ++ pack 2 (data.length - 256) ++ pack 3 (data.length * 8 + 1) ++ data

def fdrv : Bytes := elf "aic8800_fdrv" "6.4.3.0"

def loadFw : Bytes := elf "aic_load_fw" "1.0"

/-- The declaration of an archive with the digest `sha`. -/
def declaration (url : String) (sha : Nat) : Json :=
  .obj
    [("architecture".toList, .str architecture), ("file".toList, .str "prebuilt.tar.gz".toList),
      ("kernel".toList, .str kernel), ("prefix".toList, .str "prebuilt".toList),
      ("sha256".toList, .str (hex 64 sha)), ("url".toList, .str url.toList)]

def identity : Build :=
  { version := "1.0.0".toList, runId := "run".toList, buildNumber := 10
    sourceCommitSha := List.replicate 40 'a', inputSha256 := List.replicate 64 'b' }

def facts (name version : String) (elfSha256 compressedSha256 elfBytes : Nat) : Json :=
  Facts.toJson
    { name := name.toList, version := version.toList, srcversion := "0".toList
      vermagic := kernel ++ " SMP".toList, elfSha256 := hex 64 elfSha256, elfBytes
      compressedSha256 := hex 64 compressedSha256 }

def native (source : Json) : Json :=
  nativeRecord source
    [("aic8800_fdrv.ko.zst".toList, facts "aic8800_fdrv" "6.4.3.0"
        0x5f1155663291d2b673533ab85c61be7fd9c35cbaaf5e5a18080730c11c7717c2
        0xfd9d6b516a1b4e8b87ff50c3bef44169e78a0bb38e4041a75621b1ca82fd6c99 344),
      ("aic_load_fw.ko.zst".toList, facts "aic_load_fw" "1.0"
        0xa6f218d24971d9357d6b470201661daa02d5810273f84db54bea1e8976f88ea0
        0x4758ce7b01dd237564e9786d2bf4c8a5282d8cce136ad7808f7fed055b56cc01 339)]

/-- The digest of an archive with firmware for the AIC8800D80 only. -/
def archiveSha : Nat := 0x1a7a2027495304d8433b10307fdfde4c0319d80cbf34e18da60620c3552d18cd

def archive : Json := declaration "https://localhost/" archiveSha

/-- The digest of the same archive with one more firmware file. -/
def foreignSha : Nat := 0x4035be1913def8804f7c5d43cc9c19a2f8e781b3e55db4f63ca140cffd237c33

def foreign : Json := declaration "https://localhost/other/" foreignSha

def text (v : Json) : Bytes := encode (dumps v ++ ['\n'])

/-- SHA-256 of all that the sample packages hold, by length: no two have the same. -/
def digests : List (Nat × Nat) :=
  [(0, 0xe3b0c44298fc1c149afbf4c8996fb92427ae41e4649b934ca495991b7852b855),
    (6, 0x59854984853104df5c353e2f681a15fc7924742f9a2e468c29af248dce45ce03),
    (339, 0xa6f218d24971d9357d6b470201661daa02d5810273f84db54bea1e8976f88ea0),
    (344, 0x5f1155663291d2b673533ab85c61be7fd9c35cbaaf5e5a18080730c11c7717c2),
    (347, 0x69ab295344d491377bd02330b7447262f6b4f4ce74606209f007088d40cbc1de),
    (349, 0x4758ce7b01dd237564e9786d2bf4c8a5282d8cce136ad7808f7fed055b56cc01),
    (354, 0xfd9d6b516a1b4e8b87ff50c3bef44169e78a0bb38e4041a75621b1ca82fd6c99),
    (396, 0xcc12b0e64715bc784a0d5af86a8ee309b5614260ccb06fe295ae1698f6735f63),
    (923, 0x6cfe70a1c57c25c82408dd5718a53b162398edb0fca9b4feeeae52af834feda1),
    (929, 0xb257ae9a0ede790ed9709854c9c536d448180ffc69a0c826c8bfba42c0df26a3),
    (1249, 0xa1ae07c584836219bf7da857dfbb6df823490b36744848a12beccb461c7e0b1b),
    (1334, 0xe98d72c264c781c54e47a1e93e1eecd4e7bfcacae69df106b713022e932ba27a)]

/-- The values that the samples write, by the length of their texts. -/
def values : List (Nat × Json) :=
  [(203, archive), (209, foreign), (347, identity.toJson), (923, native archive),
    (929, native foreign)]

def library : Library where
  digest data := hex 64 ((digests.lookup data.length).getD 0)
  digest_isSha256 _ := hex_isHex 64 _
  loads data := values.lookup data.length
  dumps := dumps
  decompress data := if data.take 5 = [0x28, 0xb5, 0x2f, 0xfd, 0x60] then some (data.drop 10) else none

def file (name : Str) (data : Bytes) : Member :=
  { name := "prebuilt/".toList ++ name, node := .file data, mode := 0o644 }

def payload : Files :=
  [(modulePrefix ++ "aic8800_fdrv.ko.zst".toList, compressed fdrv),
    (modulePrefix ++ "aic_load_fw.ko.zst".toList, compressed loadFw),
    ("firmware/aic8800D80/fw.bin".toList, []), ("udev/aic.rules".toList, []),
    ("modules-load/aic8800.conf".toList, [])]

def members : List Member := payload.map fun entry => file entry.1 entry.2

def tree (source : Json) (sha : Nat) (members : List Member) : SourceTree where
  prebuiltSource := text source
  asset name :=
    if name = "prebuilt.tar.gz".toList then some ⟨hex 64 sha, some members⟩ else none
  installPrebuilt := []
  collectDiagnostics := []
  verifyPackage := []
  license := []
  notice := []

/-- The sources of a package with firmware for the AIC8800D80 only. -/
def sources : SourceTree := tree archive archiveSha members

/-- The same with firmware for another chip. -/
def foreignSources : SourceTree :=
  tree foreign foreignSha (members ++ [file "firmware/other.bin".toList []])

/-- What `archiveMembers` reads of the declaration. -/
def archiveSource : Source := ⟨"prebuilt.tar.gz".toList, hex 64 archiveSha, "prebuilt".toList⟩

/-- The facts about the sources that are found by evaluation. -/
theorem evaluated : validateBuild identity.toJson = some identity ∧
    archiveMembers library sources = some (archive, archiveSource, members) ∧
    sourcePayload library sources = some (payload, native archive) ∧
    library.RoundTrips identity.toJson ∧ library.RoundTrips (native archive) ∧
    Portable (fun _ => true) (payloadNames archiveSource.archivePrefix members) := by
  refine ⟨?_, ?_, ?_, ?_, ?_, ⟨?_, ?_, ?_, ?_⟩⟩
  case refine_4 | refine_5 => unfold Library.RoundTrips; decide +kernel
  all_goals decide +kernel

theorem valid : validateBuild identity.toJson = some identity := evaluated.1

theorem declared : archiveMembers library sources = some (archive, archiveSource, members) :=
  evaluated.2.1

theorem taken : sourcePayload library sources = some (payload, native archive) := evaluated.2.2.1

theorem identity_roundTrips : library.RoundTrips identity.toJson := evaluated.2.2.2.1

theorem native_roundTrips : library.RoundTrips (native archive) := evaluated.2.2.2.2.1

theorem portable : Portable (fun _ => true) (payloadNames archiveSource.archivePrefix members) :=
  evaluated.2.2.2.2.2

/-- There is a directory that the verifier accepts. -/
theorem verified : ∃ root record, verify library root = some record := by
  obtain ⟨declaration, source, members', declared', from'⟩ := sourcePayload_taken taken
  have same := Option.some.inj (declared.symm.trans declared')
  obtain ⟨-, rfl, rfl⟩ : archive = declaration ∧ archiveSource = source ∧ members = members' := by
    simpa using same
  obtain ⟨root, -, holds⟩ := @verified_of_portable library sources _ _ _ _ _ _ _ from' valid
    identity_roundTrips native_roundTrips portable
  exact ⟨root, _, verify_iff.mpr ⟨_, _, _, holds, rfl⟩⟩

end Sample

/-- A package of the five files that every package has. -/
theorem builder_installer_agree_sample : ∃ tarball root record,
    build Sample.library Sample.identity.toJson Sample.sources = some tarball ∧
      extract (fun _ => true) tarball = some root ∧ verify Sample.library root = some record ∧
      Describes Sample.library record Sample.identity Sample.payload := by
  have builds : (build Sample.library Sample.identity.toJson Sample.sources).isSome = true := by
    decide +kernel
  obtain ⟨tarball, built⟩ := Option.isSome_iff_exists.mp builds
  have agree := builder_installer_agree Sample.library (fun _ => true) Sample.identity.toJson
    Sample.identity Sample.sources Sample.archive Sample.archiveSource Sample.members tarball
    Sample.payload (Sample.native Sample.archive) Sample.valid Sample.declared Sample.taken
    Sample.identity_roundTrips Sample.native_roundTrips built
  obtain ⟨root, record, unpacked, verified, describes⟩ := agree.mpr Sample.portable
  exact ⟨tarball, root, record, built, unpacked, verified, describes⟩

/-- The builder takes firmware for another chip, and the verifier rejects the package. -/
theorem foreign_firmware_rejected : ¬ ∀ (lib : Library) (storable : Str → Bool) (value : Json)
    (b : Build) (tree : SourceTree) (tarball : List Member) (payload : Files) (native : Json),
    validateBuild value = some b → sourcePayload lib tree = some (payload, native) →
    lib.RoundTrips value → lib.RoundTrips native → build lib value tree = some tarball →
    ∃ root record, extract storable tarball = some root ∧ verify lib root = some record ∧
      Describes lib record b payload := by
  intro agree
  have builds : (build Sample.library Sample.identity.toJson Sample.foreignSources).isSome = true := by
    decide +kernel
  obtain ⟨tarball, built⟩ := Option.isSome_iff_exists.mp builds
  have taken : sourcePayload Sample.library Sample.foreignSources =
      some (Sample.payload ++ [("firmware/other.bin".toList, [])], Sample.native Sample.foreign) := by
    decide +kernel
  obtain ⟨root, record, unpacked, verified, -⟩ := agree Sample.library (fun _ => true)
    Sample.identity.toJson Sample.identity Sample.foreignSources tarball
    (Sample.payload ++ [("firmware/other.bin".toList, [])]) (Sample.native Sample.foreign)
    Sample.valid taken Sample.identity_roundTrips (by unfold Library.RoundTrips; decide +kernel) built
  have other : "firmware/other.bin".toList ∈
      (Sample.payload ++ [("firmware/other.bin".toList, [])]).map Prod.fst := by
    simp
  have among := verified_firmware built taken unpacked verified _ other (by decide)
  revert among
  decide

end Aic8800.Package
