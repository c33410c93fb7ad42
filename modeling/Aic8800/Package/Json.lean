import Aic8800.Package.Text

/-! # JSON values and the libraries

Both scripts read JSON with `unique_object` and write it with `encoded`. Of
`hashlib`, `json` and the `zstd` program the model uses what they return.
-/

namespace Aic8800.Package

/-- A value of `json.loads`. A `dict` is the list of its fields in the order of the
    keys, so that equal dicts are equal here; of a `float` only its text is kept. -/
inductive Json where
  | null
  | bool (b : Bool)
  | int (n : Int)
  | float (text : Str)
  | str (s : Str)
  | arr (items : List Json)
  | obj (fields : List (Str × Json))

namespace Json

mutual
def beq : Json → Json → Bool
  | .null, .null => true
  | .bool a, .bool b => a == b
  | .int a, .int b => a == b
  | .float a, .float b => a == b
  | .str a, .str b => a == b
  | .arr as, .arr bs => beqItems as bs
  | .obj as, .obj bs => beqFields as bs
  | _, _ => false

def beqItems : List Json → List Json → Bool
  | [], [] => true
  | a :: as, b :: bs => beq a b && beqItems as bs
  | _, _ => false

def beqFields : List (Str × Json) → List (Str × Json) → Bool
  | [], [] => true
  | (k, a) :: as, (l, b) :: bs => k == l && beq a b && beqFields as bs
  | _, _ => false
end

mutual
theorem beq_iff (a b : Json) : beq a b = true ↔ a = b := by
  cases a with
  | null => cases b <;> simp [beq]
  | bool x => cases b <;> simp [beq]
  | int n => cases b <;> simp [beq]
  | float t => cases b <;> simp [beq]
  | str s => cases b <;> simp [beq]
  | arr as =>
      cases b with
      | arr bs => simpa [beq] using beqItems_iff as bs
      | _ => simp [beq]
  | obj as =>
      cases b with
      | obj bs => simpa [beq] using beqFields_iff as bs
      | _ => simp [beq]

theorem beqItems_iff (as bs : List Json) : beqItems as bs = true ↔ as = bs := by
  cases as with
  | nil => cases bs <;> simp [beqItems]
  | cons a as =>
      cases bs with
      | nil => simp [beqItems]
      | cons b bs => simp [beqItems, beq_iff a b, beqItems_iff as bs]

theorem beqFields_iff (as bs : List (Str × Json)) : beqFields as bs = true ↔ as = bs := by
  cases as with
  | nil => cases bs <;> simp [beqFields]
  | cons a as =>
      obtain ⟨k, a⟩ := a
      cases bs with
      | nil => simp [beqFields]
      | cons b bs =>
          obtain ⟨l, b⟩ := b
          simp [beqFields, beq_iff a b, beqFields_iff as bs, and_assoc]
end

instance : DecidableEq Json := fun a b => decidable_of_iff _ (beq_iff a b)
/-- `value[key]` of a `dict`. -/
def get (v : Json) (key : Str) : Option Json :=
  match v with
  | .obj fields => fields.lookup key
  | _ => none

def getStr (v : Json) (key : Str) : Option Str :=
  match v.get key with
  | some (.str s) => some s
  | _ => none

def getNat (v : Json) (key : Str) : Option Nat :=
  match v.get key with
  | some (.int (.ofNat n)) => some n
  | _ => none

/-- `set(value)` of a `dict`. -/
def keys : Json → Option (List Str)
  | .obj fields => some (fields.map Prod.fst)
  | _ => none

/-- `type(value) is dict and set(value) == fields` -/
def hasFields (v : Json) (fields : List Str) : Bool :=
  match v.keys with
  | some keys => fields.all keys.contains && keys.all fields.contains
  | none => false

end Json

structure Library where
  /-- `hashlib.sha256(data).hexdigest()` -/
  digest : Bytes → Str
  digest_isSha256 : ∀ data, isSha256 (digest data) = true
  /-- `json.loads` with `unique_object`. -/
  loads : Bytes → Option Json
  /-- `json.dumps` with the options of `encoded`. -/
  dumps : Json → Str
  /-- `zstd -d` -/
  decompress : Bytes → Option Bytes

namespace Library

def encoded (lib : Library) (v : Json) : Bytes := encode (lib.dumps v ++ ['\n'])

/-- What `json` documents of a value without other keys than `str`: it is read back
    as it was written. -/
def RoundTrips (lib : Library) (v : Json) : Prop := lib.loads (lib.encoded v) = some v

end Library

end Aic8800.Package
