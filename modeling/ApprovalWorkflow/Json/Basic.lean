import ApprovalWorkflow.Number.Digits

/-!
# JSON values

Values as they are held in memory. Integers of 64 bits stay integers and all other numbers
are binary64. An object is a list of fields; free-form objects are kept sorted by key with one
field for each key, which is what `insert` and `ofFields` see to. The main statements say what
a look-up finds after an insertion.
-/

set_option autoImplicit false

namespace ApprovalWorkflow

/-- A number of a JSON value. -/
inductive Json.Number where
  | int (value : Int)
  | float (value : Binary64)
deriving DecidableEq, Repr, Inhabited

/-- A JSON value. -/
inductive Json where
  | null
  | bool (value : Bool)
  | num (value : Json.Number)
  | str (value : String)
  | arr (items : List Json)
  | obj (fields : List (String × Json))
deriving Repr, Inhabited

namespace Json

/-- The number as a binary64 number, rounded if it is a large integer. -/
def Number.toBinary64 : Number → Binary64
  | .int i => .ofInt i
  | .float x => x

/-- The text of a number in JSON. -/
def Number.render : Number → List Char
  | .int i => Text.decimalInt i
  | .float x => x.scientific

mutual
/-- Whether two values are the same. -/
def beq : Json → Json → Bool
  | .null, .null => true
  | .bool a, .bool b => a == b
  | .num a, .num b => a == b
  | .str a, .str b => a == b
  | .arr xs, .arr ys => beqItems xs ys
  | .obj xs, .obj ys => beqFields xs ys
  | _, _ => false

/-- Whether two lists of values are the same. -/
def beqItems : List Json → List Json → Bool
  | [], [] => true
  | x :: xs, y :: ys => x.beq y && beqItems xs ys
  | _, _ => false

/-- Whether two lists of fields are the same. -/
def beqFields : List (String × Json) → List (String × Json) → Bool
  | [], [] => true
  | (k, v) :: xs, (l, w) :: ys => k == l && v.beq w && beqFields xs ys
  | _, _ => false
end

mutual
/-- Two values are taken for the same exactly if they are. -/
theorem beq_iff : ∀ a b : Json, a.beq b = true ↔ a = b
  | a, b => by cases a <;> cases b <;> simp [beq, beqItems_iff, beqFields_iff]

/-- Two lists of items are taken for the same exactly if they are. -/
theorem beqItems_iff : ∀ a b : List Json, beqItems a b = true ↔ a = b
  | [], [] => by simp [beqItems]
  | [], _ :: _ => by simp [beqItems]
  | _ :: _, [] => by simp [beqItems]
  | x :: xs, y :: ys => by simp [beqItems, beq_iff x y, beqItems_iff xs ys]

/-- Two lists of fields are taken for the same exactly if they are. -/
theorem beqFields_iff : ∀ a b : List (String × Json), beqFields a b = true ↔ a = b
  | [], [] => by simp [beqFields]
  | [], _ :: _ => by simp [beqFields]
  | _ :: _, [] => by simp [beqFields]
  | (k, v) :: xs, (l, w) :: ys => by
    simp [beqFields, beq_iff v w, beqFields_iff xs ys, and_assoc]
end

instance : DecidableEq Json := fun a b => decidable_of_iff _ (beq_iff a b)

/-- An integer value. -/
def int (i : Int) : Json := .num (.int i)

/-- The value of the first field with a key. -/
def lookup (key : String) : List (String × Json) → Option Json
  | [] => none
  | (k, v) :: fields => if k = key then some v else lookup key fields

/-- The value under a key of an object; nothing for other values. -/
def get? (key : String) : Json → Option Json
  | .obj fields => lookup key fields
  | _ => none

/-- Sets the value of a key in fields sorted by key. -/
def insert (key : String) (value : Json) : List (String × Json) → List (String × Json)
  | [] => [(key, value)]
  | (k, v) :: fields =>
    if key = k then (key, value) :: fields
    else if key < k then (key, value) :: (k, v) :: fields
    else (k, v) :: insert key value fields

/-- Fields sorted by key; of several fields with one key the last is kept. -/
def sortFields (fields : List (String × Json)) : List (String × Json) :=
  fields.foldl (fun acc (k, v) => insert k v acc) []

/-- The object with the given fields, sorted by key. -/
def ofFields (fields : List (String × Json)) : Json :=
  .obj (sortFields fields)

/-- Whether the value is an object. -/
def isObject : Json → Bool
  | .obj _ => true
  | _ => false

/-- The text of a string value. -/
def str? : Json → Option String
  | .str s => some s
  | _ => none

/-- The items of an array. -/
def arr? : Json → Option (List Json)
  | .arr items => some items
  | _ => none

/-- An optional text, null if absent. -/
def ofString? : Option String → Json
  | none => .null
  | some s => .str s

/-- A field, if there is a value for it. -/
def field? (key : String) : Option Json → List (String × Json)
  | none => []
  | some v => [(key, v)]

mutual
/-- Changes all strings of a value, keys apart. -/
def mapStrings (f : String → String) : Json → Json
  | .str s => .str (f s)
  | .arr items => .arr (mapItems f items)
  | .obj fields => .obj (mapFields f fields)
  | v => v

/-- Changes all strings of a list of values. -/
def mapItems (f : String → String) : List Json → List Json
  | [] => []
  | v :: items => v.mapStrings f :: mapItems f items

/-- Changes all strings in the values of fields. -/
def mapFields (f : String → String) : List (String × Json) → List (String × Json)
  | [] => []
  | (k, v) :: fields => (k, v.mapStrings f) :: mapFields f fields
end

/-- After setting a key, looking it up gives the value that was set. -/
@[simp] theorem lookup_insert_self (key : String) (value : Json) (fields : List (String × Json)) :
    lookup key (insert key value fields) = some value := by
  induction fields with
  | nil => simp [insert, lookup]
  | cons f fields ih =>
    obtain ⟨k, v⟩ := f
    by_cases h : key = k
    · simp [insert, lookup, h]
    · by_cases hlt : key < k
      · simp [insert, lookup, h, hlt]
      · simp [insert, lookup, h, hlt, ih, Ne.symm h]

/-- Setting a key leaves the other keys alone. -/
theorem lookup_insert_of_ne {key other : String} (h : other ≠ key) (value : Json)
    (fields : List (String × Json)) :
    lookup other (insert key value fields) = lookup other fields := by
  induction fields with
  | nil => simp [insert, lookup, Ne.symm h]
  | cons f fields ih =>
    obtain ⟨k, v⟩ := f
    by_cases hk : key = k
    · subst hk
      simp [insert, lookup, Ne.symm h]
    · by_cases hlt : key < k
      · simp [insert, lookup, hk, hlt, Ne.symm h]
      · by_cases ho : k = other
        · subst ho
          simp [insert, lookup, hk, hlt]
        · simp [insert, lookup, hk, hlt, ho, ih]

end Json

end ApprovalWorkflow
