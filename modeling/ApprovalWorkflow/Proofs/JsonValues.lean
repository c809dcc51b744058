import ApprovalWorkflow.Json.Printer
import Mathlib.Data.List.Induction
import Mathlib.Tactic.ByContra

/-!
# Sorted JSON values

`Json.numbers` lists the numbers of a value, and `Json.IsSorted` says that the keys of every
object in it ascend. Sorting fields gives ascending keys (`Json.sortFields_ascending`) and leaves
ascending fields as they are (`Json.sortFields_eq_self`); this is why a value survives being read
a second time.
-/

set_option autoImplicit false

namespace ApprovalWorkflow.Json

mutual
/-- All numbers in a value. -/
def numbers : Json → List Json.Number
  | .num n => [n]
  | .arr items => numbersOfItems items
  | .obj fields => numbersOfFields fields
  | _ => []

/-- All numbers in some values. -/
def numbersOfItems : List Json → List Json.Number
  | [] => []
  | v :: items => v.numbers ++ numbersOfItems items

/-- All numbers in the values of some fields. -/
def numbersOfFields : List (String × Json) → List Json.Number
  | [] => []
  | (_, v) :: fields => v.numbers ++ numbersOfFields fields
end

/-- The keys ascend, so that none of them is there twice. -/
def Ascending (fields : List (String × Json)) : Prop :=
  fields.Pairwise fun f g => f.1 < g.1

mutual
/-- The keys of all objects in a value ascend. -/
def IsSorted : Json → Prop
  | .arr items => IsSortedItems items
  | .obj fields => Ascending fields ∧ IsSortedFields fields
  | _ => True

/-- All items are sorted. -/
def IsSortedItems : List Json → Prop
  | [] => True
  | v :: items => v.IsSorted ∧ IsSortedItems items

/-- The values of all fields are sorted. -/
def IsSortedFields : List (String × Json) → Prop
  | [] => True
  | (_, v) :: fields => v.IsSorted ∧ IsSortedFields fields
end

/-! ## Parts of values -/

/-- A number occurs in a list of items exactly if it occurs in one of them. -/
theorem mem_numbersOfItems {n : Json.Number} {items : List Json} :
    n ∈ numbersOfItems items ↔ ∃ v ∈ items, n ∈ v.numbers := by
  induction items with
  | nil => simp [numbersOfItems]
  | cons v items ih => simp [numbersOfItems, ih]

/-- A number occurs in an object exactly if it occurs in one of its values. -/
theorem mem_numbersOfFields {n : Json.Number} {fields : List (String × Json)} :
    n ∈ numbersOfFields fields ↔ ∃ f ∈ fields, n ∈ f.2.numbers := by
  induction fields with
  | nil => simp [numbersOfFields]
  | cons f fields ih => simp [numbersOfFields, ih]

/-- A list of items is sorted exactly if each of them is. -/
theorem isSortedItems_iff {items : List Json} :
    IsSortedItems items ↔ ∀ v ∈ items, v.IsSorted := by
  induction items with
  | nil => simp [IsSortedItems]
  | cons v items ih => simp [IsSortedItems, ih]

/-- The values of an object are sorted exactly if each of them is. -/
theorem isSortedFields_iff {fields : List (String × Json)} :
    IsSortedFields fields ↔ ∀ f ∈ fields, f.2.IsSorted := by
  induction fields with
  | nil => simp [IsSortedFields]
  | cons f fields ih => simp [IsSortedFields, ih]

/-- A list of items is nested no deeper than a bound exactly if none of them is. -/
theorem depthItems_le {items : List Json} {n : Nat} :
    depthItems items ≤ n ↔ ∀ v ∈ items, v.depth ≤ n := by
  induction items with
  | nil => simp [depthItems]
  | cons v items ih => simp only [depthItems, Nat.max_le, ih, List.forall_mem_cons]

/-- The values of an object are nested no deeper than a bound exactly if none of them is. -/
theorem depthFields_le {fields : List (String × Json)} {n : Nat} :
    depthFields fields ≤ n ↔ ∀ f ∈ fields, f.2.depth ≤ n := by
  induction fields with
  | nil => simp [depthFields]
  | cons f fields ih => simp only [depthFields, Nat.max_le, ih, List.forall_mem_cons]

/-! ## Sorting fields -/

/-- What is in the fields after a key has been set. -/
theorem mem_of_mem_insert {key : String} {value : Json} {fields : List (String × Json)}
    {f : String × Json} (h : f ∈ insert key value fields) : f = (key, value) ∨ f ∈ fields := by
  induction fields with
  | nil => exact .inl (List.mem_singleton.mp h)
  | cons g fields ih =>
    obtain ⟨k, v⟩ := g
    simp only [insert] at h
    split at h
    · rcases List.mem_cons.mp h with h | h
      · exact .inl h
      · exact .inr (List.mem_cons_of_mem _ h)
    · split at h
      · exact List.mem_cons.mp h
      · rcases List.mem_cons.mp h with rfl | h
        · exact .inr List.mem_cons_self
        · exact (ih h).imp_right (List.mem_cons_of_mem _)

/-- Setting a key keeps the keys ascending. -/
theorem insert_ascending {key : String} {value : Json} {fields : List (String × Json)}
    (h : Ascending fields) : Ascending (insert key value fields) := by
  induction fields with
  | nil => exact List.pairwise_singleton _ _
  | cons g fields ih =>
    obtain ⟨k, v⟩ := g
    obtain ⟨hlt, hrest⟩ := List.pairwise_cons.mp h
    simp only [insert]
    split
    · next heq =>
      subst heq
      exact List.pairwise_cons.mpr ⟨hlt, hrest⟩
    · next hne =>
      split
      · next hbefore =>
        refine List.pairwise_cons.mpr ⟨fun f hf => ?_, h⟩
        rcases List.mem_cons.mp hf with rfl | hf
        · exact hbefore
        · exact String.lt_trans hbefore (hlt f hf)
      · next hafter =>
        refine List.pairwise_cons.mpr ⟨fun f hf => ?_, ih hrest⟩
        rcases mem_of_mem_insert hf with rfl | hf
        · by_contra hk
          -- A key that is neither the same nor smaller is greater.
          exact hne (String.le_antisymm (String.not_lt.mp hk) (String.not_lt.mp hafter))
        · exact hlt f hf

/-- There is a value for the keys of the fields and for no others. -/
theorem lookup_isSome_iff {key : String} {fields : List (String × Json)} :
    (lookup key fields).isSome ↔ key ∈ fields.map Prod.fst := by
  induction fields with
  | nil => simp [lookup]
  | cons f fields ih =>
    obtain ⟨k, v⟩ := f
    by_cases hk : k = key
    · simp [lookup, hk]
    · rw [lookup, if_neg hk, ih, List.map_cons, List.mem_cons]
      exact ⟨.inr, fun h => h.resolve_left (Ne.symm hk)⟩

/-- A key that is greater than all others goes to the end. -/
theorem insert_eq_concat {key : String} (value : Json) {fields : List (String × Json)}
    (h : ∀ f ∈ fields, f.1 < key) : insert key value fields = fields ++ [(key, value)] := by
  induction fields with
  | nil => rfl
  | cons g fields ih =>
    obtain ⟨k, v⟩ := g
    have hk : k < key := h (k, v) List.mem_cons_self
    have hne : key ≠ k := fun heq => String.lt_irrefl k (heq ▸ hk)
    have hnot : ¬ key < k := fun hlt => String.lt_irrefl k (String.lt_trans hk hlt)
    rw [insert, if_neg hne, if_neg hnot, ih fun f hf => h f (List.mem_cons_of_mem _ hf)]
    rfl

section

variable (fields : List (String × Json))

/-- Sorted fields ascend. -/
theorem sortFields_ascending : Ascending (sortFields fields) := by
  unfold sortFields
  induction fields using List.reverseRecOn with
  | nil => exact List.Pairwise.nil
  | append_singleton fields f ih =>
    rw [List.foldl_append]
    exact insert_ascending ih

variable {fields}

/-- Sorting adds no field. -/
theorem mem_of_mem_sortFields {f : String × Json} (h : f ∈ sortFields fields) : f ∈ fields := by
  unfold sortFields at h
  induction fields using List.reverseRecOn with
  | nil => exact h
  | append_singleton fields g ih =>
    rw [List.foldl_append] at h
    rcases mem_of_mem_insert h with rfl | h
    · exact List.mem_append_right _ List.mem_cons_self
    · exact List.mem_append_left _ (ih h)

/-- Ascending fields are sorted already. -/
theorem sortFields_eq_self (h : Ascending fields) : sortFields fields = fields := by
  unfold sortFields
  induction fields using List.reverseRecOn with
  | nil => rfl
  | append_singleton fields g ih =>
    obtain ⟨hfields, -, hlast⟩ := List.pairwise_append.mp h
    rw [List.foldl_append, ih hfields]
    exact insert_eq_concat g.2 fun f hf => hlast f hf g List.mem_cons_self

end

end ApprovalWorkflow.Json
