import ApprovalWorkflow.Proofs.JsonDocuments
import Mathlib.Data.List.GetD

/-!
# Values that are read as what they stand for

`Decode.Reads decode levels v a` says that the value `v` in memory is read as `a`, wherever it
comes from, if so many levels of nesting are left. There is one rule for each way to build a
decoder. The fields of a record stand in the order of declaration, the absent ones left out
(`Json.present`), and behind them those that the record does not know; `Record.Shows` is what the
reader sees of them, field by field. `Decode.Refuses` says with which problem a value is refused.
-/

set_option autoImplicit false

namespace ApprovalWorkflow

/-! ## Decoders -/

/-- The value is read as `a`. -/
def Decode.Reads {α : Type} (decode : Decoder α) (levels : Nat) (v : Json) (a : α) : Prop :=
  ∀ o, decode o levels (.ofJson v) = .ok a

/-- The value is refused with a problem. -/
def Decode.Refuses {α : Type} (decode : Decoder α) (levels : Nat) (v : Json) (e : DecodeError) :
    Prop :=
  ∀ o, decode o levels (.ofJson v) = .error e

namespace Doc

mutual
/-- A sorted value that is not too deep is its own value. -/
theorem toJson_ofJson : ∀ (v : Json) (levels : Nat), v.IsSorted → v.depth ≤ levels →
    (ofJson v).toJson levels = .ok v
  | .null, _, _, _ => rfl
  | .bool _, _, _, _ => rfl
  | .num _, _, _, _ => rfl
  | .str _, _, _, _ => rfl
  | .arr _, 0, _, hdepth => absurd hdepth (Nat.not_succ_le_zero _)
  | .obj _, 0, _, hdepth => absurd hdepth (Nat.not_succ_le_zero _)
  | .arr items, levels + 1, hsorted, hdepth => by
    rw [ofJson, toJson, toJsonItems_ofItems items levels hsorted (Nat.le_of_succ_le_succ hdepth)]
    rfl
  | .obj fields, levels + 1, hsorted, hdepth => by
    rw [ofJson, toJson,
      toJsonFields_ofFields fields levels hsorted.2 (Nat.le_of_succ_le_succ hdepth)]
    exact congrArg (fun fields => Except.ok (Json.obj fields))
      (Json.sortFields_eq_self hsorted.1)

/-- The items of a list come back from the document that is made of them, if it is not nested too
deep. -/
theorem toJsonItems_ofItems : ∀ (items : List Json) (levels : Nat), Json.IsSortedItems items →
    Json.depthItems items ≤ levels → toJsonItems levels (ofItems items) = .ok items
  | [], _, _, _ => rfl
  | v :: items, levels, hsorted, hdepth => by
    obtain ⟨hv, hitems⟩ := Nat.max_le.mp hdepth
    rw [ofItems, toJsonItems, toJson_ofJson v levels hsorted.1 hv,
      toJsonItems_ofItems items levels hsorted.2 hitems]
    rfl

/-- The fields of an object come back from the document that is made of them, in the order of
their keys. -/
theorem toJsonFields_ofFields : ∀ (fields : List (String × Json)) (levels : Nat),
    Json.IsSortedFields fields → Json.depthFields fields ≤ levels →
      toJsonFields levels (ofFields fields) = .ok fields
  | [], _, _, _ => rfl
  | (k, v) :: fields, levels, hsorted, hdepth => by
    obtain ⟨hv, hfields⟩ := Nat.max_le.mp hdepth
    rw [ofFields, toJsonFields, Key.name?, toJson_ofJson v levels hsorted.1 hv,
      toJsonFields_ofFields fields levels hsorted.2 hfields]
    rfl
end

mutual
/-- Every key of a value in memory is a string. -/
theorem firstStrayKey?_ofJson : ∀ v : Json, (ofJson v).firstStrayKey? = none
  | .null => rfl
  | .bool _ => rfl
  | .num _ => rfl
  | .str _ => rfl
  | .arr items => firstStrayKeyOfItems?_ofItems items
  | .obj fields => firstStrayKeyOfFields?_ofFields fields

/-- A document that is made of items has no key that is no text. -/
theorem firstStrayKeyOfItems?_ofItems :
    ∀ items : List Json, firstStrayKeyOfItems? (ofItems items) = none
  | [] => rfl
  | v :: items => by
    simp [ofItems, firstStrayKeyOfItems?, firstStrayKey?_ofJson v,
      firstStrayKeyOfItems?_ofItems items]

/-- A document that is made of fields has no key that is no text. -/
theorem firstStrayKeyOfFields?_ofFields :
    ∀ fields : List (String × Json), firstStrayKeyOfFields? (ofFields fields) = none
  | [] => rfl
  | (k, v) :: fields => by
    simp [ofFields, firstStrayKeyOfFields?, strayKey?, firstStrayKey?_ofJson v,
      firstStrayKeyOfFields?_ofFields fields]
end

mutual
/-- A value in memory is well-formed. -/
theorem wellFormed_ofJson : ∀ v : Json, (ofJson v).wellFormed = true
  | .null => rfl
  | .bool _ => rfl
  | .num _ => rfl
  | .str _ => rfl
  | .arr items => by simp [ofJson, wellFormed, wellFormedItems_ofItems items]
  | .obj fields => by simp [ofJson, wellFormed, wellFormedFields_ofFields fields]

/-- A document that is made of items is well formed. -/
theorem wellFormedItems_ofItems : ∀ items : List Json, wellFormedItems (ofItems items) = true
  | [] => rfl
  | v :: items => by
    simp [ofItems, wellFormedItems, wellFormed_ofJson v, wellFormedItems_ofItems items]

/-- A document that is made of fields is well formed. -/
theorem wellFormedFields_ofFields :
    ∀ fields : List (String × Json), wellFormedFields (ofFields fields) = true
  | [] => rfl
  | (k, v) :: fields => by
    simp [ofFields, wellFormedFields, wellFormed_ofJson v, wellFormedFields_ofFields fields]
end

/-- Only null stands for an absent value. -/
theorem isAbsent_ofJson {v : Json} (h : v ≠ .null) : Decode.isAbsent (ofJson v) = false := by
  cases v with
  | null => exact absurd rfl h
  | _ => rfl

end Doc

namespace Decode

variable {α : Type} {decode : Decoder α} {levels : Nat}

/-- A text is read as itself. -/
theorem reads_string (s : String) : Reads string levels (.str s) s := fun _ => rfl

/-- A truth value is read as itself. -/
theorem reads_bool (b : Bool) : Reads bool levels (.bool b) b := fun _ => rfl

/-- A natural number below the bound of its type is read as itself. -/
theorem reads_natural {n bound : Nat} (h : n < bound) (name : String) :
    Reads (natural bound name) levels (.int n) n := by
  intro o
  simp [natural, Json.int, Doc.ofJson, Doc.bare, h]

/-- A value with sorted keys is read as itself if it is not nested deeper than the levels that are
left. -/
theorem reads_json {v : Json} (hsorted : v.IsSorted) (hdepth : v.depth ≤ levels) :
    Reads json levels v v :=
  fun _ => Doc.toJson_ofJson v levels hsorted hdepth

/-- An optional value that is present is read as what its decoder makes of it. -/
theorem reads_optional {v : Json} {a : α} (hv : v ≠ .null) (h : Reads decode levels v a) :
    Reads (optional decode) levels v (some a) := by
  intro o
  simp [optional, Doc.isAbsent_ofJson hv, h o, Except.map]

/-- The name of an alternative is read as that alternative. -/
theorem reads_choice {names : List String} {ofName? : String → Option α} {name : String} {a : α}
    (h : ofName? name = some a) : Reads (choice names ofName?) levels (.str name) a := by
  intro o
  simp [choice, Doc.ofJson, h]

/-- The items of a list are decoded one by one. -/
theorem items_ofItems {β : Type} {encode : β → Json} {value : β → α} {o : Origin} (bs : List β)
    (h : ∀ b ∈ bs, decode o levels (.ofJson (encode b)) = .ok (value b)) :
    items decode o levels (Doc.ofItems (bs.map encode)) = .ok (bs.map value) := by
  induction bs with
  | nil => rfl
  | cons b bs ih =>
    rw [List.map_cons, Doc.ofItems, items, h b List.mem_cons_self,
      ih fun c hc => h c (List.mem_cons_of_mem _ hc)]
    rfl

/-- The items of an array are read one level deeper. -/
theorem reads_map {β : Type} {encode : β → Json} {value : β → α} {bs : List β}
    (h : ∀ b ∈ bs, Reads decode levels (encode b) (value b)) :
    Reads (list decode) (levels + 1) (.arr (bs.map encode)) (bs.map value) := by
  intro o
  simp only [list, Doc.ofJson, Doc.bare]
  rw [items_ofItems bs fun b hb => h b hb o]
  rfl

/-- A list is read from the array of the values of its items. -/
theorem reads_list {encode : α → Json} {as : List α}
    (h : ∀ a ∈ as, Reads decode levels (encode a) a) :
    Reads (list decode) (levels + 1) (.arr (as.map encode)) as := by
  have hlist : Reads (list decode) (levels + 1) (.arr (as.map encode)) (as.map id) := reads_map h
  rwa [List.map_id] at hlist

/-- An array is refused with the problem of the first item that is refused. -/
theorem refuses_map {β : Type} {encode : β → Json} {value : β → α} {before after : List β} {c : β}
    {e : DecodeError} (h : ∀ b ∈ before, Reads decode levels (encode b) (value b))
    (hc : Refuses decode levels (encode c) e) :
    Refuses (list decode) (levels + 1) (.arr ((before ++ c :: after).map encode)) e := by
  intro o
  have hitems : items decode o levels (Doc.ofItems ((before ++ c :: after).map encode))
      = .error e := by
    induction before with
    | nil =>
      rw [List.nil_append, List.map_cons, Doc.ofItems, items, hc o]
      rfl
    | cons b before ih =>
      obtain ⟨hb, hbefore⟩ := List.forall_mem_cons.mp h
      rw [List.cons_append, List.map_cons, Doc.ofItems, items, hb o, ih hbefore]
      rfl
  simp only [list, Doc.ofJson, Doc.bare]
  rw [hitems]
  rfl

/-- A list that is decoded has had every item decoded. -/
theorem mem_of_items_ofItems {β : Type} {encode : β → Json} {bs : List β} {as : List α}
    {o : Origin} (h : items decode o levels (Doc.ofItems (bs.map encode)) = .ok as) :
    ∀ b ∈ bs, ∃ a ∈ as, decode o levels (.ofJson (encode b)) = .ok a := by
  induction bs generalizing as with
  | nil => simp
  | cons b bs ih =>
    obtain ⟨a, ha, h⟩ := Except.bind_eq_ok.mp h
    obtain ⟨as, has, h⟩ := Except.bind_eq_ok.mp h
    cases h
    intro c hc
    rcases List.mem_cons.mp hc with rfl | hc
    · exact ⟨a, List.mem_cons_self, ha⟩
    · obtain ⟨d, hd, hread⟩ := ih has c hc
      exact ⟨d, List.mem_cons_of_mem _ hd, hread⟩

/-- If an array is read, each of its items is read. -/
theorem mem_of_list_map {β : Type} {encode : β → Json} {bs : List β} {as : List α} {o : Origin}
    (h : list decode o levels (.ofJson (.arr (bs.map encode))) = .ok as) :
    ∃ inner, ∀ b ∈ bs, ∃ a ∈ as, decode o inner (.ofJson (encode b)) = .ok a := by
  cases levels with
  | zero => cases h
  | succ inner =>
    obtain ⟨cs, hcs, h⟩ := Except.bind_eq_ok.mp h
    cases h
    exact ⟨inner, mem_of_items_ofItems hcs⟩

end Decode

/-! ## Fields of records -/

namespace Json

/-- Fields with one name each, in order; what is absent is left out. -/
def present : List (List String) → List (Option Json) → List (String × Json)
  | names :: known, v? :: values => field? (names.headD "") v? ++ present known values
  | _, _ => []

/-- The values of the fields with one of the names. -/
def named (names : List String) (fields : List (String × Json)) : List Json :=
  (fields.filter fun f => names.contains f.1).map Prod.snd

/-- The values under some names are found in the first part of the fields and then in the second.
-/
@[simp] theorem named_append (names : List String) (fields others : List (String × Json)) :
    named names (fields ++ others) = named names fields ++ named names others := by
  simp [named]

/-- A field with one of the names comes first among the values under them. -/
theorem named_cons_of_contains {names : List String} {k : String}
    (h : names.contains k = true) (v : Json) (fields : List (String × Json)) :
    named names ((k, v) :: fields) = v :: named names fields := by
  simp only [named, List.filter_cons, h, if_true, List.map_cons]

/-- A field with another name does not count. -/
theorem named_cons_of_not_contains {names : List String} {k : String}
    (h : ¬ names.contains k = true) (v : Json) (fields : List (String × Json)) :
    named names ((k, v) :: fields) = named names fields := by
  simp only [named, List.filter_cons, if_neg h]

/-- An absent value makes no field. -/
@[simp] theorem field?_none (key : String) : field? key none = [] := rfl

/-- A value that is present makes one field. -/
@[simp] theorem field?_some (key : String) (v : Json) : field? key (some v) = [(key, v)] := rfl

/-- There is no field exactly if the value is absent. -/
@[simp] theorem field?_eq_nil {key : String} {v? : Option Json} :
    field? key v? = [] ↔ v? = none := by
  cases v? <;> simp

/-- A field that is left out under some condition. -/
theorem field?_ite (c : Prop) [Decidable c] (key : String) (v : Json) :
    field? key (if c then none else some v) = if c then [] else [(key, v)] := by
  split <;> rfl

/-- No field has one of the names. -/
theorem named_eq_nil {names : List String} {fields : List (String × Json)}
    (h : ∀ f ∈ fields, f.1 ∉ names) : named names fields = [] := by
  simpa [named] using h

/-- A field that is left out has no name. -/
theorem named_field?_of_mem {names : List String} {key : String} (h : key ∈ names)
    (v? : Option Json) : named names (field? key v?) = v?.toList := by
  cases v? <;> simp [named, field?, h]

/-- Under names that a field does not have it does not count. -/
theorem named_field?_of_not_mem {names : List String} {key : String} (h : key ∉ names)
    (v? : Option Json) : named names (field? key v?) = [] := by
  cases v? <;> simp [named, field?, h]

/-- Names by which fields can be told apart. -/
def AreDistinct (known : List (List String)) : Prop :=
  [] ∉ known ∧ known.flatten.Nodup

instance (known : List (List String)) : Decidable (AreDistinct known) :=
  inferInstanceAs (Decidable (_ ∧ _))

/-- Names that tell fields apart do so without those of the first field. -/
theorem AreDistinct.tail {names : List String} {known : List (List String)}
    (h : AreDistinct (names :: known)) : AreDistinct known :=
  ⟨fun hnil => h.1 (List.mem_cons_of_mem _ hnil), (List.nodup_append.mp h.2).2.1⟩

/-- The name under which a field is written is one by which it is known. -/
theorem AreDistinct.headD_mem {names : List String} {known : List (List String)}
    (h : AreDistinct (names :: known)) : names.headD "" ∈ names := by
  cases names with
  | nil => exact absurd List.mem_cons_self h.1
  | cons name names => exact List.mem_cons_self

/-- The fields that are present have only known names. -/
theorem mem_of_mem_present {known : List (List String)} (hd : AreDistinct known)
    {values : List (Option Json)} {f : String × Json} (h : f ∈ present known values) :
    f.1 ∈ known.flatten := by
  induction known generalizing values with
  | nil => cases h
  | cons names known ih =>
    cases values with
    | nil => cases h
    | cons v? values =>
      rw [List.flatten_cons, List.mem_append]
      rcases List.mem_append.mp h with h | h
      · refine .inl ?_
        cases v? with
        | none => cases h
        | some v =>
          obtain rfl := List.mem_singleton.mp h
          exact hd.headD_mem
      · exact .inr (ih hd.tail h)

/-- Among the fields that are present, those with the names of a field are its value. -/
theorem named_present {known : List (List String)} (hd : AreDistinct known)
    {values : List (Option Json)} {index : Nat} {v? : Option Json}
    (hindex : index < known.length) (h : values[index]? = some v?) :
    named (known.getD index []) (present known values) = v?.toList := by
  induction known generalizing values index with
  | nil => cases hindex
  | cons names known ih =>
    cases values with
    | nil => cases h
    | cons w? values =>
      -- No name is one of two fields, so that the values of the others do not count.
      have hdisjoint := (List.nodup_append.mp hd.2).2.2
      rw [present, named_append]
      cases index with
      | zero =>
        obtain rfl : w? = v? := by simpa using h
        have hothers : named names (present known values) = [] :=
          named_eq_nil fun f hf hmem =>
            hdisjoint _ hmem _ (mem_of_mem_present hd.tail hf) rfl
        rw [List.getD_cons_zero, named_field?_of_mem hd.headD_mem, hothers, List.append_nil]
      | succ index =>
        have hindex' : index < known.length := Nat.lt_of_succ_lt_succ hindex
        have hother : names.headD "" ∉ known.getD index [] := by
          intro hmem
          rw [List.getD_eq_getElem _ _ hindex'] at hmem
          exact hdisjoint _ hd.headD_mem _
            (List.mem_flatten.mpr ⟨_, List.getElem_mem hindex', hmem⟩) rfl
        rw [List.getD_cons_succ, named_field?_of_not_mem hother, List.nil_append]
        exact ih hd.tail hindex' (by simpa using h)

/-! ## Integers in what is written -/

/-- A value without numbers fits. -/
theorem fits_of_numbers {v : Json} (h : v.numbers = []) : v.Fits := by
  simp [Fits, h]

/-- A text fits. -/
theorem fits_str (s : String) : (Json.str s).Fits := fits_of_numbers rfl

/-- A list fits if its items do. -/
theorem fits_arr {α : Type} {encode : α → Json} {as : List α} (h : ∀ a ∈ as, (encode a).Fits) :
    (Json.arr (as.map encode)).Fits := by
  intro i hi
  obtain ⟨v, hv, hi⟩ := mem_numbersOfItems.mp hi
  obtain ⟨a, ha, rfl⟩ := List.mem_map.mp hv
  exact h a ha i hi

section

variable {P : Json → Prop}

/-- What holds of a value holds of all that are there. -/
theorem forall_some {v : Json} (h : P v) : ∀ w ∈ some v, P w := by
  rintro w ⟨⟩
  exact h

/-- The same of a value that is left out under some condition. -/
theorem forall_ite {c : Prop} [Decidable c] {v : Json} (h : P v) :
    ∀ w ∈ (if c then none else some v), P w := by
  intro w hw
  split at hw
  · cases hw
  · exact forall_some h w hw

/-- The same of a value that is there if something else is. -/
theorem forall_map {α : Type} {encode : α → Json} {a? : Option α}
    (h : ∀ a ∈ a?, P (encode a)) : ∀ v ∈ a?.map encode, P v := by
  intro v hv
  obtain ⟨a, ha, rfl⟩ := Option.map_eq_some_iff.mp hv
  exact h a ha

end

/-- What is present in an object is one of its values. -/
theorem mem_values_of_mem_present {known : List (List String)} {values : List (Option Json)}
    {f : String × Json} (h : f ∈ present known values) : some f.2 ∈ values := by
  induction known generalizing values with
  | nil => cases h
  | cons names known ih =>
    cases values with
    | nil => cases h
    | cons v? values =>
      rcases List.mem_append.mp h with h | h
      · cases v? with
        | none => cases h
        | some v =>
          obtain rfl := List.mem_singleton.mp h
          exact List.mem_cons_self
      · exact List.mem_cons_of_mem _ (ih h)

/-- The integers of an object are those of its values. -/
theorem fits_obj {known : List (List String)} {values : List (Option Json)}
    {extra : List (String × Json)} (hvalues : ∀ v? ∈ values, ∀ v ∈ v?, v.Fits)
    (hextra : ∀ f ∈ extra, f.2.Fits) : (Json.obj (present known values ++ extra)).Fits := by
  intro i hi
  obtain ⟨f, hf, hi⟩ := mem_numbersOfFields.mp hi
  rcases List.mem_append.mp hf with hf | hf
  · exact hvalues _ (mem_values_of_mem_present hf) f.2 rfl i hi
  · exact hextra f hf i hi

end Json

namespace Record

section

variable {names : List String} {fields : List (String × Json)}

/-- A key with one of the names is named by them. -/
theorem isNamed_text (names : List String) (k : String) :
    isNamed names (.text k) = names.contains k := rfl

/-- A field that is not there is not found. -/
theorem occurrence_ofFields_eq_none (h : Json.named names fields = []) (place : Nat) :
    occurrence names place (Doc.ofFields fields) = none := by
  induction fields generalizing place with
  | nil => rfl
  | cons f fields ih =>
    obtain ⟨k, v⟩ := f
    by_cases hk : names.contains k = true
    · rw [Json.named_cons_of_contains hk] at h
      cases h
    · rw [Json.named_cons_of_not_contains hk] at h
      rw [Doc.ofFields, occurrence, isNamed_text, if_neg hk, ih h]

/-- A field that is there once is found, and no second one behind it. -/
theorem occurrence_ofFields_eq_some {v : Json} (h : Json.named names fields = [v])
    (place : Nat) :
    ∃ p, occurrence names place (Doc.ofFields fields) = some ((p, .ofJson v), none) := by
  induction fields generalizing place with
  | nil => cases h
  | cons f fields ih =>
    obtain ⟨k, w⟩ := f
    rw [Doc.ofFields, occurrence, isNamed_text]
    by_cases hk : names.contains k = true
    · rw [Json.named_cons_of_contains hk] at h
      obtain ⟨rfl, hrest⟩ := List.cons.inj h
      rw [if_pos hk, occurrence_ofFields_eq_none hrest]
      exact ⟨place, rfl⟩
    · rw [Json.named_cons_of_not_contains hk] at h
      rw [if_neg hk]
      exact ih h (place + 1)

end

/-- What the reader sees of a record: the values of its fields in order of declaration. -/
def Shows (r : Record) (values : List (Option Json)) : Prop :=
  ∃ fields, r.shape = .fields (Doc.ofFields fields) true ∧
    ∀ index v?, values[index]? = some v? →
      Json.named (r.known.getD index []) fields = v?.toList

namespace Shows

variable {α : Type} {decode : Decoder α} {r : Record} {values : List (Option Json)}
variable {index : Nat} {a : α}

/-- A field that is present is read from its value. -/
theorem field {v : Json} {absent : Decoded α} (hr : r.Shows values)
    (hv : values[index]? = some (some v)) (h : Decode.Reads decode r.levels v a) :
    r.field index absent decode = .ok a := by
  obtain ⟨fields, hshape, hnamed⟩ := hr
  obtain ⟨p, hp⟩ := occurrence_ofFields_eq_some (hnamed index (some v) hv) 0
  simp only [Record.field, hshape, hp, h r.origin]

/-- A field that is left out is absent. -/
theorem field_absent {absent : Decoded α} (hr : r.Shows values)
    (hv : values[index]? = some none) (h : absent = .ok a) :
    r.field index absent decode = .ok a := by
  obtain ⟨fields, hshape, hnamed⟩ := hr
  have hnone := occurrence_ofFields_eq_none (hnamed index none hv) 0
  simp only [Record.field, hshape, hnone, h]
  rfl

/-- A field that is left out exactly if it has its default value. -/
theorem withDefault {c : Prop} [Decidable c] {v : Json} {default : α} (hr : r.Shows values)
    (hv : values[index]? = some (if c then none else some v)) (hdefault : c → default = a)
    (h : ¬ c → Decode.Reads decode r.levels v a) : r.withDefault index default decode = .ok a := by
  by_cases hc : c
  · rw [if_pos hc] at hv
    exact hr.field_absent hv (congrArg _ (hdefault hc))
  · rw [if_neg hc] at hv
    exact hr.field hv (h hc)

/-- A field that is present has the problem of its value. -/
theorem field_refused {v : Json} {absent : Decoded α} {e : DecodeError} (hr : r.Shows values)
    (hv : values[index]? = some (some v)) (h : Decode.Refuses decode r.levels v e) :
    ∃ place, r.field index absent decode = .error (place, e) := by
  obtain ⟨fields, hshape, hnamed⟩ := hr
  obtain ⟨p, hp⟩ := occurrence_ofFields_eq_some (hnamed index (some v) hv) 0
  exact ⟨p, by simp only [Record.field, hshape, hp, h r.origin]⟩

/-- What is read from a field that is present is read from its value. -/
theorem of_field {v : Json} {absent : Decoded α} (hr : r.Shows values)
    (hv : values[index]? = some (some v)) (h : r.field index absent decode = .ok a) :
    decode r.origin r.levels (.ofJson v) = .ok a := by
  obtain ⟨fields, hshape, hnamed⟩ := hr
  obtain ⟨p, hp⟩ := occurrence_ofFields_eq_some (hnamed index (some v) hv) 0
  simp only [Record.field, hshape, hp] at h
  cases hread : decode r.origin r.levels (.ofJson v) with
  | error e => rw [hread] at h; cases h
  | ok b =>
    rw [hread] at h
    cases h
    rfl

/-- An optional field, left out if there is nothing. -/
theorem optional (encode : α → Json) {a? : Option α} (hr : r.Shows values)
    (hv : values[index]? = some (a?.map encode))
    (h : ∀ a ∈ a?, encode a ≠ .null ∧ Decode.Reads decode r.levels (encode a) a) :
    r.optional index decode = .ok a? := by
  cases a? with
  | none => exact hr.field_absent hv rfl
  | some a =>
    obtain ⟨hne, hreads⟩ := h a rfl
    exact hr.field hv (Decode.reads_optional hne hreads)

end Shows

/-! ## Whole records -/

section

variable {α : Type} {name : String} {known : List (List String)} {read : Record → Slot α}
variable {fields extra : List (String × Json)} {values : List (Option Json)} {levels : Nat}
variable {a : α}

/-- What is known and what is kept stand one behind the other. -/
theorem shows_of_present (name : String) (levels : Nat) (hd : Json.AreDistinct known)
    (hlen : values.length = known.length)
    (hextra : ∀ f ∈ extra, ∀ names ∈ known, f.1 ∉ names) (o : Origin) :
    Shows ⟨name, known, .fields (Doc.ofFields (Json.present known values ++ extra)) true, o,
      levels⟩ values := by
  refine ⟨_, rfl, fun index v? hv => ?_⟩
  have hindex : index < known.length := hlen ▸ (List.getElem?_eq_some_iff.mp hv).1
  have hothers : Json.named (known.getD index []) extra = [] := by
    rw [List.getD_eq_getElem _ _ hindex]
    exact Json.named_eq_nil fun f hf => hextra f hf _ (List.getElem_mem hindex)
  rw [Json.named_append, Json.named_present hd hindex hv, hothers, List.append_nil]

/-- Fields in memory that are not known can be passed over. -/
theorem badUnknown_ofFields (r : Record) (place : Nat) :
    r.badUnknown place (Doc.ofFields fields) = .ok () := by
  induction fields generalizing place with
  | nil => rfl
  | cons f fields ih =>
    obtain ⟨k, v⟩ := f
    simp [Doc.ofFields, badUnknown, Doc.wellFormed_ofJson, ih]

/-- Of fields in memory those are kept that are not known. -/
theorem extraFrom_ofFields {r : Record}
    (h : ∀ f ∈ fields, r.isKnown (.text f.1) = false →
      f.2.IsSorted ∧ f.2.depth ≤ r.levels) (place : Nat) :
    r.extraFrom place (Doc.ofFields fields)
      = .ok (fields.filter fun f => !r.isKnown (.text f.1)) := by
  induction fields generalizing place with
  | nil => rfl
  | cons f fields ih =>
    obtain ⟨k, v⟩ := f
    have hrest := ih (fun g hg => h g (List.mem_cons_of_mem _ hg)) (place + 1)
    rw [Doc.ofFields, extraFrom]
    cases hk : r.isKnown (.text k) with
    | true => simp [Doc.Key.name?, hk, hrest]
    | false =>
      obtain ⟨hsorted, hdepth⟩ := h (k, v) List.mem_cons_self hk
      have hvalue : (Doc.ofJson v).toJsonAside r.levels = .ok v := by
        rw [Doc.toJsonAside, Doc.firstStrayKey?_ofJson]
        exact Doc.toJson_ofJson v r.levels hsorted hdepth
      simp [Doc.Key.name?, hk, hvalue, hrest]

/-- The fields that a record keeps are read again as they are. -/
theorem extra_ofFields {r : Record} (hd : Json.AreDistinct r.known)
    (hshape : r.shape = .fields (Doc.ofFields (Json.present r.known values ++ extra)) true)
    (hextra : IsExtra r.known r.levels extra) : r.extra = .ok extra := by
  have hpresent : ∀ f ∈ Json.present r.known values, r.isKnown (.text f.1) = true := by
    intro f hf
    obtain ⟨names, hnames, hmem⟩ := List.mem_flatten.mp (Json.mem_of_mem_present hd hf)
    exact List.any_eq_true.mpr ⟨names, hnames, by simpa [isNamed_text] using hmem⟩
  have hkept : ∀ f ∈ extra, r.isKnown (.text f.1) = false := by
    intro f hf
    refine List.any_eq_false.mpr fun names hnames => ?_
    simpa [isNamed_text] using hextra.unknown f hf names hnames
  have hvalues : ∀ f ∈ Json.present r.known values ++ extra, r.isKnown (.text f.1) = false →
      f.2.IsSorted ∧ f.2.depth ≤ r.levels := by
    intro f hf hunknown
    rcases List.mem_append.mp hf with hf | hf
    · rw [hpresent f hf] at hunknown
      cases hunknown
    · exact ⟨(hextra.read f hf).sorted, (hextra.read f hf).shallow⟩
  have hfrom := extraFrom_ofFields hvalues 0
  have hfilter : (Json.present r.known values ++ extra).filter
      (fun f => !r.isKnown (.text f.1)) = extra := by
    rw [List.filter_append, List.filter_eq_nil_iff.mpr fun f hf => by simp [hpresent f hf],
      List.filter_eq_self.mpr fun f hf => by simp [hkept f hf], List.nil_append]
  rw [hfilter] at hfrom
  simp [Record.extra, hshape, hfrom, Slot.pure, Json.sortFields_eq_self hextra.ascending]

end

end Record

namespace Decode

variable {α : Type} {name : String} {known : List (List String)} {read : Record → Slot α}
variable {fields extra : List (String × Json)} {levels : Nat}
variable {a : α}

/-- A record is read from an object with its fields. -/
theorem reads_record (values : List (Option Json)) (hd : Json.AreDistinct known)
    (hlen : values.length = known.length) (hfields : fields = Json.present known values)
    (h : ∀ r : Record, r.known = known → r.levels = levels → r.Shows values → read r = .ok a) :
    Reads (record name known read) (levels + 1) (.obj fields) a := by
  intro o
  subst hfields
  have hnone : ∀ f ∈ ([] : List (String × Json)), ∀ names ∈ known, f.1 ∉ names := by simp
  have hshows := Record.shows_of_present name levels hd hlen hnone o
  rw [List.append_nil] at hshows
  simp [record, Doc.ofJson, Doc.bare, h _ rfl rfl hshows, Record.rest, Slot.pure,
    Record.badUnknown_ofFields]

/-- A record is refused with the problem of its parts. -/
theorem refuses_record (values : List (Option Json)) (hd : Json.AreDistinct known)
    (hlen : values.length = known.length) (hfields : fields = Json.present known values)
    {e : DecodeError} (h : ∀ r : Record, r.known = known → r.levels = levels → r.Shows values →
      ∃ place, read r = .error (place, e)) :
    Refuses (record name known read) (levels + 1) (.obj fields) e := by
  intro o
  subst hfields
  have hnone : ∀ f ∈ ([] : List (String × Json)), ∀ names ∈ known, f.1 ∉ names := by simp
  have hshows := Record.shows_of_present name levels hd hlen hnone o
  rw [List.append_nil] at hshows
  obtain ⟨place, hread⟩ := h _ rfl rfl hshows
  simp [record, Doc.ofJson, Doc.bare, hread, Record.rest, Slot.pure, Slot.ap, Slot.result,
    Record.badUnknown_ofFields, Except.mapError]

/-- Whatever is read from an object with the fields of a record has been read from their
values. -/
theorem of_record_present (values : List (Option Json)) (hd : Json.AreDistinct known)
    (hlen : values.length = known.length) (hfields : fields = Json.present known values)
    {o : Origin} (h : record name known read o levels (.ofJson (.obj fields)) = .ok a) :
    ∃ r : Record, r.known = known ∧ r.Shows values ∧ read r = .ok a := by
  subst hfields
  have hnone : ∀ f ∈ ([] : List (String × Json)), ∀ names ∈ known, f.1 ∉ names := by simp
  cases levels with
  | zero => cases h
  | succ levels =>
    have hshows := Record.shows_of_present name levels hd hlen hnone o
    rw [List.append_nil] at hshows
    obtain ⟨f, u, hf, -, rfl⟩ := Slot.ap_eq_ok.mp (Slot.result_eq_ok.mp h)
    obtain ⟨g, b, hg, hb, rfl⟩ := Slot.ap_eq_ok.mp hf
    cases hg
    exact ⟨_, rfl, hshows, hb⟩

/-- A record that keeps its unknown fields is read from an object with all its fields. -/
theorem reads_openRecord (values : List (Option Json)) (hd : Json.AreDistinct known)
    (hlen : values.length = known.length) (hextra : Record.IsExtra known levels extra)
    (hfields : fields = Json.present known values ++ extra)
    (h : ∀ r : Record, r.known = known → r.levels = levels → r.Shows values →
      r.extra = .ok extra → read r = .ok a) :
    Reads (openRecord name known read) (levels + 1) (.obj fields) a := by
  intro o
  subst hfields
  have hread := h _ rfl rfl
    (Record.shows_of_present name levels hd hlen hextra.unknown o)
    (Record.extra_ofFields hd rfl hextra)
  simp [openRecord, Doc.ofJson, Doc.bare, hread]

end Decode

end ApprovalWorkflow
