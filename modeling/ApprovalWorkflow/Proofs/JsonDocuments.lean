import ApprovalWorkflow.Document.Decode
import ApprovalWorkflow.Proofs.JsonText

/-!
# What is read from JSON texts

The documents of JSON texts have no scalars without quotes, and their integers have 64 bits
(`Doc.IsJson`, `Doc.isJson_ofJsonText`). `Decode.Gives decode P` says that whatever `decode` reads
from such a document has the property `P`, which may depend on the levels of nesting that were
left. There is one rule for each way to build a decoder; the rules for records take the fields of
the record apart (`Slot.ap_eq_ok`, `Record.gives_withDefault`).
-/

set_option autoImplicit false

namespace ApprovalWorkflow

/-- Two steps that may fail succeed together. -/
theorem Except.bind_eq_ok {ε α β : Type} {x : Except ε α} {f : α → Except ε β} {b : β} :
    (x >>= f) = .ok b ↔ ∃ a, x = .ok a ∧ f a = .ok b := by
  cases x <;> simp [bind, Except.bind]

/-- What is done to an error makes no result. -/
theorem Except.mapError_eq_ok {ε ε' α : Type} {x : Except ε α} {f : ε → ε'} {a : α} :
    x.mapError f = .ok a ↔ x = .ok a := by
  cases x <;> simp [Except.mapError]

/-! ## Documents of JSON texts -/

namespace Doc

/-- A key of a JSON text: it stands between quotes. -/
def Key.IsJson : Key → Prop
  | .plain _ => False
  | _ => True

mutual
/-- A document of a JSON text. -/
def IsJson : Doc → Prop
  | .plain _ => False
  | .tagged _ _ => False
  | .num (.int i) => Json.Is64Bit i
  | .seq items _ => IsJsonItems items
  | .map fields _ => IsJsonFields fields
  | _ => True

/-- Documents of a JSON text. -/
def IsJsonItems : List Doc → Prop
  | [] => True
  | d :: items => d.IsJson ∧ IsJsonItems items

/-- Fields of a JSON text. -/
def IsJsonFields : List (Key × Doc) → Prop
  | [] => True
  | (k, d) :: fields => k.IsJson ∧ d.IsJson ∧ IsJsonFields fields
end

/-- Items are documents of a JSON text exactly if each of them is. -/
theorem isJsonItems_iff {items : List Doc} : IsJsonItems items ↔ ∀ d ∈ items, d.IsJson := by
  induction items with
  | nil => simp [IsJsonItems]
  | cons d items ih => simp [IsJsonItems, ih]

/-- Fields are those of a JSON text exactly if each of them is, key and value. -/
theorem isJsonFields_iff {fields : List (Key × Doc)} :
    IsJsonFields fields ↔ ∀ f ∈ fields, f.1.IsJson ∧ f.2.IsJson := by
  induction fields with
  | nil => simp [IsJsonFields]
  | cons f fields ih => simp [IsJsonFields, ih, and_assoc]

/-- An integer that a literal denotes has 64 bits. -/
theorem is64Bit_of_int? {l : JsonLiteral} {i : Int} (h : l.int? = some i) : Json.Is64Bit i := by
  unfold JsonLiteral.int? at h
  unfold Json.Is64Bit
  split at h
  · cases h
  simp only at h
  split at h
  · split at h
    · cases h
      omega
    · cases h
  · split at h
    · cases h
      omega
    · cases h

/-- What is made of a literal is a document of a JSON text, as integers of more bits become
floats. -/
theorem isJson_ofLiteral (l : JsonLiteral) : (ofLiteral l).IsJson := by
  unfold ofLiteral
  split
  · next h => exact is64Bit_of_int? h
  · split <;> trivial

/-- What is made of the body of a text is a document of a JSON text, as it stood between quotes.
-/
theorem isJson_ofStringBody (s : Option (List Char)) : (ofStringBody s).IsJson := by
  cases s <;> trivial

/-- What is read from characters is a document of a JSON text, whatever the fuel. -/
theorem isJson_of_fuel (fuel : Nat) :
    (∀ cs, (jsonValue fuel cs).1.IsJson) ∧ (∀ cs, IsJsonItems (jsonItems fuel cs).1) ∧
      ∀ cs, IsJsonFields (jsonFields fuel cs).1 := by
  -- The three readers call each other with less fuel, so that they have to be taken together.
  induction fuel with
  | zero => exact ⟨fun _ => trivial, fun _ => trivial, fun _ => trivial⟩
  | succ fuel ih =>
    obtain ⟨hvalue, hitems, hfields⟩ := ih
    refine ⟨fun cs => ?_, fun cs => ?_, fun cs => ?_⟩
    · unfold jsonValue
      split
      · trivial
      · trivial
      · trivial
      · split
        · trivial
        · exact isJson_ofStringBody _
      · split
        · trivial
        · exact hitems _
      · split
        · trivial
        · exact hfields _
      · split
        · trivial
        · exact isJson_ofLiteral _
    · have hd := hvalue cs
      unfold jsonItems
      split
      · next heq => rw [heq] at hd; exact ⟨hd, trivial⟩
      · next heq =>
        rw [heq] at hd
        split
        · exact ⟨hd, trivial⟩
        · exact ⟨hd, hitems _⟩
        · exact ⟨hd, trivial⟩
    · unfold jsonFields
      split
      · split
        · trivial
        · next name rest _ =>
          extract_lets key
          have hkey : key.IsJson := by cases name <;> trivial
          clear_value key
          split
          · next text _ =>
            have hd := hvalue text
            split
            · next heq => rw [heq] at hd; exact ⟨hkey, hd, trivial⟩
            · next heq =>
              rw [heq] at hd
              split
              · exact ⟨hkey, hd, trivial⟩
              · exact ⟨hkey, hd, hfields _⟩
              · exact ⟨hkey, hd, trivial⟩
          · exact ⟨hkey, trivial, trivial⟩
      · trivial

/-- A JSON text holds a document of a JSON text. -/
theorem isJson_ofJsonText (text : String) : (ofJsonText text).root.IsJson := by
  have h := (isJson_of_fuel (2 * text.toList.length + 2)).1 text.toList
  simp only [ofJsonText]
  split
  · next heq => rw [heq] at h; exact h
  · next heq => rw [heq] at h; exact h

end Doc

/-! ## Values of documents -/

/-- All integers in the value have 64 bits. -/
def Json.Fits (v : Json) : Prop := ∀ i, Json.Number.int i ∈ v.numbers → Json.Is64Bit i

/-- What is known of a value that has been read with some levels of nesting left. -/
structure Json.IsRead (levels : Nat) (v : Json) : Prop where
  sorted : v.IsSorted
  fits : v.Fits
  shallow : v.depth ≤ levels

namespace Json.IsRead

variable {levels : Nat} {items : List Json} {fields : List (String × Json)}

/-- A value without parts has been read, whatever the levels. -/
theorem scalar {v : Json} (hsorted : v.IsSorted) (hnumbers : v.numbers = [])
    (hdepth : v.depth = 0) :
    v.IsRead levels where
  sorted := hsorted
  fits := by simp [Fits, hnumbers]
  shallow := hdepth ▸ Nat.zero_le levels

/-- Items that have been read make an array that has been read. -/
theorem arr (h : ∀ v ∈ items, v.IsRead levels) : (Json.arr items).IsRead (levels + 1) where
  sorted := isSortedItems_iff.mpr fun v hv => (h v hv).sorted
  fits i hi := by
    obtain ⟨v, hv, hi⟩ := mem_numbersOfItems.mp hi
    exact (h v hv).fits i hi
  shallow := Nat.succ_le_succ (depthItems_le.mpr fun v hv => (h v hv).shallow)

/-- Fields whose values have been read make an object that has been read. -/
theorem ofFields (h : ∀ f ∈ fields, f.2.IsRead levels) :
    (Json.ofFields fields).IsRead (levels + 1) where
  sorted := ⟨sortFields_ascending fields,
    isSortedFields_iff.mpr fun f hf => (h f (mem_of_mem_sortFields hf)).sorted⟩
  fits i hi := by
    obtain ⟨f, hf, hi⟩ := mem_numbersOfFields.mp hi
    exact (h f (mem_of_mem_sortFields hf)).fits i hi
  shallow := Nat.succ_le_succ
    (depthFields_le.mpr fun f hf => (h f (mem_of_mem_sortFields hf)).shallow)

end Json.IsRead

namespace Doc

/-- Only a complete document has a value. -/
theorem eq_of_complete {complete : Bool} {v w : Json}
    (h : (if complete then .ok v else .error .malformed : Decoded Json) = .ok w) :
    complete = true ∧ v = w := by
  cases complete with
  | false => cases h
  | true => exact ⟨rfl, by cases h; rfl⟩

mutual
/-- The value of a document of a JSON text. -/
theorem isRead_of_toJson : ∀ (d : Doc) (levels : Nat) (v : Json), d.IsJson →
    d.toJson levels = .ok v → v.IsRead levels
  | .null, _, _, _, h => by cases h; exact .scalar trivial rfl rfl
  | .bool _, _, _, _, h => by cases h; exact .scalar trivial rfl rfl
  | .str _, _, _, _, h => by cases h; exact .scalar trivial rfl rfl
  | .num (.float _), _, _, _, h => by
    cases h; exact ⟨trivial, by simp [Json.Fits, Json.numbers], Nat.zero_le _⟩
  | .num (.int i), _, _, hd, h => by
    cases h
    refine ⟨trivial, fun j hj => ?_, Nat.zero_le _⟩
    obtain rfl : j = i := by simpa [Json.numbers] using hj
    exact hd
  | .plain _, _, _, hd, _ => hd.elim
  | .tagged _ _, _, _, hd, _ => hd.elim
  | .unreadable, _, _, _, h => by cases h
  | .broken, _, _, _, h => by cases h
  | .seq _ _, 0, _, _, h => by cases h
  | .map _ _, 0, _, _, h => by cases h
  | .seq items complete, levels + 1, v, hd, h => by
    rw [toJson] at h
    obtain ⟨vs, hvs, h⟩ := Except.bind_eq_ok.mp h
    obtain ⟨-, rfl⟩ := eq_of_complete h
    exact .arr (isRead_of_toJsonItems items levels vs hd hvs)
  | .map fields complete, levels + 1, v, hd, h => by
    rw [toJson] at h
    obtain ⟨vs, hvs, h⟩ := Except.bind_eq_ok.mp h
    obtain ⟨-, rfl⟩ := eq_of_complete h
    exact .ofFields (isRead_of_toJsonFields fields levels vs hd hvs)

/-- Values that come out of the items of a JSON text are such as have been read. -/
theorem isRead_of_toJsonItems : ∀ (items : List Doc) (levels : Nat) (vs : List Json),
    IsJsonItems items → toJsonItems levels items = .ok vs → ∀ v ∈ vs, v.IsRead levels
  | [], _, _, _, h => by cases h; simp
  | d :: items, levels, vs, hd, h => by
    rw [toJsonItems] at h
    obtain ⟨v, hv, h⟩ := Except.bind_eq_ok.mp h
    obtain ⟨ws, hws, h⟩ := Except.bind_eq_ok.mp h
    cases h
    have hhead := isRead_of_toJson d levels v hd.1 hv
    have htail := isRead_of_toJsonItems items levels ws hd.2 hws
    simpa using ⟨hhead, htail⟩

/-- Values that come out of the fields of a JSON text are such as have been read. -/
theorem isRead_of_toJsonFields : ∀ (fields : List (Key × Doc)) (levels : Nat)
    (vs : List (String × Json)), IsJsonFields fields → toJsonFields levels fields = .ok vs →
      ∀ f ∈ vs, f.2.IsRead levels
  | [], _, _, _, h => by cases h; simp
  | (k, d) :: fields, levels, vs, hd, h => by
    rw [toJsonFields] at h
    split at h
    · cases h
    · obtain ⟨v, hv, h⟩ := Except.bind_eq_ok.mp h
      obtain ⟨ws, hws, h⟩ := Except.bind_eq_ok.mp h
      cases h
      intro f hf
      rcases List.mem_cons.mp hf with rfl | hf
      · exact isRead_of_toJson d levels v hd.2.1 hv
      · exact isRead_of_toJsonFields fields levels ws hd.2.2 hws f hf
end

/-- A document whose value is null is null itself. -/
theorem eq_null_of_toJson {d : Doc} {levels : Nat} (hd : d.IsJson)
    (h : d.toJson levels = .ok .null) : d = .null := by
  cases d with
  | null => rfl
  | plain s => exact hd.elim
  | seq items complete =>
    cases levels with
    | zero => cases h
    | succ levels =>
      rw [toJson] at h
      obtain ⟨vs, -, h⟩ := Except.bind_eq_ok.mp h
      cases (eq_of_complete h).2
  | map fields complete =>
    cases levels with
    | zero => cases h
    | succ levels =>
      rw [toJson] at h
      obtain ⟨vs, -, h⟩ := Except.bind_eq_ok.mp h
      cases (eq_of_complete h).2
  | bool b => cases h
  | num n => cases h
  | str s => cases h
  | tagged kind d => cases h
  | unreadable => cases h
  | broken => cases h

/-- A document of a JSON text has no kind of its own. -/
theorem IsJson.bare_eq {d : Doc} (h : d.IsJson) : d.bare = d := by
  cases d with
  | tagged kind d => exact h.elim
  | _ => rfl

/-- A document of a JSON text is no empty scalar without quotes. -/
theorem IsJson.isEmptyScalar {d : Doc} (h : d.IsJson) : Decode.isEmptyScalar d = false := by
  cases d with
  | plain s => exact h.elim
  | _ => rfl

/-- A mismatch gives nothing. -/
theorem mismatch_ne_ok {α : Type} (d : Doc) (expected : String) (a : α) :
    d.mismatch expected ≠ .ok a := by
  unfold mismatch
  split <;> simp

end Doc

/-! ## Decoders -/

/-- Whatever is read from a document of a JSON text, with some levels of nesting left, has the
property. -/
def Decode.Gives {α : Type} (decode : Decoder α) (P : Nat → α → Prop) : Prop :=
  ∀ (o : Origin) (levels : Nat) (d : Doc) (a : α), d.IsJson → decode o levels d = .ok a →
    P levels a

/-- A record that is read from a JSON text. -/
def Record.IsJson (r : Record) : Prop :=
  match r.shape with
  | .fields fields _ => Doc.IsJsonFields fields
  | .items items _ => Doc.IsJsonItems items

/-- Fields that a record keeps although it does not know them: the keys ascend, and none of them
is the name of a known field. -/
structure Record.IsExtra (known : List (List String)) (levels : Nat)
    (fields : List (String × Json)) : Prop where
  ascending : Json.Ascending fields
  unknown : ∀ f ∈ fields, ∀ names ∈ known, f.1 ∉ names
  read : ∀ f ∈ fields, f.2.IsRead levels

namespace Slot

variable {α β : Type} {f : Slot (α → β)} {x : Slot α} {b : β}

/-- Two parts succeed together. -/
theorem ap_eq_ok : f.ap x = .ok b ↔ ∃ g a, f = .ok g ∧ x = .ok a ∧ g a = b := by
  cases f <;> cases x <;> simp [ap]

/-- Whether something is read does not depend on the place at which a problem is reported. -/
theorem placed_eq_ok {place : Nat} {x : Decoded α} {a : α} :
    placed place x = .ok a ↔ x = .ok a := Except.mapError_eq_ok

/-- Whether a slot gives something does not depend on where its problems are reported. -/
theorem result_eq_ok {x : Slot α} {a : α} : x.result = .ok a ↔ x = .ok a :=
  Except.mapError_eq_ok

end Slot

namespace Decode

variable {α : Type} {decode : Decoder α} {P : Nat → α → Prop}

/-- Whatever is read as a value is such as has been read. -/
theorem gives_json : Gives json fun levels v => v.IsRead levels :=
  fun _ levels d v hd h => Doc.isRead_of_toJson d levels v hd h

/-- A text is read if the document in it is read and only blanks follow. -/
theorem fromText_eq_ok {text : String} {a : α} : fromText decode text = .ok a ↔
    decode .text textLevels (Doc.ofJsonText text).root = .ok a ∧
      (Doc.ofJsonText text).ended = true := by
  unfold fromText
  dsimp only
  cases decode .text textLevels (Doc.ofJsonText text).root <;>
    cases (Doc.ofJsonText text).ended <;> simp

/-- Whatever is read from a text has the property. -/
theorem Gives.of_fromText (h : Gives decode P) {text : String} {a : α}
    (ha : fromText decode text = .ok a) : P textLevels a :=
  h .text textLevels _ a (Doc.isJson_ofJsonText text) (fromText_eq_ok.mp ha).1

/-- An optional value is absent, or it has been read. -/
theorem of_optional {o : Origin} {levels : Nat} {d : Doc} {a : α}
    (h : optional decode o levels d = .ok (some a)) :
    isAbsent d = false ∧ decode o levels d = .ok a := by
  unfold optional at h
  split at h
  · cases h
  · next hd =>
    obtain ⟨b, hb, heq⟩ : ∃ b, decode o levels d = .ok b ∧ some b = some a := by
      cases hdec : decode o levels d with
      | error e => rw [hdec] at h; cases h
      | ok b => rw [hdec] at h; exact ⟨b, rfl, by simpa [Except.map] using h⟩
    cases heq
    exact ⟨by simpa using hd, hb⟩

/-- What an optional value gives has the property if what its decoder gives has it. -/
theorem gives_optional (h : Gives decode P) :
    Gives (optional decode) fun levels a? => ∀ a ∈ a?, P levels a := by
  rintro o levels d a? hd ha a rfl
  exact h o levels d a hd (of_optional ha).2

/-- An optional value of any kind is never null. -/
theorem gives_optional_json :
    Gives (optional json) fun levels v? => ∀ v ∈ v?, v ≠ .null ∧ v.IsRead levels := by
  rintro o levels d v? hd hv v rfl
  obtain ⟨habsent, hv⟩ := of_optional hv
  refine ⟨?_, gives_json o levels d v hd hv⟩
  rintro rfl
  rw [Doc.eq_null_of_toJson hd hv] at habsent
  cases habsent

/-- The items of a sequence. -/
theorem of_items (h : Gives decode P) {o : Origin} {levels : Nat} (ds : List Doc) (as : List α)
    (hds : Doc.IsJsonItems ds) (has : items decode o levels ds = .ok as) :
    ∀ a ∈ as, P levels a := by
  induction ds generalizing as with
  | nil => cases has; simp
  | cons d ds ih =>
    rw [items] at has
    obtain ⟨a, ha, has⟩ := Except.bind_eq_ok.mp has
    obtain ⟨bs, hbs, has⟩ := Except.bind_eq_ok.mp has
    cases has
    have hhead := h o levels d a hds.1 ha
    have htail := ih bs hds.2 hbs
    simpa using ⟨hhead, htail⟩

/-- A list that is read from a JSON text is one of its sequences, read item by item with one level
less. -/
theorem of_list {o : Origin} {levels : Nat} {d : Doc} {as : List α} (hd : d.IsJson)
    (h : list decode o levels d = .ok as) :
    ∃ inner ds, levels = inner + 1 ∧ Doc.IsJsonItems ds ∧ items decode o inner ds = .ok as := by
  unfold list at h
  rw [hd.bare_eq] at h
  split at h
  · cases h
  · next ds complete inner =>
    obtain ⟨bs, hbs, h⟩ := Except.bind_eq_ok.mp h
    cases complete with
    | false => cases h
    | true =>
      cases h
      exact ⟨inner, ds, rfl, hd, hbs⟩
  · rw [hd.isEmptyScalar] at h
    exact absurd h (Doc.mismatch_ne_ok _ _ _)

/-- The items of a sequence stand one level deeper. -/
theorem gives_list (h : Gives decode P) :
    Gives (list decode) fun levels as => ∀ a ∈ as, P (levels - 1) a := by
  intro o levels d as hd has
  obtain ⟨inner, ds, rfl, hds, has⟩ := of_list hd has
  exact of_items h ds as hds has

section

variable {o : Origin} {levels : Nat} {d : Doc} {name : String} {known : List (List String)}
variable {read : Record → Slot α} {a : α}

/-- What is read from a record has been read from its parts, one level deeper. -/
theorem of_record (hd : d.IsJson) (h : record name known read o levels d = .ok a) :
    ∃ r : Record, levels = r.levels + 1 ∧ r.known = known ∧ r.IsJson ∧ read r = .ok a := by
  unfold record at h
  rw [hd.bare_eq] at h
  have hfinish {r : Record}
      (hr : Slot.result ((Slot.pure fun a _ => a).ap (read r) |>.ap r.rest) = .ok a) :
      read r = .ok a := by
    obtain ⟨f, u, hf, -, rfl⟩ := Slot.ap_eq_ok.mp (Slot.result_eq_ok.mp hr)
    obtain ⟨g, b, hg, hb, rfl⟩ := Slot.ap_eq_ok.mp hf
    cases hg
    exact hb
  split at h
  · cases h
  · next fields complete inner =>
    exact ⟨⟨name, known, .fields fields complete, o, inner⟩, rfl, rfl, hd, hfinish h⟩
  · next items complete =>
    split at h
    · exact absurd h (Doc.mismatch_ne_ok _ _ _)
    · split at h
      · cases h
      · next inner =>
        exact ⟨⟨name, known, .items items complete, o, inner⟩, rfl, rfl, hd, hfinish h⟩
  · rw [hd.isEmptyScalar] at h
    exact absurd h (Doc.mismatch_ne_ok _ _ _)

/-- The same of a record that keeps its unknown fields. -/
theorem of_openRecord (hd : d.IsJson) (h : openRecord name known read o levels d = .ok a) :
    ∃ r : Record, levels = r.levels + 1 ∧ r.known = known ∧ r.IsJson ∧ read r = .ok a := by
  unfold openRecord at h
  rw [hd.bare_eq] at h
  split at h
  · cases h
  · next fields complete inner =>
    exact ⟨⟨name, known, .fields fields complete, o, inner⟩, rfl, rfl, hd,
      Slot.result_eq_ok.mp h⟩
  · rw [hd.isEmptyScalar] at h
    exact absurd h (Doc.mismatch_ne_ok _ _ _)

end

end Decode

/-! ## Fields of records -/

namespace Record

variable {α : Type} {decode : Decoder α} {P : Nat → α → Prop} {r : Record} {index : Nat}

/-- A field that occurs is one of the fields. -/
theorem mem_of_occurrence {names : List String} {fields : List (Doc.Key × Doc)} {place : Nat}
    {p : Nat} {d : Doc} {again : Option Nat}
    (h : occurrence names place fields = some ((p, d), again)) : ∃ k, (k, d) ∈ fields := by
  induction fields generalizing place again with
  | nil => cases h
  | cons f fields ih =>
    obtain ⟨k, e⟩ := f
    rw [occurrence] at h
    split at h
    · cases h
      exact ⟨k, List.mem_cons_self⟩
    · obtain ⟨l, hl⟩ := ih h
      exact ⟨l, List.mem_cons_of_mem _ hl⟩

/-- A field that has been read was absent, or some part of the record stands for it. -/
theorem of_field {absent : Decoded α} {a : α} (hr : r.IsJson)
    (h : r.field index absent decode = .ok a) :
    absent = .ok a ∨ ∃ d, d.IsJson ∧ decode r.origin r.levels d = .ok a := by
  unfold field at h
  unfold IsJson at hr
  split at h
  · next fields complete hshape =>
    rw [hshape] at hr
    split at h
    · exact .inl (Slot.placed_eq_ok.mp h)
    · next hoccurs =>
      obtain ⟨k, hmem⟩ := mem_of_occurrence hoccurs
      split at h
      · cases h
      · cases h
      · next hdecode =>
        cases h
        exact .inr ⟨_, (Doc.isJsonFields_iff.mp hr _ hmem).2, hdecode⟩
  · next items complete hshape =>
    rw [hshape] at hr
    split at h
    · next d hd =>
      exact .inr ⟨d, Doc.isJsonItems_iff.mp hr d (List.mem_of_getElem? hd),
        Slot.placed_eq_ok.mp h⟩
    · split at h
      · cases h
        exact .inl rfl
      · cases h

/-- What is read for a field with a default has a property of which the default is not in need. -/
theorem gives_withDefault (hg : Decode.Gives decode P) (hr : r.IsJson) {default a : α}
    (hdefault : P r.levels default) (h : r.withDefault index default decode = .ok a) :
    P r.levels a := by
  rcases of_field hr h with h | ⟨d, hd, h⟩
  · cases h
    exact hdefault
  · exact hg _ _ d a hd h

/-- What an optional field gives has the property if what its decoder gives has it. -/
theorem gives_optional (hg : Decode.Gives (Decode.optional decode) fun levels a? =>
    ∀ a ∈ a?, P levels a) (hr : r.IsJson) {a? : Option α}
    (h : r.optional index decode = .ok a?) : ∀ a ∈ a?, P r.levels a :=
  gives_withDefault hg hr (by simp) h

/-- A key that is not known is no name of a known field. -/
theorem not_mem_of_isKnown {key : Doc.Key} {k : String} (hk : key.name? = some k)
    (h : r.isKnown key = false) : ∀ names ∈ r.known, k ∉ names := by
  intro names hnames hmem
  have hany : r.isKnown key = true :=
    List.any_eq_true.mpr ⟨names, hnames, by simp [isNamed, hk, hmem]⟩
  rw [h] at hany
  cases hany

/-- A value that is set aside from a JSON text is such as has been read. -/
theorem of_toJsonAside {levels : Nat} {d : Doc} {v : Json} (hd : d.IsJson)
    (h : d.toJsonAside levels = .ok v) : v.IsRead levels := by
  unfold Doc.toJsonAside at h
  split at h
  · cases h
  · exact Doc.isRead_of_toJson d levels v hd h

/-- The fields that are kept are not known, and their values have been read. -/
theorem of_extraFrom {place : Nat} {fields : List (Doc.Key × Doc)} {vs : List (String × Json)}
    (hfields : Doc.IsJsonFields fields) (h : r.extraFrom place fields = .ok vs) :
    ∀ f ∈ vs, (∀ names ∈ r.known, f.1 ∉ names) ∧ f.2.IsRead r.levels := by
  induction fields generalizing place vs with
  | nil => cases h; simp
  | cons f fields ih =>
    obtain ⟨key, d⟩ := f
    rw [extraFrom] at h
    split at h
    · cases h
    next k hk =>
    split at h
    · exact ih hfields.2.2 h
    next hunknown =>
    split at h
    · cases h
    next v hv =>
    split at h
    · cases h
    next ws hws =>
    cases h
    intro f hf
    rcases List.mem_cons.mp hf with rfl | hf
    · exact ⟨not_mem_of_isKnown hk (by simpa using hunknown), of_toJsonAside hfields.2.1 hv⟩
    · exact ih hfields.2.2 hws f hf

/-- The fields that a record keeps ascend, are not known, and their values have been read. -/
theorem of_extra {vs : List (String × Json)} (hr : r.IsJson) (h : r.extra = .ok vs) :
    IsExtra r.known r.levels vs := by
  unfold extra at h
  unfold IsJson at hr
  split at h
  · next fields complete hshape =>
    rw [hshape] at hr
    obtain ⟨f, u, hf, -, rfl⟩ := Slot.ap_eq_ok.mp h
    obtain ⟨g, ws, hg, hws, rfl⟩ := Slot.ap_eq_ok.mp hf
    cases hg
    have hall := of_extraFrom hr hws
    exact
      { ascending := Json.sortFields_ascending ws
        unknown := fun f hf => (hall f (Json.mem_of_mem_sortFields hf)).1
        read := fun f hf => (hall f (Json.mem_of_mem_sortFields hf)).2 }
  · cases h

end Record

end ApprovalWorkflow
