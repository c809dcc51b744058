import ApprovalWorkflow.Document.Scalar
import ApprovalWorkflow.Document.JsonText

/-!
# Reading values and records from documents

The decoders for the parts that records are made of. A record is a mapping, or a sequence of
its fields in order of declaration. `Slot` is the result of one field together with the place
of its problem: when several fields have problems, the one that stands first in the document is
reported, and a missing field is reported only if nothing else is wrong (`Slot.ap`).

`levels` is the number of levels of nesting that may still be entered. Texts allow 127; values
that are in memory already are given as many as they need.
-/

set_option autoImplicit false

namespace ApprovalWorkflow

/-- Where a document comes from. It decides how superfluous items of a record written as a
sequence are reported. -/
inductive Origin where
  /-- A JSON text that is being read. -/
  | text
  /-- A value in memory. -/
  | value
  /-- A part of a text that was read before anyone knew what it stands for. -/
  | buffered
  /-- A YAML text. -/
  | yaml
deriving DecidableEq, Repr

/-- The result of reading. -/
abbrev Decoded (α : Type) := Except DecodeError α

/-- A decoder for documents of any origin, with the levels of nesting left. -/
abbrev Decoder (α : Type) := Origin → Nat → Doc → Decoded α

/-- The levels of nesting that a text may have. -/
def textLevels : Nat := 127

namespace Doc

/-- The kind of a document, where something else was wanted. -/
def found : Doc → Decoded Found
  | .null => .ok .null
  | .bool b => .ok (.bool b)
  | .num n => .ok (.num n)
  | .str s => .ok (.str s)
  | .plain s => .ok (plainFound s)
  | .seq _ _ => .ok .seq
  | .map _ _ => .ok .map
  | .tagged _ d => d.found
  | .unreadable => .error .malformed
  | .broken => .error .malformed

/-- Something else was wanted. -/
def mismatch {α : Type} (d : Doc) (expected : String) : Decoded α :=
  match d.found with
  | .ok f => .error (.invalidType f expected)
  | .error e => .error e

mutual
/-- How deep sequences and mappings are nested. -/
def depth : Doc → Nat
  | .seq items _ => depthItems items + 1
  | .map fields _ => depthFields fields + 1
  | .tagged _ d => d.depth
  | _ => 0

/-- The deepest nesting among items. -/
def depthItems : List Doc → Nat
  | [] => 0
  | d :: items => max d.depth (depthItems items)

/-- The deepest nesting among fields. -/
def depthFields : List (Key × Doc) → Nat
  | [] => 0
  | (_, d) :: fields => max d.depth (depthFields fields)
end

mutual
/-- The JSON value of a document. -/
def toJson (levels : Nat) : Doc → Decoded Json
  | .null => .ok .null
  | .bool b => .ok (.bool b)
  | .num n => .ok (.num n)
  | .str s => .ok (.str s)
  | .plain s => plainJson s
  | .seq items complete =>
    match levels with
    | 0 => .error .malformed
    | levels + 1 => do
      let items ← toJsonItems levels items
      if complete then .ok (.arr items) else .error .malformed
  | .map fields complete =>
    match levels with
    | 0 => .error .malformed
    | levels + 1 => do
      let fields ← toJsonFields levels fields
      if complete then .ok (.ofFields fields) else .error .malformed
  | .tagged _ _ => .error .malformed
  | .unreadable => .error .malformed
  | .broken => .error .malformed

/-- The values of items. -/
def toJsonItems (levels : Nat) : List Doc → Decoded (List Json)
  | [] => .ok []
  | d :: items => do
    let v ← d.toJson levels
    let vs ← toJsonItems levels items
    .ok (v :: vs)

/-- The fields of an object, in the order of the document. -/
def toJsonFields (levels : Nat) : List (Key × Doc) → Decoded (List (String × Json))
  | [] => .ok []
  | (key, d) :: fields =>
    match key.name? with
    | none => .error .malformed
    | some k => do
      let v ← d.toJson levels
      let vs ← toJsonFields levels fields
      .ok ((k, v) :: vs)
end

/-- What a key stands for, if it is no string. -/
def strayKey? : Key → Option Found
  | .plain s =>
    match plainFound s with
    | .str _ => none
    | found => some found
  | _ => none

mutual
/-- The first key in a document that is no string. -/
def firstStrayKey? : Doc → Option Found
  | .seq items _ => firstStrayKeyOfItems? items
  | .map fields _ => firstStrayKeyOfFields? fields
  | .tagged _ d => d.firstStrayKey?
  | _ => none

/-- The first key in some items that is no string. -/
def firstStrayKeyOfItems? : List Doc → Option Found
  | [] => none
  | d :: items => d.firstStrayKey?.or (firstStrayKeyOfItems? items)

/-- The first key in some fields that is no string. -/
def firstStrayKeyOfFields? : List (Key × Doc) → Option Found
  | [] => none
  | (key, d) :: fields =>
    (strayKey? key).or (d.firstStrayKey?.or (firstStrayKeyOfFields? fields))
end

/-- The JSON value of a document that has been set aside. Its keys have become values of their
own, and have to be strings. -/
def toJsonAside (levels : Nat) (d : Doc) : Decoded Json :=
  match d.firstStrayKey? with
  | some found => .error (.invalidType found "a string key")
  | none => d.toJson levels

end Doc

namespace Decode

/-- Any value. -/
def json : Decoder Json := fun _ levels d => d.toJson levels

/-- Whether a document stands for an absent value where one is optional. -/
def isAbsent : Doc → Bool
  | .null => true
  | .plain s => s == "" || Doc.isNullWord s
  | _ => false

/-- An optional value: null is absent. -/
def optional {α : Type} (decode : Decoder α) : Decoder (Option α) := fun o levels d =>
  if isAbsent d then .ok none else (decode o levels d).map some

/-- A string. -/
def string : Decoder String := fun _ _ d =>
  match d.bare with
  | .str s => .ok s
  | .plain s => .ok s
  | d => d.mismatch "a string"

/-- A boolean. -/
def bool : Decoder Bool := fun _ _ d =>
  match d.bare with
  | .bool b => .ok b
  | .plain s =>
    match Doc.boolWord? s with
    | some b => .ok b
    | none => d.mismatch "a boolean"
  | d => d.mismatch "a boolean"

/-- A natural number below `bound`, of the kind `name`. -/
def natural (bound : Nat) (name : String) : Decoder Nat := fun _ _ d =>
  match d.bare with
  | .num (.int i) =>
    if 0 ≤ i ∧ i < bound then .ok i.toNat
    else .error (.invalidValue (.num (.int i)) name)
  | .plain s =>
    match Doc.natural? s.toList with
    | some n => if n < bound then .ok n else d.mismatch name
    | none => d.mismatch name
  | d => d.mismatch name

/-- A scalar without quotes that is empty stands for an empty sequence or mapping. -/
def isEmptyScalar : Doc → Bool
  | .plain s => s == ""
  | _ => false

/-- The items of a sequence, one after another. -/
def items {α : Type} (decode : Decoder α) (o : Origin) (levels : Nat) :
    List Doc → Decoded (List α)
  | [] => .ok []
  | d :: rest => do
    let a ← decode o levels d
    let as ← items decode o levels rest
    .ok (a :: as)

/-- A sequence. -/
def list {α : Type} (decode : Decoder α) : Decoder (List α) := fun o levels d =>
  match d.bare, levels with
  | .seq _ _, 0 => .error .malformed
  | .seq ds complete, levels + 1 => do
    let as ← items decode o levels ds
    if complete then .ok as else .error .malformed
  | d, _ => if isEmptyScalar d then .ok [] else d.mismatch "a sequence"

/-- One of the named alternatives: its name, or a mapping from its name to null. -/
def choice {α : Type} (names : List String) (ofName? : String → Option α) : Decoder α :=
  fun o _ d =>
    let named (name : String) : Decoded α :=
      match ofName? name with
      | some a => .ok a
      | none => .error (.unknownVariant name names)
    match d with
    | .str s => named s
    | .plain s => named s
    | .map [(key, inner)] true =>
      match key.name? with
      | none => .error .malformed
      | some name => do
        let a ← named name
        match inner with
        | .null => .ok a
        | .map [] true => if o = .buffered then .ok a else inner.mismatch "unit"
        | inner => inner.mismatch "unit"
    | .map _ _ => .error (.invalidValue .map "map with a single key")
    | d => d.mismatch "string or map"

end Decode

/-- The result of one part of a record, with the place of the problem if there is one. -/
abbrev Slot (α : Type) := Except (Nat × DecodeError) α

namespace Slot

/-- A part that cannot have a problem. -/
def pure {α : Type} (a : α) : Slot α := .ok a

/-- Two parts together; of two problems the one that comes first in the document. -/
def ap {α β : Type} (f : Slot (α → β)) (x : Slot α) : Slot β :=
  match f, x with
  | .ok f, .ok a => .ok (f a)
  | .error e, .ok _ => .error e
  | .ok _, .error e => .error e
  | .error e, .error e' => .error (if e'.1 < e.1 then e' else e)

/-- A problem at a place. -/
def placed {α : Type} (place : Nat) (x : Decoded α) : Slot α :=
  x.mapError fun e => (place, e)

/-- The result without the place. -/
def result {α : Type} (x : Slot α) : Decoded α :=
  x.mapError Prod.snd

/-- A function that has been read is applied to a value that has been read. -/
@[simp] theorem ap_ok {α β : Type} (f : α → β) (a : α) :
    ap (.ok f) (.ok a) = .ok (f a) := rfl

/-- What has been read of a record is its result. -/
@[simp] theorem result_ok {α : Type} (a : α) : result (.ok a : Slot α) = .ok a := rfl

end Slot

/-- The shape in which a record is written. -/
inductive RecordShape where
  | fields (fields : List (Doc.Key × Doc)) (complete : Bool)
  | items (items : List Doc) (complete : Bool)
deriving Repr

/-- A record that is being read: its shape, its origin and the levels of nesting inside. -/
structure Record where
  /-- What the record is called in messages. -/
  name : String
  /-- The names of its fields in order of declaration; aliases stand behind their field. -/
  known : List (List String)
  shape : RecordShape
  origin : Origin
  levels : Nat

namespace Record

/-- Whether a key is one of the names of a field. -/
def isNamed (names : List String) (key : Doc.Key) : Bool :=
  key.name?.any fun name => names.contains name

/-- The first field with one of the names, with its place, and the place of the next one. -/
def occurrence (names : List String) :
    Nat → List (Doc.Key × Doc) → Option ((Nat × Doc) × Option Nat)
  | _, [] => none
  | place, (k, d) :: fields =>
    if isNamed names k then
      some ((place, d), (occurrence names (place + 1) fields).map fun o => o.1.1)
    else occurrence names (place + 1) fields

/-- How the number of fields of the record is expected. -/
def expectedLength (r : Record) : String :=
  r.name ++ " with " ++ String.ofList (Text.decimal r.known.length)
    ++ (if r.known.length = 1 then " element" else " elements")

/-- The place behind everything that is written, where the field at `index` is missed. -/
def missingPlace (index : Nat) : RecordShape → Nat
  | .fields fields _ => fields.length + 1 + index
  | .items items _ => items.length + 1 + index

/-- The field at `index`: its value if it is there, and `absent` if not. -/
def field {α : Type} (r : Record) (index : Nat) (absent : Decoded α) (decode : Decoder α) :
    Slot α :=
  match r.shape with
  | .fields fields _ =>
    match occurrence (r.known.getD index []) 0 fields with
    | none => Slot.placed (missingPlace index r.shape) absent
    | some ((place, d), again) =>
      match decode r.origin r.levels d, again with
      | .error e, _ => .error (place, e)
      | .ok _, some later =>
        .error (later, .duplicateField ((r.known.getD index []).headD ""))
      | .ok a, none => .ok a
  | .items items _ =>
    match items[index]? with
    | some d => Slot.placed index (decode r.origin r.levels d)
    | none =>
      match absent with
      | .ok a => .ok a
      | .error _ => .error (missingPlace index r.shape, .invalidLength index r.expectedLength)

/-- A field that has to be there. -/
def required {α : Type} (r : Record) (index : Nat) (decode : Decoder α) : Slot α :=
  r.field index (.error (.missingField ((r.known.getD index []).headD ""))) decode

/-- A field with a value for the case that it is not there. -/
def withDefault {α : Type} (r : Record) (index : Nat) (default : α) (decode : Decoder α) :
    Slot α :=
  r.field index (.ok default) decode

/-- An optional field. -/
def optional {α : Type} (r : Record) (index : Nat) (decode : Decoder α) : Slot (Option α) :=
  r.withDefault index none (Decode.optional decode)

/-- Whether a key is one of the known names. -/
def isKnown (r : Record) (key : Doc.Key) : Bool :=
  r.known.any fun names => isNamed names key

/-- The first field that is not known and cannot be passed over. -/
def badUnknown (r : Record) : Nat → List (Doc.Key × Doc) → Slot Unit
  | _, [] => .ok ()
  | place, (k, d) :: fields =>
    if k = .unreadable then .error (place, .malformed)
    else if r.isKnown k then badUnknown r (place + 1) fields
    else if d.wellFormed then badUnknown r (place + 1) fields
    else .error (place, .malformed)

/-- What is written behind the fields: fields that are not known, superfluous items, and the
end of the record. -/
def rest (r : Record) : Slot Unit :=
  match r.shape with
  | .fields fields complete =>
    (Slot.pure fun _ _ => ()).ap (r.badUnknown 0 fields) |>.ap
      (if complete then .ok () else .error (fields.length, .malformed))
  | .items items complete =>
    let count := r.known.length
    if items.length ≤ count then
      if complete then .ok () else .error (items.length, .malformed)
    else
      match r.origin with
      | .value => .error (items.length, .invalidLength items.length "fewer elements in array")
      | .buffered =>
        .error (items.length, .invalidLength items.length
          (String.ofList (Text.decimal count) ++
            (if count = 1 then " element in sequence" else " elements in sequence")))
      | _ => .error (count, .malformed)

/-- Fields that are not known, as values, from a place on. -/
def extraFrom (r : Record) :
    Nat → List (Doc.Key × Doc) → Slot (List (String × Json))
  | _, [] => .ok []
  | place, (key, d) :: fields =>
    match key.name? with
    | none => .error (place, .malformed)
    | some k =>
      if r.isKnown key then extraFrom r (place + 1) fields
      else
        match d.toJsonAside r.levels with
        | .error e => .error (place, e)
        | .ok v =>
          match extraFrom r (place + 1) fields with
          | .error e => .error e
          | .ok vs => .ok ((k, v) :: vs)

/-- All fields that are not known, sorted by key, and the end of the record. -/
def extra (r : Record) : Slot (List (String × Json)) :=
  match r.shape with
  | .fields fields complete =>
    (Slot.pure fun vs _ => Json.sortFields vs).ap (r.extraFrom 0 fields) |>.ap
      (if complete then .ok () else .error (fields.length, .malformed))
  | .items items _ => .error (items.length, .malformed)

end Record

namespace Decode

/-- A record whose unknown fields are passed over. -/
def record {α : Type} (name : String) (known : List (List String)) (read : Record → Slot α) :
    Decoder α := fun o levels d =>
  let finish (r : Record) : Decoded α :=
    Slot.result ((Slot.pure fun a _ => a).ap (read r) |>.ap r.rest)
  match d.bare, levels with
  | .map _ _, 0 => .error .malformed
  | .map fields complete, levels + 1 => finish ⟨name, known, .fields fields complete, o, levels⟩
  | .seq items complete, levels =>
    if o = .yaml then d.mismatch name
    else
      match levels with
      | 0 => .error .malformed
      | levels + 1 => finish ⟨name, known, .items items complete, o, levels⟩
  | d, levels =>
    if isEmptyScalar d then finish ⟨name, known, .fields [] true, o, levels⟩ else d.mismatch name

/-- A record that keeps its unknown fields; it is never written as a sequence. -/
def openRecord {α : Type} (name : String) (known : List (List String))
    (read : Record → Slot α) : Decoder α := fun o levels d =>
  match d.bare, levels with
  | .map _ _, 0 => .error .malformed
  | .map fields complete, levels + 1 =>
    Slot.result (read ⟨name, known, .fields fields complete, o, levels⟩)
  | d, levels =>
    if isEmptyScalar d then Slot.result (read ⟨name, known, .fields [] true, o, levels⟩)
    else d.mismatch name

/-- The problem is inside the named field. -/
def inside {α : Type} (field : String) (decode : Decoder α) : Decoder α := fun o levels d =>
  (decode o levels d).mapError (.inside field)

/-- Reads a whole JSON text. Nothing but blanks may follow the document. -/
def fromText {α : Type} (decode : Decoder α) (text : String) : Decoded α :=
  let w := Doc.ofJsonText text
  match decode .text textLevels w.root with
  | .error e => .error e
  | .ok a => if w.ended then .ok a else .error .malformed

/-- Reads a value in memory. -/
def fromJson {α : Type} (decode : Decoder α) (v : Json) : Decoded α :=
  let d := Doc.ofJson v
  decode .value d.depth d

end Decode

namespace Json

/-- The value that a JSON text stands for. -/
def ofText? (text : String) : Option Json :=
  (Decode.fromText Decode.json text).toOption

end Json

end ApprovalWorkflow
