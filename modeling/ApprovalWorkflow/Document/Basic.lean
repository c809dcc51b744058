import ApprovalWorkflow.Json.Basic
import ApprovalWorkflow.Text.Graphic

/-!
# Documents as they are written

A document is what stands in a text before anyone has said what it should mean: fields in the
order in which they were written and as often as they were written, and the places from which
on the text makes no sense. Records are read from documents field by field, so that of several
problems the first one in the text is reported; a part that nobody reads has to be well-formed,
but need not be a value of any kind.

`DecodeError` holds what can be wrong, and `DecodeError.message` its wording.
-/

set_option autoImplicit false

namespace ApprovalWorkflow

/-- The key of a field in a document. -/
inductive Doc.Key where
  | text (name : String)
  /-- A scalar without quotes. -/
  | plain (name : String)
  /-- A key that cannot be read. -/
  | unreadable
deriving DecidableEq, Repr

/-- The name of a field, if its key can be read. -/
def Doc.Key.name? : Doc.Key → Option String
  | .text name => some name
  | .plain name => some name
  | .unreadable => none

/-- A document. An incomplete sequence or mapping is not well-formed after the items that it
lists. -/
inductive Doc where
  | null
  | bool (value : Bool)
  | num (value : Json.Number)
  | str (value : String)
  /-- A scalar without quotes, whose kind depends on what is wanted of it. -/
  | plain (text : String)
  | seq (items : List Doc) (complete : Bool)
  | map (fields : List (Doc.Key × Doc)) (complete : Bool)
  /-- A document of a kind of its own, which is named. -/
  | tagged (kind : String) (content : Doc)
  /-- Well-formed, but no value: a number out of range, or a string with half a character. -/
  | unreadable
  /-- Not well-formed. -/
  | broken
deriving Repr, Inhabited

namespace Doc

mutual
/-- The document of a value in memory. -/
def ofJson : Json → Doc
  | .null => .null
  | .bool b => .bool b
  | .num n => .num n
  | .str s => .str s
  | .arr items => .seq (ofItems items) true
  | .obj fields => .map (ofFields fields) true

/-- The documents of a list of values. -/
def ofItems : List Json → List Doc
  | [] => []
  | v :: items => ofJson v :: ofItems items

/-- The documents of the fields of an object. -/
def ofFields : List (String × Json) → List (Key × Doc)
  | [] => []
  | (k, v) :: fields => (.text k, ofJson v) :: ofFields fields
end

mutual
/-- Whether a document that nobody reads can be passed over. -/
def wellFormed : Doc → Bool
  | .broken => false
  | .seq items complete => complete && wellFormedItems items
  | .map fields complete => complete && wellFormedFields fields
  | .tagged _ d => d.wellFormed
  | _ => true

/-- Whether all items can be passed over. -/
def wellFormedItems : List Doc → Bool
  | [] => true
  | d :: items => d.wellFormed && wellFormedItems items

/-- Whether all fields can be passed over. -/
def wellFormedFields : List (Key × Doc) → Bool
  | [] => true
  | (_, d) :: fields => d.wellFormed && wellFormedFields fields
end

/-- A document whatever its kind. -/
def bare : Doc → Doc
  | .tagged _ d => d.bare
  | d => d

end Doc

/-- The formats in which texts are written. -/
inductive TextFormat where
  | json
  | yaml
deriving DecidableEq, Repr

/-- What was found where something else was wanted. -/
inductive Found where
  | bool (value : Bool)
  | num (value : Json.Number)
  /-- An integer of more than 64 bits. -/
  | wideInt (value : Int)
  /-- An infinity, or the absence of a number. -/
  | special (name : String)
  | str (value : String)
  | null
  | seq
  | map
deriving DecidableEq, Repr

namespace Found

/-- A number with at least one digit after the point and without an exponent. -/
def pointed (x : Binary64) : List Char :=
  if x.plain.contains '.' then x.plain else x.plain ++ ['.', '0']

/-- The digits of a number that is no integer. -/
def floatText (format : TextFormat) (x : Binary64) : String :=
  match format with
  | .json => String.ofList x.scientific
  | .yaml => String.ofList (pointed x)

/-- The wording of what was found in a text of some format. -/
def describe (format : TextFormat) : Found → String
  | .bool b => "boolean `" ++ (if b then "true" else "false") ++ "`"
  | .num (.int i) => "integer `" ++ String.ofList (Text.decimalInt i) ++ "`"
  | .num (.float x) => "floating point `" ++ floatText format x ++ "`"
  | .wideInt i =>
    "integer `" ++ String.ofList (Text.decimalInt i) ++ (if i < 0 then "` as i128" else "` as u128")
  | .special name => "floating point `" ++ name ++ "`"
  | .str s => "string " ++ Text.shown s
  | .null =>
    match format with
    | .json => "null"
    | .yaml => "unit value"
  | .seq => "sequence"
  | .map => "map"

end Found

/-- Why a document could not be read as what was wanted. -/
inductive DecodeError where
  /-- The text is not well-formed, or holds something that is no value at all. -/
  | malformed
  | invalidType (found : Found) (expected : String)
  | invalidValue (found : Found) (expected : String)
  | invalidLength (length : Nat) (expected : String)
  | missingField (name : String)
  | duplicateField (name : String)
  | unknownVariant (name : String) (known : List String)
  | badTime
  | badUuid
  | itemNotString
  | notStrings
  /-- The parts make a record that is not allowed. -/
  | refused (reason : String)
  /-- The problem is inside the named field. -/
  | inside (field : String) (error : DecodeError)
deriving DecidableEq, Repr

namespace DecodeError

/-- Quotes a name the way field and variant names are shown. -/
def ticked (name : String) : String := "`" ++ name ++ "`"

/-- The alternatives of a choice. -/
def alternatives : List String → String
  | [] => "there are no variants"
  | [a] => "expected " ++ ticked a
  | [a, b] => "expected " ++ ticked a ++ " or " ++ ticked b
  | names => "expected one of " ++ Text.joinStrings ", " (names.map ticked)

/-- The wording of a problem in a text of some format, without the place where it is. -/
def messageIn (format : TextFormat) : DecodeError → String
  | .malformed =>
    match format with
    | .json => "<json syntax>"
    | .yaml => "<yaml>"
  | .invalidType found expected =>
    "invalid type: " ++ found.describe format ++ ", expected " ++ expected
  | .invalidValue found expected =>
    "invalid value: " ++ found.describe format ++ ", expected " ++ expected
  | .invalidLength length expected =>
    "invalid length " ++ String.ofList (Text.decimal length) ++ ", expected " ++ expected
  | .missingField name => "missing field " ++ ticked name
  | .duplicateField name => "duplicate field " ++ ticked name
  | .unknownVariant name known => "unknown variant " ++ ticked name ++ ", " ++ alternatives known
  | .badTime => "<bad time>"
  | .badUuid => "UUID parsing failed"
  | .itemNotString => "Expected string in array"
  | .notStrings => "Expected string or array of strings"
  | .refused reason => reason
  | .inside _ error => error.messageIn format

/-- The wording of a problem in a JSON text or in a value. -/
def message (e : DecodeError) : String := e.messageIn .json

/-- The fields that lead to a problem, from the outermost one in. -/
def path : DecodeError → List String
  | .inside field error => field :: error.path
  | _ => []

/-- The wording of a problem in a YAML text, with the path of fields in front of it. -/
def messageWithPath (e : DecodeError) : String :=
  match e.path with
  | [] => e.messageIn .yaml
  | fields => Text.joinStrings "." fields ++ ": " ++ e.messageIn .yaml

end DecodeError

end ApprovalWorkflow
