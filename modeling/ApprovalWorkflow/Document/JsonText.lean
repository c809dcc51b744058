import ApprovalWorkflow.Document.Basic
import ApprovalWorkflow.Number.Literal

/-!
# Documents in JSON

Reading a JSON text into a document. The reader never fails: where the text stops being JSON,
the document says so at that place, and everything before it is there. Each function gives the
rest of the text behind what it has read, or nothing if the text is not well-formed there.

Nesting is bounded only by the length of the text; whoever reads a value out of the document
sets a limit to its depth.
-/

set_option autoImplicit false

namespace ApprovalWorkflow.Doc

open ApprovalWorkflow.Text (isDigit hexNumber?)

/-- The blanks of JSON. -/
def isJsonBlank (c : Char) : Bool :=
  c == ' ' || c == '\n' || c == '\t' || c == '\r'

/-- The text after its leading blanks. -/
def skipBlanks (cs : List Char) : List Char :=
  cs.dropWhile isJsonBlank

/-- A run of at least one digit. -/
def digits1? (cs : List Char) : Option (List Char × List Char) :=
  let ds := cs.takeWhile isDigit
  if ds = [] then none else some (ds, cs.dropWhile isDigit)

/-- The digits before the point: a lone zero, or digits that do not start with one. -/
def wholePart? : List Char → Option (List Char × List Char)
  | '0' :: cs =>
    match cs with
    | c :: _ => if isDigit c then none else some (['0'], cs)
    | [] => some (['0'], [])
  | cs => digits1? cs

/-- The part of a number after its point, if there is one. -/
def placesPart? : List Char → Option (Option (List Char) × List Char)
  | '.' :: cs => (digits1? cs).map fun (ds, rest) => (some ds, rest)
  | cs => some (none, cs)

/-- The exponent of a number, if there is one. -/
def powerPart? : List Char → Option (Option (Bool × List Char) × List Char)
  | c :: cs =>
    if c = 'e' ∨ c = 'E' then
      match cs with
      | '-' :: ds => (digits1? ds).map fun (ds, rest) => (some (true, ds), rest)
      | '+' :: ds => (digits1? ds).map fun (ds, rest) => (some (false, ds), rest)
      | ds => (digits1? ds).map fun (ds, rest) => (some (false, ds), rest)
    else some (none, c :: cs)
  | [] => some (none, [])

/-- A number without its sign. -/
def unsigned? (negative : Bool) (cs : List Char) : Option (JsonLiteral × List Char) := do
  let (whole, rest) ← wholePart? cs
  let (places, rest) ← placesPart? rest
  let (power, rest) ← powerPart? rest
  some (⟨negative, whole, places, power⟩, rest)

/-- A number as it is written. -/
def literal? : List Char → Option (JsonLiteral × List Char)
  | '-' :: cs => unsigned? true cs
  | cs => unsigned? false cs

/-- The document of a number. -/
def ofLiteral (l : JsonLiteral) : Doc :=
  match l.int? with
  | some i => .num (.int i)
  | none =>
    match l.float? with
    | some x => .num (.float x)
    | none => .unreadable

/-- A string that has been read up to some place: its characters, or nothing if half a
character is among them, and the text behind it. -/
abbrev StringRest := Option (Option (List Char) × List Char)

/-- A character in front of what follows. -/
def StringRest.push (c : Char) (r : StringRest) : StringRest :=
  r.map fun (s, rest) => (s.map (c :: ·), rest)

/-- Half a character in front of what follows. -/
def StringRest.spoil (r : StringRest) : StringRest :=
  r.map fun (_, rest) => (none, rest)

/-- The character of a one-letter escape. -/
def simpleEscape? (c : Char) : Option Char :=
  if c = '"' then some '"'
  else if c = '\\' then some '\\'
  else if c = '/' then some '/'
  else if c = 'b' then some (Char.ofNat 8)
  else if c = 'f' then some (Char.ofNat 12)
  else if c = 'n' then some '\n'
  else if c = 'r' then some '\r'
  else if c = 't' then some '\t'
  else none

/-- The character of two halves, if they are halves of one. -/
def joinHalves? (high low : Nat) : Option Char :=
  if 0xD800 ≤ high ∧ high ≤ 0xDBFF ∧ 0xDC00 ≤ low ∧ low ≤ 0xDFFF then
    some (Char.ofNat (0x10000 + (high - 0xD800) * 0x400 + (low - 0xDC00)))
  else none

/-- Whether a code unit of 16 bits is only half a character. -/
def isHalf (n : Nat) : Bool :=
  0xD800 ≤ n && n ≤ 0xDFFF

/-- The inside of a string, up to its closing quote. -/
def stringBody : List Char → StringRest
  | [] => none
  | '"' :: rest => some (some [], rest)
  | '\\' :: 'u' :: a :: b :: c :: d :: '\\' :: 'u' :: e :: f :: g :: h :: rest =>
    match hexNumber? [a, b, c, d] with
    | none => none
    | some n =>
      if isHalf n then
        match (hexNumber? [e, f, g, h]).bind (joinHalves? n) with
        | some joined => (stringBody rest).push joined
        | none => (stringBody ('\\' :: 'u' :: e :: f :: g :: h :: rest)).spoil
      else (stringBody ('\\' :: 'u' :: e :: f :: g :: h :: rest)).push (Char.ofNat n)
  | '\\' :: 'u' :: a :: b :: c :: d :: rest =>
    match hexNumber? [a, b, c, d] with
    | none => none
    | some n =>
      if isHalf n then (stringBody rest).spoil else (stringBody rest).push (Char.ofNat n)
  | '\\' :: c :: rest =>
    match simpleEscape? c with
    | none => none
    | some e => (stringBody rest).push e
  | c :: rest => if c.toNat < 32 then none else (stringBody rest).push c

/-- The document of a string. -/
def ofStringBody : Option (List Char) → Doc
  | some cs => .str (String.ofList cs)
  | none => .unreadable

mutual
/-- A value. The fuel bounds the number of nested calls; two for each character are enough. -/
def jsonValue : Nat → List Char → Doc × Option (List Char)
  | 0, _ => (.broken, none)
  | fuel + 1, cs =>
    match skipBlanks cs with
    | 'n' :: 'u' :: 'l' :: 'l' :: rest => (.null, some rest)
    | 't' :: 'r' :: 'u' :: 'e' :: rest => (.bool true, some rest)
    | 'f' :: 'a' :: 'l' :: 's' :: 'e' :: rest => (.bool false, some rest)
    | '"' :: rest =>
      match stringBody rest with
      | none => (.broken, none)
      | some (s, rest) => (ofStringBody s, some rest)
    | '[' :: rest =>
      match skipBlanks rest with
      | ']' :: rest => (.seq [] true, some rest)
      | rest =>
        let (items, after) := jsonItems fuel rest
        (.seq items after.isSome, after)
    | '{' :: rest =>
      match skipBlanks rest with
      | '}' :: rest => (.map [] true, some rest)
      | rest =>
        let (fields, after) := jsonFields fuel rest
        (.map fields after.isSome, after)
    | rest =>
      match literal? rest with
      | none => (.broken, none)
      | some (l, rest) => (ofLiteral l, some rest)

/-- The items of an array up to its closing bracket. -/
def jsonItems : Nat → List Char → List Doc × Option (List Char)
  | 0, _ => ([], none)
  | fuel + 1, cs =>
    match jsonValue fuel cs with
    | (d, none) => ([d], none)
    | (d, some rest) =>
      match skipBlanks rest with
      | ']' :: rest => ([d], some rest)
      | ',' :: rest =>
        let (items, after) := jsonItems fuel rest
        (d :: items, after)
      | _ => ([d], none)

/-- The fields of an object up to its closing brace. -/
def jsonFields : Nat → List Char → List (Key × Doc) × Option (List Char)
  | 0, _ => ([], none)
  | fuel + 1, cs =>
    match skipBlanks cs with
    | '"' :: rest =>
      match stringBody rest with
      | none => ([], none)
      | some (key, rest) =>
        let key : Key := match key with
          | some name => .text (String.ofList name)
          | none => .unreadable
        match skipBlanks rest with
        | ':' :: rest =>
          match jsonValue fuel rest with
          | (d, none) => ([(key, d)], none)
          | (d, some rest) =>
            match skipBlanks rest with
            | '}' :: rest => ([(key, d)], some rest)
            | ',' :: rest =>
              let (fields, after) := jsonFields fuel rest
              ((key, d) :: fields, after)
            | _ => ([(key, d)], none)
        | _ => ([(key, .broken)], none)
    | _ => ([], none)
end

/-- A whole text: the document in it, and whether only blanks follow. -/
structure Written where
  root : Doc
  ended : Bool
deriving Repr

/-- The document in a JSON text. -/
def ofJsonText (text : String) : Written :=
  let cs := text.toList
  match jsonValue (2 * cs.length + 2) cs with
  | (d, none) => ⟨d, false⟩
  | (d, some rest) => ⟨d, (skipBlanks rest).isEmpty⟩

end ApprovalWorkflow.Doc
