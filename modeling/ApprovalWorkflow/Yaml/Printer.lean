import ApprovalWorkflow.Document.Scalar
import ApprovalWorkflow.Json.Basic
import ApprovalWorkflow.Yaml.Character

/-!
# Writing YAML

The text of a value in blocks: one field or item a line, two spaces for each level, and the
items of a sequence in the column of the key that they belong to. A string is written without
quotes wherever it reads back as that string. Otherwise it stands between single quotes, in a
literal block if it has several lines, and between double quotes with escapes if nothing else
can hold it. A text that ends in a line break needs no other one behind it (`inLines`).
-/

set_option autoImplicit false

namespace ApprovalWorkflow.Yaml

/-- Whether a blank, the end of a line or the end of the text is next. -/
def beforeGap : List Char → Bool
  | [] => true
  | c :: _ => isBlank c || isBreak c

/-- Whether a text holds, behind its first character, a colon or a hash mark that would end it.
`gap` says whether a blank stands in front. -/
def hasInnerMark (gap : Bool) : List Char → Bool
  | [] => false
  | c :: cs =>
    (c == ':' && beforeGap cs) || (c == '#' && gap) || hasInnerMark (beforeGap [c]) cs

/-- Whether a text begins with a character that has a meaning of its own. -/
def hasFirstMark : List Char → Bool
  | [] => false
  | c :: cs =>
    if c == '?' || c == ':' || c == '-' then beforeGap cs
    else
      ['#', ',', '[', ']', '{', '}', '&', '*', '!', '|', '>', '\'', '"', '%', '@'].contains c
        || c.toNat == 0x60

/-- Whether a text looks like the mark between two documents. -/
def hasDocumentMark (cs : List Char) : Bool :=
  cs.take 3 == ['-', '-', '-'] || cs.take 3 == ['.', '.', '.']

/-- Whether a character of one class is directly followed by one of another class. -/
def hasPair (first second : Char → Bool) : List Char → Bool
  | [] => false
  | [_] => false
  | c :: d :: cs => (first c && second d) || hasPair first second (d :: cs)

/-- Whether a text has a space at its end. -/
def endsInSpace (cs : List Char) : Bool := cs.getLast? == some ' '

/-- Whether a text that is not empty can be written without quotes, apart from the kind of
value that it would then be taken for. -/
def canBePlain (cs : List Char) : Bool :=
  cs.all (fun c => isPrintable c && !isBreak c)
    && !(hasDocumentMark cs || hasFirstMark cs || hasInnerMark (beforeGap (cs.take 1)) (cs.drop 1))
    && cs.head? != some ' ' && !endsInSpace cs

/-- Whether a text can be written between single quotes. -/
def canBeSingleQuoted (cs : List Char) : Bool :=
  cs.all isPrintable && !hasPair (· == ' ') isBreak cs && !hasPair isBreak (· == ' ') cs

/-- Whether a text can be written as a literal block. -/
def canBeLiteral (cs : List Char) : Bool :=
  cs.all isPrintable && !hasPair (· == ' ') isBreak cs && !endsInSpace cs

/-- Whether a string without quotes would be taken for another kind of value, or looks like a
number with needless zeros. -/
def isAmbiguous (s : String) : Bool :=
  Doc.plainScalar s != .text || Doc.isPaddedDigits s.toList

/-- How a string is written. -/
inductive StringStyle where
  | plain
  | singleQuoted
  | doubleQuoted
  | literal
deriving DecidableEq, Repr

/-- The style of a string. -/
def styleOf (s : String) : StringStyle :=
  let cs := s.toList
  if cs.contains '\n' then if canBeLiteral cs then .literal else .doubleQuoted
  else if !isAmbiguous s && canBePlain cs then .plain
  else if canBeSingleQuoted cs then .singleQuoted
  else .doubleQuoted

/-- Spaces up to a column. -/
def spaces (column : Nat) : List Char := List.replicate column ' '

/-- The inside of single quotes. A line that a separator has ended goes on in a column, and
`fresh` says whether that has just happened. -/
def singleQuotedChars (column : Nat) (fresh : Bool) : List Char → List Char
  | [] => if fresh then spaces column else []
  | c :: cs =>
    if isBreak c then c :: singleQuotedChars column true cs
    else
      (if fresh then spaces column else []) ++ (if c = '\'' then ['\'', '\''] else [c])
        ++ singleQuotedChars column false cs

/-- The escape of a character with the given number of hexadecimal digits. -/
def hexEscape (mark : Char) (width : Nat) (c : Char) : List Char :=
  '\\' :: mark :: (Text.hexDigits width c.toNat).map Text.upperAscii

/-- A character between double quotes. -/
def doubleQuotedChar (c : Char) : List Char :=
  if c = '"' ∨ c = '\\' then ['\\', c]
  else if isPrintable c && !isBreak c then [c]
  else
    match c.toNat with
    | 0 => ['\\', '0']
    | 7 => ['\\', 'a']
    | 8 => ['\\', 'b']
    | 9 => ['\\', 't']
    | 10 => ['\\', 'n']
    | 11 => ['\\', 'v']
    | 12 => ['\\', 'f']
    | 13 => ['\\', 'r']
    | 27 => ['\\', 'e']
    | 0x85 => ['\\', 'N']
    | 0x2028 => ['\\', 'L']
    | 0x2029 => ['\\', 'P']
    | n =>
      if n ≤ 0xFF then hexEscape 'x' 2 c
      else if n ≤ 0xFFFF then hexEscape 'u' 4 c
      else hexEscape 'U' 8 c

/-- What the header of a literal block says: the indentation if the text begins with a blank or
an empty line, and what becomes of the line breaks at the end. -/
def literalHints (cs : List Char) : List Char :=
  let depth := if beforeGap cs then ['2'] else []
  let ending :=
    match cs.reverse with
    | [] => ['-']
    | [c] => if isBreak c then ['+'] else ['-']
    | c :: d :: _ => if !isBreak c then ['-'] else if isBreak d then ['+'] else []
  depth ++ ending

/-- The lines of a literal block in a column. Empty lines have no indentation. -/
def literalChars (column : Nat) (fresh : Bool) : List Char → List Char
  | [] => []
  | c :: cs =>
    if isBreak c then c :: literalChars column true cs
    else (if fresh then spaces column else []) ++ c :: literalChars column false cs

/-- A string; its further lines begin in a column. -/
def stringChars (column : Nat) (s : String) : List Char :=
  let cs := s.toList
  match styleOf s with
  | .plain => cs
  | .singleQuoted => '\'' :: (singleQuotedChars column false cs ++ ['\''])
  | .doubleQuoted => '"' :: (cs.flatMap doubleQuotedChar ++ ['"'])
  | .literal => '|' :: (literalHints cs ++ '\n' :: literalChars column true cs)

/-- A text, and another one in a line of its own. -/
def inLines (above : List Char) (column : Nat) (below : List Char) : List Char :=
  above ++ (if above.getLast?.any isBreak then [] else ['\n']) ++ spaces column ++ below

/-- A number. Exponents have no plus sign. -/
def numberChars (n : Json.Number) : List Char := n.render.filter (· ≠ '+')

/-- Whether a key fits into one line in front of its value. -/
def isShortKey (k : String) : Bool :=
  k.utf8ByteSize ≤ 128 && !k.toList.any isBreak

/-- A key with the colon behind it. A long key has a mark of its own, and then the colon is the
mark of its value in the next line. -/
def keyChars (column : Nat) (k : String) : List Char :=
  if isShortKey k then stringChars (column + 2) k ++ [':']
  else inLines ('?' :: ' ' :: stringChars (column + 2) k) column [':']

mutual
/-- The text of a value behind the key or the mark in front of it. The lines of a block begin
in a column, and its first line stands behind the mark if `compact` says so. -/
def valueChars (compact : Bool) (column : Nat) : Json → List Char
  | .null => [' ', 'n', 'u', 'l', 'l']
  | .bool true => [' ', 't', 'r', 'u', 'e']
  | .bool false => [' ', 'f', 'a', 'l', 's', 'e']
  | .num n => ' ' :: numberChars n
  | .str s => ' ' :: stringChars column s
  | .arr [] => [' ', '[', ']']
  | .arr (v :: items) =>
    if compact then ' ' :: itemChars column (v :: items)
    else '\n' :: spaces (column - 2) ++ itemChars (column - 2) (v :: items)
  | .obj [] => [' ', '{', '}']
  | .obj (f :: fields) =>
    (if compact then [' '] else '\n' :: spaces column) ++ fieldChars column (f :: fields)

/-- The items of a sequence that begin in a column. -/
def itemChars (column : Nat) : List Json → List Char
  | [] => []
  | [v] => '-' :: valueChars true (column + 2) v
  | v :: items => inLines ('-' :: valueChars true (column + 2) v) column (itemChars column items)

/-- The fields of a mapping that begin in a column. -/
def fieldChars (column : Nat) : List (String × Json) → List Char
  | [] => []
  | [(k, v)] => keyChars column k ++ valueChars (!isShortKey k) (column + 2) v
  | (k, v) :: fields =>
    inLines (keyChars column k ++ valueChars (!isShortKey k) (column + 2) v) column
      (fieldChars column fields)
end

/-- The text of a value. -/
def render (v : Json) : String :=
  String.ofList (inLines ((valueChars true 0 v).drop 1) 0 [])

end ApprovalWorkflow.Yaml
