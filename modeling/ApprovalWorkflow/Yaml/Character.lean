import ApprovalWorkflow.Text.Search

/-!
# Characters of YAML

The classes of characters that the reader and the writer of YAML have in common, and texts whose
characters know where they stand. A line ends at a line feed, a carriage return, both together,
a next line, or one of the two separators of Unicode. The separators are kept as they are where
a line break is kept; all the others are one and the same (`cells`).
-/

set_option autoImplicit false

namespace ApprovalWorkflow.Yaml

/-- A separator of lines or of paragraphs. -/
def isSeparator (c : Char) : Bool := c.toNat == 0x2028 || c.toNat == 0x2029

/-- A character that ends a line. -/
def isBreak (c : Char) : Bool := c == '\n' || c == '\r' || c.toNat == 0x85 || isSeparator c

/-- A blank inside a line. -/
def isBlank (c : Char) : Bool := c == ' ' || c == '\t'

/-- A mark of the byte order. -/
def isByteOrderMark (c : Char) : Bool := c.toNat == 0xFEFF

/-- Whether a character may stand in a text. -/
def isAllowed (c : Char) : Bool :=
  let n := c.toNat
  n == 9 || n == 10 || n == 13 || (0x20 ≤ n && n ≤ 0x7E) || n == 0x85
    || (0xA0 ≤ n && n ≠ 0xFFFE && n ≠ 0xFFFF)

/-- A character that can be written as it is. -/
def isPrintable (c : Char) : Bool :=
  isAllowed c && !(c == '\t' || c == '\r' || c.toNat == 0x85 || isByteOrderMark c)

/-- A letter, a digit, an underscore or a hyphen of ASCII. -/
def isWordChar (c : Char) : Bool :=
  Text.isDigit c || ('a' ≤ c && c ≤ 'z') || ('A' ≤ c && c ≤ 'Z') || c == '_' || c == '-'

/-- A character of a text, with the place where it stands. -/
structure Cell where
  char : Char
  line : Nat
  /-- How many characters stand in front of it in its line. -/
  column : Nat
  /-- How many bytes these characters take. -/
  bytes : Nat

/-- The characters of a text from a place on. A line break is one character, and it is a line
feed unless it is a separator. -/
def cellsFrom (line column bytes : Nat) : List Char → List Cell
  | [] => []
  | '\r' :: '\n' :: cs => ⟨'\n', line, column, bytes⟩ :: cellsFrom (line + 1) 0 0 cs
  | c :: cs =>
    if isBreak c then
      ⟨if isSeparator c then c else '\n', line, column, bytes⟩ :: cellsFrom (line + 1) 0 0 cs
    else ⟨c, line, column, bytes⟩ :: cellsFrom line (column + 1) (bytes + c.utf8Size) cs

/-- The characters of a text. -/
def cells (cs : List Char) : List Cell := cellsFrom 0 0 0 cs

/-- Whether a blank, a line break or the end of the text is next. -/
def atGap : List Cell → Bool
  | [] => true
  | c :: _ => isBlank c.char || isBreak c.char

/-- Whether a line break or the end of the text is next. -/
def atLineEnd : List Cell → Bool
  | [] => true
  | c :: _ => isBreak c.char

/-- Whether a line begins here with a mark of three equal characters and a gap behind it. -/
def isMarker (mark : Char) : List Cell → Bool
  | a :: b :: c :: cs =>
    a.column == 0 && a.char == mark && b.char == mark && c.char == mark && atGap cs
  | _ => false

/-- Whether a mark at the beginning or at the end of a document is next. -/
def isDocumentMarker (cs : List Cell) : Bool := isMarker '-' cs || isMarker '.' cs

end ApprovalWorkflow.Yaml
