import ApprovalWorkflow.Yaml.Character

/-!
# Scalars of YAML

Reading scalars without quotes and between single or double quotes. Line breaks inside a scalar
are folded: one break becomes a space, and of several ones all but the first are kept; only
separators are never folded (`Gap.chars`). Every reader gives the rest of the text behind the
scalar.
-/

set_option autoImplicit false

namespace ApprovalWorkflow.Yaml

/-- A run of blanks and line breaks inside a scalar. -/
inductive Gap where
  /-- Blanks of one line, the last one first. -/
  | blanks (chars : List Char)
  /-- Line breaks: the first one, unless it is left out, and the others, the last one first. -/
  | breaks (first : Option Char) (others : List Char)

namespace Gap

/-- No blank at all. -/
def none : Gap := .blanks []

/-- One more blank. Blanks at the beginning of a line do not count. -/
def blank (g : Gap) (c : Char) : Gap :=
  match g with
  | .blanks cs => .blanks (c :: cs)
  | g => g

/-- One more line break. Blanks at the end of a line do not count. -/
def lineBreak (g : Gap) (c : Char) : Gap :=
  match g with
  | .blanks _ => .breaks (some c) []
  | .breaks first others => .breaks first (c :: others)

/-- What the run stands for. -/
def chars : Gap → List Char
  | .blanks cs => cs.reverse
  | .breaks first others =>
    if first = some '\n' then (if others = [] then [' '] else others.reverse)
    else first.toList ++ others.reverse

/-- Whether nothing has been read. -/
def isEmpty : Gap → Bool
  | .blanks [] => true
  | _ => false

/-- Whether a line has ended. -/
def hasBreak : Gap → Bool
  | .blanks _ => false
  | .breaks _ _ => true

end Gap

/-- Characters in front of what has been read behind them. -/
def inFront {α : Type} (cs : List Char) (r : Option (List Char × α)) : Option (List Char × α) :=
  r.map fun (text, rest) => (cs ++ text, rest)

/-- The inside of single quotes. A quote inside is written twice. -/
def singleQuoted (gap : Gap) : List Cell → Option (List Char × List Cell)
  | [] => none
  | c :: cs =>
    if isBreak c.char then singleQuoted (gap.lineBreak c.char) cs
    else if isBlank c.char then singleQuoted (gap.blank c.char) cs
    else if isDocumentMarker (c :: cs) then none
    else if c.char = '\'' then
      match cs with
      | [] => some (gap.chars, [])
      | d :: rest =>
        if d.char = '\'' then inFront (gap.chars ++ ['\'']) (singleQuoted .none rest)
        else some (gap.chars, cs)
    else inFront (gap.chars ++ [c.char]) (singleQuoted .none cs)

/-- The character of an escape of one letter. -/
def escaped? (c : Char) : Option Char :=
  match c with
  | '0' => some (Char.ofNat 0)
  | 'a' => some (Char.ofNat 7)
  | 'b' => some (Char.ofNat 8)
  | 't' => some '\t'
  | '\t' => some '\t'
  | 'n' => some '\n'
  | 'v' => some (Char.ofNat 11)
  | 'f' => some (Char.ofNat 12)
  | 'r' => some '\r'
  | 'e' => some (Char.ofNat 27)
  | ' ' => some ' '
  | '"' => some '"'
  | '/' => some '/'
  | '\\' => some '\\'
  | 'N' => some (Char.ofNat 0x85)
  | '_' => some (Char.ofNat 0xA0)
  | 'L' => some (Char.ofNat 0x2028)
  | 'P' => some (Char.ofNat 0x2029)
  | _ => none

/-- How many hexadecimal digits stand behind the letter of an escape. -/
def codeWidth? (c : Char) : Option Nat :=
  match c with
  | 'x' => some 2
  | 'u' => some 4
  | 'U' => some 8
  | _ => none

/-- The character of a code point, unless it is only half of one. -/
def ofCode? (n : Nat) : Option Char :=
  if n < 0xD800 ∨ (0xDFFF < n ∧ n < 0x110000) then some (Char.ofNat n) else none

/-- The inside of double quotes. `digits` counts the hexadecimal digits of an escape that are
still to come, and `code` is the number of those that have been read. -/
def doubleQuoted (gap : Gap) (digits code : Nat) : List Cell → Option (List Char × List Cell)
  | [] => none
  | c :: cs =>
    match digits with
    | left + 1 =>
      match Text.hexValue? c.char with
      | none => none
      | some d =>
        if left = 0 then
          match ofCode? (16 * code + d) with
          | none => none
          | some e => inFront [e] (doubleQuoted .none 0 0 cs)
        else doubleQuoted .none left (16 * code + d) cs
    | 0 =>
      if isBreak c.char then doubleQuoted (gap.lineBreak c.char) 0 0 cs
      else if isBlank c.char then doubleQuoted (gap.blank c.char) 0 0 cs
      else if isDocumentMarker (c :: cs) then none
      else if c.char = '"' then some (gap.chars, cs)
      else if c.char = '\\' then
        match cs with
        | [] => none
        | d :: rest =>
          if isBreak d.char then inFront gap.chars (doubleQuoted (.breaks none []) 0 0 rest)
          else
            match codeWidth? d.char with
            | some width => inFront gap.chars (doubleQuoted .none width 0 rest)
            | none =>
              match escaped? d.char with
              | some e => inFront (gap.chars ++ [e]) (doubleQuoted .none 0 0 rest)
              | none => none
      else inFront (gap.chars ++ [c.char]) (doubleQuoted .none 0 0 cs)

/-- The characters that end a scalar without quotes inside brackets and braces. -/
def isFlowMark (c : Char) : Bool :=
  c == ',' || c == '[' || c == ']' || c == '{' || c == '}'

/-- Where a scalar without quotes stands. -/
structure PlainContext where
  /-- Inside brackets or braces. -/
  inFlow : Bool
  /-- The first column in which a further line may begin. -/
  least : Nat

namespace PlainContext

/-- Whether a colon is next that has no place inside brackets and braces. -/
def isStrayColon (x : PlainContext) (c : Char) (cs : List Cell) : Bool :=
  x.inFlow && c == ':' && cs.head?.any fun d => isFlowMark d.char || d.char == '?'

/-- Whether a scalar without quotes ends in front of a character. -/
def endsAt (x : PlainContext) (gap : Gap) (c : Cell) (cs : List Cell) : Bool :=
  (!gap.isEmpty && ((!x.inFlow && c.column < x.least) || c.char == '#'))
    || isDocumentMarker (c :: cs)
    || (c.char == ':' && atGap cs)
    || (x.inFlow && isFlowMark c.char)

end PlainContext

/-- A scalar without quotes, and the text behind it. The second part of what is read says whether
a line break stands in front of that text. Tabs must not stand for indentation. -/
def plainScalar (x : PlainContext) (gap : Gap) :
    List Cell → Option (List Char × Bool × List Cell)
  | [] => some ([], gap.hasBreak, [])
  | c :: cs =>
    if isBreak c.char then plainScalar x (gap.lineBreak c.char) cs
    else if isBlank c.char then
      if gap.hasBreak && c.column < x.least && c.char == '\t' then none
      else plainScalar x (gap.blank c.char) cs
    else if x.isStrayColon c.char cs then none
    else if x.endsAt gap c cs then some ([], gap.hasBreak, c :: cs)
    else inFront (gap.chars ++ [c.char]) (plainScalar x .none cs)

/-- Whether a scalar without quotes may begin with a character. -/
def beginsPlain (inFlow : Bool) (c : Char) (cs : List Cell) : Bool :=
  if c == '-' then !cs.head?.any fun d => isBlank d.char
  else if c == '?' || c == ':' then !inFlow && !atGap cs
  else
    !(isBlank c || isBreak c || isFlowMark c || c == '#' || c == '&' || c == '*' || c == '!'
      || c == '|' || c == '>' || c == '\'' || c == '"' || c == '%' || c == '@' || c.toNat == 0x60)

end ApprovalWorkflow.Yaml
