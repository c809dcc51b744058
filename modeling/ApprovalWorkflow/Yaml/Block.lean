import ApprovalWorkflow.Yaml.Character

/-!
# Scalars of YAML in blocks

Reading the lines of a literal or folded block. The first line that is not empty says how deep
the block stands, unless its header does. In a folded block a line break between two lines that
do not begin with a blank becomes a space, or is left out if empty lines follow it
(`Block.joint`); the header says what becomes of the line breaks at the end (`Block.tail`).
-/

set_option autoImplicit false

namespace ApprovalWorkflow.Yaml

/-- What becomes of the line breaks at the end of a block. -/
inductive Chomping where
  | clip
  | strip
  | keep
deriving DecidableEq

/-- The header of a block. -/
structure BlockHeader where
  /-- How much deeper than its surroundings the block stands, if that is said. -/
  indent : Option Nat
  chomping : Chomping

namespace BlockHeader

/-- The sign for the line breaks at the end, if there is one. -/
def chomping? (c : Cell) : Option Chomping :=
  if c.char = '+' then some .keep else if c.char = '-' then some .strip else none

/-- The digit for the depth, which is not zero. -/
def indent? (c : Cell) : Option Nat :=
  if Text.isDigit c.char ∧ c.char ≠ '0' then some (Text.digitValue c.char) else none

/-- The signs of a header, in either order, and the text behind them. -/
def signs : List Cell → BlockHeader × List Cell
  | [] => (⟨none, .clip⟩, [])
  | c :: cs =>
    match chomping? c, indent? c, cs with
    | some chomping, _, d :: rest =>
      match indent? d with
      | some n => (⟨some n, chomping⟩, rest)
      | none => (⟨none, chomping⟩, cs)
    | some chomping, _, [] => (⟨none, chomping⟩, [])
    | none, some n, d :: rest =>
      match chomping? d with
      | some chomping => (⟨some n, chomping⟩, rest)
      | none => (⟨some n, .clip⟩, cs)
    | none, some n, [] => (⟨some n, .clip⟩, [])
    | none, none, _ => (⟨none, .clip⟩, c :: cs)

/-- The lines behind a header. Nothing but a comment may follow it in its line. -/
def linesBehind? (cs : List Cell) : Option (List Cell) :=
  let cs := cs.dropWhile fun c => isBlank c.char
  let cs :=
    match cs with
    | c :: _ => if c.char = '#' then cs.dropWhile fun c => !isBreak c.char else cs
    | [] => []
  if atLineEnd cs then some (cs.drop 1) else none

end BlockHeader

/-- Empty lines, and the indentation of the line behind them. -/
structure EmptyLines where
  /-- The line breaks. -/
  breaks : List Char
  /-- The deepest column that any of the lines reaches with spaces alone. -/
  deepest : Nat
  rest : List Cell

/-- Passes over spaces and line breaks; spaces count as indentation up to the depth of the block,
if it is known. A tab must not stand among them. -/
def emptyLines (indent : Option Nat) (breaks : List Char) (deepest : Nat) :
    List Cell → Option EmptyLines
  | [] => some ⟨breaks.reverse, deepest, []⟩
  | c :: cs =>
    let outside := indent.all fun n => c.column < n
    if outside && c.char == ' ' then emptyLines indent breaks (max deepest (c.column + 1)) cs
    else if outside && c.char == '\t' then none
    else if isBreak c.char then emptyLines indent (c.char :: breaks) (max deepest c.column) cs
    else some ⟨breaks.reverse, max deepest c.column, c :: cs⟩

/-- A block that is being read. -/
structure Block where
  literal : Bool
  indent : Nat
  chomping : Chomping

namespace Block

/-- What stands between two lines: `last` is the line break behind the first one, `breaks` are
those of the empty lines between them, and `deep` says whether one of the two begins with a
blank. -/
def joint (b : Block) (last : Option Char) (breaks : List Char) (deep : Bool) : List Char :=
  if !b.literal && last = some '\n' && !deep then (if breaks = [] then [' '] else breaks)
  else last.toList ++ breaks

/-- The line breaks at the end: the one of the last line, and those of the empty lines behind
it. -/
def tail (b : Block) (last : Option Char) (breaks : List Char) : List Char :=
  match b.chomping with
  | .strip => []
  | .clip => last.toList
  | .keep => last.toList ++ breaks

/-- The lines of a block behind some empty lines, and the text behind the block. `last` is the
line break of the line before, and `deep` says whether that line began with a blank. -/
def lines (b : Block) : Nat → Option Char → Bool → EmptyLines → Option (List Char × List Cell)
  | 0, _, _, _ => none
  | fuel + 1, last, deep, gap =>
    match gap.rest with
    | [] => some (b.tail last gap.breaks, [])
    | c :: cs =>
      if c.column ≠ b.indent then some (b.tail last gap.breaks, c :: cs)
      else
        let isDeep := isBlank c.char
        let line := (c :: cs).takeWhile fun d => !isBreak d.char
        let behind := (c :: cs).dropWhile fun d => !isBreak d.char
        match emptyLines (some b.indent) [] 0 (behind.drop 1) with
        | none => none
        | some next =>
          match b.lines fuel (behind.head?.map Cell.char) isDeep next with
          | none => none
          | some (text, rest) =>
            some (b.joint last gap.breaks (deep || isDeep) ++ line.map Cell.char ++ text, rest)

end Block

/-- A block behind its mark, with the text behind it. `least` is the column that is one deeper
than its surroundings. -/
def blockScalar? (literal : Bool) (least : Nat) (cs : List Cell) :
    Option (List Char × List Cell) :=
  let (header, rest) := BlockHeader.signs cs
  match BlockHeader.linesBehind? rest with
  | none => none
  | some rest =>
    match emptyLines (header.indent.map (least - 1 + ·)) [] 0 rest with
    | none => none
    | some gap =>
      let indent := (header.indent.map (least - 1 + ·)).getD (max (max gap.deepest least) 1)
      Block.lines ⟨literal, indent, header.chomping⟩ (cs.length + 1) none false gap

end ApprovalWorkflow.Yaml
