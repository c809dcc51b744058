import ApprovalWorkflow.Yaml.Block
import ApprovalWorkflow.Yaml.Scalar

/-!
# Tokens of YAML

The tokens of a text. Columns become tokens too: a block begins where something stands deeper
than what surrounds it, and ends where the text comes back. That a scalar is a key is known only
at the colon behind it, so a scalar that may be one is kept as a `Candidate`, and the token that
says so is put in front of it later (`Scanner.value?`). A key stands in one line, and its colon
within 1024 bytes.

`tokens` gives the tokens that are well-formed; the last one is `Token.streamEnd` exactly if the
whole text is.
-/

set_option autoImplicit false

namespace ApprovalWorkflow.Yaml

/-- A token. -/
inductive Token where
  /-- The version of YAML that a text is written in. -/
  | version (major minor : Nat)
  | documentStart
  | documentEnd
  | streamEnd
  | sequenceStart
  | mappingStart
  /-- The end of a sequence or mapping in a block. -/
  | blockEnd
  | flowSequenceStart
  | flowSequenceEnd
  | flowMappingStart
  | flowMappingEnd
  /-- The mark of an item in a block. -/
  | item
  | comma
  | key
  | value
  | anchor (name : String)
  | alias (name : String)
  | tag (handle suffix : String)
  | scalar (text : String) (plain : Bool)
deriving DecidableEq, Repr

/-- A place where a key may begin. -/
structure Candidate where
  /-- How many tokens stand in front of it. -/
  index : Nat
  /-- Whether nothing but a key can stand there. -/
  required : Bool
  start : Cell

namespace Candidate

/-- Whether a colon at a place would come too late. -/
def isStale (k : Candidate) (here : Cell) : Bool :=
  k.start.line < here.line || k.start.bytes + 1024 < here.bytes

end Candidate

/-- What is known behind some tokens. -/
structure Scanner where
  /-- The columns of the blocks that are open, the innermost one first. -/
  columns : List Nat
  /-- The place in the innermost brackets or braces where a key may have begun. -/
  candidate : Option Candidate
  /-- The same for what surrounds them, one for each pair of brackets or braces. -/
  outer : List (Option Candidate)
  /-- Whether a key may begin here. -/
  keyAllowed : Bool
  /-- The number of tokens. -/
  count : Nat
  /-- The tokens, the last one first. -/
  tokens : List Token

namespace Scanner

/-- The beginning of a text. -/
def start : Scanner := ⟨[], none, [], true, 0, []⟩

/-- Whether brackets or braces are open. -/
def inFlow (s : Scanner) : Bool := !s.outer.isEmpty

/-- The column that is one deeper than the innermost block. -/
def least (s : Scanner) : Nat :=
  match s.columns with
  | [] => 0
  | column :: _ => column + 1

/-- One more token. -/
def push (s : Scanner) (t : Token) : Scanner :=
  { s with tokens := t :: s.tokens, count := s.count + 1 }

/-- A token in front of all but the first `index` ones. -/
def insert (s : Scanner) (index : Nat) (t : Token) : Scanner :=
  let behind := s.count - index
  { s with
    tokens := s.tokens.take behind ++ t :: s.tokens.drop behind
    count := s.count + 1 }

/-- Ends all blocks deeper than some depth; brackets and braces go on whatever the column. -/
def closeBlocks (s : Scanner) (depth : Nat) : Scanner :=
  if s.inFlow then s
  else
    let deeper := s.columns.takeWhile fun column => depth ≤ column
    { s with
      columns := s.columns.drop deeper.length
      tokens := List.replicate deeper.length .blockEnd ++ s.tokens
      count := s.count + deeper.length }

/-- Begins a block in a column with the given token, unless one stands there already. -/
def openBlock (s : Scanner) (column index : Nat) (t : Token) : Scanner :=
  if s.inFlow || column < s.least then s
  else { s.insert index t with columns := column :: s.columns }

/-- No key has begun. Nothing if there had to be one. -/
def dropCandidate? (s : Scanner) : Option Scanner :=
  if s.candidate.any Candidate.required then none else some { s with candidate := none }

/-- A key may begin with the next token. -/
def saveCandidate? (s : Scanner) (here : Cell) : Option Scanner :=
  if s.keyAllowed then
    s.dropCandidate?.map fun s =>
      let required := !s.inFlow && s.columns.head? == some here.column
      { s with candidate := some ⟨s.count, required, here⟩ }
  else some s

/-- Without the candidates that are too far away. Nothing if one of them had to be a key. -/
def withoutStale? (s : Scanner) (isStale : Candidate → Bool) : Option Scanner :=
  let fails (k : Option Candidate) : Bool := k.any fun k => isStale k && k.required
  if fails s.candidate || s.outer.any fails then none
  else
    let keep (k : Option Candidate) : Option Candidate := k.filter fun k => !isStale k
    some { s with candidate := keep s.candidate, outer := s.outer.map keep }

/-- The tokens that are certain: all in front of the first place where a key may begin. -/
def certain (s : Scanner) : List Token :=
  let indices := (s.candidate :: s.outer).filterMap fun k => k.map Candidate.index
  s.tokens.reverse.take (indices.foldl min s.count)

/-- The tokens of a text that ends here. -/
def finish (s : Scanner) : List Token :=
  match s.withoutStale? fun _ => true with
  | none => s.certain
  | some s => ((s.closeBlocks 0).push .streamEnd).tokens.reverse

/-- What is read, with the text behind it. -/
abbrev Step := Option (Scanner × List Cell)

/-- A mark at the beginning or at the end of a document. -/
def documentMarker? (s : Scanner) (t : Token) (rest : List Cell) : Step :=
  (s.closeBlocks 0).dropCandidate?.map fun s =>
    ({ s.push t with keyAllowed := false }, rest)

/-- A number of at most nine digits, and the text behind it. -/
def versionNumber? (cs : List Cell) : Option (Nat × List Cell) :=
  let digits := cs.takeWhile fun c => Text.isDigit c.char
  if digits = [] ∨ 9 < digits.length then none
  else some (Text.digitsValue (digits.map Cell.char), cs.drop digits.length)

/-- A directive behind its mark. Only the one for the version is known. -/
def directive? (s : Scanner) (cs : List Cell) : Step := do
  let s ← (s.closeBlocks 0).dropCandidate?
  let name := cs.takeWhile fun c => isWordChar c.char
  let rest := cs.drop name.length
  if name.map Cell.char ≠ ['Y', 'A', 'M', 'L'] ∨ ¬ atGap rest then none
  else do
    let (major, rest) ← versionNumber? (rest.dropWhile fun c => isBlank c.char)
    match rest with
    | [] => none
    | point :: rest =>
      if point.char ≠ '.' then none
      else do
        let (minor, rest) ← versionNumber? rest
        let rest ← BlockHeader.linesBehind? rest
        some ({ s.push (.version major minor) with keyAllowed := false }, rest)

/-- An opening bracket or brace. It may begin a key itself. -/
def openFlow? (s : Scanner) (here : Cell) (t : Token) (rest : List Cell) : Step :=
  (s.saveCandidate? here).map fun s =>
    ({ s.push t with candidate := none, outer := s.candidate :: s.outer, keyAllowed := true },
      rest)

/-- A closing bracket or brace. -/
def closeFlow? (s : Scanner) (t : Token) (rest : List Cell) : Step :=
  s.dropCandidate?.map fun s =>
    match s.outer with
    | [] => ({ s.push t with keyAllowed := false }, rest)
    | candidate :: outer =>
      ({ s.push t with candidate := candidate, outer := outer, keyAllowed := false }, rest)

/-- A comma inside brackets or braces. -/
def comma? (s : Scanner) (rest : List Cell) : Step :=
  s.dropCandidate?.map fun s => ({ s.push .comma with keyAllowed := true }, rest)

/-- The mark of an item in a block. -/
def item? (s : Scanner) (here : Cell) (rest : List Cell) : Step :=
  if !s.inFlow && !s.keyAllowed then none
  else
    (s.openBlock here.column s.count .sequenceStart).dropCandidate?.map fun s =>
      ({ s.push .item with keyAllowed := true }, rest)

/-- The mark of a key. -/
def key? (s : Scanner) (here : Cell) (rest : List Cell) : Step :=
  if !s.inFlow && !s.keyAllowed then none
  else
    (s.openBlock here.column s.count .mappingStart).dropCandidate?.map fun s =>
      ({ s.push .key with keyAllowed := !s.inFlow }, rest)

/-- The colon in front of a value. It makes a key of the candidate in front of it. -/
def value? (s : Scanner) (here : Cell) (rest : List Cell) : Step :=
  match s.candidate with
  | some k =>
    let s := (s.insert k.index .key).openBlock k.start.column k.index .mappingStart
    some ({ s.push .value with candidate := none, keyAllowed := false }, rest)
  | none =>
    if !s.inFlow && !s.keyAllowed then none
    else
      let s := s.openBlock here.column s.count .mappingStart
      some ({ s.push .value with keyAllowed := !s.inFlow }, rest)

/-- The name of an anchor, and the text behind it. -/
def anchorName? (cs : List Cell) : Option (String × List Cell) :=
  let name := cs.takeWhile fun c => isWordChar c.char
  let rest := cs.drop name.length
  let ends := atGap rest || rest.head?.any fun c =>
    ['?', ':', ',', ']', '}', '%', '@'].contains c.char || c.char.toNat == 0x60
  if name ≠ [] ∧ ends then some (String.ofList (name.map Cell.char), rest) else none

/-- A node with a name, or the name of a node. -/
def named? (s : Scanner) (here : Cell) (token : String → Token) (cs : List Cell) : Step := do
  let s ← s.saveCandidate? here
  let (name, rest) ← anchorName? cs
  some ({ s.push (token name) with keyAllowed := false }, rest)

/-- A character of a tag. -/
def isTagChar (c : Char) : Bool :=
  isWordChar c || [';', '/', '?', ':', '@', '&', '=', '+', '$', '.', '!', '~', '*', '\'', '(',
    ')'].contains c

/-- A tag behind its exclamation mark: its handle, its suffix and the text behind it. -/
def tagParts? (cs : List Cell) : Option (String × String × List Cell) :=
  match cs with
  | [] => some ("", "!", [])
  | c :: rest =>
    if c.char = '<' then
      let isUriChar (d : Cell) : Bool := isTagChar d.char || [',', '[', ']'].contains d.char
      let suffix := rest.takeWhile isUriChar
      match rest.drop suffix.length with
      | d :: rest =>
        if suffix ≠ [] ∧ d.char = '>' then some ("", String.ofList (suffix.map Cell.char), rest)
        else none
      | [] => none
    else
      let word := cs.takeWhile fun d => isWordChar d.char
      let behind := cs.drop word.length
      if behind.head?.any fun d => d.char == '!' then
        let suffix := (behind.drop 1).takeWhile fun d => isTagChar d.char
        if suffix = [] then none
        else
          some (String.ofList ('!' :: word.map Cell.char ++ ['!']),
            String.ofList (suffix.map Cell.char), behind.drop (suffix.length + 1))
      else
        let suffix := cs.takeWhile fun d => isTagChar d.char
        let rest := cs.drop suffix.length
        if suffix = [] then some ("", "!", rest)
        else some ("!", String.ofList (suffix.map Cell.char), rest)

/-- A tag behind its exclamation mark. -/
def tag? (s : Scanner) (here : Cell) (cs : List Cell) : Step := do
  let s ← s.saveCandidate? here
  let (handle, suffix, rest) ← tagParts? cs
  let ends := atGap rest || (s.inFlow && rest.head?.any fun c => c.char == ',')
  if ends then some ({ s.push (.tag handle suffix) with keyAllowed := false }, rest) else none

/-- A scalar in a block, behind its mark. -/
def block? (s : Scanner) (literal : Bool) (cs : List Cell) : Step := do
  let s ← s.dropCandidate?
  let (text, rest) ← blockScalar? literal s.least cs
  some ({ s.push (.scalar (String.ofList text) false) with keyAllowed := true }, rest)

/-- A scalar between quotes, behind the first one. -/
def quoted? (s : Scanner) (here : Cell) (inside : Option (List Char × List Cell)) : Step := do
  let s ← s.saveCandidate? here
  let (text, rest) ← inside
  some ({ s.push (.scalar (String.ofList text) false) with keyAllowed := false }, rest)

/-- A scalar without quotes. A key may follow in a line of its own. -/
def plain? (s : Scanner) (here : Cell) (cs : List Cell) : Step := do
  let s ← s.saveCandidate? here
  let (text, lineEnded, rest) ← plainScalar ⟨s.inFlow, s.least⟩ .none cs
  some ({ s.push (.scalar (String.ofList text) true) with keyAllowed := lineEnded }, rest)

/-- The next token, which begins with the given character. -/
def next? (s : Scanner) (c : Cell) (cs : List Cell) : Step :=
  let here := c :: cs
  if c.column = 0 ∧ c.char = '%' then s.directive? cs
  else if isMarker '-' here then s.documentMarker? .documentStart (cs.drop 2)
  else if isMarker '.' here then s.documentMarker? .documentEnd (cs.drop 2)
  else if c.char = '[' then s.openFlow? c .flowSequenceStart cs
  else if c.char = '{' then s.openFlow? c .flowMappingStart cs
  else if c.char = ']' then s.closeFlow? .flowSequenceEnd cs
  else if c.char = '}' then s.closeFlow? .flowMappingEnd cs
  else if c.char = ',' then s.comma? cs
  else if c.char = '-' ∧ atGap cs then s.item? c cs
  else if c.char = '?' ∧ (s.inFlow ∨ atGap cs) then s.key? c cs
  else if c.char = ':' ∧ (s.inFlow ∨ atGap cs) then s.value? c cs
  else if c.char = '*' then s.named? c .alias cs
  else if c.char = '&' then s.named? c .anchor cs
  else if c.char = '!' then s.tag? c cs
  else if c.char = '|' ∧ ¬ s.inFlow then s.block? true cs
  else if c.char = '>' ∧ ¬ s.inFlow then s.block? false cs
  else if c.char = '\'' then s.quoted? c (singleQuoted .none cs)
  else if c.char = '"' then s.quoted? c (doubleQuoted .none 0 0 cs)
  else if beginsPlain s.inFlow c.char cs then s.plain? c here
  else none

/-- Passes over blanks, comments and line breaks. `comment` says whether a comment is being
passed over. A key may begin in a new line, and tabs are no blanks where one may begin. The
first part of what is read says whether one may begin here. -/
def skip (inFlow keyAllowed comment : Bool) : List Cell → Bool × List Cell
  | [] => (keyAllowed, [])
  | c :: cs =>
    if isBreak c.char then skip inFlow (keyAllowed || !inFlow) false cs
    else if comment then skip inFlow keyAllowed true cs
    else if c.char = ' ' ∨ (c.char = '\t' ∧ (inFlow ∨ ¬ keyAllowed)) then
      skip inFlow keyAllowed false cs
    else if c.char = '#' then skip inFlow keyAllowed true cs
    else if c.column = 0 ∧ isByteOrderMark c.char then skip inFlow keyAllowed false cs
    else (keyAllowed, c :: cs)

/-- The tokens of the rest of a text. -/
def run : Nat → Scanner → List Cell → List Token
  | 0, s, _ => s.certain
  | fuel + 1, s, cs =>
    let (keyAllowed, cs) := skip s.inFlow s.keyAllowed false cs
    match cs with
    | [] => s.finish
    | c :: cs =>
      let step := (({ s with keyAllowed } : Scanner).withoutStale? fun k => k.isStale c).bind
        fun s => (s.closeBlocks (c.column + 1)).next? c cs
      match step with
      | none => s.certain
      | some (s, rest) => run fuel s rest

end Scanner

/-- The tokens of a text. -/
def tokens (cs : List Cell) : List Token := Scanner.start.run (cs.length + 1) cs

end ApprovalWorkflow.Yaml
