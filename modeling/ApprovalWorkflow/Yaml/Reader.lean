import ApprovalWorkflow.Document.Decode
import ApprovalWorkflow.Yaml.Token

/-!
# Documents in YAML

Reading the tokens of a YAML text into a document. A node may have a name and a tag in front of
it, and the name may stand for the node later on. A text holds one document. Like the reader of
JSON, this one never fails: where the text stops being YAML, the document says so at that place.
-/

set_option autoImplicit false

namespace ApprovalWorkflow.Yaml

/-- The tokens that are left, and the nodes that have names. -/
structure Place where
  tokens : List Token
  named : List (String × Doc)

namespace Place

/-- The place behind some tokens. -/
def behind (p : Place) (tokens : List Token) : Place := { p with tokens := tokens }

/-- The place where a name, if there is one, stands for a node. -/
def naming (p : Place) (name : Option String) (d : Doc) : Place :=
  match name with
  | none => p
  | some name => { p with named := (name, d) :: p.named }

end Place

/-- What has been read, and the place behind it unless the text is not well-formed there. -/
abbrev Read (α : Type) := α × Option Place

/-- Nothing that is well-formed. -/
def malformed : Read Doc := (.broken, none)

/-- A node that is not written. -/
def emptyNode (p : Place) : Read Doc := (.plain "", some p)

/-- What stands in front of a node. -/
structure Properties where
  name : Option String
  tag : Option String

namespace Properties

/-- Whether there is anything. -/
def isWritten (x : Properties) : Bool := x.name.isSome || x.tag.isSome

/-- A tag in full, if its handle is known. -/
def fullTag? (handle suffix : String) : Option String :=
  if handle = "" then some suffix
  else if handle = "!" then some ("!" ++ suffix)
  else if handle = "!!" then some ("tag:yaml.org,2002:" ++ suffix)
  else none

/-- The properties of a node, with the tokens behind them. A tag has to be a known one. -/
def read? : List Token → Option (Properties × List Token)
  | .anchor name :: .tag handle suffix :: rest =>
    (fullTag? handle suffix).map fun tag => (⟨some name, some tag⟩, rest)
  | .tag handle suffix :: .anchor name :: rest =>
    (fullTag? handle suffix).map fun tag => (⟨some name, some tag⟩, rest)
  | .anchor name :: rest => some (⟨some name, none⟩, rest)
  | .tag handle suffix :: rest =>
    (fullTag? handle suffix).map fun tag => (⟨none, some tag⟩, rest)
  | rest => some (⟨none, none⟩, rest)

/-- The tags of scalars that stand for more than texts. -/
def valueTags : List String :=
  ["tag:yaml.org,2002:bool", "tag:yaml.org,2002:int", "tag:yaml.org,2002:float",
    "tag:yaml.org,2002:null"]

/-- A node with its tag. A tag that begins with an exclamation mark makes a kind of its own, and
most others make texts of scalars. -/
def apply (x : Properties) (d : Doc) : Doc :=
  match x.tag with
  | none => d
  | some tag =>
    match tag.toList, d with
    | ['!'], .seq items complete => .tagged tag (.seq items complete)
    | ['!'], .map fields complete => .tagged tag (.map fields complete)
    | ['!'], d => d
    | '!' :: name, d => .tagged (String.ofList name) d
    | _, .plain text => if valueTags.contains tag then .plain text else .str text
    | _, d => d

end Properties

/-- The key of a field that is written as a node. -/
def keyOf : Doc → Doc.Key
  | .plain s => .plain s
  | .str s => .text s
  | .tagged _ d => keyOf d
  | _ => .unreadable

/-- What stands in front of the next part of a sequence in brackets or a mapping in braces. -/
inductive Separated where
  /-- The closing bracket or brace. -/
  | ended (behind : Place)
  /-- Another part. -/
  | more (part : Place)
  | failed

/-- Looks for the next part. Commas stand between the parts, and one may stand behind the last
part. -/
def separated (first : Bool) (closing : Token) (p : Place) : Separated :=
  match p.tokens with
  | [] => .failed
  | t :: rest =>
    if t = closing then .ended (p.behind rest)
    else if first then .more p
    else if t = .comma then
      match rest with
      | [] => .failed
      | next :: behind => if next = closing then .ended (p.behind behind) else .more (p.behind rest)
    else .failed

mutual
/-- A node. Inside brackets and braces it is no block, and a sequence stands in the column of a
key only if `sameColumn` says so. -/
def node : Nat → Bool → Bool → Place → Read Doc
  | 0, _, _, _ => malformed
  | fuel + 1, inFlow, sameColumn, p =>
    match p.tokens with
    | .alias name :: rest =>
      match p.named.lookup name with
      | some d => (d, some (p.behind rest))
      | none => malformed
    | tokens =>
      match Properties.read? tokens with
      | none => malformed
      | some (x, rest) =>
        let (d, after) := content fuel inFlow sameColumn x.isWritten
          ((p.behind rest).naming x.name .unreadable)
        let d := x.apply d
        (d, after.map fun p => p.naming x.name d)

/-- A node behind its properties. If there are any, it may be missing. -/
def content : Nat → Bool → Bool → Bool → Place → Read Doc
  | 0, _, _, _, _ => malformed
  | fuel + 1, inFlow, sameColumn, mayMiss, p =>
    let sequence (r : Read (List Doc)) : Read Doc := (.seq r.1 r.2.isSome, r.2)
    let mapping (r : Read (List (Doc.Key × Doc))) : Read Doc := (.map r.1 r.2.isSome, r.2)
    match p.tokens with
    | .scalar text plain :: rest => (if plain then .plain text else .str text, some (p.behind rest))
    | .flowSequenceStart :: rest => sequence (flowItems fuel true (p.behind rest))
    | .flowMappingStart :: rest => mapping (flowFields fuel true (p.behind rest))
    | .item :: _ =>
      if sameColumn then sequence (columnItems fuel p)
      else if mayMiss then emptyNode p
      else malformed
    | .sequenceStart :: rest =>
      if !inFlow then sequence (blockItems fuel (p.behind rest))
      else if mayMiss then emptyNode p
      else malformed
    | .mappingStart :: rest =>
      if !inFlow then mapping (blockFields fuel (p.behind rest))
      else if mayMiss then emptyNode p
      else malformed
    | [] => malformed
    | _ => if mayMiss then emptyNode p else malformed

/-- The items of a sequence in a block. -/
def blockItems : Nat → Place → Read (List Doc)
  | 0, _ => ([], none)
  | fuel + 1, p =>
    match p.tokens with
    | .blockEnd :: rest => ([], some (p.behind rest))
    | .item :: rest =>
      let p := p.behind rest
      let (item, after) :=
        match rest with
        | .item :: _ => emptyNode p
        | .blockEnd :: _ => emptyNode p
        | _ => node fuel false false p
      match after with
      | none => ([item], none)
      | some after =>
        let (items, after) := blockItems fuel after
        (item :: items, after)
    | _ => ([], none)

/-- The items of a sequence that stands in the column of its key. -/
def columnItems : Nat → Place → Read (List Doc)
  | 0, _ => ([], none)
  | fuel + 1, p =>
    match p.tokens with
    | [] => ([], none)
    | .item :: rest =>
      let p := p.behind rest
      let (item, after) :=
        match rest with
        | .item :: _ => emptyNode p
        | .key :: _ => emptyNode p
        | .value :: _ => emptyNode p
        | .blockEnd :: _ => emptyNode p
        | _ => node fuel false false p
      match after with
      | none => ([item], none)
      | some after =>
        let (items, after) := columnItems fuel after
        (item :: items, after)
    | _ => ([], some p)

/-- A key or a value of a mapping in a block, behind its mark. -/
def blockPart : Nat → Place → Read Doc
  | 0, _ => malformed
  | fuel + 1, p =>
    match p.tokens with
    | .key :: _ => emptyNode p
    | .value :: _ => emptyNode p
    | .blockEnd :: _ => emptyNode p
    | _ => node fuel false true p

/-- The fields of a mapping in a block. -/
def blockFields : Nat → Place → Read (List (Doc.Key × Doc))
  | 0, _ => ([], none)
  | fuel + 1, p =>
    match p.tokens with
    | .blockEnd :: rest => ([], some (p.behind rest))
    | .key :: rest =>
      match blockPart fuel (p.behind rest) with
      | (_, none) => ([(.unreadable, .broken)], none)
      | (key, some after) =>
        let (value, after) :=
          match after.tokens with
          | .value :: rest => blockPart fuel (after.behind rest)
          | [] => malformed
          | _ => emptyNode after
        match after with
        | none => ([(keyOf key, value)], none)
        | some after =>
          let (fields, after) := blockFields fuel after
          ((keyOf key, value) :: fields, after)
    | _ => ([], none)

/-- The items of a sequence in brackets. An item with a colon is a mapping of one field. -/
def flowItems : Nat → Bool → Place → Read (List Doc)
  | 0, _, _ => ([], none)
  | fuel + 1, first, p =>
    match separated first .flowSequenceEnd p with
    | .ended after => ([], some after)
    | .failed => ([], none)
    | .more p =>
      let (item, after) :=
        match p.tokens with
        | .key :: rest => flowPair fuel (p.behind rest)
        | _ => node fuel true false p
      match after with
      | none => ([item], none)
      | some after =>
        let (items, after) := flowItems fuel false after
        (item :: items, after)

/-- A field of its own among the items of a sequence, behind the mark of its key. A missing key
takes the next token with it. -/
def flowPair : Nat → Place → Read Doc
  | 0, _ => malformed
  | fuel + 1, p =>
    let (key, after) :=
      match p.tokens with
      | .value :: rest => emptyNode (p.behind rest)
      | .comma :: rest => emptyNode (p.behind rest)
      | .flowSequenceEnd :: rest => emptyNode (p.behind rest)
      | _ => node fuel true false p
    match after with
    | none => (.map [(.unreadable, .broken)] false, none)
    | some after =>
      let (value, after) := flowValue fuel .flowSequenceEnd after
      (.map [(keyOf key, value)] after.isSome, after)

/-- The value of a key inside brackets or braces that end with `closing`. -/
def flowValue : Nat → Token → Place → Read Doc
  | 0, _, _ => malformed
  | fuel + 1, closing, p =>
    match p.tokens with
    | [] => malformed
    | .value :: rest =>
      let q := p.behind rest
      if rest.head? = some .comma ∨ rest.head? = some closing then emptyNode q
      else node fuel true false q
    | _ => emptyNode p

/-- The fields of a mapping in braces. A field may be a key alone. -/
def flowFields : Nat → Bool → Place → Read (List (Doc.Key × Doc))
  | 0, _, _ => ([], none)
  | fuel + 1, first, p =>
    match separated first .flowMappingEnd p with
    | .ended after => ([], some after)
    | .failed => ([], none)
    | .more p =>
      let (key, after) :=
        match p.tokens with
        | .key :: rest =>
          let q := p.behind rest
          match rest with
          | .value :: _ => emptyNode q
          | .comma :: _ => emptyNode q
          | .flowMappingEnd :: _ => emptyNode q
          | _ => node fuel true false q
        | _ => node fuel true false p
      match after with
      | none => ([(.unreadable, .broken)], none)
      | some after =>
        let (value, after) :=
          match p.tokens with
          | .key :: _ => flowValue fuel .flowMappingEnd after
          | _ => emptyNode after
        match after with
        | none => ([(keyOf key, value)], none)
        | some after =>
          let (fields, after) := flowFields fuel false after
          ((keyOf key, value) :: fields, after)
end

/-- The directives in front of a document, and the tokens behind them. There is at most one for
the version, and only the versions 1.1 and 1.2 are known. -/
def behindDirectives? : List Token → Option (List Token)
  | .version major minor :: rest =>
    match rest with
    | .version _ _ :: _ => none
    | _ => if major = 1 ∧ (minor = 1 ∨ minor = 2) then some rest else none
  | rest => some rest

/-- Whether nothing follows a document. -/
def endsText (tokens : List Token) : Bool :=
  tokens.dropWhile (· == .documentEnd) == [.streamEnd]

/-- A document that begins with a node, or is missing if another one or the end follows. -/
def explicitDocument (fuel : Nat) (tokens : List Token) : Read Doc :=
  match tokens with
  | .version _ _ :: _ => emptyNode ⟨tokens, []⟩
  | .documentStart :: _ => emptyNode ⟨tokens, []⟩
  | .documentEnd :: _ => emptyNode ⟨tokens, []⟩
  | .streamEnd :: _ => emptyNode ⟨tokens, []⟩
  | _ => node fuel false false ⟨tokens, []⟩

/-- The document in some tokens. No tokens are an empty node. -/
def ofTokens (tokens : List Token) : Doc.Written :=
  let fuel := 8 * tokens.length + 8
  let ofRead (r : Read Doc) : Doc.Written := ⟨r.1, r.2.any fun p => endsText p.tokens⟩
  match tokens with
  | .streamEnd :: _ => ⟨.plain "", true⟩
  | .documentStart :: rest => ofRead (explicitDocument fuel rest)
  | .version _ _ :: _ =>
    match behindDirectives? tokens with
    | some (.documentStart :: rest) => ofRead (explicitDocument fuel rest)
    | _ => ⟨.broken, false⟩
  | _ => ofRead (node fuel false false ⟨tokens, []⟩)

/-- The document in a YAML text. -/
def ofText (text : String) : Doc.Written :=
  let cs := text.toList
  if cs.all isAllowed then ofTokens (tokens (cells cs)) else ⟨.broken, false⟩

/-- The levels of nesting that a YAML text may have. -/
def levels : Nat := 128

/-- Reads a whole YAML text. -/
def decodeText {α : Type} (decode : Decoder α) (text : String) : Decoded α :=
  let w := ofText text
  match decode .yaml levels w.root with
  | .error e => .error e
  | .ok a => if w.ended then .ok a else .error .malformed

end ApprovalWorkflow.Yaml
