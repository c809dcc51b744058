import ApprovalWorkflow.Json.Basic
import ApprovalWorkflow.Store

/-!
# Short names

Identifiers are long and differ from run to run. For reports that are read by people or compared
with each other, records have short names: a word for their kind and a number in the order of
their creation. `Names.note` names what has come into a store, `Names.inText` and `Names.inJson`
put names in the place of identifiers, and `Names.outOfJson` does the opposite.
-/

set_option autoImplicit false

namespace ApprovalWorkflow

/-- The word for records of a kind in short names. -/
def RecordKind.word : RecordKind → String
  | .workflow => "wf"
  | .run => "in"
  | .task => "task"
  | .entry => "hist"

/-- Whether a store has a record of a kind with an id. -/
def Store.has (s : Store) (kind : RecordKind) (u : Uuid) : Bool :=
  match kind with
  | .workflow => (s.workflow? u).isSome
  | .run => (s.instance? u).isSome
  | .task => (s.task? u).isSome
  | .entry => s.history.any fun h => h.id == u

/-- An identifier with its name. -/
structure NamedId where
  id : Uuid
  text : String
  name : String
deriving Repr

/-- The names of a store. -/
structure Names where
  /-- The identifiers that have a name, the newest first. -/
  known : List NamedId
  /-- The source of identifiers as it was when names were given last. -/
  looked : IdSource
  /-- How many identifiers of each kind have a name. -/
  count : RecordKind → Nat

namespace Names

/-- No names; identifiers come from a source. -/
def ofSource (source : IdSource) : Names := ⟨[], source, fun _ => 0⟩

/-- Names an identifier of a kind. -/
def add (n : Names) (kind : RecordKind) (u : Uuid) : Names :=
  let number := n.count kind + 1
  ⟨⟨u, u.toString, kind.word ++ String.ofList (Text.decimal number)⟩ :: n.known, n.looked,
    fun k => if k = kind then number else n.count k⟩

/-- Names the records of a kind that have been created since names were given last. -/
def noteKind (s : Store) (source : IdSource) (n : Names) (kind : RecordKind) : Names :=
  (List.range' (n.looked.drawn kind) (source.drawn kind - n.looked.drawn kind)).foldl
    (fun n serial =>
      let u := IdSource.issue source.seed kind serial
      if s.has kind u then n.add kind u else n) n

/-- Names what has come into a store whose identifiers are drawn from a source. -/
def note (n : Names) (s : Store) (source : IdSource) : Names :=
  { [.workflow, .run, .task, .entry].foldl (noteKind s source) n with looked := source }

/-- The identifier of a name. -/
def ofName? (n : Names) (name : String) : Option NamedId := n.known.find? fun k => k.name == name

/-- The identifier that a text names or is. -/
def id? (n : Names) (text : String) : Option Uuid :=
  match n.ofName? text with
  | some k => some k.id
  | none => Uuid.ofString? text

/-- The place of an identifier among those that have a name, counted from the newest. -/
def age? (n : Names) (u : Uuid) : Option Nat := n.known.findIdx? fun k => k.id == u

/-- Identifiers in the order in which reports show them: those without a name first, and the
others in the order of their creation. -/
def inOrder (n : Names) (ids : List Uuid) : List Uuid :=
  let age (u : Uuid) : Nat := (n.age? u).getD 0
  ids.filter (fun u => (n.age? u).isNone)
    ++ (ids.filter fun u => (n.age? u).isSome).mergeSort fun a b => age b ≤ age a

/-- The name of the identifier that stands at the head of a text. -/
def atHead? (n : Names) (cs : List Char) : Option String :=
  if cs[8]? = some '-' ∧ cs[13]? = some '-' then
    let text := String.ofList (cs.take 36)
    (n.known.find? fun k => k.text == text).map NamedId.name
  else none

/-- Puts names in the place of identifiers. The number counts characters that belong to an
identifier already. -/
def inChars (n : Names) : Nat → List Char → List Char
  | _, [] => []
  | skip + 1, _ :: cs => inChars n skip cs
  | 0, c :: cs =>
    match n.atHead? (c :: cs) with
    | some name => name.toList ++ inChars n 35 cs
    | none => c :: inChars n 0 cs

/-- Puts names in the place of identifiers. -/
def inText (n : Names) (s : String) : String :=
  if n.known.isEmpty ∨ s.utf8ByteSize < 36 then s else String.ofList (n.inChars 0 s.toList)

/-- The identifier in the place of a text that is a name. -/
def outOfText (n : Names) (s : String) : String :=
  match n.ofName? s with
  | some k => k.text
  | none => s

/-- Puts names in the place of identifiers in all strings of a value. -/
def inJson (n : Names) (v : Json) : Json := v.mapStrings n.inText

/-- Puts identifiers in the place of all strings of a value that are names. -/
def outOfJson (n : Names) (v : Json) : Json := v.mapStrings n.outOfText

end Names

end ApprovalWorkflow
