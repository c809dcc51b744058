import ApprovalWorkflow.Document.Decode

/-!
# Identifiers

Identifiers are UUIDs: 128 bits, ordered as numbers and written as 32 hexadecimal digits in
five groups. A text names an identifier with or without the hyphens, in braces, or behind
`urn:uuid:`. `IdSource` draws fresh identifiers: they differ in the kind of record they are for
or in their serial number, so that no identifier is drawn twice (`IdSource.issue_injective`).
-/

set_option autoImplicit false

namespace ApprovalWorkflow

-- powers are those of the core library, whatever else is imported
attribute [local instance (2000)] instPowNat

/-- An identifier. -/
structure Uuid where
  bits : BitVec 128
deriving DecidableEq, Repr, Inhabited

namespace Uuid

/-- The identifier whose bits are all zero. -/
def nil : Uuid := ⟨0⟩

/-- The identifier with the given number. -/
def ofNat (n : Nat) : Uuid := ⟨BitVec.ofNat 128 n⟩

/-- The number of an identifier. -/
def toNat (u : Uuid) : Nat := u.bits.toNat

/-- Identifiers are ordered by their numbers. -/
def le (a b : Uuid) : Bool := a.toNat ≤ b.toNat

/-- An identifier with its digits in groups of 8, 4, 4, 4 and 12. -/
def chars (u : Uuid) : List Char :=
  let ds := Text.hexDigits 32 u.toNat
  ds.take 8 ++ '-' :: ((ds.drop 8).take 4 ++ '-' :: ((ds.drop 12).take 4 ++
    '-' :: ((ds.drop 16).take 4 ++ '-' :: ds.drop 20)))

/-- The text of an identifier. -/
def toString (u : Uuid) : String := String.ofList u.chars

/-- The identifier of 32 hexadecimal digits. -/
def ofDigits? (cs : List Char) : Option Uuid :=
  if cs.length = 32 then (Text.hexNumber? cs).map ofNat else none

/-- The identifier of digits in hyphenated groups. -/
def ofGroups? (cs : List Char) : Option Uuid :=
  if cs.length = 36 ∧ cs[8]? = some '-' ∧ cs[13]? = some '-' ∧ cs[18]? = some '-' ∧
      cs[23]? = some '-' then
    ofDigits? (cs.take 8 ++ ((cs.drop 9).take 4 ++ ((cs.drop 14).take 4 ++
      ((cs.drop 19).take 4 ++ cs.drop 24))))
  else none

/-- The identifier that a text names. -/
def ofChars? (cs : List Char) : Option Uuid :=
  match ofDigits? cs with
  | some u => some u
  | none =>
    match ofGroups? cs with
    | some u => some u
    | none =>
      match cs with
      | '{' :: rest => if rest.getLast? = some '}' then ofGroups? rest.dropLast else none
      | 'u' :: 'r' :: 'n' :: ':' :: 'u' :: 'u' :: 'i' :: 'd' :: ':' :: rest => ofGroups? rest
      | _ => none

/-- The identifier that a string names. -/
def ofString? (s : String) : Option Uuid := ofChars? s.toList

/-- An identifier, written as a string. -/
def decode : Decoder Uuid := fun _ _ d =>
  let named (s : String) : Decoded Uuid :=
    match ofString? s with
    | some u => .ok u
    | none => .error .badUuid
  match d with
  | .str s => named s
  | .plain s => named s
  | d => d.mismatch "a formatted UUID string"

/-- The value of an identifier. -/
def toJson (u : Uuid) : Json := .str u.toString

end Uuid

/-- What an identifier is drawn for. -/
inductive RecordKind where
  | workflow
  | run
  | task
  | entry
deriving DecidableEq, Repr

/-- The number of a kind of record. -/
def RecordKind.code : RecordKind → Nat
  | .workflow => 0
  | .run => 1
  | .task => 2
  | .entry => 3

/-- A source of fresh identifiers: a seed of 62 bits that tells sources apart, and how many
identifiers of each kind have been drawn. -/
structure IdSource where
  seed : Nat
  workflows : Nat
  instances : Nat
  tasks : Nat
  entries : Nat
deriving DecidableEq, Repr, Inhabited

namespace IdSource

/-- A source of which nothing has been drawn. -/
def new (seed : Nat) : IdSource := ⟨seed, 0, 0, 0, 0⟩

/-- How many identifiers of a kind have been drawn. -/
def drawn (s : IdSource) : RecordKind → Nat
  | .workflow => s.workflows
  | .run => s.instances
  | .task => s.tasks
  | .entry => s.entries

/-- The identifier with a serial number among those of its kind. The four bits after the
seed's upper half say that the identifier is of version 4, and the two bits before the kind
that its variant is the usual one. -/
def issue (seed : Nat) (kind : RecordKind) (serial : Nat) : Uuid :=
  let upper := seed / 2 ^ (12 : Nat) % 2 ^ (48 : Nat)
  let middle := seed % 2 ^ (12 : Nat)
  .ofNat ((((upper * 2 ^ (16 : Nat) + 4 * 2 ^ (12 : Nat) + middle) * 4 + 2) * 4 + kind.code)
    * 2 ^ (60 : Nat) + serial % 2 ^ (60 : Nat))

/-- The source after one more identifier of a kind has been drawn. -/
def advance (s : IdSource) : RecordKind → IdSource
  | .workflow => { s with workflows := s.workflows + 1 }
  | .run => { s with instances := s.instances + 1 }
  | .task => { s with tasks := s.tasks + 1 }
  | .entry => { s with entries := s.entries + 1 }

/-- Draws the next identifier of a kind. -/
def draw (s : IdSource) (kind : RecordKind) : Uuid × IdSource :=
  (issue s.seed kind (s.drawn kind), s.advance kind)

/-- Identifiers of one source are the same only if they are of one kind and have one serial
number. -/
theorem issue_injective {seed m n : Nat} {j k : RecordKind} (hm : m < 2 ^ (60 : Nat))
    (hn : n < 2 ^ (60 : Nat)) (h : issue seed j m = issue seed k n) : j = k ∧ m = n := by
  have hbits := congrArg (fun u : Uuid => u.bits.toNat) h
  have hj : j.code < 4 := by cases j <;> decide
  have hk : k.code < 4 := by cases k <;> decide
  simp only [issue, Uuid.ofNat, BitVec.toNat_ofNat] at hbits
  have hseed : seed / 2 ^ (12 : Nat) % 2 ^ (48 : Nat) < 2 ^ (48 : Nat) := Nat.mod_lt _ (by decide)
  have hlow : seed % 2 ^ (12 : Nat) < 2 ^ (12 : Nat) := Nat.mod_lt _ (by decide)
  have hcode : j.code = k.code ∧ m = n := by omega
  refine ⟨?_, hcode.2⟩
  cases j <;> cases k <;> simp_all [RecordKind.code]

end IdSource

end ApprovalWorkflow
