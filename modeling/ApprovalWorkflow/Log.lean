import ApprovalWorkflow.Text.Search

/-!
# Log lines

What the program says about its own work, by level. `Logged` is a result together with the
lines that were written on the way to it: pure functions return one, and whoever runs them
appends the lines to the log. The value of a chain of logged steps does not depend on the lines
(`Logged.value_bind`).
-/

set_option autoImplicit false

namespace ApprovalWorkflow

/-- How urgent a line is. -/
inductive LogLevel where
  | error
  | warn
  | info
  | debug
  | trace
deriving DecidableEq, Repr

/-- Levels from the most urgent one on; `0` is left for no logging at all. -/
def LogLevel.rank : LogLevel → Nat
  | .error => 1
  | .warn => 2
  | .info => 3
  | .debug => 4
  | .trace => 5

/-- A line of the log. -/
structure LogLine where
  level : LogLevel
  text : String
deriving DecidableEq, Repr

namespace LogLine

/-- Warnings and errors are marked, all other lines are only their text. -/
def render (l : LogLine) : String :=
  match l.level with
  | .error => "[ERROR] " ++ l.text
  | .warn => "[WARN] " ++ l.text
  | _ => l.text

end LogLine

/-- Which lines are shown: those of the given rank or a lower one. -/
structure LogFilter where
  rank : Nat
deriving DecidableEq, Repr

namespace LogFilter

/-- Lines up to a level. -/
def upTo (level : LogLevel) : LogFilter := ⟨level.rank⟩

/-- No lines. -/
def off : LogFilter := ⟨0⟩

/-- The level that a word names, in any case. -/
def level? (word : String) : Option LogFilter :=
  let w := Text.lowerAsciiString word
  if w == "off" then some off
  else if w == "error" then some (upTo .error)
  else if w == "warn" then some (upTo .warn)
  else if w == "info" then some (upTo .info)
  else if w == "debug" then some (upTo .debug)
  else if w == "trace" then some (upTo .trace)
  else none

/-- The name of the component that writes all lines. -/
def component : List Char := ['f', 'l', 'o', 'w', 'r', 'u', 'n', 'n', 'e', 'r']

/-- What one part of a setting asks for: a level for all components, all lines of a component, or
a level for a component behind an equals sign. The first part of the result is the beginning of
the name of the component. -/
def directive? (part : List Char) : Option (List Char × LogFilter) :=
  match Text.splitAt '=' part with
  | [word] =>
    match level? (String.ofList word) with
    | some f => some ([], f)
    | none => some (word, upTo .trace)
  | [name, level] =>
    let level := Text.trimChars level
    if level = [] then some (name, upTo .trace)
    else (level? (String.ofList level)).map fun f => (name, f)
  | _ => none

/-- The lines that a setting of the environment asks for: its parts stand between commas, and of
those that concern the component, the one with the longest name counts. An empty setting asks
for errors only. -/
def ofSetting (setting : String) : LogFilter :=
  let parts := (Text.splitAt ',' setting.toList).map Text.trimChars
  let directives := (parts.filter fun part => part ≠ []).filterMap directive?
  if directives = [] then upTo .error
  else
    let better (best : Nat × LogFilter) (d : List Char × LogFilter) : Nat × LogFilter :=
      if d.1.isPrefixOf component ∧ best.1 ≤ d.1.length then (d.1.length, d.2) else best
    (directives.foldl better (0, off)).2

/-- The lines that are shown, in order. -/
def select (f : LogFilter) (lines : List LogLine) : List LogLine :=
  lines.filter fun l => l.level.rank ≤ f.rank

end LogFilter

/-- A result with the log lines written on the way. -/
structure Logged (α : Type) where
  value : α
  lines : List LogLine
deriving Repr

namespace Logged

instance : Monad Logged where
  pure a := ⟨a, []⟩
  bind x f :=
    let y := f x.value
    ⟨y.value, x.lines ++ y.lines⟩

/-- Writes one line. -/
def line (level : LogLevel) (text : String) : Logged Unit := ⟨(), [⟨level, text⟩]⟩

/-- Writes some lines. -/
def write (lines : List LogLine) : Logged Unit := ⟨(), lines⟩

/-- The value of a logged value without lines is the one that was given. -/
@[simp] theorem value_pure {α : Type} (a : α) : (pure a : Logged α).value = a := rfl

/-- The value of two logged values in a row is that of the second one. -/
@[simp] theorem value_bind {α β : Type} (x : Logged α) (f : α → Logged β) :
    (x >>= f).value = (f x.value).value := rfl

end Logged

end ApprovalWorkflow
