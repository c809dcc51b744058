import ApprovalWorkflow.CommandLine.Arguments
import Mathlib.Data.List.Induction

/-!
# Where options stand

A command line is made of positional arguments and of options, where an option with a value takes
up two arguments. `Interleaves` says that the arguments are those of two such lists, in any mixture
that keeps the order of each. Every mixture is put down as the same thing
(`gather_of_interleaves`): the positional arguments in their order, for each option the last value
that it is given, and all groups (`Arguments.ofParts`). Whatever is made of the arguments later is
made of this, so that it does not depend on the mixture either (`option_placement`).

A value is never looked at before it is put down. So it may be anything, also the name of an
option or a command.
-/

set_option autoImplicit false

namespace ApprovalWorkflow.CommandLine

/-! ## Options as they are given -/

/-- An option as it is given. Options that end the reading of the arguments are not among these. -/
inductive GivenOption where
  /-- The flag for more lines in the log, in its short or in its long form. -/
  | verbose (short : Bool)
  | valued (s : ValueOption) (value : String)
deriving DecidableEq, Repr

namespace GivenOption

/-- The arguments that an option takes up. -/
def words : GivenOption → List String
  | .verbose true => ["-v"]
  | .verbose false => ["--verbose"]
  | .valued s value => [s.text, value]

/-- Whether it is the flag. -/
def isVerbose : GivenOption → Bool
  | .verbose _ => true
  | .valued _ _ => false

/-- The value that is given to an option. -/
def valueOf? (s : ValueOption) : GivenOption → Option String
  | .verbose _ => none
  | .valued t value => if t = s then some value else none

/-- All values that are given to an option, in their order. -/
def values (s : ValueOption) (os : List GivenOption) : List String := os.filterMap (valueOf? s)

/-- The switch for more output brings no value to any option. -/
@[simp] theorem values_concat_verbose (s : ValueOption) (os : List GivenOption) (short : Bool) :
    values s (os ++ [.verbose short]) = values s os := by
  simp [values, valueOf?]

/-- A valued option that is given last brings its value to itself and to no other option. -/
@[simp] theorem values_concat_valued (s t : ValueOption) (os : List GivenOption) (value : String) :
    values s (os ++ [.valued t value]) = values s os ++ (if t = s then [value] else []) := by
  by_cases h : t = s <;> simp [values, valueOf?, h]

end GivenOption

/-- The arguments are some positional ones and those of some options, each in their own order. -/
inductive Interleaves : List String → List GivenOption → List String → Prop where
  | nil : Interleaves [] [] []
  | positional {p : String} {ps : List String} {os : List GivenOption} {args : List String} :
    Interleaves ps os args → Interleaves (p :: ps) os (p :: args)
  | option {o : GivenOption} {ps : List String} {os : List GivenOption} {args : List String} :
    Interleaves ps os args → Interleaves ps (o :: os) (o.words ++ args)

/-- An argument that is taken for a positional one. -/
def IsPositional (arg : String) : Prop := arg.toList.head? ≠ some '-'

instance (arg : String) : Decidable (IsPositional arg) := inferInstanceAs (Decidable (_ ≠ _))

/-- The options are written with a hyphen in front. -/
theorem head?_text (s : ValueOption) : s.text.toList.head? = some '-' := by
  cases s <;> decide

/-- A positional argument is no switch. -/
theorem flag_of_positional {arg : String} (h : IsPositional arg) :
    Flag.ofArgument? arg = none := by
  have hne : ∀ word : String, word.toList.head? = some '-' → arg ≠ word := by
    rintro word hword rfl
    exact h hword
  simp [Flag.ofArgument?, hne "--help" (by decide), hne "-h" (by decide),
    hne "--version" (by decide), hne "-V" (by decide), hne "--verbose" (by decide),
    hne "-v" (by decide)]

/-- A positional argument is no valued option. -/
theorem option_of_positional {arg : String} (h : IsPositional arg) :
    ValueOption.ofArgument? arg = none := by
  refine List.find?_eq_none.mpr fun s _ hs => h ?_
  rw [← of_decide_eq_true hs]
  exact head?_text s

/-- An option with a value is known by its name, and is no flag. -/
theorem option_of_text (s : ValueOption) :
    Flag.ofArgument? s.text = none ∧ ValueOption.ofArgument? s.text = some s := by
  cases s <;> decide

namespace Arguments

/-! ## Putting down one after the other -/

/-- Puts down an option as it is given. -/
def take (a : Arguments) : GivenOption → Arguments
  | .verbose _ => { a with verbose := true }
  | .valued s value => a.put s value

/-- Puts down a positional argument, and goes on. -/
theorem gather_positional (a : Arguments) {arg : String} (h : IsPositional arg)
    (args : List String) : a.gather (arg :: args) = (a.push arg).gather args := by
  rw [gather, flag_of_positional h, option_of_positional h]
  exact if_neg h

/-- Puts down an option with all that belongs to it, and goes on. -/
theorem gather_option (a : Arguments) (o : GivenOption) (args : List String) :
    a.gather (o.words ++ args) = (a.take o).gather args := by
  cases o with
  | verbose short => cases short <;> rfl
  | valued s value =>
    obtain ⟨hflag, hoption⟩ := option_of_text s
    show a.gather (s.text :: value :: args) = _
    rw [gather, hflag, hoption]
    rfl

/-- It does not matter whether a positional argument or an option comes first. -/
theorem push_take (a : Arguments) (o : GivenOption) (arg : String) :
    (a.take o).push arg = (a.push arg).take o := by
  cases o with
  | verbose short => rfl
  | valued s value => cases s <;> rfl

/-- It makes no difference whether an option is taken before the positional arguments or behind
them. -/
theorem foldl_push_take (a : Arguments) (o : GivenOption) (ps : List String) :
    ps.foldl push (a.take o) = (ps.foldl push a).take o := by
  induction ps generalizing a with
  | nil => rfl
  | cons p ps ih => rw [List.foldl_cons, push_take, ih, List.foldl_cons]

/-- A mixture is put down as if all options stood behind the positional arguments. -/
theorem gather_interleaves {ps : List String} {os : List GivenOption} {args : List String}
    (h : Interleaves ps os args) (hps : ∀ p ∈ ps, IsPositional p) (a : Arguments) :
    a.gather args = .ok (os.foldl take (ps.foldl push a)) := by
  induction h generalizing a with
  | nil => rfl
  | positional _ ih =>
    rw [gather_positional a (hps _ List.mem_cons_self),
      ih fun p hp => hps p (List.mem_cons_of_mem _ hp)]
    rfl
  | option _ ih =>
    rw [gather_option, ih hps, foldl_push_take]
    rfl

/-! ## What is put down in the end -/

/-- What positional arguments and options amount to: of an option that is given more than once the
last value counts, and groups add up. -/
def ofParts (ps : List String) (os : List GivenOption) : Arguments where
  positional := ps
  state := (GivenOption.values .state os).getLast?
  config := (GivenOption.values .config os).getLast?
  verbose := os.any GivenOption.isVerbose
  input := (GivenOption.values .input os).getLast?
  user := (GivenOption.values .user os).getLast?
  groups := GivenOption.values .group os
  result := (GivenOption.values .result os).getLast?
  comment := (GivenOption.values .comment os).getLast?
  output := (GivenOption.values .output os).getLast?

/-- Positional arguments are put behind those that are there already. -/
theorem foldl_push (a : Arguments) (ps : List String) :
    ps.foldl push a = { a with positional := a.positional ++ ps } := by
  induction ps generalizing a with
  | nil => simp
  | cons p ps ih => rw [List.foldl_cons, ih]; simp [push]

/-- One more option is put down over those before it. -/
theorem ofParts_concat (ps : List String) (os : List GivenOption) (o : GivenOption) :
    ofParts ps (os ++ [o]) = (ofParts ps os).take o := by
  cases o with
  | verbose short => simp [ofParts, take, GivenOption.isVerbose]
  | valued s value => cases s <;> simp [ofParts, take, put, GivenOption.isVerbose]

/-- Options that are taken behind the positional arguments lead to the arguments of both parts. -/
theorem foldl_take_ofParts (ps : List String) (os : List GivenOption) :
    os.foldl take (ofParts ps []) = ofParts ps os := by
  induction os using List.reverseRecOn with
  | nil => rfl
  | append_singleton os o ih =>
    rw [List.foldl_append, ih, ofParts_concat]
    rfl

/-- Every mixture is put down as what its two parts amount to. -/
theorem gather_of_interleaves {ps : List String} {os : List GivenOption} {args : List String}
    (h : Interleaves ps os args) (hps : ∀ p ∈ ps, IsPositional p) :
    none.gather args = .ok (ofParts ps os) := by
  rw [gather_interleaves h hps, foldl_push]
  exact congrArg Except.ok (foldl_take_ofParts ps os)

end Arguments

/-- What every mixture makes is made of what its two parts amount to. -/
theorem Invocation.ofArguments_of_interleaves {ps : List String} {os : List GivenOption}
    {args : List String} (h : Interleaves ps os args) (hps : ∀ p ∈ ps, IsPositional p) :
    ofArguments args = (Arguments.ofParts ps os).toInvocation.mapError .problem := by
  rw [ofArguments, Arguments.gather_of_interleaves h hps]
  rfl

/-- Where options stand among the positional arguments makes no difference: any two mixtures of the
same two lists make the same invocation or have the same problem, which is that of the positional
arguments, the last value of each option, and all groups. -/
theorem option_placement {ps : List String} (hps : ∀ p ∈ ps, IsPositional p)
    {os : List GivenOption} {args args' : List String} (h : Interleaves ps os args)
    (h' : Interleaves ps os args') :
    Invocation.ofArguments args = Invocation.ofArguments args' ∧
      Invocation.ofArguments args = (Arguments.ofParts ps os).toInvocation.mapError .problem := by
  have hparts := Invocation.ofArguments_of_interleaves h hps
  exact ⟨hparts.trans (Invocation.ofArguments_of_interleaves h' hps).symm, hparts⟩

/-- A claim with two state files and two groups, whose user has the name of a flag: the second file
counts, both groups do, and no help is shown. -/
theorem option_placement_repeated :
    let id := "00000000-0000-0000-0000-000000000000"
    let args := ["--state", "a", "claim", "--group", "x", "-v", id, "--user", "--help",
      "--group", "y", "--state", "b"]
    let args' := ["claim", id, "--state", "a", "--group", "x", "-v", "--user", "--help",
      "--group", "y", "--state", "b"]
    (∀ p ∈ ["claim", id], IsPositional p) ∧
      Invocation.ofArguments args = Invocation.ofArguments args' ∧
      Invocation.ofArguments args =
        .ok ⟨.claim .nil ⟨"--help", ["x", "y"]⟩, "b", none, true⟩ := by
  intro id args args'
  let os : List GivenOption := [.valued .state "a", .valued .group "x", .verbose true,
    .valued .user "--help", .valued .group "y", .valued .state "b"]
  have hps : ∀ p ∈ ["claim", id], IsPositional p := by decide
  have h : Interleaves ["claim", id] os args :=
    .option (.positional (.option (.option (.positional (.option (.option (.option .nil)))))))
  have h' : Interleaves ["claim", id] os args' :=
    .positional (.positional (.option (.option (.option (.option (.option (.option .nil)))))))
  obtain ⟨hsame, hparts⟩ := option_placement hps h h'
  exact ⟨hps, hsame, hparts.trans (by decide +kernel)⟩

end ApprovalWorkflow.CommandLine
