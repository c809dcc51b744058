import ApprovalWorkflow.CommandLine.Run
import ApprovalWorkflow.Proofs.Nesting
import ApprovalWorkflow.Proofs.OptionPlacement
import ApprovalWorkflow.Proofs.Snapshots

/-!
# States that are saved and loaded

The command line is started again and again, and each start finds the state that the ones before
have left (`launches`). What a start saves is loaded by the next one exactly if its value has at
most the levels of nesting that a text may have, and it is then what was saved; otherwise it is not
loaded at all (`saved_state_loads`), and nothing on its path ever replaces it
(`Launch.unloaded_stays`). The texts that are handed in may have as many levels, but the state has
further levels around them: three around the entries of an input, and three more around what is
given out with a task, which stands in the history among the data of later tasks. As long as the
values that are handed in leave room for these (`Command.LeavesRoom`), all states are loaded.

The invariant is that the state has been saved by a launch with records of bounded depth
(`Launch.IsSound`). A launch that begins with such a state leaves such records
(`Launch.meets_withState`), and so do launches one after the other
(`Launch.isSound_of_mem_inTurn`).
-/

set_option autoImplicit false

namespace ApprovalWorkflow.CommandLine

open Operation

/-! ## Starts of the program -/

/-- A start of the program: its arguments, and what it finds outside, but for the state. -/
structure Start where
  args : List String
  outside : Outside

/-- The same outside with a state, or none, at a path. -/
def Outside.withState (o : Outside) (path : String) (state : Option String) : Outside :=
  { o with files := fun name =>
      if name = path then
        match state with
        | some text => .ok text
        | none => .error .missing
      else o.files name }

/-- An invocation, and what it finds outside. -/
structure Launch where
  invocation : Invocation
  outside : Outside

/-- The launch on the state at a path. Arguments that make no invocation launch nothing, and those
that name another state leave this one alone. -/
def Start.launch? (path : String) (s : Start) : Option Launch :=
  match Invocation.ofArguments s.args with
  | .error _ => none
  | .ok v => if v.statePath = path then some ⟨v, s.outside⟩ else none

namespace Launch

/-- The run of a launch. -/
def run (l : Launch) : Run := l.invocation.run l.outside

/-- The text that is saved, if any is. -/
def saved? (l : Launch) : Option String := l.run.state.map Prod.snd

/-- The contents of the store in the end. -/
def contents (l : Launch) : Snapshot := Snapshot.ofStore l.run.store

/-- The value of a state with these contents. -/
def value (l : Launch) : Json := l.contents.toJson l.outside.now

/-- The same launch with a state, or none, at a path. -/
def withState (l : Launch) (path : String) (state : Option String) : Launch :=
  { l with outside := l.outside.withState path state }

/-- Launches one after the other. Each of them finds at the path what the last one that has saved
anything has left. -/
def inTurn (path : String) : Option String → List Launch → List Launch
  | _, [] => []
  | state, l :: later =>
    let launched := l.withState path state
    launched :: inTurn path (launched.saved?.or state) later

end Launch

/-- What starts of the program launch on the state at a path, which is not there at first. -/
def launches (path : String) (starts : List Start) : List Launch :=
  Launch.inTurn path none (starts.filterMap (Start.launch? path))

/-- The values that come with the command leave room for the levels that a state has around them:
three around the entries of an input, and three more around what is given out with a task. -/
def Command.LeavesRoom : Command → Prop
  | .start _ input =>
    (Json.obj (inputEntries (normalizeInput input).value)).depth ≤ textLevels - 3
  | .complete _ _ c => c.output.depth ≤ textLevels - 6
  | _ => True

instance (c : Command) : Decidable c.LeavesRoom :=
  match c with
  | .start _ _ => inferInstanceAs (Decidable (_ ≤ _))
  | .complete _ _ _ => inferInstanceAs (Decidable (_ ≤ _))
  | .deploy _ | .tasks _ | .claim _ _ | .retry _ | .inspect _ => .isTrue trivial

/-! ## Commands -/

/-- The invariant allows the values that come with the command. -/
def Command.Suits (I : RecordInvariant) : Command → Prop
  | .start _ input => I.input input
  | .complete _ _ c => I.output c.output
  | _ => True

section

variable {I : RecordInvariant}

/-- Showing the open tasks of an instance keeps the records. -/
theorem openLines_keeps (e : Engine) (i : Uuid) : (openLines e i).Preserves I := by
  refine .after (.after (Engine.tasksOf_keeps e i).preserves fun _ => .pure trivial) fun _ => ?_
  exact .pure trivial

/-- Collecting the instances of some workflows keeps the records. -/
theorem instancesOf_keeps (ws : List Workflow) : (instancesOf ws).Preserves I := by
  induction ws with
  | nil => exact .pure trivial
  | cons w ws ih =>
    exact .after (.query fun _ _ => trivial) fun _ => .after ih fun _ => .pure trivial

/-- Showing the open tasks of some instances keeps the records. -/
theorem openLinesOf_keeps (e : Engine) (ids : List Uuid) : (openLinesOf e ids).Preserves I := by
  induction ids with
  | nil => exact .pure trivial
  | cons i ids ih =>
    exact .after (openLines_keeps e i) fun _ => .after ih fun _ => .pure trivial

/-- Warning of stalled tasks keeps the records. -/
theorem warnings_keep (tasks : List Task) : (tasks.forM warnOfStalled).Preserves I := by
  induction tasks with
  | nil => exact .pure trivial
  | cons t tasks ih => exact .after (.say _ _) fun _ => ih

/-- Every command keeps the records as an invariant says that allows its values. -/
theorem Command.execute_keeps (e : Engine) (files : String → Reading) {c : Command}
    (h : c.Suits I) : (c.execute e files).Preserves I := by
  cases c with
  | deploy path =>
    refine .after (Keeps.heedResult _).preserves fun d => ?_
    refine .after (Workflows.create_keeps _ _ _) fun w => ?_
    exact .after (Workflows.apply_keeps .activate) fun _ => .pure trivial
  | start workflow input =>
    refine .after (Workflows.startInstance_keeps h) fun i => ?_
    exact .after (openLines_keeps e i.id) fun _ => .pure trivial
  | tasks run =>
    cases run with
    | some i => exact openLines_keeps e i
    | none =>
      refine .after (.query fun _ _ => trivial) fun ws => ?_
      exact .after (instancesOf_keeps ws) fun ids => openLinesOf_keeps e ids
  | claim task actor =>
    exact .after (Tasks.claim_keeps actor) fun _ => .pure trivial
  | complete task actor completion =>
    refine .after (Tasks.complete_keeps actor h) fun t => ?_
    split
    · exact .after (.say _ _) fun _ => openLines_keeps e _
    · exact openLines_keeps e _
  | retry task =>
    refine .after Tasks.retry_keeps fun t => ?_
    exact .after (.say _ _) fun _ => .pure trivial
  | inspect run =>
    refine .after (Repository.instanceOf_keeps run).preserves fun found => ?_
    refine .after (openLines_keeps e run) fun lines => ?_
    refine .after (.after (Engine.tasksOf_keeps e run).preserves fun _ => .pure trivial)
      fun stalled => ?_
    exact .after (warnings_keep stalled) fun _ => .pure trivial

end

/-! ## Arguments -/

/-- The values that come with the command have been read from texts. -/
def Command.HasReadValues : Command → Prop
  | .start _ input => input.IsRead textLevels
  | .complete _ _ c => c.output.IsRead textLevels
  | _ => True

namespace Arguments

/-- A value among the arguments has been read from a text. -/
theorem isRead_of_json {option : String} {text : Option String} {v : Json}
    (h : json option text = .ok v) : v.IsRead textLevels := by
  cases text with
  | none =>
    cases h
    exact .scalar trivial rfl rfl
  | some text => exact Decode.gives_json.of_fromText (Except.mapError_eq_ok.mp h)

/-- A value that is no deeper than a text may be is given by its compact text. -/
theorem json_compact {v : Json} (hsorted : v.IsSorted) (hshallow : v.depth ≤ textLevels)
    (hnumbers : ∀ n ∈ v.numbers, n.ReadsBack) (option : String) :
    json option (some v.compact) = .ok v := by
  have hdocument : Doc.ofJsonText v.compact = ⟨.ofJson v, true⟩ := Doc.ofJsonText_compact hnumbers
  have hread : Decode.json .text textLevels (.ofJson v) = .ok v :=
    Decode.reads_json hsorted hshallow .text
  rw [json, Decode.fromText, hdocument]
  dsimp only
  rw [hread]
  rfl

/-- The values of a command that is understood have been read from texts. -/
theorem hasReadValues {a : Arguments} {c : Command} (h : a.command = .ok c) : c.HasReadValues := by
  unfold command at h
  split at h
  · cases h
  split at h
  · split at h <;> cases h
    trivial
  split at h
  · obtain ⟨workflow, -, h⟩ := Except.bind_eq_ok.mp h
    obtain ⟨input, hinput, h⟩ := Except.bind_eq_ok.mp h
    cases h
    exact isRead_of_json hinput
  split at h
  · split at h
    · cases h
      trivial
    · obtain ⟨run, -, h⟩ := Except.bind_eq_ok.mp h
      cases h
      trivial
  split at h
  · obtain ⟨task, -, h⟩ := Except.bind_eq_ok.mp h
    obtain ⟨actor, -, h⟩ := Except.bind_eq_ok.mp h
    cases h
    trivial
  split at h
  · obtain ⟨task, -, h⟩ := Except.bind_eq_ok.mp h
    obtain ⟨result, -, h⟩ := Except.bind_eq_ok.mp h
    obtain ⟨actor, -, h⟩ := Except.bind_eq_ok.mp h
    obtain ⟨output, houtput, h⟩ := Except.bind_eq_ok.mp h
    cases h
    exact isRead_of_json houtput
  split at h
  · obtain ⟨task, -, h⟩ := Except.bind_eq_ok.mp h
    cases h
    trivial
  split at h
  · obtain ⟨run, -, h⟩ := Except.bind_eq_ok.mp h
    cases h
    trivial
  · cases h

end Arguments

/-- The values among the arguments of an invocation have been read from texts. -/
theorem Invocation.hasReadValues {args : List String} {v : Invocation}
    (h : ofArguments args = .ok v) : v.command.HasReadValues := by
  obtain ⟨a, -, h⟩ := Except.bind_eq_ok.mp h
  obtain ⟨c, hc, h⟩ := Except.bind_eq_ok.mp (Except.mapError_eq_ok.mp h)
  split at h
  · cases h
  · cases h
    exact Arguments.hasReadValues hc

/-- The arguments that start an instance on an input. -/
theorem Invocation.ofArguments_start {workflow : Uuid} (hword : IsPositional workflow.toString)
    {text : String} {input : Json} (h : Arguments.json "--input" (some text) = .ok input) :
    ofArguments ["start", workflow.toString, "--input", text] =
      .ok ⟨.start workflow input, defaultState, none, false⟩ := by
  have hparts : Interleaves ["start", workflow.toString] [.valued .input text]
      ["start", workflow.toString, "--input", text] := .positional (.positional (.option .nil))
  have hpositional : ∀ p ∈ ["start", workflow.toString], IsPositional p :=
    List.forall_mem_cons.mpr ⟨by decide, List.forall_mem_singleton.mpr hword⟩
  rw [ofArguments_of_interleaves hparts hpositional]
  simp [Arguments.toInvocation, Arguments.command, Arguments.ofParts, Arguments.id,
    GivenOption.values, GivenOption.valueOf?, GivenOption.isVerbose, Uuid.ofString?_toString, h,
    bind, Except.bind, Except.mapError]

/-- The arguments with which a user completes a task with an output. -/
theorem Invocation.ofArguments_complete {task : Uuid} (hword : IsPositional task.toString)
    {user text : String} {output : Json}
    (h : Arguments.json "--output" (some text) = .ok output) :
    ofArguments ["complete", task.toString, "--user", user, "--output", text] =
      .ok ⟨.complete task ⟨user, []⟩ ⟨defaultResult, output, none⟩, defaultState, none, false⟩ := by
  have hparts : Interleaves ["complete", task.toString]
      [.valued .user user, .valued .output text]
      ["complete", task.toString, "--user", user, "--output", text] :=
    .positional (.positional (.option (.option .nil)))
  have hpositional : ∀ p ∈ ["complete", task.toString], IsPositional p :=
    List.forall_mem_cons.mpr ⟨by decide, List.forall_mem_singleton.mpr hword⟩
  rw [ofArguments_of_interleaves hparts hpositional]
  simp [Arguments.toInvocation, Arguments.command, Arguments.ofParts, Arguments.id,
    Arguments.taskResult, Arguments.actor, GivenOption.values, GivenOption.valueOf?,
    GivenOption.isVerbose, Uuid.ofString?_toString, h, bind, Except.bind, Except.mapError]

namespace Command.HasReadValues

variable {c : Command}

/-- The entries of an input may be one level deeper than the input itself. -/
theorem suits (h : c.HasReadValues) : c.Suits (.within textLevels) := by
  cases c with
  | start workflow input =>
    have hentries := Json.isGraded_read.inputEntries (Json.IsRead.normalized h)
    exact ⟨h, Nat.le_trans hentries.shallow (by decide)⟩
  | complete task actor completion => exact h
  | _ => trivial

/-- A command whose values leave room suits an invariant that bounds how deep the data are nested.
-/
theorem suits_of_leavesRoom (h : c.HasReadValues) (hroom : c.LeavesRoom) :
    c.Suits (.within (textLevels - 6)) := by
  cases c with
  | start workflow input => exact ⟨h, hroom⟩
  | complete task actor completion => exact ⟨h.sorted, h.fits, hroom⟩
  | _ => trivial

end Command.HasReadValues

/-! ## Runs -/

namespace Invocation

variable {v : Invocation}

/-- An invocation that can be prepared has loaded the state that is there. -/
theorem loads_of_prepare {files : String → Reading} {settings : Settings} {snapshot : Snapshot}
    (h : (v.prepare files).value = .ok (settings, snapshot)) :
    (Snapshot.loadOrEmpty v.statePath (files v.statePath)).value = .ok snapshot := by
  rw [prepare, Logged.value_bind] at h
  split at h
  · cases h
  · rw [Logged.value_bind] at h
    split at h
    · cases h
    · next hload =>
      cases h
      exact hload

/-- What a run begins with, if it names no settings. -/
theorem prepare_eq_ok (hconfig : v.configPath = none) {files : String → Reading}
    {snapshot : Snapshot}
    (hload : (Snapshot.loadOrEmpty v.statePath (files v.statePath)).value = .ok snapshot) :
    (v.prepare files).value = .ok (.default, snapshot) := by
  rw [prepare, settings, hconfig, Logged.value_bind]
  show (Snapshot.loadOrEmpty v.statePath (files v.statePath) >>= _ : Logged _).value = _
  rw [Logged.value_bind, hload]
  rfl

/-- A run carries out its command on the store that is made from the snapshot, and saves what is
left, unless the command only looks. -/
theorem run_of_prepare {o : Outside} {settings : Settings} {snapshot : Snapshot}
    (h : (v.prepare o.files).value = .ok (settings, snapshot)) :
    (v.run o).store = ((v.command.execute ⟨settings, .logging⟩ o.files).leaves
        ⟨snapshot.toStore, o.now, o.ids, none, [], (v.prepare o.files).lines⟩).store ∧
      (v.run o).state = v.stateOf (v.run o).store o.now := by
  unfold run
  simp only [h, and_true]
  rfl

/-- A run that cannot begin saves nothing. -/
theorem run_of_unprepared {o : Outside} {e : EngineError}
    (h : (v.prepare o.files).value = .error e) :
    v.run o = ⟨.error e, (v.prepare o.files).lines, .empty, o.ids, none⟩ := by
  unfold run
  simp only [h]

/-- A run leaves the records as an invariant says that allows its values, if it begins with such
records. -/
theorem run_meets {I : RecordInvariant} (hsuits : v.command.Suits I) {o : Outside}
    (hnow : o.now.IsRegular)
    (hload : ∀ snapshot,
      (Snapshot.loadOrEmpty v.statePath (o.files v.statePath)).value = .ok snapshot →
        snapshot.toStore.Meets I) : (v.run o).store.Meets I := by
  rcases hprepared : (v.prepare o.files).value with e | ⟨settings, snapshot⟩
  · rw [run_of_unprepared hprepared]
    exact .empty
  · rw [(run_of_prepare hprepared).1]
    have hbegin := hload snapshot (loads_of_prepare hprepared)
    exact (Command.execute_keeps ⟨settings, .logging⟩ o.files hsuits _ ⟨hnow, hbegin⟩).1.store

end Invocation

/-- Every command that does not only look saves what is left, once there is something to begin
with. -/
theorem Launch.saved?_of_prepare {l : Launch} {settings : Settings} {snapshot : Snapshot}
    (h : (l.invocation.prepare l.outside.files).value = .ok (settings, snapshot))
    (hwrites : l.invocation.command.isReadOnly = false) :
    l.saved? = some (l.contents.toText l.outside.now) := by
  rw [saved?, run, (Invocation.run_of_prepare h).2, Invocation.stateOf, hwrites]
  rfl

/-- What a launch leaves that can begin: what its command makes of the snapshot. -/
theorem Launch.contents_of_prepare {l : Launch} {settings : Settings} {snapshot : Snapshot}
    (h : (l.invocation.prepare l.outside.files).value = .ok (settings, snapshot)) :
    l.contents = Snapshot.ofStore ((l.invocation.command.execute ⟨settings, .logging⟩
      l.outside.files).leaves ⟨snapshot.toStore, l.outside.now, l.outside.ids, none, [],
        (l.invocation.prepare l.outside.files).lines⟩).store := by
  rw [contents, run, (Invocation.run_of_prepare h).1]

/-- What is saved is the contents of the store in the end. -/
theorem Launch.saved?_eq_some {l : Launch} {text : String} (h : l.saved? = some text) :
    text = l.contents.toText l.outside.now := by
  obtain ⟨saved, hsaved, rfl⟩ := Option.map_eq_some_iff.mp h
  change (l.invocation.run l.outside).state = some saved at hsaved
  rcases hprepared : (l.invocation.prepare l.outside.files).value with e | ⟨settings, snapshot⟩
  · rw [Invocation.run_of_unprepared hprepared] at hsaved
    cases hsaved
  · rw [(Invocation.run_of_prepare hprepared).2] at hsaved
    unfold Invocation.stateOf at hsaved
    split at hsaved
    · cases hsaved
    · cases hsaved
      rfl

/-- Of a text that is there, the snapshot in it is loaded. -/
theorem loadOrEmpty_text (path text : String) :
    (Snapshot.loadOrEmpty path (.ok text)).value =
      (SavedSnapshot.ofText text).map SavedSnapshot.snapshot := by
  have hread : (Except.mapError EngineError.file (.ok text) >>= SavedSnapshot.ofText) =
      SavedSnapshot.ofText text := rfl
  rw [Snapshot.loadOrEmpty, Snapshot.load, hread]
  cases SavedSnapshot.ofText text <;> rfl

/-- A launch that leaves records of bounded depth, at a time that a clock can show, with floats
that are read back from what is written for them. -/
structure Launch.IsSound (n : Nat) (l : Launch) : Prop where
  store : l.run.store.Meets (.within n)
  now : l.outside.now.IsRegular
  floats : ∀ x, .float x ∈ l.value.numbers → x.ReadsBack

/-- The state, if there is one, has been saved by a sound launch. -/
def IsSoundState (n : Nat) (state : Option String) : Prop :=
  ∀ text ∈ state, ∃ l : Launch, l.IsSound n ∧ l.saved? = some text

namespace Launch.IsSound

variable {n : Nat} {l : Launch}

/-- What a sound launch writes down can be stored. -/
theorem storable (h : l.IsSound n) : l.contents.IsStorable where
  workflows w hw := h.store.workflows w (l.run.store.listWorkflows_perm.subset hw)
  instances i hi := (h.store.instances i (l.run.store.allInstances_perm.subset hi)).storable
  tasks t ht := (h.store.tasks t ht).storable
  history entry hentry := (h.store.history entry hentry).storable

/-- The numbers in what a sound launch writes down read back. -/
theorem readsBack (h : l.IsSound n) : ∀ number ∈ l.value.numbers, number.ReadsBack := by
  -- That integers have 64 bits is part of the limit, and any number of levels will do for it.
  have hlimited : l.value.IsLimited (n + 6 + textLevels) :=
    h.store.limited l.outside.now (Nat.le_add_left _ _) (Nat.le_add_right _ _)
  intro number hnumber
  cases number with
  | int i => exact hlimited.fits i hnumber
  | float x => exact h.floats x hnumber

/-- What a sound launch saves is loaded as its contents if its value has no more levels than a text
may have, and is not loaded otherwise. -/
theorem load (h : l.IsSound n) {text : String} (hsaved : l.saved? = some text) (path : String) :
    (Snapshot.loadOrEmpty path (.ok text)).value =
      if l.value.depth ≤ textLevels then .ok l.contents
      else .error (.serialization .malformed) := by
  have hdocument : Doc.ofJsonText text = ⟨.ofJson l.value, true⟩ :=
    saved?_eq_some hsaved ▸ Doc.ofJsonText_pretty h.readsBack
  rw [loadOrEmpty_text, SavedSnapshot.ofText, Decode.fromText, hdocument]
  dsimp only
  by_cases hshallow : l.value.depth ≤ textLevels
  · have hread : SavedSnapshot.decode .text textLevels (.ofJson l.value) =
        .ok ⟨l.outside.now, l.contents⟩ :=
      SavedSnapshot.recovers h.storable h.now textLevels hshallow .text
    rw [hread, if_pos hshallow]
    rfl
  · have hread : SavedSnapshot.decode .text textLevels (.ofJson l.value) = .error .malformed :=
      SavedSnapshot.malformed_of_deep h.now (Nat.not_le.mp hshallow) .text
    rw [hread, if_neg hshallow]
    rfl

end Launch.IsSound

/-! ## Launches one after the other -/

section

variable {n : Nat} {path : String} {state : Option String}

namespace Launch

/-- What a launch loads, if the state is kept at its path. -/
theorem loads_withState {l : Launch} (hpath : l.invocation.statePath = path)
    (state : Option String) :
    Snapshot.loadOrEmpty (l.withState path state).invocation.statePath
        ((l.withState path state).outside.files (l.withState path state).invocation.statePath) =
      match state with
      | some text => Snapshot.loadOrEmpty path (.ok text)
      | none => Snapshot.loadOrEmpty path (.error .missing) := by
  subst hpath
  rw [withState]
  refine (congrArg (Snapshot.loadOrEmpty _) (if_pos rfl)).trans ?_
  cases state <;> rfl

/-- On what a sound launch has saved another one begins with its contents, if these are not nested
too deep. -/
theorem prepare_withState {l next : Launch} (h : l.IsSound textLevels) {text : String}
    (hsaved : l.saved? = some text) (hshallow : l.value.depth ≤ textLevels)
    (hpath : next.invocation.statePath = path) (hconfig : next.invocation.configPath = none) :
    ((next.withState path l.saved?).invocation.prepare
      (next.withState path l.saved?).outside.files).value = .ok (.default, l.contents) := by
  have hload : (Snapshot.loadOrEmpty (next.withState path l.saved?).invocation.statePath
      ((next.withState path l.saved?).outside.files
        (next.withState path l.saved?).invocation.statePath)).value = .ok l.contents := by
    rw [loads_withState hpath, hsaved]
    exact (h.load hsaved path).trans (if_pos hshallow)
  exact Invocation.prepare_eq_ok hconfig hload

/-- A launch begins with the records of the last one that has saved anything, or with none. -/
theorem meets_withState {l : Launch} (hstate : IsSoundState n state)
    (hpath : l.invocation.statePath = path) (hsuits : l.invocation.command.Suits (.within n))
    (hnow : l.outside.now.IsRegular) : (l.withState path state).run.store.Meets (.within n) := by
  refine Invocation.run_meets (v := (l.withState path state).invocation) hsuits hnow
    fun snapshot hload => ?_
  rw [loads_withState hpath] at hload
  cases state with
  | none =>
    cases hload
    exact .empty
  | some text =>
    obtain ⟨before, hbefore, hsaved⟩ := hstate text rfl
    rw [hbefore.load hsaved] at hload
    split at hload
    · cases hload
      exact hbefore.store.restored
    · cases hload

/-- Launches one after the other are sound if the values of their commands suit the bound. -/
theorem isSound_of_mem_inTurn {ls : List Launch}
    (hpath : ∀ l ∈ ls, l.invocation.statePath = path) (hnow : ∀ l ∈ ls, l.outside.now.IsRegular)
    (hsuits : ∀ l ∈ ls, l.invocation.command.Suits (.within n)) (hstate : IsSoundState n state)
    (hfloats : ∀ l ∈ inTurn path state ls, ∀ x, .float x ∈ l.value.numbers → x.ReadsBack) :
    ∀ l ∈ inTurn path state ls, l.IsSound n := by
  induction ls generalizing state with
  | nil => exact fun l hl => nomatch hl
  | cons l later ih =>
    obtain ⟨hpath, hpathLater⟩ := List.forall_mem_cons.mp hpath
    obtain ⟨hnow, hnowLater⟩ := List.forall_mem_cons.mp hnow
    obtain ⟨hsuits, hsuitsLater⟩ := List.forall_mem_cons.mp hsuits
    obtain ⟨hfloats, hfloatsLater⟩ := List.forall_mem_cons.mp hfloats
    have hsound : (l.withState path state).IsSound n :=
      ⟨meets_withState hstate hpath hsuits hnow, hnow, hfloats⟩
    -- The next launch finds what this one has saved, or the state of before if it saves nothing.
    have hleft : IsSoundState n ((l.withState path state).saved?.or state) := by
      intro text htext
      rcases Option.or_eq_some_iff.mp htext with hsaved | ⟨-, hkept⟩
      · exact ⟨_, hsound, hsaved⟩
      · exact hstate text hkept
    exact List.forall_mem_cons.mpr
      ⟨hsound, ih hpathLater hnowLater hsuitsLater hleft hfloatsLater⟩

/-- Launches that are taken in turn are invoked with the same arguments and files. -/
theorem map_invocation_inTurn (state : Option String) (ls : List Launch) :
    (inTurn path state ls).map invocation = ls.map invocation := by
  induction ls generalizing state with
  | nil => rfl
  | cons l later ih => exact congrArg (l.invocation :: ·) (ih _)

/-- A state that is not loaded stays as it is: whatever is launched on it fails and saves
nothing. -/
theorem unloaded_stays {text : String} {e : EngineError}
    (hload : (Snapshot.loadOrEmpty path (.ok text)).value = .error e) {ls : List Launch}
    (hpath : ∀ l ∈ ls, l.invocation.statePath = path) :
    ∀ l ∈ inTurn path (some text) ls,
      l.saved? = none ∧ ∃ problem, l.run.outcome = .error problem := by
  induction ls with
  | nil => exact fun l hl => nomatch hl
  | cons l later ih =>
    obtain ⟨hpath, hlater⟩ := List.forall_mem_cons.mp hpath
    obtain ⟨problem, hproblem⟩ : ∃ problem, ((l.withState path (some text)).invocation.prepare
        (l.withState path (some text)).outside.files).value = .error problem := by
      cases hprepared : ((l.withState path (some text)).invocation.prepare
          (l.withState path (some text)).outside.files).value with
      | error problem => exact ⟨problem, rfl⟩
      | ok p =>
        have hloaded := Invocation.loads_of_prepare hprepared
        rw [loads_withState hpath, hload] at hloaded
        cases hloaded
    have hrun : (l.withState path (some text)).run = _ := Invocation.run_of_unprepared hproblem
    have hsaved : (l.withState path (some text)).saved? = none := by
      rw [saved?, hrun]
      rfl
    refine List.forall_mem_cons.mpr ⟨⟨hsaved, problem, by rw [hrun]⟩, ?_⟩
    rw [hsaved]
    exact ih hlater

end Launch

/-- Whatever is launched is made by the arguments of a start, on the path of the state. -/
theorem Start.of_mem_launches {starts : List Start} {l : Launch}
    (hl : l ∈ starts.filterMap (Start.launch? path)) :
    ∃ s ∈ starts, Invocation.ofArguments s.args = .ok l.invocation ∧
      l.invocation.statePath = path ∧ l.outside = s.outside := by
  obtain ⟨s, hs, hlaunch⟩ := List.mem_filterMap.mp hl
  unfold launch? at hlaunch
  split at hlaunch
  · cases hlaunch
  · next v hv =>
    split at hlaunch
    · next hpath =>
      cases hlaunch
      exact ⟨s, hs, hv, hpath, rfl⟩
    · cases hlaunch

/-- What is launched is sound if the values that come with the commands suit the bound. -/
theorem isSound_of_mem_launches {starts : List Start}
    (hnow : ∀ s ∈ starts, s.outside.now.IsRegular)
    (hsuits : ∀ l ∈ launches path starts, l.invocation.command.HasReadValues →
      l.invocation.command.Suits (.within n))
    (hfloats : ∀ l ∈ launches path starts, ∀ x, .float x ∈ l.value.numbers → x.ReadsBack) :
    ∀ l ∈ launches path starts, l.IsSound n := by
  have hinvocations : (launches path starts).map Launch.invocation =
      (starts.filterMap (Start.launch? path)).map Launch.invocation :=
    Launch.map_invocation_inTurn none _
  refine Launch.isSound_of_mem_inTurn ?_ ?_ ?_ (fun text htext => nomatch htext) hfloats
  · intro l hl
    obtain ⟨s, -, -, hpath, -⟩ := Start.of_mem_launches hl
    exact hpath
  · intro l hl
    obtain ⟨s, hs, -, -, houtside⟩ := Start.of_mem_launches hl
    exact houtside ▸ hnow s hs
  · intro l hl
    obtain ⟨s, -, hmade, -, -⟩ := Start.of_mem_launches hl
    have hread := Invocation.hasReadValues hmade
    have hmem : l.invocation ∈ (launches path starts).map Launch.invocation :=
      hinvocations ▸ List.mem_map_of_mem hl
    obtain ⟨m, hm, heq⟩ := List.mem_map.mp hmem
    exact heq ▸ hsuits m hm (heq ▸ hread)

end

/-! ## States -/

/-- However often the program is started on a state that is not there at first, what it saves is
loaded again exactly if the value of the state has no more levels than a text may have, and the
snapshot is then the contents of the store that was saved. All states have so few levels as long as
the values that are handed in leave room for the levels around them. -/
theorem saved_state_loads (path : String) (starts : List Start)
    (hnow : ∀ s ∈ starts, s.outside.now.IsRegular)
    (hfloats : ∀ l ∈ launches path starts, ∀ x, .float x ∈ l.value.numbers → x.ReadsBack) :
    ∀ l ∈ launches path starts,
      (∀ text, l.saved? = some text → (Snapshot.loadOrEmpty path (.ok text)).value =
        if l.value.depth ≤ textLevels then .ok l.contents
        else .error (.serialization .malformed)) ∧
      ((∀ m ∈ launches path starts, m.invocation.command.LeavesRoom) →
        l.value.depth ≤ textLevels) := by
  intro l hl
  constructor
  · intro text hsaved
    have hsound : l.IsSound textLevels :=
      isSound_of_mem_launches hnow (fun _ _ hread => hread.suits) hfloats l hl
    exact hsound.load hsaved path
  -- Six levels less for what is given out leave the whole state within the levels of a text.
  · intro hroom
    have hsound : l.IsSound (textLevels - 6) :=
      isSound_of_mem_launches hnow
        (fun m hm hread => hread.suits_of_leavesRoom (hroom m hm)) hfloats l hl
    exact (hsound.store.limited l.outside.now (Nat.le_refl _) (Nat.le_refl _)).shallow

/-- The only file besides the state is a definition with one step. -/
def filingFiles (name : String) : Reading :=
  if name = "filing.json" then
    .ok "\x7b\"name\":\"filing\",\"steps\":[[\"submit\",\"user_task\"]]\x7d"
  else .error .missing

/-- The workflow that is deployed in `filing`. -/
def filingWorkflow : Uuid := IdSource.issue 1 .workflow 0

/-- The definition is deployed, and an instance of it is started on an input. -/
def filing (input : String) : List Start :=
  [⟨["deploy", "filing.json"], ⟨filingFiles, ⟨1, 0⟩, .new 1⟩⟩,
    ⟨["start", filingWorkflow.toString, "--input", input], ⟨filingFiles, ⟨2, 0⟩, .new 2⟩⟩]

/-- The first launch of `filing`. -/
def deploying : Launch :=
  Launch.withState ⟨⟨.deploy "filing.json", defaultState, none, false⟩,
    ⟨filingFiles, ⟨1, 0⟩, .new 1⟩⟩ defaultState none

/-- The second launch of `filing`, on the value of the input. -/
def starting (input : Json) : Launch :=
  Launch.withState ⟨⟨.start filingWorkflow input, defaultState, none, false⟩,
    ⟨filingFiles, ⟨2, 0⟩, .new 2⟩⟩ defaultState deploying.saved?

/-- The first launch begins with nothing. -/
theorem deploying_prepare : (deploying.invocation.prepare deploying.outside.files).value =
    .ok (.default, .empty) := Invocation.prepare_eq_ok rfl rfl

/-- What has been deployed holds no numbers. -/
theorem deploying_numbers : deploying.value.numbers = [] := by
  rw [Launch.value, Launch.contents_of_prepare deploying_prepare]
  decide +kernel

/-- The state that the first launch saves can be loaded. -/
theorem deploying_isSound : deploying.IsSound textLevels where
  store := by
    have hsuits : deploying.invocation.command.Suits (.within textLevels) := trivial
    refine Invocation.run_meets hsuits (by decide) fun snapshot hload => ?_
    cases hload.symm.trans (Invocation.loads_of_prepare deploying_prepare)
    exact .empty
  now := by decide
  floats := by simp [deploying_numbers]

/-- An instance is started on what has been deployed. -/
theorem starting_prepare (input : Json) :
    ((starting input).invocation.prepare (starting input).outside.files).value =
      .ok (.default, deploying.contents) := by
  have hsaved := Launch.saved?_of_prepare deploying_prepare rfl
  have hshallow : deploying.value.depth ≤ textLevels := by decide +kernel
  exact Launch.prepare_withState deploying_isSound hsaved hshallow rfl rfl

/-- What the starts of `filing` launch, and others behind them. -/
theorem launches_filing {text : String} {input : Json}
    (h : Arguments.json "--input" (some text) = .ok input) (later : List Start) :
    launches defaultState (filing text ++ later) = deploying :: starting input ::
      Launch.inTurn defaultState (starting input).saved?
        (later.filterMap (Start.launch? defaultState)) := by
  have hdeploy : Start.launch? defaultState
      ⟨["deploy", "filing.json"], ⟨filingFiles, ⟨1, 0⟩, .new 1⟩⟩ =
        some ⟨deploying.invocation, ⟨filingFiles, ⟨1, 0⟩, .new 1⟩⟩ := rfl
  have hstart : Start.launch? defaultState ⟨["start", filingWorkflow.toString, "--input", text],
      ⟨filingFiles, ⟨2, 0⟩, .new 2⟩⟩ =
        some ⟨(starting input).invocation, ⟨filingFiles, ⟨2, 0⟩, .new 2⟩⟩ := by
    rw [Start.launch?, Invocation.ofArguments_start (by decide +kernel) h]
    rfl
  have hsaved : (starting input).saved?.or deploying.saved? = (starting input).saved? := by
    rw [Launch.saved?_of_prepare (starting_prepare input) rfl]
    rfl
  simp only [launches, filing, List.cons_append, List.nil_append, List.filterMap_cons, hdeploy,
    hstart]
  rw [← hsaved]
  show deploying :: Launch.inTurn defaultState (deploying.saved?.or none) _ = _
  rw [Option.or_none]
  rfl

/-- Arrays inside one another. -/
def nestedArrays : Nat → Json
  | 0 => .arr []
  | n + 1 => .arr [nestedArrays n]

/-- Each array around others is one level more. -/
theorem nestedArrays_depth (n : Nat) : (nestedArrays n).depth = n + 1 := by
  induction n with
  | zero => rfl
  | succ n ih => simp [nestedArrays, Json.depth, Json.depthItems, ih]

/-- There are no keys to be sorted. -/
theorem nestedArrays_isSorted (n : Nat) : (nestedArrays n).IsSorted := by
  induction n with
  | zero => trivial
  | succ n ih => exact ⟨ih, trivial⟩

/-- There are no numbers in empty arrays. -/
theorem nestedArrays_numbers (n : Nat) : (nestedArrays n).numbers = [] := by
  induction n with
  | zero => rfl
  | succ n ih => simp [nestedArrays, Json.numbers, Json.numbersOfItems, ih]

/-- An instance is started on a number with a fraction, and both states are loaded again. -/
theorem saved_state_loads_filing :
    let ls := launches defaultState (filing "[0.5]")
    (∀ s ∈ filing "[0.5]", s.outside.now.IsRegular) ∧
      (∀ l ∈ ls, ∀ x, .float x ∈ l.value.numbers → x.ReadsBack) ∧
      (∀ l ∈ ls, l.invocation.command.LeavesRoom) ∧
      ls.map (fun l => l.saved?.isSome) = [true, true] ∧
      ∀ l ∈ ls, ∀ text, l.saved? = some text →
        (Snapshot.loadOrEmpty defaultState (.ok text)).value = .ok l.contents := by
  intro ls
  let half : Binary64 := ⟨false, 2 ^ 52, -53⟩
  let input : Json := .arr [.num (.float half)]
  have hinput : Arguments.json "--input" (some "[0.5]") = .ok input := by decide +kernel
  have hls : ls = [deploying, starting input] := launches_filing hinput []
  have hnow : ∀ s ∈ filing "[0.5]", s.outside.now.IsRegular := by
    simp only [filing, List.forall_mem_cons]
    exact ⟨by decide, by decide, List.forall_mem_nil _⟩
  have hfloats : ∀ l ∈ ls, ∀ x, .float x ∈ l.value.numbers → x.ReadsBack := by
    simp only [hls, List.forall_mem_cons]
    refine ⟨deploying_isSound.floats, fun x hx => ?_, List.forall_mem_nil _⟩
    have hnumbers : ∀ n ∈ (starting input).value.numbers, n = .float half := by
      rw [Launch.value, Launch.contents_of_prepare (starting_prepare _)]
      decide +kernel
    obtain rfl : x = half := Json.Number.float.inj (hnumbers _ hx)
    exact ⟨⟨false, ['0'], some ['5'], none⟩, by decide +kernel, by decide +kernel,
      by decide +kernel⟩
  have hroom : ∀ l ∈ ls, l.invocation.command.LeavesRoom := by
    simp only [hls, List.forall_mem_cons]
    exact ⟨trivial, by decide +kernel, List.forall_mem_nil _⟩
  have hsaves : ls.map (fun l => l.saved?.isSome) = [true, true] := by
    rw [hls, List.map_cons, List.map_cons, Launch.saved?_of_prepare deploying_prepare rfl,
      Launch.saved?_of_prepare (starting_prepare _) rfl]
    rfl
  refine ⟨hnow, hfloats, hroom, hsaves, fun l hl text hsaved => ?_⟩
  obtain ⟨hload, hshallow⟩ := saved_state_loads defaultState _ hnow hfloats l hl
  rw [hload text hsaved, if_pos (hshallow hroom)]

/-- The task that is opened in `filing`. -/
def filingTask : Uuid := IdSource.issue 2 .task 0

/-- The task of an instance without input is completed with an output. -/
def filed (output : String) : List Start :=
  filing "\x7b\x7d" ++ [⟨["complete", filingTask.toString, "--user", "u", "--output", output],
    ⟨filingFiles, ⟨3, 0⟩, .new 3⟩⟩]

/-- The third launch of `filed`, on the value of the output. -/
def completing (output : Json) : Launch :=
  Launch.withState ⟨⟨.complete filingTask ⟨"u", []⟩ ⟨.approved, output, none⟩, defaultState, none,
    false⟩, ⟨filingFiles, ⟨3, 0⟩, .new 3⟩⟩ defaultState (starting (.obj [])).saved?

/-- The input of the second start in `filed`. -/
theorem filed_input : Arguments.json "--input" (some "\x7b\x7d") = .ok (.obj []) := by
  decide +kernel

/-- What the starts of `filed` launch. -/
theorem launches_filed {text : String} {output : Json}
    (h : Arguments.json "--output" (some text) = .ok output) :
    launches defaultState (filed text) =
      [deploying, starting (.obj []), completing output] := by
  have hcomplete : Start.launch? defaultState
      ⟨["complete", filingTask.toString, "--user", "u", "--output", text],
        ⟨filingFiles, ⟨3, 0⟩, .new 3⟩⟩ =
        some ⟨(completing output).invocation, ⟨filingFiles, ⟨3, 0⟩, .new 3⟩⟩ := by
    rw [Start.launch?, Invocation.ofArguments_complete (by decide +kernel) h]
    rfl
  rw [filed, launches_filing filed_input, List.filterMap_cons, hcomplete]
  rfl

/-- Before the task is completed the state can be loaded. -/
theorem starting_isSound : (starting (.obj [])).IsSound textLevels where
  store := by
    have hread : (starting (.obj [])).invocation.command.HasReadValues :=
      Arguments.isRead_of_json filed_input
    have hsuits := hread.suits
    refine Invocation.run_meets hsuits (by decide) fun snapshot hload => ?_
    cases hload.symm.trans (Invocation.loads_of_prepare (starting_prepare _))
    exact deploying_isSound.store.restored
  now := by decide
  floats := by
    have hnumbers : (starting (.obj [])).value.numbers = [] := by
      rw [Launch.value, Launch.contents_of_prepare (starting_prepare _)]
      decide +kernel
    simp [hnumbers]

/-- The task is completed in what the second launch has left. -/
theorem completing_prepare (output : Json) :
    ((completing output).invocation.prepare (completing output).outside.files).value =
      .ok (.default, (starting (.obj [])).contents) := by
  have hsaved := Launch.saved?_of_prepare (starting_prepare (.obj [])) rfl
  have hshallow : (starting (.obj [])).value.depth ≤ textLevels := by
    rw [Launch.value, Launch.contents_of_prepare (starting_prepare _)]
    decide +kernel
  exact Launch.prepare_withState starting_isSound hsaved hshallow rfl rfl

/-- The text of an output may have as many levels as that of a state. If it has nearly so many, the
state with the completed task has more, and what is saved is not loaded. -/
theorem saved_state_not_loaded :
    ¬ ∀ (path : String) (starts : List Start), (∀ s ∈ starts, s.outside.now.IsRegular) →
      (∀ l ∈ launches path starts, ∀ x, .float x ∈ l.value.numbers → x.ReadsBack) →
      ∀ l ∈ launches path starts, ∀ text, l.saved? = some text →
        ∃ snapshot, (Snapshot.loadOrEmpty path (.ok text)).value = .ok snapshot := by
  intro h
  let output := nestedArrays 124
  have hshallow : output.depth ≤ textLevels := Nat.le_trans (nestedArrays_depth _).le (by decide)
  have hreads : ∀ n ∈ output.numbers, n.ReadsBack :=
    nestedArrays_numbers 124 ▸ List.forall_mem_nil _
  have houtput : Arguments.json "--output" (some output.compact) = .ok output :=
    Arguments.json_compact (nestedArrays_isSorted _) hshallow hreads "--output"
  have hls : launches defaultState (filed output.compact) =
      [deploying, starting (.obj []), completing output] := launches_filed houtput
  have hnow : ∀ s ∈ filed output.compact, s.outside.now.IsRegular := by
    simp only [filed, filing, List.cons_append, List.nil_append, List.forall_mem_cons]
    exact ⟨by decide, by decide, by decide, List.forall_mem_nil _⟩
  have hnumbers : (completing output).value.numbers = [] := by
    rw [Launch.value, Launch.contents_of_prepare (completing_prepare output),
      Launch.contents_of_prepare (starting_prepare _)]
    decide +kernel
  have hdeep : ¬ (completing output).value.depth ≤ textLevels := by
    rw [Launch.value, Launch.contents_of_prepare (completing_prepare output),
      Launch.contents_of_prepare (starting_prepare _)]
    decide +kernel
  have hfloats : ∀ l ∈ launches defaultState (filed output.compact), ∀ x,
      .float x ∈ l.value.numbers → x.ReadsBack := by
    simp only [hls, List.forall_mem_cons]
    exact ⟨deploying_isSound.floats, starting_isSound.floats, by simp [hnumbers],
      List.forall_mem_nil _⟩
  have hmem : completing output ∈ launches defaultState (filed output.compact) := by simp [hls]
  have hsaved := Launch.saved?_of_prepare (completing_prepare output) rfl
  obtain ⟨snapshot, hload⟩ := h defaultState _ hnow hfloats _ hmem _ hsaved
  have hsound : (completing output).IsSound textLevels :=
    isSound_of_mem_launches hnow (fun _ _ hread => hread.suits) hfloats _ hmem
  have hrefused := (hsound.load hsaved defaultState).trans (if_neg hdeep)
  rw [hload] at hrefused
  cases hrefused

end ApprovalWorkflow.CommandLine
