import TeepDevice.Suit.Refinement

/-! What a started runner comes to: its runs, over any number of suspensions,
against the interpreter, and when "finished" stands for an executed sequence. -/
namespace TeepDevice.Suit
open Tcbor

variable {U R : Type}

/-- One call of `suit_runner_run` or of `suit_runner_resume`. -/
inductive Turn (cb : Callbacks U R) (frames : Frames) : Runner U R → Runner U R → Prop where
  | run {fuel : Nat} {before after : Runner U R}
      (ran : suitRunnerRun cb frames fuel before = some after) : Turn cb frames before after
  | resume (before : Runner U R) : Turn cb frames before (suitRunnerResume cb before)

abbrev Turns (cb : Callbacks U R) (frames : Frames) : Runner U R → Runner U R → Prop :=
  Relation.ReflTransGen (Turn cb frames)

/-- The states a call of `suit_runner_run` returned, after any calls from `start`. -/
def ComesToRest (cb : Callbacks U R) (frames : Frames) (start runner : Runner U R) : Prop :=
  ∃ before fuel, Turns cb frames start before ∧ suitRunnerRun cb frames fuel before = some runner

section Runs
variable {cb : Callbacks U R} {frames : Frames} {manifest : Manifest}
  {result : Except (Effects U R) (Meaning U R)}

theorem turns_simulate {start runner : Runner U R}
    (sim : Simulates cb frames manifest result start) (turns : Turns cb frames start runner) :
    Simulates cb frames manifest result runner := by
  induction turns with
  | refl => exact sim
  | tail _ turn ih =>
    cases turn with
    | run ran => exact (suitRunnerRun_simulates ih ran).1
    | resume before => exact suitRunnerResume_simulates ih

theorem comesToRest_simulates {start runner : Runner U R}
    (sim : Simulates cb frames manifest result start)
    (rest : ComesToRest cb frames start runner) :
    Simulates cb frames manifest result runner ∧ AtRest runner := by
  obtain ⟨before, fuel, turns, ran⟩ := rest
  exact suitRunnerRun_simulates (turns_simulate sim turns) ran

/-- At rest, what the runner reports is what the interpreter says. -/
theorem outcome_of_rest {runner : Runner U R} (sim : Simulates cb frames manifest result runner)
    (rest : AtRest runner) :
    (suitRunnerFinished runner = true →
      ∃ meaning, result = .ok meaning ∧ meaning.effects = settle runner.effects) ∧
    (suitRunnerHasError runner = true → result = .error (settle runner.effects)) := by
  unfold suitRunnerFinished suitRunnerHasError
  cases sim with
  | error failed same => exact ⟨fun finished => by simp [failed] at finished, fun _ => same⟩
  | exit selecting ready pc stack same =>
    exact ⟨fun _ => ⟨_, same, rfl⟩, fun failed => by rw [ready.noError] at failed; contradiction⟩
  | sequence selecting common target ready pc stack same =>
    have suspended : runner.effects.suspended = true := by
      simpa [AtRest, ready.noError, pc] using rest
    exact ⟨fun finished => by simp [suspended] at finished,
      fun failed => by rw [ready.noError] at failed; contradiction⟩
  | command selecting common target handler command param isComponent form ready found pc stack
      same =>
    have suspended : runner.effects.suspended = true := by
      simpa [AtRest, ready.noError, pc] using rest
    exact ⟨fun finished => by simp [suspended] at finished,
      fun failed => by rw [ready.noError] at failed; contradiction⟩

/-- What resuming a suspended runner does: it runs on, or the hook suspended it
again under the next hook. -/
theorem suitRunnerResume_cases (cb : Callbacks U R) {runner : Runner U R}
    (suspended : suitRunnerSuspended runner = true) :
    suitRunnerResume cb runner =
        { runner with effects := { runner.effects with suspended := false, onResume := none } } ∨
      ∃ r r', runner.effects.onResume = some r ∧ cb.onResume r = some r' ∧
        suitRunnerResume cb runner =
          { runner with
            effects := { runner.effects with suspended := true, onResume := some r' } } := by
  simp only [suitRunnerSuspended, Bool.and_eq_true, Bool.not_eq_true'] at suspended
  unfold suitRunnerResume
  rw [if_neg (by simp [suspended.1]), if_pos suspended.2]
  split
  · exact .inl rfl
  · rename_i r hook
    split
    · exact .inl rfl
    · rename_i r' next
      exact .inr ⟨r, r', hook, next, rfl⟩

/-- Hooks that suspend again do so finitely often. -/
def HooksEnd (cb : Callbacks U R) : Prop := WellFounded fun r' r => cb.onResume r = some r'

/-- Resuming again and again gets a suspended runner going, where it was. -/
theorem resumes_end (frames : Frames) (hooks : HooksEnd cb) {runner : Runner U R}
    (suspended : suitRunnerSuspended runner = true) :
    ∃ fx, fx.suspended = false ∧ Turns cb frames runner { runner with effects := fx } := by
  have again (r : R) : ∀ runner : Runner U R, suitRunnerSuspended runner = true →
      runner.effects.onResume = some r →
      ∃ fx, fx.suspended = false ∧ Turns cb frames runner { runner with effects := fx } := by
    induction r using hooks.induction with
    | _ r ih =>
      intro runner suspended hook
      have turn : Turn cb frames runner (suitRunnerResume cb runner) := .resume runner
      rcases suitRunnerResume_cases cb suspended with on | ⟨s, s', here, next, on⟩
      · rw [on] at turn
        exact ⟨_, rfl, .single turn⟩
      · rw [on] at turn
        cases hook.symm.trans here
        have noError : runner.hasError = false := by
          simp only [suitRunnerSuspended, Bool.and_eq_true, Bool.not_eq_true'] at suspended
          exact suspended.1
        obtain ⟨fx, running, turns⟩ := ih s' next
          { runner with effects := { runner.effects with suspended := true, onResume := some s' } }
          (by simp [suitRunnerSuspended, noError]) rfl
        exact ⟨fx, running, .head turn turns⟩
  cases hook : runner.effects.onResume with
  | some r => exact again r runner suspended hook
  | none =>
    have turn : Turn cb frames runner (suitRunnerResume cb runner) := .resume runner
    rcases suitRunnerResume_cases cb suspended with on | ⟨s, s', here, next, on⟩
    · rw [on] at turn
      exact ⟨_, rfl, .single turn⟩
    · rw [hook] at here
      cases here

/-- Running and resuming in turn comes to an end. -/
theorem turns_end (hooks : HooksEnd cb) {runner : Runner U R}
    (sim : Simulates cb frames manifest result runner) (fine : runner.hasError = false)
    (running : runner.effects.suspended = false) :
    ∃ last, ComesToRest cb frames runner last ∧ suitRunnerSuspended last = false := by
  induction h : rank runner using below_wellFounded.induction generalizing runner with
  | _ measure ih =>
    subst h
    obtain ⟨fuel, after, ran⟩ := suitRunnerRun_returns sim
    cases suspended : suitRunnerSuspended after with
    | false => exact ⟨after, ⟨runner, fuel, .refl, ran⟩, suspended⟩
    | true =>
      have less := suitRunnerRun_below sim fine running ran suspended
      obtain ⟨fx, resumed, turns⟩ := resumes_end frames hooks suspended
      have reached := Relation.ReflTransGen.head (Turn.run ran) turns
      have noError : after.hasError = false := by
        simp only [suitRunnerSuspended, Bool.and_eq_true, Bool.not_eq_true'] at suspended
        exact suspended.1
      obtain ⟨last, ⟨before, fuel', on, ran'⟩, ended⟩ := ih (rank after) less
        (turns_simulate sim reached) noError resumed rfl
      exact ⟨last, ⟨before, fuel', reached.trans on, ran'⟩, ended⟩

end Runs

section Start
variable {cb : Callbacks U R} {frames : Frames} {wild : Digest → Range} {context : SuitContext}
  {sequence : CommandSequence} {manifest : Manifest} {user : U}

/-- A runner as `suit_runner_init` leaves it, with the given continuations. -/
def startedRunner (sequence : CommandSequence) (user : U) (pc : Continuation)
    (stack : List Continuation) : Runner U R :=
  ⟨sequence, some cborTrue, none, pc, stack, false, ⟨[], false, none, user, []⟩⟩

theorem suitRunnerInit_opened {common target : Context}
    (root : suitContextGetRootManifest context = some manifest)
    (opened : openSequences wild sequence manifest = some (common, target)) :
    suitRunnerInit (R := R) wild context sequence user =
      some (startedRunner sequence user ⟨manifest, .executeSequence common target⟩
        [⟨manifest, .exit⟩]) := by
  simp only [suitRunnerInit, root, callCommandSequence, opened]
  rfl

/-- The return value of `call_command_sequence` is lost here: nothing is set up
and no error is marked. -/
theorem suitRunnerInit_unopened
    (root : suitContextGetRootManifest context = some manifest)
    (unopened : openSequences wild sequence manifest = none) :
    suitRunnerInit (R := R) wild context sequence user =
      some (startedRunner sequence user ⟨manifest, .exit⟩ []) := by
  simp only [suitRunnerInit, root, callCommandSequence, unopened]
  rfl

theorem suitRunnerInit_started {start : Runner U R}
    (started : suitRunnerInit wild context sequence user = some start) :
    ∃ manifest pc stack, suitContextGetRootManifest context = some manifest ∧
      start = startedRunner sequence user pc stack := by
  cases root : suitContextGetRootManifest context with
  | none =>
    simp only [suitRunnerInit, root] at started
    cases started
  | some manifest =>
    cases opened : openSequences wild sequence manifest with
    | none =>
      rw [suitRunnerInit_unopened root opened] at started
      cases started
      exact ⟨manifest, _, _, rfl, rfl⟩
    | some pair =>
      obtain ⟨common, target⟩ := pair
      rw [suitRunnerInit_opened root opened] at started
      cases started
      exact ⟨manifest, _, _, rfl, rfl⟩

theorem started_simulates (common target : Context) :
    Simulates cb frames manifest (interpret cb frames manifest common target user)
      (startedRunner sequence user ⟨manifest, .executeSequence common target⟩
        [⟨manifest, .exit⟩]) :=
  .sequence (.components cborTrue) common target ⟨rfl, ⟨rfl, rfl⟩, fun _ => rfl⟩ rfl rfl rfl

/-- Callbacks that store at once and suspend on every fetch. -/
def suspendingCallbacks : Callbacks Unit Unit where
  store _ _ _ := ⟨true, (), none⟩
  fetchAndStore _ _ _ := ⟨true, (), some ()⟩
  onResume _ := none

/-- One component; install sets the URI "u" and fetches it. -/
def fetchingEnvelope : Bytes :=
  [0xD8, 0x6B, 0xA1, 0x03, 0x58, 0x1A, 0xA4, 0x01, 0x01, 0x02, 0x00, 0x03, 0x49, 0xA2, 0x02, 0x81,
   0x81, 0x41, 0x30, 0x04, 0x41, 0x80, 0x09, 0x48, 0x84, 0x13, 0xA1, 0x15, 0x61, 0x75, 0x15, 0x02]

/-- The context that one envelope makes. -/
def contextOf (envelope : Bytes) : SuitContext :=
  (suitContextAddEnvelope suitContextInit (some envelope)).2

/-- Both sequences were opened, read up to their ends and executed without a
failure, with the effects the runner shows. -/
def Executed (cb : Callbacks U R) (frames : Frames) (wild : Digest → Range)
    (sequence : CommandSequence) (manifest : Manifest) (user : U) (runner : Runner U R) : Prop :=
  ∃ common target meaning, openSequences wild sequence manifest = some (common, target) ∧
    (∀ pair ∈ items readCommand common ++ items readCommand target, pair.isSome) ∧
    interpret cb frames manifest common target user = .ok meaning ∧
    meaning.effects = settle runner.effects

/-- Finished means executed, and a sequence that cannot be opened is an error. -/
def FinishedMeansExecuted (cb : Callbacks U R) (frames : Frames) (wild : Digest → Range)
    (context : SuitContext) (sequence : CommandSequence) (manifest : Manifest) (user : U) : Prop :=
  ∀ start runner, suitRunnerInit wild context sequence user = some start →
    ComesToRest cb frames start runner →
    (suitRunnerFinished runner = true → Executed cb frames wild sequence manifest user runner) ∧
    (openSequences wild sequence manifest = none → suitRunnerHasError runner = true)

def opensAsArray (range : Range) : Bool :=
  (readArray (toplevel (some (range.getD emptyArray)))).1.isSome

theorem openSequences_isSome :
    (openSequences wild sequence manifest).isSome = true ↔
      sequence = .install ∧ opensAsArray manifest.common.commandSequence = true ∧
        opensAsArray (manifest.install.arm.readBody wild) = true := by
  unfold openSequences opensAsArray getCommandSequenceBody
  cases sequence with
  | install =>
    dsimp only
    rcases readArray (toplevel (some ((manifest.install.arm.readBody wild).getD emptyArray)))
      with ⟨_ | target, _⟩
    · simp
    · rcases readArray (toplevel (some (manifest.common.commandSequence.getD emptyArray)))
        with ⟨_ | common, _⟩
      · simp
      · simp
  | _ => simp

theorem execPair_reads {pairs : List (Option (Nat × Bytes))} {isCommon : Bool}
    {st meaning : Meaning U R}
    (executed : pairs.foldlM (execPair cb frames manifest isCommon) st = .ok meaning) :
    ∀ pair ∈ pairs, pair.isSome := by
  induction pairs generalizing st with
  | nil => simp
  | cons pair pairs ih =>
    rw [List.foldlM_cons] at executed
    cases pair with
    | none => cases executed
    | some pair =>
      cases first : execPair cb frames manifest isCommon st (some pair) with
      | error fx =>
        rw [first] at executed
        cases executed
      | ok next =>
        rw [first] at executed
        intro p member
        rcases List.mem_cons.mp member with rfl | member
        · rfl
        · exact ih executed p member

/-- What was executed without a failure was read to the end. -/
theorem interpret_reads {common target : Context} {meaning : Meaning U R}
    (executed : interpret cb frames manifest common target user = .ok meaning) :
    ∀ pair ∈ items readCommand common ++ items readCommand target, pair.isSome := by
  unfold interpret execSequences at executed
  cases first : (items readCommand common).foldlM (execPair cb frames manifest true)
      ⟨.components cborTrue, (⟨[], false, none, user, []⟩ : Effects U R)⟩ with
  | error fx =>
    rw [first] at executed
    cases executed
  | ok st =>
    rw [first] at executed
    intro pair member
    rcases List.mem_append.mp member with member | member
    · exact execPair_reads first pair member
    · exact execPair_reads executed pair member

/-- A runner that was not set up is finished as soon as it is run. -/
theorem unopened_finishes (cb : Callbacks U R) (frames : Frames) (user : U)
    (root : suitContextGetRootManifest context = some manifest)
    (unopened : openSequences wild sequence manifest = none) :
    ∃ start runner, suitRunnerInit wild context sequence user = some start ∧
      ComesToRest cb frames start runner ∧ suitRunnerFinished runner = true :=
  ⟨_, _, suitRunnerInit_unopened root unopened, ⟨_, 1, .refl, rfl⟩, rfl⟩

/-- Exactly the sequences that open keep the promise of `suit_runner_finished`. -/
theorem finished_means_executed_iff (cb : Callbacks U R) (frames : Frames)
    (wild : Digest → Range) (context : SuitContext) (sequence : CommandSequence)
    (manifest : Manifest) (user : U) (root : suitContextGetRootManifest context = some manifest) :
    FinishedMeansExecuted cb frames wild context sequence manifest user ↔
      sequence = .install ∧ opensAsArray manifest.common.commandSequence = true ∧
        opensAsArray (manifest.install.arm.readBody wild) = true := by
  rw [← openSequences_isSome]
  cases opened : openSequences wild sequence manifest with
  | none =>
    refine ⟨fun holds => ?_, fun some => by cases some⟩
    obtain ⟨start, runner, started, rest, finished⟩ :=
      unopened_finishes cb frames user root opened
    obtain ⟨common, target, meaning, found, -⟩ := (holds start runner started rest).1 finished
    rw [opened] at found
    cases found
  | some pair =>
    obtain ⟨common, target⟩ := pair
    refine ⟨fun _ => rfl, fun _ start runner started rest => ⟨fun finished => ?_, fun none => ?_⟩⟩
    · rw [suitRunnerInit_opened root opened] at started
      cases started
      have here := comesToRest_simulates (started_simulates common target) rest
      obtain ⟨meaning, executed, same⟩ := (outcome_of_rest here.1 here.2).1 finished
      exact ⟨common, target, meaning, opened, interpret_reads executed, executed, same⟩
    · rw [opened] at none
      cases none

theorem finished_means_executed_iff_fetching :
    FinishedMeansExecuted suspendingCallbacks ⟨0, 1, 2⟩ (fun _ => none)
      (contextOf fetchingEnvelope) .install ((contextOf fetchingEnvelope).manifests 0) () :=
  (finished_means_executed_iff suspendingCallbacks ⟨0, 1, 2⟩ (fun _ => none)
    (contextOf fetchingEnvelope) .install _ () (by decide)).mpr (by decide)

/-- The install member is an empty byte string. -/
def emptyInstallEnvelope : Bytes :=
  [0xD8, 0x6B, 0xA1, 0x03, 0x4A, 0xA4, 0x01, 0x01, 0x02, 0x00, 0x03, 0x41, 0xA0, 0x09, 0x40]

theorem empty_install_finishes :
    suitContextGetRootManifest (contextOf emptyInstallEnvelope) =
        some ((contextOf emptyInstallEnvelope).manifests 0) ∧
      ¬ FinishedMeansExecuted suspendingCallbacks ⟨0, 1, 2⟩ (fun _ => none)
        (contextOf emptyInstallEnvelope) .install
        ((contextOf emptyInstallEnvelope).manifests 0) () := by
  have root : suitContextGetRootManifest (contextOf emptyInstallEnvelope) =
      some ((contextOf emptyInstallEnvelope).manifests 0) := by decide
  have unopened : openSequences (fun _ => none) .install
      ((contextOf emptyInstallEnvelope).manifests 0) = none := by decide
  refine ⟨root, fun holds => ?_⟩
  obtain ⟨start, runner, started, rest, finished⟩ :=
    unopened_finishes suspendingCallbacks ⟨0, 1, 2⟩ () root unopened
  have failed := (holds start runner started rest).2 unopened
  simp only [suitRunnerFinished, Bool.and_eq_true, Bool.not_eq_true'] at finished
  rw [suitRunnerHasError, finished.1] at failed
  cases failed

end Start

end TeepDevice.Suit
