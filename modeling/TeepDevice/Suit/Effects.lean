import Mathlib.Logic.Relation
import TeepDevice.Suit.Runner

/-! What the steps of the runner can do to the state its handlers share: one
pass of the loop makes at most one handler call and touches nothing else. -/
namespace TeepDevice.Suit
open Tcbor

variable {U R : Type} {cb : Callbacks U R} {frames : Frames}

/-- At most one call of a handler that `find_handler` knows. -/
def Touches (cb : Callbacks U R) (fx fx' : Effects U R) : Prop :=
  fx' = fx ∨ ∃ command handler manifest target object param,
    findHandler cb command false = some handler ∧
      fx' = (callHandler handler manifest target object command param fx).2

theorem findHandler_mem {command : Nat} {isCommon : Bool} {handler : Handler U R}
    (found : findHandler cb command isCommon = some handler) :
    ∃ h ∈ commandHandlers cb, h.command = command ∧ h.handler = handler := by
  unfold findHandler at found
  split at found
  · cases found
  · rename_i h here
    split at found
    · cases found
    · cases found
      exact ⟨h, List.mem_of_find?_eq_some here, by simpa using List.find?_some here, rfl⟩

/-- What is allowed in common is allowed everywhere. -/
theorem findHandler_target {command : Nat} {isCommon : Bool} {handler : Handler U R}
    (found : findHandler cb command isCommon = some handler) :
    findHandler cb command false = some handler := by
  unfold findHandler at found ⊢
  split at found
  · cases found
  · split at found
    · cases found
    · exact found

theorem pushProgramCounter_effects {runner pushed : Runner U R}
    (push : pushProgramCounter runner = some pushed) : pushed.effects = runner.effects := by
  unfold pushProgramCounter at push
  split at push
  · cases push
  · cases push
    rfl

/-- What a step does: at most one handler call, for the current manifest, and the
error is marked if that call failed. Without a call the error may be marked, too. -/
inductive Calls (cb : Callbacks U R) (before after : Runner U R) : Prop where
  | quiet (same : after.effects = before.effects)
  | called {command : Nat} {handler : Handler U R} {target : Nat} {object : Object}
      {param : Bytes} {ok : Bool} (found : findHandler cb command false = some handler)
      (call : callHandler handler before.programCounter.manifest target object command param
        before.effects = (ok, after.effects))
      (error : after.hasError = (before.hasError || !ok))

theorem Calls.touches {before after : Runner U R} (calls : Calls cb before after) :
    Touches cb before.effects after.effects := by
  cases calls with
  | quiet same => exact .inl same
  | @called command handler target object param ok found call error =>
    refine .inr ⟨command, handler, before.programCounter.manifest, target, object, param, found, ?_⟩
    rw [call]

theorem dispatchCommand_calls (runner : Runner U R) (isCommon : Bool) (command : Nat)
    (param : Bytes) :
    Calls cb runner (dispatchCommand cb frames runner isCommon command param) := by
  unfold dispatchCommand
  dsimp only
  split
  · exact .quiet rfl
  split
  · exact .quiet rfl
  split
  · exact .quiet rfl
  rename_i handler found
  split
  · exact .quiet rfl
  split
  · split
    · exact .quiet rfl
    · rename_i pushed push
      have same := pushProgramCounter_effects push
      exact .quiet same
  · exact .quiet rfl
  · split
    · exact .quiet rfl
    · split
      · rename_i called
        exact .called (findHandler_target found) called (by simp)
      · rename_i called
        exact .called (findHandler_target found) called (by simp [suitRunnerMarkError])
  · split
    · exact .quiet rfl
    · rename_i pushed push
      have same := pushProgramCounter_effects push
      exact .quiet same
  · exact .quiet rfl

/-- Another program counter makes no difference to the calls. -/
theorem Calls.of_setNext {before after : Runner U R} {next : Next}
    (calls : Calls cb (setNext before next) after) : Calls cb before after := by
  cases calls with
  | quiet same => exact .quiet same
  | called found call error => exact .called found call error

theorem runSequenceStep_calls (runner : Runner U R) (common target : Context) :
    Calls cb runner (runSequenceStep cb frames runner common target).1 := by
  unfold runSequenceStep
  split
  · split
    · exact .quiet rfl
    · exact (dispatchCommand_calls _ _ _ _).of_setNext
  · split
    · split
      · exact .quiet rfl
      · exact (dispatchCommand_calls _ _ _ _).of_setNext
    · exact .quiet rfl

theorem calledCommand_calls (runner : Runner U R) (target : Nat) (object : Object)
    (command : Nat) (param : Bytes) (next : Runner U R → Runner U R)
    (keeps : ∀ r, (next r).effects = r.effects ∧ (next r).hasError = r.hasError) :
    Calls cb runner
      (match callFound cb runner target object command param with
        | (false, runner) => (suitRunnerMarkError runner, false)
        | (true, runner) => (next runner, false)).1 := by
  cases found : findHandler cb command false with
  | none =>
    simp only [callFound, found]
    exact .quiet rfl
  | some handler =>
    rcases call : callHandler handler runner.programCounter.manifest target object command param
      runner.effects with ⟨_ | _, fx⟩
    · simp only [callFound, found, call]
      exact .called found call (by simp [suitRunnerMarkError])
    · simp only [callFound, found, call]
      obtain ⟨effects, error⟩ := keeps { runner with effects := fx }
      exact .called found (by rw [call, effects]) (by simp [error])

theorem runCommandStep_calls (runner : Runner U R) (command : Nat) (param : Bytes)
    (isComponent : Bool) (selected : Selected) :
    Calls cb runner (runCommandStep cb frames runner command param isComponent selected).1 := by
  unfold runCommandStep
  split
  · split
    · exact .quiet rfl
    · exact calledCommand_calls runner _ _ command param (fun r => setNext r _)
        fun _ => ⟨rfl, rfl⟩
  · split
    · exact .quiet rfl
    · split
      · exact .quiet rfl
      · dsimp only
        split
        · exact .quiet rfl
        · exact (calledCommand_calls (setNext runner _) _ _ command param id
            fun _ => ⟨rfl, rfl⟩).of_setNext

/-- The ways in which the loop goes on after a step. -/
inductive AfterStep (runner : Runner U R) : Bool → Runner U R ⊕ Runner U R → Prop where
  | failed {popPc : Bool} (failed : runner.hasError = true) :
    AfterStep runner popPc (.inr runner)
  | underflow (fine : runner.hasError = false) (stack : runner.stack = []) :
    AfterStep runner true (.inr (suitRunnerMarkError runner))
  | popped {pc : Continuation} {rest : List Continuation} (fine : runner.hasError = false)
    (stack : runner.stack = pc :: rest) :
    AfterStep runner true (.inl { runner with programCounter := pc, stack := rest })
  | stayed (fine : runner.hasError = false) : AfterStep runner false (.inl runner)

theorem afterStep_cases (runner : Runner U R) (popPc : Bool) :
    AfterStep runner popPc (afterStep runner popPc) := by
  unfold afterStep
  split
  · rename_i failed
    exact .failed failed
  · rename_i fine
    replace fine : runner.hasError = false := by simpa using fine
    cases popPc with
    | false => exact .stayed fine
    | true =>
      rw [if_pos rfl]
      unfold popProgramCounter
      cases stack : runner.stack with
      | nil => exact .underflow fine stack
      | cons pc rest => exact .popped fine stack

/-- A step that pops makes no call. -/
theorem afterStep_calls {before stepped after : Runner U R} {popPc : Bool}
    (calls : Calls cb before stepped) (pops : popPc = true → stepped.effects = before.effects)
    (step : afterStep stepped popPc = .inl after ∨ afterStep stepped popPc = .inr after) :
    Calls cb before after := by
  have shape := afterStep_cases stepped popPc
  rcases step with step | step
  · rw [step] at shape
    cases shape with
    | popped fine stack => exact .quiet (pops rfl)
    | stayed fine => exact calls
  · rw [step] at shape
    cases shape with
    | failed failed => exact calls
    | underflow fine stack => exact .quiet (pops rfl)

theorem afterStep_goes {runner after : Runner U R} {popPc : Bool}
    (step : afterStep runner popPc = .inl after) : after.hasError = false := by
  have shape := afterStep_cases runner popPc
  rw [step] at shape
  cases shape with
  | popped fine stack => exact fine
  | stayed fine => exact fine

/-- A step that asks for a pop has changed nothing. -/
theorem runCommandStep_pops {runner : Runner U R} {command : Nat} {param : Bytes}
    {isComponent : Bool} {selected : Selected}
    (pop : (runCommandStep cb frames runner command param isComponent selected).2 = true) :
    (runCommandStep cb frames runner command param isComponent selected).1 = runner := by
  unfold runCommandStep at pop ⊢
  cases selected with
  | all index =>
    dsimp only at pop ⊢
    split at pop
    · rfl
    · split at pop
      · cases pop
      · cases pop
  | array ctx =>
    dsimp only at pop ⊢
    split at pop
    · rename_i ended
      rw [if_pos ended]
    · split at pop
      · cases pop
      · split at pop
        · cases pop
        · split at pop
          · cases pop
          · cases pop

theorem runSequenceStep_pops {runner : Runner U R} {common target : Context}
    (pop : (runSequenceStep cb frames runner common target).2 = true) :
    (runSequenceStep cb frames runner common target).1 = runner := by
  unfold runSequenceStep at pop ⊢
  split at pop
  · split at pop
    · cases pop
    · cases pop
  · rename_i ended
    rw [if_neg ended]
    split at pop
    · split at pop
      · cases pop
      · cases pop
    · rename_i last
      rw [if_neg last]

/-- One pass of the loop of `suit_runner_run`, or a call of `suit_runner_resume`. -/
inductive Pass (cb : Callbacks U R) (frames : Frames) : Runner U R → Runner U R → Prop where
  | goes {before after : Runner U R} (step : runBody cb frames before = .inl after) :
    Pass cb frames before after
  | leaves {before after : Runner U R} (step : runBody cb frames before = .inr after) :
    Pass cb frames before after
  | resume (before : Runner U R) : Pass cb frames before (suitRunnerResume cb before)

theorem runBody_calls {before after : Runner U R}
    (step : runBody cb frames before = .inl after ∨ runBody cb frames before = .inr after) :
    Calls cb before after := by
  unfold runBody at step
  split at step
  · rcases step with step | step
    · cases step
    · cases step
      exact .quiet rfl
  · split at step
    · rcases step with step | step
      · cases step
      · cases step
        exact .quiet rfl
    · exact afterStep_calls (runSequenceStep_calls before _ _)
        (fun pop => congrArg Runner.effects (runSequenceStep_pops pop)) step
    · exact afterStep_calls (.quiet rfl) (fun _ => rfl) step
    · exact afterStep_calls (runCommandStep_calls before _ _ _ _)
        (fun pop => congrArg Runner.effects (runCommandStep_pops pop)) step

theorem runBody_goes {before after : Runner U R} (step : runBody cb frames before = .inl after) :
    before.effects.suspended = false ∧ after.hasError = false := by
  unfold runBody at step
  split at step
  · cases step
  · rename_i running
    refine ⟨by simpa using running, ?_⟩
    split at step
    · cases step
    · exact afterStep_goes step
    · exact afterStep_goes step
    · exact afterStep_goes step

theorem runBody_suspended {before : Runner U R} (suspended : before.effects.suspended = true) :
    runBody cb frames before = .inr before := if_pos suspended

theorem runBody_touches {before after : Runner U R}
    (step : runBody cb frames before = .inl after ∨ runBody cb frames before = .inr after) :
    Touches cb before.effects after.effects := (runBody_calls step).touches

/-- Resuming keeps the control state, the bindings, the memory behind `user` and
the calls made; a hook is left only for a runner that is suspended again. -/
theorem suitRunnerResume_resumed (cb : Callbacks U R) (runner : Runner U R) :
    ∃ suspended onResume, suitRunnerResume cb runner =
        { runner with
          effects := { runner.effects with suspended := suspended, onResume := onResume } } ∧
      ((runner.effects.suspended = false → runner.effects.onResume = none) →
        suspended = false → onResume = none) := by
  unfold suitRunnerResume
  split
  · exact ⟨_, _, rfl, id⟩
  · split
    · split
      · exact ⟨false, none, rfl, fun _ _ => rfl⟩
      · split
        · exact ⟨false, none, rfl, fun _ _ => rfl⟩
        · exact ⟨true, _, rfl, fun _ running => by cases running⟩
    · exact ⟨_, _, rfl, id⟩

theorem suitRunnerResume_effects (cb : Callbacks U R) (runner : Runner U R) :
    ∃ suspended onResume, (suitRunnerResume cb runner).effects =
      { runner.effects with suspended := suspended, onResume := onResume } := by
  obtain ⟨suspended, onResume, resumed, -⟩ := suitRunnerResume_resumed cb runner
  exact ⟨suspended, onResume, congrArg Runner.effects resumed⟩

/-- What holds of the shared state whenever it is touched holds in every pass
of every run. -/
theorem passes_effects (inv : Effects U R → Prop)
    (touches : ∀ fx fx', Touches cb fx fx' → inv fx → inv fx')
    (settles : ∀ fx suspended onResume,
      inv fx → inv { fx with suspended := suspended, onResume := onResume })
    {start runner : Runner U R} (passes : Relation.ReflTransGen (Pass cb frames) start runner)
    (initial : inv start.effects) : inv runner.effects := by
  induction passes with
  | refl => exact initial
  | @tail before _ _ pass ih =>
    cases pass with
    | goes step => exact touches _ _ (runBody_touches (.inl step)) ih
    | leaves step => exact touches _ _ (runBody_touches (.inr step)) ih
    | resume =>
      obtain ⟨suspended, onResume, same⟩ := suitRunnerResume_effects cb before
      rw [same]
      exact settles _ suspended onResume ih

/-- A call of `suit_runner_run` is made of passes. -/
theorem suitRunnerRun_passes {fuel : Nat} {before after : Runner U R}
    (ran : suitRunnerRun cb frames fuel before = some after) :
    Relation.ReflTransGen (Pass cb frames) before after := by
  unfold suitRunnerRun at ran
  split at ran
  · cases ran
    exact .refl
  · exact Loop.iter_invariant (Relation.ReflTransGen (Pass cb frames) before)
      (Relation.ReflTransGen (Pass cb frames) before)
      (fun s s' reached step => reached.tail (.goes step))
      (fun s r reached step => reached.tail (.leaves step)) .refl ran

/-- A rule for the shared state over a call of `suit_runner_run`: handlers are
called while the runner is neither suspended nor failed. -/
theorem suitRunnerRun_rule (inv : Bool → Effects U R → Prop)
    (calls : ∀ {fx fx' : Effects U R} {command : Nat} {handler : Handler U R} {manifest : Manifest}
      {target : Nat} {object : Object} {param : Bytes} {ok : Bool}, fx.suspended = false →
      findHandler cb command false = some handler →
      callHandler handler manifest target object command param fx = (ok, fx') →
      inv false fx → inv (!ok) fx')
    (fails : ∀ fx, fx.suspended = false → inv false fx → inv true fx)
    {fuel : Nat} {before after : Runner U R}
    (ran : suitRunnerRun cb frames fuel before = some after)
    (initial : inv before.hasError before.effects) : inv after.hasError after.effects := by
  unfold suitRunnerRun at ran
  split at ran
  · cases ran
    exact initial
  · rename_i fine
    replace fine : before.hasError = false := by simpa using fine
    have pass (r r' : Runner U R) (holds : r.hasError = false ∧ inv false r.effects)
        (step : runBody cb frames r = .inl r' ∨ runBody cb frames r = .inr r') :
        inv r'.hasError r'.effects := by
      cases suspended : r.effects.suspended with
      | true =>
        rw [runBody_suspended suspended] at step
        rcases step with step | step
        · cases step
        · cases step
          rw [holds.1]
          exact holds.2
      | false =>
        cases runBody_calls step with
        | quiet same =>
          rw [same]
          cases r'.hasError with
          | false => exact holds.2
          | true => exact fails _ suspended holds.2
        | called found call error =>
          rw [error, holds.1, Bool.false_or]
          exact calls suspended found call holds.2
    have stays (r r' : Runner U R) (holds : r.hasError = false ∧ inv false r.effects)
        (step : runBody cb frames r = .inl r') : r'.hasError = false ∧ inv false r'.effects := by
      have error := (runBody_goes step).2
      have next := pass r r' holds (.inl step)
      rw [error] at next
      exact ⟨error, next⟩
    rw [fine] at initial
    exact Loop.iter_invariant (fun r => r.hasError = false ∧ inv false r.effects)
      (fun r => inv r.hasError r.effects) stays (fun r r' holds step => pass r r' holds (.inr step))
      ⟨fine, initial⟩ ran

end TeepDevice.Suit
