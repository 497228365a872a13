import TeepDevice.Suit.Effects
import TeepDevice.Suit.Interpreter

/-! The suspendable runner refines the interpreter. `Simulates` says which part
of the meaning is still to come in each control state; one pass of the loop,
a whole run and a resume all keep it. -/
namespace TeepDevice.Suit
open Tcbor

variable {U R : Type} {cb : Callbacks U R} {frames : Frames} {manifest : Manifest}

/-- A hook is only kept while the runner is suspended. -/
def Resting (fx : Effects U R) : Prop := fx.suspended = false → fx.onResume = none

theorem settle_of_resting {fx : Effects U R} (resting : Resting fx)
    (running : fx.suspended = false) : settle fx = fx := by
  cases fx
  simp only [Resting] at resting running
  simp only [settle, running, resting running]

theorem applyReply_resting {reply : Reply U R} {fx : Effects U R} (resting : Resting fx) :
    Resting (applyReply reply fx).2 := by
  unfold applyReply
  split
  · exact resting
  · intro running
    cases running

theorem directiveSetParameters_resting (m : Manifest) (target : Nat) (object : Object)
    (command : Nat) (param : Bytes) {fx : Effects U R} (resting : Resting fx) :
    Resting (directiveSetParameters m target object command param fx).2 := by
  unfold directiveSetParameters
  simp only
  split
  · exact resting
  · split
    · exact resting
    · exact resting

theorem directiveFetch_resting (m : Manifest) (target : Nat) (object : Object) (command : Nat)
    (param : Bytes) {fx : Effects U R} (resting : Resting fx) :
    Resting (directiveFetch cb m target object command param fx).2 := by
  unfold directiveFetch
  repeat' split
  all_goals
    first
    | exact resting
    | exact applyReply_resting resting

theorem handler_resting {command : Nat} {isCommon : Bool} {handler : Handler U R}
    (found : findHandler cb command isCommon = some handler) (m : Manifest) (target : Nat)
    (object : Object) (c : Nat) (param : Bytes) {fx : Effects U R} (resting : Resting fx) :
    Resting (callHandler handler m target object c param fx).2 := by
  obtain ⟨h, member, -, rfl⟩ := findHandler_mem found
  have kept : Resting { fx with calls := fx.calls ++ [⟨target, object, c, param⟩] } := resting
  simp only [commandHandlers, List.mem_cons, List.not_mem_nil, or_false] at member
  unfold callHandler
  rcases member with rfl | rfl | rfl | rfl | rfl | rfl | rfl
  · exact kept
  · exact kept
  · exact kept
  · exact directiveSetParameters_resting m target object c param kept
  · exact directiveSetParameters_resting m target object c param kept
  · exact kept
  · exact directiveFetch_resting m target object c param kept

/-- The selection fields hold `selecting`: one of the two ranges is null. -/
def Selects (runner : Runner U R) : Selecting → Prop
  | .components p => runner.selectedComponents = some p ∧ runner.selectedDependencies = none
  | .dependencies p => runner.selectedComponents = none ∧ runner.selectedDependencies = some p

structure Ready (runner : Runner U R) (selecting : Selecting) : Prop where
  noError : runner.hasError = false
  selects : Selects runner selecting
  resting : Resting runner.effects

/-- What is left of the command a runner is executing, then of its sequences. -/
def execCommandRest (cb : Callbacks U R) (frames : Frames) (manifest : Manifest)
    (handler : Handler U R) (command : Nat) (param : Bytes) (targets : List Target)
    (selecting : Selecting) (common target : Context) (fx : Effects U R) :
    Except (Effects U R) (Meaning U R) := do
  let fx ← targets.foldlM (applyTo manifest handler command param) fx
  execSequences cb frames manifest common target ⟨selecting, fx⟩

/-- The simulation relation: `result` is what the interpreter still makes of
this state. The saved continuations are fixed by the program counter. -/
inductive Simulates (cb : Callbacks U R) (frames : Frames) (manifest : Manifest)
    (result : Except (Effects U R) (Meaning U R)) (runner : Runner U R) : Prop where
  | error (failed : runner.hasError = true) (same : result = .error (settle runner.effects))
  | exit (selecting : Selecting) (ready : Ready runner selecting)
      (pc : runner.programCounter = ⟨manifest, .exit⟩) (stack : runner.stack = [])
      (same : result = .ok ⟨selecting, settle runner.effects⟩)
  | sequence (selecting : Selecting) (common target : Context) (ready : Ready runner selecting)
      (pc : runner.programCounter = ⟨manifest, .executeSequence common target⟩)
      (stack : runner.stack = [⟨manifest, .exit⟩])
      (same : result = execSequences cb frames manifest common target
        ⟨selecting, settle runner.effects⟩)
  | command (selecting : Selecting) (common target : Context) (handler : Handler U R)
      (command : Nat) (param : Bytes) (isComponent : Bool) (form : Selected)
      (ready : Ready runner selecting)
      (found : findHandler cb command false = some handler)
      (pc : runner.programCounter =
        ⟨manifest, .executeCommand command param isComponent form⟩)
      (stack : runner.stack =
        [⟨manifest, .executeSequence common target⟩, ⟨manifest, .exit⟩])
      (same : result = execCommandRest cb frames manifest handler command param
        (targetsFrom frames manifest isComponent form) selecting common target
        (settle runner.effects))

/-- How many objects a selection can still name. -/
def selectionRank (manifest : Manifest) (isComponent : Bool) : Selected → Nat
  | .all index => (allObjects manifest isComponent).length - index
  | .array ctx => ctx.r.length

/-- Bytes of the sequences left, whether a command is under way, and what is
left of its selection. -/
def rank (runner : Runner U R) : Nat × Nat × Nat :=
  match runner.programCounter, runner.stack with
  | ⟨_, .executeSequence common target⟩, _ => (common.r.length + target.r.length + 1, 0, 0)
  | ⟨manifest, .executeCommand _ _ isComponent form⟩, ⟨_, .executeSequence common target⟩ :: _ =>
    (common.r.length + target.r.length + 1, 1, selectionRank manifest isComponent form)
  | _, _ => (0, 0, 0)

abbrev Below : Nat × Nat × Nat → Nat × Nat × Nat → Prop :=
  Prod.Lex (· < ·) (Prod.Lex (· < ·) (· < ·))

theorem below_wellFounded : WellFounded Below :=
  WellFounded.prod_lex Nat.lt_wfRel.wf (WellFounded.prod_lex Nat.lt_wfRel.wf Nat.lt_wfRel.wf)

theorem below_of_bytes {r r' : Nat × Nat × Nat} (less : r.1 < r'.1) : Below r r' := by
  obtain ⟨a, b⟩ := r
  obtain ⟨a', b'⟩ := r'
  exact .left b b' less

theorem Ready.isComponent {runner : Runner U R} {selecting : Selecting}
    (ready : Ready runner selecting) :
    runner.selectedComponents.isSome = selecting.isComponent ∧
      runner.selectedDependencies.isSome = !selecting.isComponent := by
  have s := ready.selects
  cases selecting with
  | components p => simp [s.1, s.2, Selecting.isComponent]
  | dependencies p => simp [s.1, s.2, Selecting.isComponent]

theorem Ready.selected {runner : Runner U R} {selecting : Selecting}
    (ready : Ready runner selecting) :
    (if selecting.isComponent then runner.selectedComponents
      else runner.selectedDependencies).getD [] = selecting.bytes := by
  have s := ready.selects
  cases selecting with
  | components p => simp [s.1, Selecting.isComponent, Selecting.bytes]
  | dependencies p => simp [s.2, Selecting.isComponent, Selecting.bytes]

/-- One handler call, seen from both sides. -/
theorem callHandler_applyTo {runner : Runner U R} {selecting : Selecting}
    (ready : Ready runner selecting) (running : runner.effects.suspended = false)
    {handler : Handler U R} {target command : Nat} {object : Object} {param : Bytes} :
    applyTo manifest handler command param (settle runner.effects) (some (target, object)) =
      match callHandler handler manifest target object command param runner.effects with
      | (true, fx) => .ok (settle fx)
      | (false, fx) => .error (settle fx) := by
  have same := settle_of_resting ready.resting running
  rcases called : callHandler handler manifest target object command param runner.effects
    with ⟨_ | _, fx⟩
  · simp only [applyTo, same, called]
  · simp only [applyTo, same, called]

theorem pushProgramCounter_one {runner : Runner U R} {below : Continuation}
    (stack : runner.stack = [below]) :
    pushProgramCounter runner =
      some { runner with stack := [runner.programCounter, below] } := by
  simp [pushProgramCounter, stack, stackMax]

theorem rank_sequence {runner : Runner U R} {common target : Context}
    (pc : runner.programCounter = ⟨manifest, .executeSequence common target⟩) :
    rank runner = (common.r.length + target.r.length + 1, 0, 0) := by
  simp only [rank, pc]

theorem rank_command {runner : Runner U R} {common target : Context} {command : Nat}
    {param : Bytes} {isComponent : Bool} {form : Selected} {below : Continuation}
    (pc : runner.programCounter = ⟨manifest, .executeCommand command param isComponent form⟩)
    (stack : runner.stack = [⟨manifest, .executeSequence common target⟩, below]) :
    rank runner =
      (common.r.length + target.r.length + 1, 1, selectionRank manifest isComponent form) := by
  simp only [rank, pc, stack]

/-- `run_sequence_step` after reading a pair keeps the simulation and does not
touch the cursors of the sequences. -/
theorem dispatchCommand_simulates (cb : Callbacks U R) (frames : Frames) {runner : Runner U R}
    {selecting : Selecting} {common target : Context} (ready : Ready runner selecting)
    (running : runner.effects.suspended = false)
    (pc : runner.programCounter = ⟨manifest, .executeSequence common target⟩)
    (stack : runner.stack = [⟨manifest, .exit⟩]) (isCommon : Bool) (command : Nat) (param : Bytes) :
    Simulates cb frames manifest
        (execCommand cb frames manifest isCommon command param
          ⟨selecting, settle runner.effects⟩ >>= execSequences cb frames manifest common target)
        (dispatchCommand cb frames runner isCommon command param) ∧
      ((dispatchCommand cb frames runner isCommon command param).hasError = false →
        (rank (dispatchCommand cb frames runner isCommon command param)).1 =
          common.r.length + target.r.length + 1) := by
  have here : runner.programCounter.manifest = manifest := by rw [pc]
  have pushed := pushProgramCounter_one stack
  have seqRank {after : Runner U R} (same : after.programCounter = runner.programCounter) :
      (rank after).1 = common.r.length + target.r.length + 1 := by
    rw [rank_sequence (same.trans pc)]
  unfold dispatchCommand execCommand
  simp only [here]
  split
  · exact ⟨.sequence (.components param) common target
      ⟨ready.noError, ⟨rfl, rfl⟩, ready.resting⟩ pc stack rfl, fun _ => seqRank rfl⟩
  split
  · exact ⟨.sequence (.dependencies param) common target
      ⟨ready.noError, ⟨rfl, rfl⟩, ready.resting⟩ pc stack rfl, fun _ => seqRank rfl⟩
  cases found : findHandler cb command isCommon with
  | none => exact ⟨.error rfl rfl, fun fine => by cases fine⟩
  | some handler =>
    simp only [ready.isComponent.1, ready.isComponent.2, ready.selected, pushed]
    rw [if_neg (by cases selecting.isComponent <;> decide)]
    simp only [selectedTargets]
    have started (form : Selected) {after : Runner U R}
        (pushed : after = { runner with
          stack := [runner.programCounter, ⟨manifest, .exit⟩]
          programCounter :=
            ⟨manifest, .executeCommand command param selecting.isComponent form⟩ }) :
        Simulates cb frames manifest
          (execCommandRest cb frames manifest handler command param
            (targetsFrom frames manifest selecting.isComponent form) selecting common target
            (settle runner.effects)) after ∧
          (after.hasError = false →
            (rank after).1 = common.r.length + target.r.length + 1) := by
      subst pushed
      have saved : ([runner.programCounter, ⟨manifest, .exit⟩] : List Continuation) =
          [⟨manifest, .executeSequence common target⟩, ⟨manifest, .exit⟩] := by rw [pc]
      exact ⟨.command selecting common target handler command param selecting.isComponent form
        ⟨ready.noError, ready.selects, ready.resting⟩ (findHandler_target found) rfl saved rfl,
        fun _ => by rw [rank_command rfl saved]⟩
    cases form : readSelection selecting.bytes with
    | bool flag =>
      cases flag with
      | true =>
        simp only [bind_assoc]
        exact started (.all 0) rfl
      | false =>
        exact ⟨.sequence selecting common target ready pc stack rfl, fun _ => seqRank rfl⟩
    | uint index =>
      simp only [List.foldlM_cons, List.foldlM_nil, listedTarget, Option.bind_some]
      cases named : getObject manifest index selecting.isComponent with
      | none => exact ⟨.error rfl rfl, fun fine => by cases fine⟩
      | some object =>
        simp only [Option.map_some, callHandler_applyTo ready running]
        have kept := handler_resting found manifest frames.uintTarget object command param
          ready.resting
        rcases called : callHandler handler manifest frames.uintTarget object command param
          runner.effects with ⟨_ | _, fx⟩
        · exact ⟨.error rfl rfl, fun fine => by cases fine⟩
        · rw [called] at kept
          exact ⟨.sequence selecting common target ⟨ready.noError, ready.selects, kept⟩ pc stack
            rfl, fun _ => seqRank rfl⟩
    | array array =>
      simp only [bind_assoc]
      exact started (.array array) rfl
    | unreadable => exact ⟨.error rfl rfl, fun fine => by cases fine⟩

/-- Where `suit_runner_run` leaves its loop. -/
def AtRest (runner : Runner U R) : Prop :=
  runner.hasError = true ∨ runner.effects.suspended = true ∨ runner.programCounter.next = .exit

/-- What one pass owes: an unfailed state of smaller rank, or a state at rest. -/
def Keeps (cb : Callbacks U R) (frames : Frames) (manifest : Manifest)
    (result : Except (Effects U R) (Meaning U R)) (before : Nat × Nat × Nat) :
    Runner U R ⊕ Runner U R → Prop
  | .inl runner =>
    Simulates cb frames manifest result runner ∧ runner.hasError = false ∧
      Below (rank runner) before
  | .inr runner => Simulates cb frames manifest result runner ∧ AtRest runner

variable {result : Except (Effects U R) (Meaning U R)} {before : Nat × Nat × Nat}

theorem afterStep_keeps {runner : Runner U R} (sim : Simulates cb frames manifest result runner)
    (less : runner.hasError = false → Below (rank runner) before) :
    Keeps cb frames manifest result before (afterStep runner false) := by
  unfold afterStep
  split
  · rename_i failed
    exact ⟨sim, .inl failed⟩
  · rename_i fine
    have noError : runner.hasError = false := by simpa using fine
    exact ⟨sim, noError, less noError⟩

theorem afterStep_error {runner : Runner U R} (same : result = .error (settle runner.effects)) :
    Keeps cb frames manifest result before (afterStep (suitRunnerMarkError runner) false) :=
  afterStep_keeps (.error rfl same) (fun fine => by cases fine)

theorem readCommand_length {ctx after : Context} {pair : Nat × Bytes}
    (read : readCommand ctx = (some pair, after)) : after.r.length < ctx.r.length :=
  readCommand_consuming ctx after pair read

theorem runSequenceStep_keeps {runner : Runner U R} {selecting : Selecting}
    {common target : Context} (ready : Ready runner selecting)
    (running : runner.effects.suspended = false)
    (pc : runner.programCounter = ⟨manifest, .executeSequence common target⟩)
    (stack : runner.stack = [⟨manifest, .exit⟩])
    (same : result = execSequences cb frames manifest common target
      ⟨selecting, settle runner.effects⟩) :
    Keeps cb frames manifest result (rank runner)
      (afterStep (runSequenceStep cb frames runner common target).1
        (runSequenceStep cb frames runner common target).2) := by
  have ready' : ∀ next, Ready (setNext runner next) selecting :=
    fun _ => ⟨ready.noError, ready.selects, ready.resting⟩
  have pc' : ∀ common target, (setNext runner (.executeSequence common target)).programCounter =
      ⟨manifest, .executeSequence common target⟩ := by
    intro common target
    simp only [setNext, pc]
  unfold runSequenceStep
  cases ended : isEndOfContext common with
  | false =>
    rw [execSequences_common cb frames manifest ended] at same
    rcases read : readCommand common with ⟨_ | ⟨command, param⟩, after⟩
    · simp only [read] at same ⊢
      exact afterStep_error same
    · have shorter := readCommand_length read
      simp only [read] at same ⊢
      have kept := dispatchCommand_simulates cb frames (ready' (.executeSequence after target))
        running (pc' after target) stack true command param
      exact afterStep_keeps (same ▸ kept.1) fun fine => below_of_bytes (by
        have left := kept.2 fine
        rw [rank_sequence pc]
        exact left ▸ by omega)
  | true =>
    cases last : isEndOfContext target with
    | false =>
      rw [execSequences_target cb frames manifest ended last] at same
      rcases read : readCommand target with ⟨_ | ⟨command, param⟩, after⟩
      · simp only [read] at same ⊢
        exact afterStep_error same
      · have shorter := readCommand_length read
        simp only [read] at same ⊢
        have kept := dispatchCommand_simulates cb frames (ready' (.executeSequence common after))
          running (pc' common after) stack false command param
        exact afterStep_keeps (same ▸ kept.1) fun fine => below_of_bytes (by
          have left := kept.2 fine
          rw [rank_sequence pc]
          exact left ▸ by omega)
    | true =>
      rw [execSequences_ended cb frames manifest ended last] at same
      simp only [Bool.not_true, Bool.false_eq_true, if_false, afterStep, ready.noError, if_true,
        popProgramCounter, stack]
      refine ⟨.exit selecting ⟨rfl, ready.selects, ready.resting⟩ rfl rfl same, rfl,
        below_of_bytes ?_⟩
      rw [rank_sequence pc]
      exact Nat.succ_pos _

theorem callFound_eq {runner : Runner U R} {command : Nat} {handler : Handler U R}
    (found : findHandler cb command false = some handler) (target : Nat) (object : Object)
    (param : Bytes) :
    callFound cb runner target object command param =
      match callHandler handler runner.programCounter.manifest target object command param
          runner.effects with
      | (ok, fx) => (ok, { runner with effects := fx }) := by
  simp only [callFound, found]

theorem callFound_programCounter (runner : Runner U R) {command : Nat} {handler : Handler U R}
    (found : findHandler cb command false = some handler) (target : Nat) (object : Object)
    (param : Bytes) :
    (callFound cb runner target object command param).2.programCounter =
      runner.programCounter := by
  rw [callFound_eq found]

theorem selectionRank_all {isComponent : Bool} {index : Nat} {object : Object}
    (named : getObject manifest index isComponent = some object) :
    selectionRank manifest isComponent (.all (index + 1)) <
      selectionRank manifest isComponent (.all index) := by
  rw [← allObjects_get] at named
  obtain ⟨below, -⟩ := List.getElem?_eq_some_iff.mp named
  simp only [selectionRank]
  omega

theorem setNext_self {runner : Runner U R} {next : Next}
    (same : runner.programCounter.next = next) : setNext runner next = runner := by
  subst same
  rfl

/-- A handler call of `run_command_step`: the rest of the command goes on from
the cursor `runner` was left with. -/
theorem callFound_keeps (before : Nat × Nat × Nat) (form : Selected) {runner : Runner U R}
    {selecting : Selecting} {common target : Context} {handler : Handler U R} {command : Nat}
    {param : Bytes} {isComponent : Bool} {address : Nat} {object : Object} {targets : List Target}
    (ready : Ready runner selecting) (running : runner.effects.suspended = false)
    (found : findHandler cb command false = some handler)
    (here : runner.programCounter.manifest = manifest)
    (stack : runner.stack = [⟨manifest, .executeSequence common target⟩, ⟨manifest, .exit⟩])
    (rest : targets = targetsFrom frames manifest isComponent form)
    (same : result = execCommandRest cb frames manifest handler command param
      (some (address, object) :: targets) selecting common target (settle runner.effects))
    (less : Below (common.r.length + target.r.length + 1, 1,
      selectionRank manifest isComponent form) before) :
    Keeps cb frames manifest result before
      (match callFound cb runner address object command param with
        | (false, runner) => afterStep (suitRunnerMarkError runner) false
        | (true, runner) =>
          afterStep (setNext runner (.executeCommand command param isComponent form)) false) := by
  subst rest
  have kept := handler_resting found manifest address object command param ready.resting
  simp only [execCommandRest, List.foldlM_cons, callHandler_applyTo ready running] at same
  simp only [callFound_eq found, here]
  rcases called : callHandler handler manifest address object command param runner.effects with
    ⟨_ | _, fx⟩
  · rw [called] at same
    exact afterStep_error same
  · rw [called] at same kept
    have pc : (setNext { runner with effects := fx }
        (.executeCommand command param isComponent form)).programCounter =
        ⟨manifest, .executeCommand command param isComponent form⟩ := by
      simp only [setNext, here]
    refine afterStep_keeps (.command selecting common target handler command param isComponent form
      ⟨ready.noError, ready.selects, kept⟩ found pc stack same) fun _ => ?_
    rw [rank_command pc stack]
    exact less

/-- A command that has no target left goes back to the sequence it is from. -/
theorem endedCommand_keeps {runner : Runner U R} {selecting : Selecting}
    {common target : Context} {handler : Handler U R} {command : Nat} {param : Bytes}
    {isComponent : Bool} {form : Selected} (ready : Ready runner selecting)
    (pc : runner.programCounter = ⟨manifest, .executeCommand command param isComponent form⟩)
    (stack : runner.stack = [⟨manifest, .executeSequence common target⟩, ⟨manifest, .exit⟩])
    (same : result = execCommandRest cb frames manifest handler command param [] selecting common
      target (settle runner.effects)) :
    Keeps cb frames manifest result (rank runner) (afterStep runner true) := by
  simp only [afterStep, ready.noError, Bool.false_eq_true, if_false, if_true,
    popProgramCounter, stack]
  refine ⟨.sequence selecting common target ⟨rfl, ready.selects, ready.resting⟩ rfl rfl same,
    rfl, ?_⟩
  rw [rank_command pc stack, rank_sequence rfl]
  exact .right _ (.left _ _ Nat.zero_lt_one)

theorem runCommandStep_keeps {runner : Runner U R} {selecting : Selecting}
    {common target : Context} {handler : Handler U R} {command : Nat} {param : Bytes}
    {isComponent : Bool} {form : Selected} (ready : Ready runner selecting)
    (running : runner.effects.suspended = false)
    (found : findHandler cb command false = some handler)
    (pc : runner.programCounter = ⟨manifest, .executeCommand command param isComponent form⟩)
    (stack : runner.stack = [⟨manifest, .executeSequence common target⟩, ⟨manifest, .exit⟩])
    (same : result = execCommandRest cb frames manifest handler command param
      (targetsFrom frames manifest isComponent form) selecting common target
      (settle runner.effects)) :
    Keeps cb frames manifest result (rank runner)
      (afterStep (runCommandStep cb frames runner command param isComponent form).1
        (runCommandStep cb frames runner command param isComponent form).2) := by
  have here : runner.programCounter.manifest = manifest := by rw [pc]
  have whole := rank_command pc stack
  unfold runCommandStep
  cases form with
  | all index =>
    rw [targetsFrom_all] at same
    simp only [here]
    cases named : getObject manifest index isComponent with
    | none =>
      rw [named] at same
      exact endedCommand_keeps ready pc stack same
    | some object =>
      rw [named] at same
      have step := callFound_keeps (rank runner) (.all (index + 1)) ready running
        found here stack rfl same (by
          rw [whole]
          exact .right _ (.right _ (selectionRank_all named)))
      rcases called : callFound cb runner frames.allTarget object command param with
        ⟨_ | _, after⟩
      · simp only [called] at step ⊢
        exact step
      · simp only [called] at step ⊢
        exact step
  | array array =>
    rw [targetsFrom_array] at same
    cases ended : isEndOfContext array with
    | true =>
      simp only [ended, if_true] at same ⊢
      exact endedCommand_keeps ready pc stack same
    | false =>
      simp only [ended, Bool.false_eq_true, if_false] at same ⊢
      rcases read : readUint array with ⟨_ | index, after⟩
      · rw [read] at same
        exact afterStep_error same
      · simp only [read, listedTarget, Option.bind_some] at same ⊢
        have moved : (setNext runner (.executeCommand command param isComponent
            (.array after))).programCounter.manifest = manifest := here
        simp only [moved]
        cases named : getObject manifest index isComponent with
        | none =>
          rw [named] at same
          exact afterStep_error same
        | some object =>
          rw [named] at same
          have ready' : Ready (setNext runner
              (.executeCommand command param isComponent (.array after))) selecting :=
            ⟨ready.noError, ready.selects, ready.resting⟩
          have step := callFound_keeps (rank runner) (.array after) ready' running found moved stack
            rfl same (by
              rw [whole]
              exact .right _ (.right _ (readUint_consuming array after index read)))
          have settled := callFound_programCounter (setNext runner
            (.executeCommand command param isComponent (.array after))) found frames.arrayTarget
            object param
          rcases called : callFound cb (setNext runner
              (.executeCommand command param isComponent (.array after))) frames.arrayTarget object
              command param with ⟨_ | _, last⟩
          · simp only [called] at step ⊢
            exact step
          · simp only [called] at step settled ⊢
            rwa [setNext_self (by rw [settled]; rfl)] at step

theorem runBody_keeps {runner : Runner U R} (sim : Simulates cb frames manifest result runner)
    (fine : runner.hasError = false) :
    Keeps cb frames manifest result (rank runner) (runBody cb frames runner) := by
  unfold runBody
  cases running : runner.effects.suspended with
  | true => exact ⟨sim, .inr (.inl running)⟩
  | false =>
    cases sim with
    | error failed same => rw [fine] at failed; contradiction
    | exit selecting ready pc stack same =>
      simp only [pc]
      exact ⟨.exit selecting ready pc stack same, .inr (.inr (by rw [pc]))⟩
    | sequence selecting common target ready pc stack same =>
      simp only [pc]
      exact runSequenceStep_keeps ready running pc stack same
    | command selecting common target handler command param isComponent form ready found pc stack
        same =>
      simp only [pc]
      exact runCommandStep_keeps ready running found pc stack same

/-- A whole call of `suit_runner_run`. -/
theorem suitRunnerRun_simulates {fuel : Nat} {runner after : Runner U R}
    (sim : Simulates cb frames manifest result runner)
    (ran : suitRunnerRun cb frames fuel runner = some after) :
    Simulates cb frames manifest result after ∧ AtRest after := by
  unfold suitRunnerRun at ran
  split at ran
  · rename_i failed
    cases ran
    exact ⟨sim, .inl failed⟩
  · rename_i fine
    refine Loop.iter_invariant
      (fun runner => Simulates cb frames manifest result runner ∧ runner.hasError = false)
      (fun runner => Simulates cb frames manifest result runner ∧ AtRest runner) ?_ ?_
      ⟨sim, by simpa using fine⟩ ran
    · intro s s' inv step
      have keeps := runBody_keeps inv.1 inv.2
      rw [step] at keeps
      exact ⟨keeps.1, keeps.2.1⟩
    · intro s r inv step
      have keeps := runBody_keeps inv.1 inv.2
      rw [step] at keeps
      exact keeps

/-- Every call of `suit_runner_run` returns. -/
theorem suitRunnerRun_returns {runner : Runner U R}
    (sim : Simulates cb frames manifest result runner) :
    ∃ fuel after, suitRunnerRun cb frames fuel runner = some after := by
  unfold suitRunnerRun
  split
  · exact ⟨0, runner, rfl⟩
  · rename_i fine
    refine Loop.iter_terminates
      (fun runner => Simulates cb frames manifest result runner ∧ runner.hasError = false)
      (InvImage.wf rank below_wellFounded) ?_ runner ⟨sim, by simpa using fine⟩
    intro s s' inv step
    have keeps := runBody_keeps inv.1 inv.2
    rw [step] at keeps
    exact ⟨⟨keeps.1, keeps.2.1⟩, keeps.2.2⟩

theorem afterStep_leaves {runner after : Runner U R} {popPc : Bool}
    (step : afterStep runner popPc = .inr after) : after.hasError = true := by
  have shape := afterStep_cases runner popPc
  rw [step] at shape
  cases shape with
  | failed failed => exact failed
  | underflow fine stack => rfl

/-- The loop is left with an error, or with the state the pass found. -/
theorem runBody_leaves {runner after : Runner U R} (step : runBody cb frames runner = .inr after) :
    after.hasError = true ∨ after = runner := by
  unfold runBody at step
  split at step
  · exact .inr (Sum.inr.inj step).symm
  · split at step
    · exact .inr (Sum.inr.inj step).symm
    · exact .inl (afterStep_leaves step)
    · exact .inl (afterStep_leaves step)
    · exact .inl (afterStep_leaves step)

/-- A run that starts unsuspended and ends suspended has used up some rank. -/
theorem suitRunnerRun_below {fuel : Nat} {runner after : Runner U R}
    (sim : Simulates cb frames manifest result runner) (fine : runner.hasError = false)
    (running : runner.effects.suspended = false)
    (ran : suitRunnerRun cb frames fuel runner = some after)
    (suspended : suitRunnerSuspended after = true) : Below (rank after) (rank runner) := by
  unfold suitRunnerRun at ran
  rw [fine] at ran
  revert suspended
  refine Loop.iter_invariant
    (fun s => Simulates cb frames manifest result s ∧ s.hasError = false ∧
      (s = runner ∨ Below (rank s) (rank runner)))
    (fun r => suitRunnerSuspended r = true → Below (rank r) (rank runner)) ?_ ?_
    ⟨sim, fine, .inl rfl⟩ ran
  · intro s s' inv step
    have keeps := runBody_keeps inv.1 inv.2.1
    rw [step] at keeps
    refine ⟨keeps.1, keeps.2.1, .inr ?_⟩
    rcases inv.2.2 with rfl | below
    · exact keeps.2.2
    · exact Trans.trans keeps.2.2 below
  · intro s r inv step suspended
    simp only [suitRunnerSuspended, Bool.and_eq_true, Bool.not_eq_true'] at suspended
    rcases runBody_leaves step with failed | rfl
    · rw [suspended.1] at failed
      contradiction
    · rcases inv.2.2 with rfl | below
      · rw [running] at suspended
        cases suspended.2
      · exact below

theorem Simulates.of_settled {runner after : Runner U R}
    (sim : Simulates cb frames manifest result runner)
    (kept : after = { runner with effects := after.effects })
    (resting : Resting after.effects) (same : settle after.effects = settle runner.effects) :
    Simulates cb frames manifest result after := by
  rw [kept]
  cases sim with
  | error failed meaning => exact .error failed (same ▸ meaning)
  | exit selecting ready pc stack meaning =>
    exact .exit selecting ⟨ready.noError, ready.selects, resting⟩ pc stack (same ▸ meaning)
  | sequence selecting common target ready pc stack meaning =>
    exact .sequence selecting common target ⟨ready.noError, ready.selects, resting⟩ pc stack
      (same ▸ meaning)
  | command selecting common target handler command param isComponent form ready found pc stack
      meaning =>
    exact .command selecting common target handler command param isComponent form
      ⟨ready.noError, ready.selects, resting⟩ found pc stack (same ▸ meaning)

theorem suitRunnerResume_simulates {runner : Runner U R}
    (sim : Simulates cb frames manifest result runner) :
    Simulates cb frames manifest result (suitRunnerResume cb runner) := by
  unfold suitRunnerResume
  split
  · exact sim
  · split
    · split
      · exact sim.of_settled rfl (fun _ => rfl) rfl
      · split
        · exact sim.of_settled rfl (fun _ => rfl) rfl
        · exact sim.of_settled rfl (fun running => by cases running) rfl
    · exact sim

end TeepDevice.Suit
