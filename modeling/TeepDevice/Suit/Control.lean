import TeepDevice.Suit.Parameters

/-! The control states of the runner: which continuations are saved under which
program counter, what is selected, and how many handler calls the rest of the
sequences can still make. Failed and suspended states are control states too. -/
namespace TeepDevice.Suit
open Tcbor

variable {U R : Type} {cb : Callbacks U R} {frames : Frames} {manifest : Manifest}

/-- The continuations saved under a program counter. -/
inductive Saved (cb : Callbacks U R) (manifest : Manifest) : Continuation → List Continuation → Prop
    where
  | exit : Saved cb manifest ⟨manifest, .exit⟩ []
  | sequence (common target : Context) :
    Saved cb manifest ⟨manifest, .executeSequence common target⟩ [⟨manifest, .exit⟩]
  | command (common target : Context) (command : Nat) (param : Bytes) (isComponent : Bool)
      (form : Selected) (found : (findHandler cb command false).isSome = true) :
    Saved cb manifest ⟨manifest, .executeCommand command param isComponent form⟩
      [⟨manifest, .executeSequence common target⟩, ⟨manifest, .exit⟩]

/-- The object is the entry of the manifest's tables that its index names. -/
def Named (manifest : Manifest) : Object → Prop
  | .component index component => manifest.common.components[index]? = some component
  | .dependency index => index < manifest.common.nDependencies

/-- The handler calls that the bytes of the sequences and the selection under way
can still make, when no selection has more than `size` objects. A failed runner
makes none. -/
def callsLeft (size : Nat) (runner : Runner U R) : Nat :=
  if runner.hasError then 0 else ((rank runner).1 - 1) * (size + 1) + (rank runner).2.2

/-- The invariant of the runner, `total` bounding the calls of the whole run. -/
structure Controlled (cb : Callbacks U R) (manifest : Manifest) (size total : Nat)
    (runner : Runner U R) : Prop where
  saved : Saved cb manifest runner.programCounter runner.stack
  selected : runner.selectedComponents.isSome ≠ runner.selectedDependencies.isSome
  resting : Resting runner.effects
  named : ∀ call ∈ runner.effects.calls, Named manifest call.object
  sequences : (rank runner).1 ≤ size + 1
  components : (runner.selectedComponents.getD []).length ≤ size
  dependencies : (runner.selectedDependencies.getD []).length ≤ size
  spent : runner.effects.calls.length + callsLeft size runner ≤ total

/-- What happens to a runner: a pass of the loop, which `suit_runner_run` enters
without an error only, a resume, or a call of `suit_runner_suspend`. Between its
calls anything may happen to the memory behind `user`. -/
inductive Moves (cb : Callbacks U R) (frames : Frames) : Runner U R → Runner U R → Prop where
  | pass {before after : Runner U R} (fine : before.hasError = false)
      (step : runBody cb frames before = .inl after ∨ runBody cb frames before = .inr after) :
    Moves cb frames before after
  | resume (before : Runner U R) : Moves cb frames before (suitRunnerResume cb before)
  | suspend (before : Runner U R) (onResume : Option R) :
    Moves cb frames before
      { before with effects := { before.effects with suspended := true, onResume := onResume } }
  | user (before : Runner U R) (memory : U) :
    Moves cb frames before { before with effects := { before.effects with user := memory } }

/-- A call of `suit_runner_run` is made of such passes. -/
theorem suitRunnerRun_moves {fuel : Nat} {before after : Runner U R}
    (ran : suitRunnerRun cb frames fuel before = some after) :
    Relation.ReflTransGen (Moves cb frames) before after := by
  unfold suitRunnerRun at ran
  split at ran
  · cases ran
    exact .refl
  · rename_i fine
    replace fine : before.hasError = false := by simpa using fine
    have goes (s s' : Runner U R)
        (reached : Relation.ReflTransGen (Moves cb frames) before s ∧ s.hasError = false)
        (step : runBody cb frames s = .inl s') :
        Relation.ReflTransGen (Moves cb frames) before s' ∧ s'.hasError = false :=
      ⟨reached.1.tail (.pass reached.2 (.inl step)), (runBody_goes step).2⟩
    have leaves (s r : Runner U R)
        (reached : Relation.ReflTransGen (Moves cb frames) before s ∧ s.hasError = false)
        (step : runBody cb frames s = .inr r) : Relation.ReflTransGen (Moves cb frames) before r :=
      reached.1.tail (.pass reached.2 (.inr step))
    exact Loop.iter_invariant _ _ goes leaves ⟨.refl, fine⟩ ran

section Calls
variable {size total : Nat}

theorem getObject_named {index : Nat} {isComponent : Bool} {object : Object}
    (got : getObject manifest index isComponent = some object) : Named manifest object := by
  unfold getObject at got
  cases isComponent with
  | true =>
    obtain ⟨component, here, rfl⟩ := Option.map_eq_some_iff.mp got
    exact here
  | false =>
    simp only [Bool.false_eq_true, if_false] at got
    split at got
    · rename_i below
      cases got
      exact below
    · cases got

theorem named_concat {calls : List Call} {target command : Nat} {object : Object} {param : Bytes}
    (named : ∀ call ∈ calls, Named manifest call.object) (last : Named manifest object) :
    ∀ call ∈ calls ++ [⟨target, object, command, param⟩], Named manifest call.object := by
  intro c member
  rcases List.mem_append.mp member with before | here
  · exact named c before
  · rw [List.mem_singleton.mp here]
    exact last

/-- A handler call adds one entry to the history, and a hook only with a suspension. -/
structure Called (manifest : Manifest) (before after : Effects U R) : Prop where
  resting : Resting after
  named : ∀ call ∈ after.calls, Named manifest call.object
  one : after.calls.length = before.calls.length + 1

theorem callHandler_called {command : Nat} {isCommon : Bool} {handler : Handler U R}
    (found : findHandler cb command isCommon = some handler) (m : Manifest) (target : Nat)
    {object : Object} (param : Bytes) {fx : Effects U R} (resting : Resting fx)
    (named : ∀ call ∈ fx.calls, Named manifest call.object) (here : Named manifest object) :
    Called manifest fx (callHandler handler m target object command param fx).2 := by
  have found := findHandler_target found
  have history := (callHandler_bindings found m target object param fx).1
  refine ⟨handler_resting found m target object command param resting, ?_, ?_⟩
  · rw [history]
    exact named_concat named here
  · rw [history, List.length_append, List.length_singleton]

end Calls

section Steps
variable {size budget total : Nat} {runner : Runner U R} {common target : Context}

theorem callsLeft_le (size : Nat) (runner : Runner U R) :
    callsLeft size runner ≤ ((rank runner).1 - 1) * (size + 1) + (rank runner).2.2 := by
  unfold callsLeft
  split
  · exact Nat.zero_le _
  · exact Nat.le_refl _

theorem callsLeft_fine (size : Nat) (fine : runner.hasError = false) :
    callsLeft size runner = ((rank runner).1 - 1) * (size + 1) + (rank runner).2.2 := by
  simp [callsLeft, fine]

theorem Controlled.markError (controlled : Controlled cb manifest size total runner) :
    Controlled cb manifest size total (suitRunnerMarkError runner) :=
  ⟨controlled.saved, controlled.selected, controlled.resting, controlled.named,
    controlled.sequences, controlled.components, controlled.dependencies,
    Nat.le_trans (Nat.le_add_right _ _) controlled.spent⟩

theorem Controlled.mono (controlled : Controlled cb manifest size budget runner)
    (le : budget ≤ total) : Controlled cb manifest size total runner :=
  { controlled with spent := Nat.le_trans controlled.spent le }

/-- Only the effects changed: one call more, out of the room that is left. -/
theorem Controlled.called (controlled : Controlled cb manifest size budget runner)
    {fx : Effects U R} (called : Called manifest runner.effects fx) (room : budget + 1 ≤ total) :
    Controlled cb manifest size total { runner with effects := fx } := by
  have spent := controlled.spent
  have one := called.one
  have left : callsLeft size { runner with effects := fx } = callsLeft size runner := rfl
  exact ⟨controlled.saved, controlled.selected, called.resting, called.named,
    controlled.sequences, controlled.components, controlled.dependencies, by
      dsimp only
      omega⟩

theorem readSubobject_size {ctx after : Context} {item : Bytes}
    (read : readSubobject ctx = (some item, after)) : item.length ≤ ctx.r.length := by
  unfold readSubobject at read
  split at read
  · cases read
  · cases read
    rw [List.length_take]
    exact Nat.min_le_right _ _

theorem readCommand_size {ctx after : Context} {command : Nat} {param : Bytes}
    (read : readCommand ctx = (some (command, param), after)) : param.length ≤ ctx.r.length := by
  unfold readCommand at read
  split at read
  · cases read
  · rename_i first
    split at read
    · cases read
    · rename_i second
      cases read
      exact Nat.le_trans (readSubobject_size second) (Nat.le_of_lt (readMatching_length first))

theorem readSelection_size {selected : Bytes} {array : Context}
    (read : readSelection selected = .array array) : array.r.length ≤ selected.length := by
  unfold readSelection at read
  split at read
  · cases read
  · rename_i first
    split at read
    · cases read
    · rename_i second
      split at read
      · rename_i third
        cases read
        have shorter := readArray_length third
        rw [(readMatching_none second).1, (readMatching_none first).1] at shorter
        exact Nat.le_of_lt shorter
      · cases read

/-- The bytes of the selection in force. -/
theorem Controlled.selection_size (controlled : Controlled cb manifest size total runner) :
    ((if runner.selectedComponents.isSome then runner.selectedComponents
      else runner.selectedDependencies).getD []).length ≤ size := by
  split
  · exact controlled.components
  · exact controlled.dependencies

/-- Starting a command on several objects uses up to `size` of the room. -/
theorem Controlled.pushed (controlled : Controlled cb manifest size budget runner)
    (fine : runner.hasError = false)
    (pc : runner.programCounter = ⟨manifest, .executeSequence common target⟩) {command : Nat}
    {param : Bytes} {isComponent : Bool} {form : Selected}
    (found : (findHandler cb command false).isSome = true)
    (few : selectionRank manifest isComponent form ≤ size) (room : budget + (size + 1) ≤ total) :
    Controlled cb manifest size total { runner with
      stack := [runner.programCounter, ⟨manifest, .exit⟩]
      programCounter := ⟨manifest, .executeCommand command param isComponent form⟩ } := by
  have before := rank_sequence pc
  have saved : ([runner.programCounter, ⟨manifest, .exit⟩] : List Continuation) =
      [⟨manifest, .executeSequence common target⟩, ⟨manifest, .exit⟩] := by rw [pc]
  have after : rank { runner with
      stack := [runner.programCounter, ⟨manifest, .exit⟩]
      programCounter := ⟨manifest, .executeCommand command param isComponent form⟩ } =
      (common.r.length + target.r.length + 1, 1, selectionRank manifest isComponent form) :=
    rank_command rfl saved
  have sequences := controlled.sequences
  have spent := controlled.spent
  rw [callsLeft_fine size fine, before] at spent
  rw [before] at sequences
  refine ⟨?_, controlled.selected, controlled.resting, controlled.named, ?_,
    controlled.components, controlled.dependencies, ?_⟩
  · rw [saved]
    exact .command common target command param isComponent form found
  · rw [after]
    exact sequences
  · have left := callsLeft_le size { runner with
      stack := [runner.programCounter, ⟨manifest, .exit⟩]
      programCounter := ⟨manifest, .executeCommand command param isComponent form⟩ }
    rw [after] at left
    dsimp only at left spent ⊢
    omega

/-- A manifest none of whose tables is longer than `size`. -/
def Roomy (manifest : Manifest) (size : Nat) : Prop :=
  ∀ isComponent, (allObjects manifest isComponent).length ≤ size

/-- A command that was read is executed, at a price of at most `size + 1` calls. -/
theorem dispatchCommand_controlled (frames : Frames) (roomy : Roomy manifest size)
    (controlled : Controlled cb manifest size budget runner) (fine : runner.hasError = false)
    (pc : runner.programCounter = ⟨manifest, .executeSequence common target⟩)
    (stack : runner.stack = [⟨manifest, .exit⟩]) (isCommon : Bool) (command : Nat)
    {param : Bytes} (short : param.length ≤ size) (room : budget + (size + 1) ≤ total) :
    Controlled cb manifest size total
      (dispatchCommand cb frames runner isCommon command param) := by
  have kept : Controlled cb manifest size total runner := controlled.mono (by omega)
  have here : runner.programCounter.manifest = manifest := by rw [pc]
  have pushed := pushProgramCounter_one stack
  unfold dispatchCommand
  simp only [here]
  split
  · exact { kept with selected := nofun, components := short, dependencies := Nat.zero_le _ }
  split
  · exact { kept with selected := nofun, components := Nat.zero_le _, dependencies := short }
  split
  · exact kept.markError
  rename_i handler found
  rw [if_neg controlled.selected]
  simp only [pushed]
  have found' : (findHandler cb command false).isSome = true := by
    rw [findHandler_target found]
    rfl
  split
  · exact controlled.pushed fine pc found' (roomy _) room
  · exact kept
  · split
    · exact kept.markError
    · rename_i object got
      have called := callHandler_called found manifest frames.uintTarget param controlled.resting
        controlled.named (getObject_named got)
      have next := controlled.called called (show budget + 1 ≤ total by omega)
      split
      · rename_i done
        rw [done] at next
        exact next
      · rename_i done
        rw [done] at next
        exact next.markError
  · rename_i array read
    exact controlled.pushed fine pc found'
      (Nat.le_trans (readSelection_size read) controlled.selection_size) room
  · exact kept.markError

/-- The cursors of a sequence only move on. -/
theorem Controlled.moved (controlled : Controlled cb manifest size total runner)
    (pc : runner.programCounter = ⟨manifest, .executeSequence common target⟩)
    (stack : runner.stack = [⟨manifest, .exit⟩]) {common' target' : Context}
    (le : common'.r.length + target'.r.length ≤ common.r.length + target.r.length)
    (spent : runner.effects.calls.length +
      (common'.r.length + target'.r.length) * (size + 1) ≤ budget) :
    Controlled cb manifest size budget (setNext runner (.executeSequence common' target')) := by
  have pc' : (setNext runner (.executeSequence common' target')).programCounter =
      ⟨manifest, .executeSequence common' target'⟩ := by simp only [setNext, pc]
  have after := rank_sequence pc'
  have left := callsLeft_le size (setNext runner (.executeSequence common' target'))
  rw [after] at left
  have sequences := controlled.sequences
  rw [rank_sequence pc] at sequences
  refine ⟨?_, controlled.selected, controlled.resting, controlled.named, ?_,
    controlled.components, controlled.dependencies, ?_⟩
  · rw [pc']
    exact stack ▸ .sequence common' target'
  · rw [after]
    dsimp only at sequences ⊢
    omega
  · exact Nat.le_trans (Nat.add_le_add_left left _) spent

theorem Controlled.sequence_spent (controlled : Controlled cb manifest size total runner)
    (fine : runner.hasError = false)
    (pc : runner.programCounter = ⟨manifest, .executeSequence common target⟩) :
    runner.effects.calls.length + (common.r.length + target.r.length) * (size + 1) ≤ total := by
  have spent := controlled.spent
  rw [callsLeft_fine size fine, rank_sequence pc] at spent
  exact spent

/-- A cursor that passed a byte frees room for the calls of one command. -/
theorem freed_room {calls before after : Nat} (shorter : after < before)
    (spent : calls + before * (size + 1) ≤ total) :
    calls + after * (size + 1) ≤ total - (size + 1) ∧ total - (size + 1) + (size + 1) ≤ total := by
  have freed : after * (size + 1) + (size + 1) ≤ before * (size + 1) := by
    rw [← Nat.succ_mul]
    exact Nat.mul_le_mul_right _ shorter
  omega

theorem skip_stays (ctx : Context) (count : Nat) :
    (skip ctx count).2.r.length ≤ ctx.r.length := by
  unfold skip
  split
  · exact Nat.le_refl _
  · split
    · exact Nat.le_refl _
    · rename_i skipped
      exact (primitiveSkip_length skipped).1

theorem readSubobject_stays (ctx : Context) : (readSubobject ctx).2.r.length ≤ ctx.r.length := by
  have stays := skip_stays ctx 1
  unfold readSubobject
  rcases skipped : skip ctx 1 with ⟨ok, after⟩
  rw [skipped] at stays
  cases ok with
  | true => exact stays
  | false => exact stays

/-- A failed read leaves its cursor no further back. -/
theorem readCommand_stays {ctx after : Context} (read : readCommand ctx = (none, after)) :
    after.r.length ≤ ctx.r.length := by
  unfold readCommand at read
  split at read
  · rename_i first
    cases read
    exact Nat.le_of_eq (congrArg List.length (readMatching_none first).1)
  · rename_i command between first
    have behind := readSubobject_stays between
    split at read
    · rename_i second
      rw [second] at behind
      cases read
      exact Nat.le_trans behind (Nat.le_of_lt (readMatching_length first))
    · cases read

theorem runSequenceStep_controlled (frames : Frames) (roomy : Roomy manifest size)
    (controlled : Controlled cb manifest size total runner) (fine : runner.hasError = false)
    (pc : runner.programCounter = ⟨manifest, .executeSequence common target⟩)
    (stack : runner.stack = [⟨manifest, .exit⟩]) :
    Controlled cb manifest size total (runSequenceStep cb frames runner common target).1 := by
  have spent := controlled.sequence_spent fine pc
  have sequences := controlled.sequences
  rw [rank_sequence pc] at sequences
  have pc' (common' target' : Context) :
      (setNext runner (.executeSequence common' target')).programCounter =
        ⟨manifest, .executeSequence common' target'⟩ := by simp only [setNext, pc]
  unfold runSequenceStep
  split
  · rcases read : readCommand common with ⟨_ | ⟨command, param⟩, after⟩
    · have behind := readCommand_stays read
      have le : after.r.length + target.r.length ≤ common.r.length + target.r.length := by omega
      have priced := Nat.mul_le_mul_right (size + 1) le
      exact (controlled.moved pc stack le (by omega)).markError
    · have shorter := readCommand_length read
      have size_ := readCommand_size read
      have less : after.r.length + target.r.length < common.r.length + target.r.length := by omega
      obtain ⟨budgeted, room⟩ := freed_room less spent
      exact dispatchCommand_controlled frames roomy
        (controlled.moved pc stack (Nat.le_of_lt less) budgeted) fine (pc' after target) stack true
        command (by dsimp only at sequences; omega) room
  · split
    · rcases read : readCommand target with ⟨_ | ⟨command, param⟩, after⟩
      · have behind := readCommand_stays read
        have le : common.r.length + after.r.length ≤ common.r.length + target.r.length := by omega
        have priced := Nat.mul_le_mul_right (size + 1) le
        exact (controlled.moved pc stack le (by omega)).markError
      · have shorter := readCommand_length read
        have size_ := readCommand_size read
        have less : common.r.length + after.r.length < common.r.length + target.r.length := by omega
        obtain ⟨budgeted, room⟩ := freed_room less spent
        exact dispatchCommand_controlled frames roomy
          (controlled.moved pc stack (Nat.le_of_lt less) budgeted) fine (pc' common after) stack
          false
          command (by dsimp only at sequences; omega) room
    · exact controlled

/-- A cursor of the selection that passed `k` objects frees room for their calls. -/
theorem Controlled.advanced (controlled : Controlled cb manifest size total runner)
    (fine : runner.hasError = false) {command : Nat} {param : Bytes} {isComponent : Bool}
    {form form' : Selected} (found : (findHandler cb command false).isSome = true)
    (pc : runner.programCounter = ⟨manifest, .executeCommand command param isComponent form⟩)
    (stack : runner.stack = [⟨manifest, .executeSequence common target⟩, ⟨manifest, .exit⟩])
    {k : Nat} (less : selectionRank manifest isComponent form' + k ≤
      selectionRank manifest isComponent form) :
    Controlled cb manifest size (total - k)
        (setNext runner (.executeCommand command param isComponent form')) ∧
      total - k + k ≤ total := by
  have pc' : (setNext runner (.executeCommand command param isComponent form')).programCounter =
      ⟨manifest, .executeCommand command param isComponent form'⟩ := by simp only [setNext, pc]
  have after := rank_command pc' stack
  have left := callsLeft_le size (setNext runner (.executeCommand command param isComponent form'))
  have spent := controlled.spent
  have sequences := controlled.sequences
  rw [after] at left
  rw [callsLeft_fine size fine, rank_command pc stack] at spent
  rw [rank_command pc stack] at sequences
  refine ⟨⟨?_, controlled.selected, controlled.resting, controlled.named, ?_,
    controlled.components, controlled.dependencies, ?_⟩, by dsimp only at spent; omega⟩
  · rw [pc']
    exact stack ▸ .command common target command param isComponent form' found
  · rw [after]
    exact sequences
  · have same : (setNext runner (.executeCommand command param isComponent form')).effects =
        runner.effects := rfl
    rw [same]
    dsimp only at left spent
    omega

/-- A failed runner is bounded by the calls it has made. -/
theorem Controlled.stopped (controlled : Controlled cb manifest size total runner) :
    Controlled cb manifest size runner.effects.calls.length (suitRunnerMarkError runner) :=
  { controlled.markError with spent := Nat.le_refl _ }

theorem callFound_called {command : Nat} (found : (findHandler cb command false).isSome = true)
    (here : runner.programCounter.manifest = manifest) (resting : Resting runner.effects)
    (named : ∀ call ∈ runner.effects.calls, Named manifest call.object) {object : Object}
    (known : Named manifest object) (address : Nat) (param : Bytes) :
    ∃ ok fx, callFound cb runner address object command param =
        (ok, { runner with effects := fx }) ∧ Called manifest runner.effects fx := by
  obtain ⟨handler, found⟩ := Option.isSome_iff_exists.mp found
  have called := callHandler_called found manifest address param resting named known
  rw [callFound_eq found, here]
  exact ⟨_, _, rfl, called⟩

/-- A step of a command that leaves it on the stack: one object, or a failure. -/
theorem runCommandStep_controlled (frames : Frames)
    (controlled : Controlled cb manifest size total runner) (fine : runner.hasError = false)
    {command : Nat} {param : Bytes} {isComponent : Bool} {form : Selected}
    (found : (findHandler cb command false).isSome = true)
    (pc : runner.programCounter = ⟨manifest, .executeCommand command param isComponent form⟩)
    (stack : runner.stack = [⟨manifest, .executeSequence common target⟩, ⟨manifest, .exit⟩]) :
    Controlled cb manifest size total
      (runCommandStep cb frames runner command param isComponent form).1 := by
  have here : runner.programCounter.manifest = manifest := by rw [pc]
  unfold runCommandStep
  cases form with
  | all index =>
    simp only [here]
    cases got : getObject manifest index isComponent with
    | none => exact controlled
    | some object =>
      have less : selectionRank manifest isComponent (.all (index + 1)) + 1 ≤
          selectionRank manifest isComponent (.all index) := selectionRank_all got
      obtain ⟨moved, room⟩ := controlled.advanced fine found pc stack less
      have spent := controlled.spent
      rw [callsLeft_fine size fine, rank_command pc stack] at spent
      obtain ⟨ok, fx, ran, called⟩ := callFound_called found here controlled.resting
        controlled.named (getObject_named got) frames.allTarget param
      simp only [ran]
      cases ok with
      | false => exact controlled.stopped.called called (by dsimp only at spent; omega)
      | true => exact moved.called called room
  | array array =>
    dsimp only
    split
    · exact controlled
    · rcases read : readUint array with ⟨_ | index, after⟩
      · have same : selectionRank manifest isComponent (.array after) + 0 ≤
            selectionRank manifest isComponent (.array array) :=
          Nat.le_of_eq (congrArg List.length (readMatching_none read).1)
        exact (controlled.advanced fine found pc stack same).1.markError
      · have less : selectionRank manifest isComponent (.array after) + 1 ≤
            selectionRank manifest isComponent (.array array) :=
          readUint_consuming array after index read
        obtain ⟨moved, room⟩ := controlled.advanced fine found pc stack less
        have here' : (setNext runner (.executeCommand command param isComponent
            (.array after))).programCounter.manifest = manifest := here
        simp only [here']
        cases got : getObject manifest index isComponent with
        | none => exact (moved.mono (by omega)).markError
        | some object =>
          obtain ⟨ok, fx, ran, called⟩ := callFound_called found here' moved.resting moved.named
            (getObject_named got) frames.arrayTarget param
          simp only [ran]
          cases ok with
          | false => exact (moved.called called room).markError
          | true => exact moved.called called room

/-- The continuation that a pop goes back to is in turn saved, with no selection. -/
theorem Saved.popped (saved : Saved cb manifest runner.programCounter runner.stack)
    {pc : Continuation} {rest : List Continuation} (stack : runner.stack = pc :: rest) :
    Saved cb manifest pc rest ∧
      (rank { runner with programCounter := pc, stack := rest }).1 ≤ (rank runner).1 ∧
      (rank { runner with programCounter := pc, stack := rest }).2.2 = 0 := by
  rw [stack] at saved
  generalize here : runner.programCounter = at_ at saved
  cases saved with
  | sequence common target =>
    exact ⟨.exit, Nat.zero_le _, rfl⟩
  | command common target command param isComponent form found =>
    rw [rank_command here stack]
    exact ⟨.sequence common target, Nat.le_refl _, rfl⟩

theorem Controlled.popped (controlled : Controlled cb manifest size total runner)
    (fine : runner.hasError = false) {pc : Continuation} {rest : List Continuation}
    (stack : runner.stack = pc :: rest) :
    Controlled cb manifest size total { runner with programCounter := pc, stack := rest } := by
  obtain ⟨saved, bytes, nothing⟩ := controlled.saved.popped stack
  have left := callsLeft_le size { runner with programCounter := pc, stack := rest }
  have spent := controlled.spent
  have priced := Nat.mul_le_mul_right (size + 1) (Nat.sub_le_sub_right bytes 1)
  rw [nothing] at left
  rw [callsLeft_fine size fine] at spent
  refine ⟨saved, controlled.selected, controlled.resting, controlled.named,
    Nat.le_trans bytes controlled.sequences, controlled.components, controlled.dependencies, ?_⟩
  dsimp only
  omega

theorem afterStep_controlled {after : Runner U R} {popPc : Bool}
    (controlled : Controlled cb manifest size total runner)
    (step : afterStep runner popPc = .inl after ∨ afterStep runner popPc = .inr after) :
    Controlled cb manifest size total after := by
  have shape := afterStep_cases runner popPc
  rcases step with step | step
  · rw [step] at shape
    cases shape with
    | popped fine stack => exact controlled.popped fine stack
    | stayed fine => exact controlled
  · rw [step] at shape
    cases shape with
    | failed failed => exact controlled
    | underflow fine stack => exact controlled.markError

theorem runBody_controlled (roomy : Roomy manifest size)
    (controlled : Controlled cb manifest size total runner) (fine : runner.hasError = false)
    {after : Runner U R}
    (step : runBody cb frames runner = .inl after ∨ runBody cb frames runner = .inr after) :
    Controlled cb manifest size total after := by
  have saved := controlled.saved
  generalize pc : runner.programCounter = here at saved
  generalize stack : runner.stack = below at saved
  unfold runBody at step
  split at step
  · rcases step with step | step
    · cases step
    · cases step
      exact controlled
  · cases saved with
    | exit =>
      simp only [pc] at step
      rcases step with step | step
      · cases step
      · cases step
        exact controlled
    | sequence common target =>
      simp only [pc] at step
      exact afterStep_controlled
        (runSequenceStep_controlled frames roomy controlled fine pc stack) step
    | command common target command param isComponent form found =>
      simp only [pc] at step
      exact afterStep_controlled
        (runCommandStep_controlled frames controlled fine found pc stack) step

/-- Suspending and resuming touch neither the history nor the control state. -/
theorem Controlled.settled (controlled : Controlled cb manifest size total runner)
    {fx : Effects U R} (resting : Resting fx) (same : fx.calls = runner.effects.calls) :
    Controlled cb manifest size total { runner with effects := fx } :=
  { controlled with
    resting := resting
    named := same ▸ controlled.named
    spent := by
      dsimp only
      rw [same]
      exact controlled.spent }

theorem suitRunnerResume_controlled (controlled : Controlled cb manifest size total runner) :
    Controlled cb manifest size total (suitRunnerResume cb runner) := by
  obtain ⟨suspended, onResume, resumed, rest⟩ := suitRunnerResume_resumed cb runner
  rw [resumed]
  exact controlled.settled (rest controlled.resting) rfl

theorem Moves.controlled {after : Runner U R} (move : Moves cb frames runner after)
    (roomy : Roomy manifest size) (controlled : Controlled cb manifest size total runner) :
    Controlled cb manifest size total after := by
  cases move with
  | pass fine step => exact runBody_controlled roomy controlled fine step
  | resume => exact suitRunnerResume_controlled controlled
  | suspend onResume => exact controlled.settled (fun running => by cases running) rfl
  | user memory => exact controlled.settled controlled.resting rfl

/-- Over any run. -/
theorem moves_controlled {start : Runner U R} (roomy : Roomy manifest size)
    (controlled : Controlled cb manifest size total start)
    (moves : Relation.ReflTransGen (Moves cb frames) start runner) :
    Controlled cb manifest size total runner := by
  induction moves with
  | refl => exact controlled
  | tail _ move ih => exact move.controlled roomy ih

end Steps

section Start
variable {wild : Digest → Range} {context : SuitContext} {sequence : CommandSequence} {user : U}

theorem startedRunner_controlled {pc : Continuation} {stack : List Continuation} {size : Nat}
    (saved : Saved cb manifest pc stack) (some : 0 < size)
    (sequences : (rank (startedRunner (R := R) sequence user pc stack)).1 ≤ size + 1) :
    Controlled cb manifest size (callsLeft size (startedRunner (R := R) sequence user pc stack))
      (startedRunner sequence user pc stack) where
  saved := saved
  selected := by simp [startedRunner]
  resting _ := rfl
  named := by simp [startedRunner]
  sequences := sequences
  components := some
  dependencies := Nat.zero_le _
  spent := Nat.le_of_eq (Nat.zero_add _)

/-- A runner that was set up is under control. -/
theorem suitRunnerInit_controlled (cb : Callbacks U R)
    (root : suitContextGetRootManifest context = some manifest) :
    ∃ start size total, suitRunnerInit wild context sequence user = some start ∧
      Roomy manifest size ∧ Controlled cb manifest size total start := by
  let objects := (allObjects manifest true).length + (allObjects manifest false).length
  have roomy (more : Nat) : Roomy manifest (objects + more) := by
    intro isComponent
    cases isComponent with
    | true => exact Nat.le_trans (Nat.le_add_right _ _) (Nat.le_add_right _ _)
    | false => exact Nat.le_trans (Nat.le_add_left _ _) (Nat.le_add_right _ _)
  cases opened : openSequences wild sequence manifest with
  | none =>
    exact ⟨_, objects + 1, _, suitRunnerInit_unopened root opened, roomy 1,
      startedRunner_controlled .exit (Nat.succ_pos _) (Nat.zero_le _)⟩
  | some pair =>
    obtain ⟨common, target⟩ := pair
    have bytes : common.r.length + target.r.length + 1 ≤
        objects + (common.r.length + target.r.length + 1) + 1 := by omega
    exact ⟨_, objects + (common.r.length + target.r.length + 1), _,
      suitRunnerInit_opened root opened, roomy _,
      startedRunner_controlled (.sequence common target) (by omega) bytes⟩

/-- What holds of the control state of a runner, in the terms of its code. -/
structure InControl (cb : Callbacks U R) (frames : Frames) (runner : Runner U R) : Prop where
  saved : Saved cb runner.programCounter.manifest runner.programCounter runner.stack
  depth : runner.stack.length ≤ 2 ∧ 2 ≤ stackMax
  pushes : ∀ next, (pushProgramCounter (setNext runner next)).isSome = true
  sequencePops : ∀ common target, runner.programCounter.next = .executeSequence common target →
    (runSequenceStep cb frames runner common target).2 = true →
      (popProgramCounter (runSequenceStep cb frames runner common target).1).isSome = true
  commandPops : ∀ command param isComponent form,
    runner.programCounter.next = .executeCommand command param isComponent form →
      (runCommandStep cb frames runner command param isComponent form).2 = true →
        (popProgramCounter
          (runCommandStep cb frames runner command param isComponent form).1).isSome = true
  noTry : runner.programCounter.next ≠ .executeTryEntry
  handler : ∀ command param isComponent form,
    runner.programCounter.next = .executeCommand command param isComponent form →
      (findHandler cb command false).isSome = true
  selected : runner.selectedComponents.isSome ≠ runner.selectedDependencies.isSome
  named : ∀ call ∈ runner.effects.calls, Named runner.programCounter.manifest call.object

section Saved
variable {pc : Continuation} {stack : List Continuation}

theorem Saved.manifest_eq (saved : Saved cb manifest pc stack) : pc.manifest = manifest := by
  cases saved with
  | exit => rfl
  | sequence => rfl
  | command => rfl

theorem Saved.length_le (saved : Saved cb manifest pc stack) : stack.length ≤ 2 := by
  cases saved with
  | exit => exact Nat.zero_le 2
  | sequence => exact Nat.le_succ 1
  | command => exact Nat.le_refl 2

theorem Saved.ne_try (saved : Saved cb manifest pc stack) : pc.next ≠ .executeTryEntry := by
  cases saved with
  | exit => exact Next.noConfusion
  | sequence => exact Next.noConfusion
  | command => exact Next.noConfusion

/-- Only the exit has nothing saved below it. -/
theorem Saved.stacked (saved : Saved cb manifest pc stack) (inside : pc.next ≠ .exit) :
    stack ≠ [] := by
  cases saved with
  | exit => exact absurd rfl inside
  | sequence => exact List.cons_ne_nil _ _
  | command => exact List.cons_ne_nil _ _

theorem Saved.handled (saved : Saved cb manifest pc stack) {command : Nat} {param : Bytes}
    {isComponent : Bool} {form : Selected}
    (executing : pc.next = .executeCommand command param isComponent form) :
    (findHandler cb command false).isSome = true := by
  cases saved with
  | exit => cases executing
  | sequence => cases executing
  | command common target command param isComponent form found =>
    cases executing
    exact found

end Saved

theorem popProgramCounter_isSome {runner : Runner U R} (stacked : runner.stack ≠ []) :
    (popProgramCounter runner).isSome = true := by
  unfold popProgramCounter
  cases stack : runner.stack with
  | nil => exact absurd stack stacked
  | cons pc rest => rfl

theorem Controlled.inControl {size total : Nat} {runner : Runner U R}
    (controlled : Controlled cb manifest size total runner) : InControl cb frames runner := by
  have here := controlled.saved.manifest_eq
  have few := controlled.saved.length_le
  refine ⟨here ▸ controlled.saved, ⟨few, by decide⟩, ?_, ?_, ?_, controlled.saved.ne_try, ?_,
    controlled.selected, here ▸ controlled.named⟩
  · intro next
    have room : (setNext runner next).stack.length ≠ stackMax :=
      Nat.ne_of_lt (Nat.lt_of_le_of_lt few (by decide))
    rw [pushProgramCounter, if_neg room]
    rfl
  · intro common target executing pop
    rw [runSequenceStep_pops pop]
    refine popProgramCounter_isSome (controlled.saved.stacked ?_)
    rw [executing]
    exact Next.noConfusion
  · intro command param isComponent form executing pop
    rw [runCommandStep_pops pop]
    refine popProgramCounter_isSome (controlled.saved.stacked ?_)
    rw [executing]
    exact Next.noConfusion
  · intro command param isComponent form executing
    exact controlled.saved.handled executing

/-- Whatever is done to a runner after `suit_runner_init`, its control state
stays one of three shapes, and its handlers see objects of the manifest. -/
theorem runner_in_control (cb : Callbacks U R) (frames : Frames) (wild : Digest → Range)
    (context : SuitContext) (sequence : CommandSequence) (manifest : Manifest) (user : U)
    (root : suitContextGetRootManifest context = some manifest) :
    ∃ start, suitRunnerInit wild context sequence user = some start ∧
      ∀ runner, Relation.ReflTransGen (Moves cb frames) start runner →
        runner.programCounter.manifest = manifest ∧ InControl cb frames runner := by
  obtain ⟨start, size, total, started, roomy, controlled⟩ := suitRunnerInit_controlled cb root
  refine ⟨start, started, fun runner moves => ?_⟩
  have kept := moves_controlled roomy controlled moves
  exact ⟨kept.saved.manifest_eq, kept.inControl⟩

/-- The run up to the suspension of a fetch, in the middle of a sequence. -/
theorem runner_in_control_fetching :
    ∃ start runner, suitRunnerInit (fun _ => none) (contextOf fetchingEnvelope) .install () =
        some start ∧
      Relation.ReflTransGen (Moves suspendingCallbacks ⟨0, 1, 2⟩) start runner ∧
      runner.effects.suspended = true ∧ runner.effects.calls.length = 2 ∧
      InControl suspendingCallbacks ⟨0, 1, 2⟩ runner := by
  have shape : (firstRun fetchingEnvelope).map (fun runner =>
      (runner.effects.suspended, runner.effects.calls.length)) = some (true, 2) := by decide
  obtain ⟨runner, ran, shape⟩ := Option.map_eq_some_iff.mp shape
  obtain ⟨suspended, calls⟩ := Prod.mk.inj shape
  obtain ⟨start, started, run⟩ := Option.bind_eq_some_iff.mp ran
  obtain ⟨first, begun, kept⟩ := runner_in_control suspendingCallbacks ⟨0, 1, 2⟩ (fun _ => none)
    (contextOf fetchingEnvelope) .install ((contextOf fetchingEnvelope).manifests 0) () (by decide)
  cases started.symm.trans begun
  have moves := suitRunnerRun_moves run
  exact ⟨start, runner, started, moves, suspended, calls, (kept runner moves).2⟩

/-- A runner under control means something: the simulation has a result for it. -/
theorem Controlled.simulates {size total : Nat} {runner : Runner U R}
    (controlled : Controlled cb manifest size total runner) :
    ∃ result, Simulates cb frames manifest result runner := by
  cases failed : runner.hasError with
  | true => exact ⟨_, .error failed rfl⟩
  | false =>
    obtain ⟨selecting, selects⟩ : ∃ selecting, Selects runner selecting := by
      have one := controlled.selected
      cases components : runner.selectedComponents with
      | some selected =>
        cases dependencies : runner.selectedDependencies with
        | some other => rw [components, dependencies] at one; exact absurd rfl one
        | none => exact ⟨.components selected, components, dependencies⟩
      | none =>
        cases dependencies : runner.selectedDependencies with
        | some selected => exact ⟨.dependencies selected, components, dependencies⟩
        | none => rw [components, dependencies] at one; exact absurd rfl one
    have ready : Ready runner selecting := ⟨failed, selects, controlled.resting⟩
    have saved := controlled.saved
    generalize pc : runner.programCounter = here at saved
    generalize stack : runner.stack = below at saved
    cases saved with
    | exit => exact ⟨_, .exit selecting ready pc stack rfl⟩
    | sequence common target => exact ⟨_, .sequence selecting common target ready pc stack rfl⟩
    | command common target command param isComponent form found =>
      obtain ⟨handler, found⟩ := Option.isSome_iff_exists.mp found
      exact ⟨_, .command selecting common target handler command param isComponent form ready found
        pc stack rfl⟩

/-- Every call of `suit_runner_run` returns, and a run of any length makes only
so many handler calls. -/
theorem runner_stops (cb : Callbacks U R) (frames : Frames) (wild : Digest → Range)
    (context : SuitContext) (sequence : CommandSequence) (user : U)
    (root : suitContextGetRootManifest context = some manifest) :
    ∃ start bound, suitRunnerInit wild context sequence user = some start ∧
      ∀ runner, Relation.ReflTransGen (Moves cb frames) start runner →
        (∃ fuel after, suitRunnerRun cb frames fuel runner = some after) ∧
          runner.effects.calls.length ≤ bound := by
  obtain ⟨start, size, total, started, roomy, controlled⟩ := suitRunnerInit_controlled cb root
  refine ⟨start, total, started, fun runner moves => ?_⟩
  have kept := moves_controlled roomy controlled moves
  obtain ⟨result, sim⟩ := kept.simulates
  exact ⟨suitRunnerRun_returns sim, Nat.le_trans (Nat.le_add_right _ _) kept.spent⟩

end Start

end TeepDevice.Suit
