import Mathlib.Data.List.Forall2
import TeepDevice.Suit.Runner

/-! The runner hands the memory behind `user` to its callbacks and reads nothing
of it: what callbacks agree on up to a map, whole runs agree on up to that map. -/
namespace TeepDevice.Suit
open Tcbor

variable {U V R : Type}

def Effects.map (f : U → V) (fx : Effects U R) : Effects V R :=
  ⟨fx.bindings, fx.suspended, fx.onResume, f fx.user, fx.calls⟩

def Runner.map (f : U → V) (runner : Runner U R) : Runner V R :=
  ⟨runner.sequence, runner.selectedComponents, runner.selectedDependencies,
    runner.programCounter, runner.stack, runner.hasError, runner.effects.map f⟩

def Reply.map (f : U → V) (reply : Reply U R) : Reply V R :=
  ⟨reply.ok, f reply.user, reply.suspend⟩

/-- Callbacks that do the same up to a map of the memory behind `user`. -/
structure MapsTo (f : U → V) (cb : Callbacks U R) (cb' : Callbacks V R) : Prop where
  store : ∀ user object body, cb'.store (f user) object body = (cb.store user object body).map f
  fetchAndStore : ∀ user object uri,
    cb'.fetchAndStore (f user) object uri = (cb.fetchAndStore user object uri).map f
  onResume : ∀ r, cb'.onResume r = cb.onResume r

/-- Handlers that do the same up to such a map. -/
def HandlerMapsTo (f : U → V) (h : Handler U R) (h' : Handler V R) : Prop :=
  ∀ manifest target object command param fx,
    h' manifest target object command param (fx.map f) =
      Prod.map id (Effects.map f) (h manifest target object command param fx)

variable {f : U → V} {cb : Callbacks U R} {cb' : Callbacks V R} {frames : Frames}

theorem directiveSetParameters_map :
    HandlerMapsTo f (directiveSetParameters (R := R)) directiveSetParameters := by
  intro manifest target object command param fx
  unfold directiveSetParameters
  dsimp only [Effects.map]
  split
  · rfl
  · rename_i map ctx _
    generalize Loop.eval (setParametersBody target _) _ _ (map, fx.bindings) = result
    obtain ⟨_ | _, after, bindings⟩ := result
    · rfl
    · rfl

theorem applyReply_map (reply : Reply U R) (fx : Effects U R) :
    applyReply (reply.map f) (fx.map f) = Prod.map id (Effects.map f) (applyReply reply fx) := by
  obtain ⟨ok, user, suspend⟩ := reply
  cases suspend with
  | none => rfl
  | some r => rfl

theorem directiveFetch_map (maps : MapsTo f cb cb') :
    HandlerMapsTo f (directiveFetch cb) (directiveFetch cb') := by
  intro manifest target object command param fx
  unfold directiveFetch
  split
  · rfl
  · dsimp only [Effects.map]
    split
    · rfl
    · split
      · rfl
      · rfl
      · split
        · split
          · rfl
          · rw [maps.store]
            exact applyReply_map _ fx
        · rw [maps.fetchAndStore]
          exact applyReply_map _ fx

theorem commandHandlers_map (maps : MapsTo f cb cb') :
    List.Forall₂ (fun h h' => h'.command = h.command ∧ h'.allowCommon = h.allowCommon ∧
      HandlerMapsTo f h.handler h'.handler) (commandHandlers cb) (commandHandlers cb') := by
  have keeps (h : Handler U R) (h' : Handler V R) (same : HandlerMapsTo f h h') (command : Nat)
      (allowCommon : Bool) :
      (CommandHandler.mk command allowCommon h').command =
        (CommandHandler.mk command allowCommon h).command ∧
      (CommandHandler.mk command allowCommon h').allowCommon =
        (CommandHandler.mk command allowCommon h).allowCommon ∧ HandlerMapsTo f h h' :=
    ⟨rfl, rfl, same⟩
  unfold commandHandlers
  refine .cons (keeps _ _ ?_ _ _) (.cons (keeps _ _ ?_ _ _) (.cons (keeps _ _ ?_ _ _)
    (.cons (keeps _ _ directiveSetParameters_map _ _) (.cons
      (keeps _ _ directiveSetParameters_map _ _) (.cons (keeps _ _ ?_ _ _) (.cons
        (keeps _ _ (directiveFetch_map maps) _ _) .nil))))))
  all_goals
    intro manifest target object command param fx
    rfl

theorem find_related {α β : Type} {related : α → β → Prop} {p : α → Bool} {q : β → Bool}
    (same : ∀ a b, related a b → q b = p a) {xs : List α} {ys : List β}
    (all : List.Forall₂ related xs ys) : Option.Rel related (xs.find? p) (ys.find? q) := by
  induction all with
  | nil => exact .none
  | @cons a b _ _ head _ ih =>
    rw [List.find?_cons, List.find?_cons, same a b head]
    cases p a with
    | true => exact .some head
    | false => exact ih

theorem findHandler_map (maps : MapsTo f cb cb') (command : Nat) (isCommon : Bool) :
    Option.Rel (HandlerMapsTo f) (findHandler cb command isCommon)
      (findHandler cb' command isCommon) := by
  have found := find_related (p := fun h => h.command == command)
    (q := fun h => h.command == command) (fun a b h => by rw [h.1]) (commandHandlers_map maps)
  unfold findHandler
  generalize (commandHandlers cb).find? (fun h => h.command == command) = left at found ⊢
  generalize (commandHandlers cb').find? (fun h => h.command == command) = right at found ⊢
  cases found with
  | none => exact .none
  | some same =>
    obtain ⟨-, allow, handler⟩ := same
    dsimp only
    rw [allow]
    split
    · exact .none
    · exact .some handler

theorem pushProgramCounter_map (runner : Runner U R) :
    pushProgramCounter (runner.map f) = (pushProgramCounter runner).map (Runner.map f) := by
  have same : (runner.map f).stack = runner.stack := rfl
  unfold pushProgramCounter
  by_cases full : runner.stack.length = stackMax
  · rw [if_pos full, same, if_pos full]
    rfl
  · rw [if_neg full, same, if_neg full]
    rfl

theorem callHandler_map {h : Handler U R} {h' : Handler V R} (same : HandlerMapsTo f h h')
    (manifest : Manifest) (target : Nat) (object : Object) (command : Nat) (param : Bytes)
    (fx : Effects U R) :
    callHandler h' manifest target object command param (fx.map f) =
      Prod.map id (Effects.map f) (callHandler h manifest target object command param fx) := by
  unfold callHandler
  rw [← same]
  rfl

theorem pushed_map (runner : Runner U R) (next : Continuation) :
    (match pushProgramCounter (runner.map f) with
      | none => suitRunnerMarkError (runner.map f)
      | some pushed => { pushed with programCounter := next }) =
    (match pushProgramCounter runner with
      | none => suitRunnerMarkError runner
      | some pushed => { pushed with programCounter := next }).map f := by
  rw [pushProgramCounter_map]
  cases pushProgramCounter runner with
  | none => rfl
  | some pushed => rfl

theorem dispatchCommand_map (maps : MapsTo f cb cb') (runner : Runner U R) (isCommon : Bool)
    (command : Nat) (param : Bytes) :
    dispatchCommand cb' frames (runner.map f) isCommon command param =
      (dispatchCommand cb frames runner isCommon command param).map f := by
  have components : (runner.map f).selectedComponents = runner.selectedComponents := rfl
  have dependencies : (runner.map f).selectedDependencies = runner.selectedDependencies := rfl
  have pc : (runner.map f).programCounter = runner.programCounter := rfl
  have effects : (runner.map f).effects = runner.effects.map f := rfl
  unfold dispatchCommand
  dsimp only
  split
  · rfl
  split
  · rfl
  have found := findHandler_map maps command isCommon
  generalize findHandler cb command isCommon = left at found ⊢
  generalize findHandler cb' command isCommon = right at found ⊢
  cases found with
  | none => rfl
  | some same =>
    rename_i h h'
    dsimp only
    rw [components, dependencies, pc]
    by_cases both : runner.selectedComponents.isSome = runner.selectedDependencies.isSome
    · rw [if_pos both, if_pos both]
      rfl
    · rw [if_neg both, if_neg both]
      split
      · exact pushed_map runner _
      · rfl
      · split
        · rfl
        · rename_i object _
          rw [effects, callHandler_map same]
          generalize callHandler h _ _ object command param runner.effects = result
          obtain ⟨_ | _, fx⟩ := result
          · rfl
          · rfl
      · exact pushed_map runner _
      · rfl

theorem runSequenceStep_map (maps : MapsTo f cb cb') (runner : Runner U R)
    (common target : Context) :
    runSequenceStep cb' frames (runner.map f) common target =
      Prod.map (Runner.map f) id (runSequenceStep cb frames runner common target) := by
  unfold runSequenceStep
  split
  · split
    · rfl
    · rw [Prod.map_apply, ← dispatchCommand_map maps]
      rfl
  · split
    · split
      · rfl
      · rw [Prod.map_apply, ← dispatchCommand_map maps]
        rfl
    · rfl

theorem callFound_map (maps : MapsTo f cb cb') (runner : Runner U R) (target : Nat)
    (object : Object) (command : Nat) (param : Bytes) :
    callFound cb' (runner.map f) target object command param =
      Prod.map id (Runner.map f) (callFound cb runner target object command param) := by
  have found := findHandler_map maps command false
  unfold callFound
  generalize findHandler cb command false = left at found ⊢
  generalize findHandler cb' command false = right at found ⊢
  cases found with
  | none => rfl
  | some same =>
    rename_i h h'
    dsimp only [Runner.map]
    rw [callHandler_map same]
    generalize callHandler h _ _ object command param runner.effects = result
    obtain ⟨_ | _, fx⟩ := result
    · rfl
    · rfl

theorem runCommandStep_map (maps : MapsTo f cb cb') (runner : Runner U R) (command : Nat)
    (param : Bytes) (isComponent : Bool) (selected : Selected) :
    runCommandStep cb' frames (runner.map f) command param isComponent selected =
      Prod.map (Runner.map f) id
        (runCommandStep cb frames runner command param isComponent selected) := by
  cases selected with
  | all index =>
    simp only [runCommandStep]
    have same : (runner.map f).programCounter = runner.programCounter := rfl
    rw [same]
    split
    · rfl
    · rename_i object _
      rw [callFound_map maps]
      generalize callFound cb runner _ object command param = result
      obtain ⟨_ | _, after⟩ := result
      · rfl
      · rfl
  | array array =>
    simp only [runCommandStep]
    split
    · rfl
    · split
      · rfl
      · rename_i index after _
        have moved : setNext (runner.map f) (.executeCommand command param isComponent
            (.array after)) = (setNext runner (.executeCommand command param isComponent
              (.array after))).map f := rfl
        rw [moved]
        generalize setNext runner _ = runner
        have same : (runner.map f).programCounter = runner.programCounter := rfl
        rw [same]
        split
        · rfl
        · rename_i object _
          rw [callFound_map maps]
          generalize callFound cb runner _ object command param = result
          obtain ⟨_ | _, after⟩ := result
          · rfl
          · rfl

theorem afterStep_map (runner : Runner U R) (popPc : Bool) :
    afterStep (runner.map f) popPc =
      Sum.map (Runner.map f) (Runner.map f) (afterStep runner popPc) := by
  obtain ⟨sequence, components, dependencies, pc, stack, hasError, fx⟩ := runner
  cases hasError with
  | true => rfl
  | false =>
    cases popPc with
    | false => rfl
    | true =>
      cases stack with
      | nil => rfl
      | cons pc stack => rfl

theorem runBody_map (maps : MapsTo f cb cb') (runner : Runner U R) :
    runBody cb' frames (runner.map f) =
      Sum.map (Runner.map f) (Runner.map f) (runBody cb frames runner) := by
  unfold runBody
  have same : (runner.map f).programCounter = runner.programCounter := rfl
  have suspended : (runner.map f).effects.suspended = runner.effects.suspended := rfl
  rw [same, suspended]
  split
  · rfl
  · split
    · rfl
    · rw [runSequenceStep_map maps]
      exact afterStep_map _ _
    · exact afterStep_map _ _
    · rw [runCommandStep_map maps]
      exact afterStep_map _ _

theorem suitRunnerRun_map (maps : MapsTo f cb cb') (frames : Frames) (fuel : Nat)
    (runner : Runner U R) :
    suitRunnerRun cb' frames fuel (runner.map f) =
      (suitRunnerRun cb frames fuel runner).map (Runner.map f) := by
  unfold suitRunnerRun
  have same : (runner.map f).hasError = runner.hasError := rfl
  rw [same]
  split
  · rfl
  · exact Loop.iter_map (runBody_map maps) fuel runner

theorem suitRunnerResume_map (maps : MapsTo f cb cb') (runner : Runner U R) :
    suitRunnerResume cb' (runner.map f) = (suitRunnerResume cb runner).map f := by
  obtain ⟨sequence, components, dependencies, pc, stack, hasError,
    ⟨bindings, suspended, onResume, user, calls⟩⟩ := runner
  cases hasError with
  | true => rfl
  | false =>
    cases suspended with
    | false => rfl
    | true =>
      cases onResume with
      | none => rfl
      | some r =>
        simp only [suitRunnerResume, Runner.map, Effects.map, maps.onResume]
        cases cb.onResume r with
        | none => rfl
        | some r' => rfl

theorem suitRunnerInit_map (wild : Digest → Range) (context : SuitContext)
    (sequence : CommandSequence) (user : U) :
    suitRunnerInit (R := R) wild context sequence (f user) =
      (suitRunnerInit wild context sequence user).map (Runner.map f) := by
  unfold suitRunnerInit
  split
  · rfl
  · unfold callCommandSequence
    dsimp only
    split
    · rfl
    · rfl

section Invariants
variable {holds : U → Prop}

/-- Callbacks that keep a property of the memory behind `user`. -/
structure KeepsUser (holds : U → Prop) (cb : Callbacks U R) : Prop where
  store : ∀ user object body, holds user → holds (cb.store user object body).user
  fetchAndStore : ∀ user object uri, holds user → holds (cb.fetchAndStore user object uri).user

/-- The same callbacks on memory that has the property. -/
def KeepsUser.restrict (keeps : KeepsUser holds cb) : Callbacks { user // holds user } R where
  store user object body :=
    ⟨(cb.store user object body).ok,
      ⟨_, keeps.store user object body user.property⟩, (cb.store user object body).suspend⟩
  fetchAndStore user object uri :=
    ⟨(cb.fetchAndStore user object uri).ok,
      ⟨_, keeps.fetchAndStore user object uri user.property⟩,
      (cb.fetchAndStore user object uri).suspend⟩
  onResume := cb.onResume

theorem KeepsUser.restrict_maps (keeps : KeepsUser holds cb) :
    MapsTo Subtype.val keeps.restrict cb where
  store _ _ _ := rfl
  fetchAndStore _ _ _ := rfl
  onResume _ := rfl

def Runner.restrict (runner : Runner U R) (initial : holds runner.effects.user) :
    Runner { user // holds user } R :=
  ⟨runner.sequence, runner.selectedComponents, runner.selectedDependencies,
    runner.programCounter, runner.stack, runner.hasError,
    ⟨runner.effects.bindings, runner.effects.suspended, runner.effects.onResume,
      ⟨runner.effects.user, initial⟩, runner.effects.calls⟩⟩

/-- What the callbacks keep holds of whatever a run leaves behind `user`. -/
theorem suitRunnerRun_keeps (keeps : KeepsUser holds cb) {fuel : Nat} {runner last : Runner U R}
    (initial : holds runner.effects.user)
    (ran : suitRunnerRun cb frames fuel runner = some last) : holds last.effects.user := by
  have restricted := suitRunnerRun_map keeps.restrict_maps frames fuel (runner.restrict initial)
  have same : (runner.restrict initial).map Subtype.val = runner := rfl
  rw [same, ran] at restricted
  obtain ⟨inside, -, image⟩ := Option.map_eq_some_iff.mp restricted.symm
  rw [← image]
  exact inside.effects.user.property

theorem suitRunnerResume_keeps {runner : Runner U R} (initial : holds runner.effects.user) :
    holds (suitRunnerResume cb runner).effects.user := by
  unfold suitRunnerResume
  split
  · exact initial
  · split
    · split
      · exact initial
      · split
        · exact initial
        · exact initial
    · exact initial

theorem suitRunnerInit_keeps {wild : Digest → Range} {context : SuitContext}
    {sequence : CommandSequence} {user : U} {runner : Runner U R} (initial : holds user)
    (started : suitRunnerInit wild context sequence user = some runner) :
    holds runner.effects.user := by
  have restricted := suitRunnerInit_map (R := R) (f := Subtype.val) wild context sequence
    (⟨user, initial⟩ : { user // holds user })
  rw [started] at restricted
  obtain ⟨inside, -, image⟩ := Option.map_eq_some_iff.mp restricted.symm
  rw [← image]
  exact inside.effects.user.property

end Invariants

end TeepDevice.Suit
