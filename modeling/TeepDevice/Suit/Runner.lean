import TeepDevice.Suit.Envelope

/-! The suspendable SUIT command runner (suit.c). One pass of the loop of
`suit_runner_run` is `runBody`; the control part of `suit_runner_t` is kept
apart from the part its handlers and callbacks can touch. -/
namespace TeepDevice.Suit
open Tcbor

inductive CommandSequence where
  | dependencyResolution | payloadFetch | install | validate | load | run
  deriving DecidableEq, Repr

namespace Command

abbrev conditionVendorIdentifier : Nat := 1
abbrev conditionClassIdentifier : Nat := 2
abbrev conditionImageMatch : Nat := 3
abbrev directiveSetComponentIndex : Nat := 12
abbrev directiveSetDependencyIndex : Nat := 13
abbrev directiveProcessDependency : Nat := 18
abbrev directiveSetParameters : Nat := 19
abbrev directiveOverrideParameters : Nat := 20
abbrev directiveFetch : Nat := 21

end Command

def parameterUri : Nat := 21
def binderMax : Nat := 32
def stackMax : Nat := 8

/-- `suit_object_t`: which entry of the manifest's tables it points at. -/
inductive Object where
  | component (index : Nat) (component : Component)
  | dependency (index : Nat)
  deriving DecidableEq, Repr

/-- What a callback did: its return value, the memory behind `user`, and the
handle it passed to `suit_runner_suspend`, if it called it. -/
structure Reply (U R : Type) where
  ok : Bool
  user : U
  suspend : Option R

/-- `suit_callbacks_t`, with the `on_resume` functions its callbacks hand out;
resuming one of them may suspend again. -/
structure Callbacks (U R : Type) where
  store : U → Object → Range → Reply U R
  fetchAndStore : U → Object → Bytes → Reply U R
  onResume : R → Option R

/-- Addresses of the three `suit_object_t` locals a handler may be given. -/
structure Frames where
  uintTarget : Nat
  allTarget : Nat
  arrayTarget : Nat
  deriving DecidableEq, Repr

/-- `suit_binder_t`; `suit_parameter_key_t` is a 32-bit enumeration. -/
structure Binder where
  target : Nat
  key : Nat
  valueCbor : Bytes
  deriving DecidableEq, Repr

/-- A handler call, as history. -/
structure Call where
  target : Nat
  object : Object
  command : Nat
  param : Bytes
  deriving DecidableEq, Repr

/-- The fields of `suit_runner_t` that handlers write, the memory behind `user`
and the calls made so far (history only: no definition reads `calls`). -/
structure Effects (U R : Type) where
  bindings : List Binder
  suspended : Bool
  onResume : Option R
  user : U
  calls : List Call

inductive Selected where
  | all (index : Nat)
  | array (ctx : Context)
  deriving DecidableEq, Repr

/-- `next` with the union arm it selects. -/
inductive Next where
  | executeSequence (common target : Context)
  | executeCommand (command : Nat) (param : Bytes) (isComponent : Bool) (selected : Selected)
  | executeTryEntry
  | exit
  deriving DecidableEq, Repr

structure Continuation where
  manifest : Manifest
  next : Next
  deriving DecidableEq, Repr

/-- `suit_runner_t`; the saved continuations are listed last pushed first. -/
structure Runner (U R : Type) where
  sequence : CommandSequence
  selectedComponents : Range
  selectedDependencies : Range
  programCounter : Continuation
  stack : List Continuation
  hasError : Bool
  effects : Effects U R

section Stack
variable {U R : Type}

def pushProgramCounter (runner : Runner U R) : Option (Runner U R) :=
  if runner.stack.length = stackMax then none
  else some { runner with stack := runner.programCounter :: runner.stack }

def popProgramCounter (runner : Runner U R) : Option (Runner U R) :=
  match runner.stack with
  | [] => none
  | pc :: stack => some { runner with programCounter := pc, stack := stack }

def suitRunnerMarkError (runner : Runner U R) : Runner U R := { runner with hasError := true }

end Stack

/-- `empty_array`. -/
def emptyArray : Bytes := [0x80]

/-- Reading the `body` arm of the union. After a digest was written there the
pointers are the digest's own fields; what lies between them is `wild`. -/
def SeverableArm.readBody (wild : Digest → Range) : SeverableArm → Range
  | .blank => none
  | .body r => r
  | .digest d => wild d

def getCommandSequenceBody (wild : Digest → Range) (sequence : CommandSequence)
    (manifest : Manifest) : Option Range :=
  match sequence with
  | .install => some (manifest.install.arm.readBody wild)
  | _ => none

/-- The two arrays `call_command_sequence` opens, common first. -/
def openSequences (wild : Digest → Range) (sequence : CommandSequence) (manifest : Manifest) :
    Option (Context × Context) :=
  let commonSequence := manifest.common.commandSequence.getD emptyArray
  match getCommandSequenceBody wild sequence manifest with
  | none => none
  | some body =>
    match readArray (toplevel (some (body.getD emptyArray))) with
    | (none, _) => none
    | (some target, _) =>
      match readArray (toplevel (some commonSequence)) with
      | (none, _) => none
      | (some common, _) => some (common, target)

section Start
variable {U R : Type}

/-- `call_command_sequence`: false leaves the runner as it was. -/
def callCommandSequence (wild : Digest → Range) (runner : Runner U R) (manifest : Manifest) :
    Bool × Runner U R :=
  match openSequences wild runner.sequence manifest with
  | none => (false, runner)
  | some (common, target) =>
    match pushProgramCounter runner with
    | none => (false, runner)
    | some pushed =>
      (true, { pushed with programCounter := ⟨manifest, .executeSequence common target⟩ })

def cborTrue : Bytes := [0xF5]

/-- `suit_runner_init`. Without a root manifest `call_command_sequence` reads
through the null pointer, which is `none`; its return value is dropped. -/
def suitRunnerInit (wild : Digest → Range) (context : SuitContext) (sequence : CommandSequence)
    (user : U) : Option (Runner U R) :=
  match suitContextGetRootManifest context with
  | none => none
  | some manifest =>
    let runner : Runner U R :=
      { sequence := sequence
        selectedComponents := some cborTrue
        selectedDependencies := none
        programCounter := ⟨manifest, .exit⟩
        stack := []
        hasError := false
        effects := ⟨[], false, none, user, []⟩ }
    some (callCommandSequence wild runner manifest).2

end Start

section Handlers
variable {U R : Type}

/-- A handler as the runner calls it: manifest, address of the target, target,
command and parameter. -/
abbrev Handler (U R : Type) :=
  Manifest → Nat → Object → Nat → Bytes → Effects U R → Bool × Effects U R

/-- `parse_rep_policy` accepts every parameter. -/
def parseRepPolicy (_param : Bytes) : Bool := true

def conditionVendorIdentifier : Handler U R := fun _ _ _ _ param fx => (parseRepPolicy param, fx)
def conditionClassIdentifier : Handler U R := fun _ _ _ _ param fx => (parseRepPolicy param, fx)
def conditionImageMatch : Handler U R := fun _ _ _ _ param fx => (parseRepPolicy param, fx)
def directiveProcessDependency : Handler U R := fun _ _ _ _ param fx => (parseRepPolicy param, fx)

def lookupBinder (bindings : List Binder) (target key : Nat) : Option Binder :=
  bindings.find? fun binder => binder.target == target && binder.key == key

/-- Overwrite the value of the first binder that `lookup_binder` finds. -/
def rebind (bindings : List Binder) (target key : Nat) (value : Bytes) : List Binder :=
  match bindings with
  | [] => []
  | binder :: rest =>
    if binder.target == target && binder.key == key then { binder with valueCbor := value } :: rest
    else binder :: rebind rest target key value

/-- `set_parameter`. A new binder keeps only 32 bits of the key. -/
def setParameter (bindings : List Binder) (target key : Nat) (value : Bytes) (override : Bool) :
    Option (List Binder) :=
  match lookupBinder bindings target key with
  | some _ => some (if override then rebind bindings target key value else bindings)
  | none =>
    if bindings.length = binderMax then none
    else some (bindings ++ [⟨target, key % 2 ^ 32, value⟩])

def suitRunnerGetParameter (bindings : List Binder) (target key : Nat) : Option Bytes :=
  (lookupBinder bindings target key).map Binder.valueCbor

/-- One pass of the loop of `directive_set_parameters`. -/
def setParametersBody (target : Nat) (override : Bool) :
    Context × List Binder → (Context × List Binder) ⊕ (Bool × Context × List Binder)
  | (map, bindings) =>
    if isEndOfContext map then .inr (true, map, bindings)
    else
      match readUint map with
      | (none, map) => .inr (false, map, bindings)
      | (some key, map) =>
        match readSubobject map with
        | (none, map) => .inr (false, map, bindings)
        | (some value, map) =>
          match setParameter bindings target key value override with
          | none => .inr (false, map, bindings)
          | some bindings => .inl (map, bindings)

theorem setParametersBody_decreasing (target : Nat) (override : Bool) :
    Loop.Decreasing (setParametersBody target override) (fun st => st.1.r.length) := by
  rintro ⟨map, bindings⟩ ⟨map', bindings'⟩ h
  simp only [setParametersBody] at h
  split at h
  · cases h
  · split at h
    · cases h
    · rename_i key
      split at h
      · cases h
      · rename_i value
        split at h
        · cases h
        · cases h
          exact Nat.lt_trans (readSubobject_length value) (readMatching_length key)

def directiveSetParameters : Handler U R := fun _ target _ command param fx =>
  let isOverride := command == Command.directiveOverrideParameters
  match readMap (toplevel (some param)) with
  | (none, _) => (false, fx)
  | (some map, ctx) =>
    match Loop.eval (setParametersBody target isOverride) _
        (setParametersBody_decreasing target isOverride) (map, fx.bindings) with
    | (false, _, bindings) => (false, { fx with bindings := bindings })
    | (true, map, bindings) => ((close ctx map).1, { fx with bindings := bindings })

/-- `suit_runner_suspend` as called inside a callback. -/
def applyReply (reply : Reply U R) (fx : Effects U R) : Bool × Effects U R :=
  match reply.suspend with
  | none => (reply.ok, { fx with user := reply.user })
  | some r =>
    (reply.ok, { fx with user := reply.user, suspended := true, onResume := some r })

def directiveFetch (cb : Callbacks U R) : Handler U R := fun manifest target object _ param fx =>
  if !parseRepPolicy param then (false, fx)
  else
    match suitRunnerGetParameter fx.bindings target parameterUri with
    | none => (false, fx)
    | some uriCbor =>
      match readTstr (toplevel (some uriCbor)) with
      | (none, _) => (false, fx)
      | (some [], _) => (false, fx)
      | (some (c :: uri), _) =>
        if c = 0x23 then
          match suitEnvelopeGetFieldByName manifest.envelopeBstr (some (c :: uri)) with
          | none => (false, fx)
          | some binary => applyReply (cb.store fx.user object binary) fx
        else applyReply (cb.fetchAndStore fx.user object (c :: uri)) fx

structure CommandHandler (U R : Type) where
  command : Nat
  allowCommon : Bool
  handler : Handler U R

def commandHandlers (cb : Callbacks U R) : List (CommandHandler U R) :=
  [⟨Command.conditionVendorIdentifier, true, conditionVendorIdentifier⟩,
   ⟨Command.conditionClassIdentifier, true, conditionClassIdentifier⟩,
   ⟨Command.conditionImageMatch, true, conditionImageMatch⟩,
   ⟨Command.directiveSetParameters, true, directiveSetParameters⟩,
   ⟨Command.directiveOverrideParameters, true, directiveSetParameters⟩,
   ⟨Command.directiveProcessDependency, false, directiveProcessDependency⟩,
   ⟨Command.directiveFetch, false, directiveFetch cb⟩]

def findHandler (cb : Callbacks U R) (command : Nat) (isCommon : Bool) : Option (Handler U R) :=
  match (commandHandlers cb).find? fun h => h.command == command with
  | none => none
  | some h => if isCommon && !h.allowCommon then none else some h.handler

def getObject (manifest : Manifest) (index : Nat) (isComponent : Bool) : Option Object :=
  if isComponent then (manifest.common.components[index]?).map (Object.component index)
  else if index < manifest.common.nDependencies then some (.dependency index)
  else none

/-- `h->handler(runner, &target, command, param)`, recorded in the history. -/
def callHandler (handler : Handler U R) (manifest : Manifest) (target : Nat) (object : Object)
    (command : Nat) (param : Bytes) (fx : Effects U R) : Bool × Effects U R :=
  handler manifest target object command param
    { fx with calls := fx.calls ++ [⟨target, object, command, param⟩] }

end Handlers

section Steps
variable {U R : Type} (cb : Callbacks U R) (frames : Frames)

/-- The next (command, parameter) pair of a sequence. -/
def readCommand (ctx : Context) : Option (Nat × Bytes) × Context :=
  match readUint ctx with
  | (none, ctx) => (none, ctx)
  | (some command, ctx) =>
    match readSubobject ctx with
    | (none, ctx) => (none, ctx)
    | (some param, ctx) => (some (command, param), ctx)

/-- The forms of a selection, in the order `run_sequence_step` tries them. -/
inductive Selection where
  | bool (flag : Bool)
  | uint (index : Nat)
  | array (ctx : Context)
  | unreadable

def readSelection (selected : Bytes) : Selection :=
  match readBool (toplevel (some selected)) with
  | (some flag, _) => .bool flag
  | (none, ctx) =>
    match readUint ctx with
    | (some index, _) => .uint index
    | (none, ctx) =>
      match readArray ctx with
      | (some array, _) => .array array
      | (none, _) => .unreadable

/-- `run_sequence_step` after a pair was read and its cursor stored. The pushed
continuation starts with the handlers of one command on several objects. -/
def dispatchCommand (runner : Runner U R) (isCommon : Bool) (command : Nat) (param : Bytes) :
    Runner U R :=
  let manifest := runner.programCounter.manifest
  if command = Command.directiveSetComponentIndex then
    { runner with selectedComponents := some param, selectedDependencies := none }
  else if command = Command.directiveSetDependencyIndex then
    { runner with selectedComponents := none, selectedDependencies := some param }
  else
    match findHandler cb command isCommon with
    | none => suitRunnerMarkError runner
    | some handler =>
      if runner.selectedComponents.isSome = runner.selectedDependencies.isSome then
        suitRunnerMarkError runner
      else
        let isComponent := runner.selectedComponents.isSome
        let selected :=
          if isComponent then runner.selectedComponents else runner.selectedDependencies
        let push (form : Selected) : Runner U R :=
          match pushProgramCounter runner with
          | none => suitRunnerMarkError runner
          | some pushed =>
            { pushed with
              programCounter := ⟨manifest, .executeCommand command param isComponent form⟩ }
        match readSelection (selected.getD []) with
        | .bool true => push (.all 0)
        | .bool false => runner
        | .uint index =>
          match getObject manifest index isComponent with
          | none => suitRunnerMarkError runner
          | some object =>
            match callHandler handler manifest frames.uintTarget object command param
                runner.effects with
            | (true, fx) => { runner with effects := fx }
            | (false, fx) => suitRunnerMarkError { runner with effects := fx }
        | .array array => push (.array array)
        | .unreadable => suitRunnerMarkError runner

def setNext (runner : Runner U R) (next : Next) : Runner U R :=
  { runner with programCounter := { runner.programCounter with next := next } }

/-- `run_sequence_step`; the Boolean is `*pop_pc`. -/
def runSequenceStep (runner : Runner U R) (common target : Context) : Runner U R × Bool :=
  if !isEndOfContext common then
    match readCommand common with
    | (none, common) =>
      (suitRunnerMarkError (setNext runner (.executeSequence common target)), false)
    | (some (command, param), common) =>
      (dispatchCommand cb frames (setNext runner (.executeSequence common target)) true
        command param, false)
  else if !isEndOfContext target then
    match readCommand target with
    | (none, target) =>
      (suitRunnerMarkError (setNext runner (.executeSequence common target)), false)
    | (some (command, param), target) =>
      (dispatchCommand cb frames (setNext runner (.executeSequence common target)) false
        command param, false)
  else (runner, true)

/-- A handler that `find_handler` did not return is called through the null
pointer; no reachable state does that, and the model marks an error there. -/
def callFound (runner : Runner U R) (target : Nat) (object : Object) (command : Nat)
    (param : Bytes) : Bool × Runner U R :=
  match findHandler cb command false with
  | none => (false, runner)
  | some handler =>
    match callHandler handler runner.programCounter.manifest target object command param
        runner.effects with
    | (ok, fx) => (ok, { runner with effects := fx })

/-- `run_command_step`; the array cursor moves before the handler runs, the
index of `selected_all` after it. -/
def runCommandStep (runner : Runner U R) (command : Nat) (param : Bytes) (isComponent : Bool) :
    Selected → Runner U R × Bool
  | .all index =>
    match getObject runner.programCounter.manifest index isComponent with
    | none => (runner, true)
    | some object =>
      match callFound cb runner frames.allTarget object command param with
      | (false, runner) => (suitRunnerMarkError runner, false)
      | (true, runner) =>
        (setNext runner (.executeCommand command param isComponent (.all (index + 1))), false)
  | .array array =>
    if isEndOfContext array then (runner, true)
    else
      match readUint array with
      | (none, array) =>
        (suitRunnerMarkError
          (setNext runner (.executeCommand command param isComponent (.array array))), false)
      | (some index, array) =>
        let runner := setNext runner (.executeCommand command param isComponent (.array array))
        match getObject runner.programCounter.manifest index isComponent with
        | none => (suitRunnerMarkError runner, false)
        | some object =>
          match callFound cb runner frames.arrayTarget object command param with
          | (false, runner) => (suitRunnerMarkError runner, false)
          | (true, runner) => (runner, false)

/-- What the loop of `suit_runner_run` does after a step. -/
def afterStep (runner : Runner U R) (popPc : Bool) : Runner U R ⊕ Runner U R :=
  if runner.hasError then .inr runner
  else if popPc then
    match popProgramCounter runner with
    | none => .inr (suitRunnerMarkError runner)
    | some popped => .inl popped
  else .inl runner

def runBody (runner : Runner U R) : Runner U R ⊕ Runner U R :=
  if runner.effects.suspended then .inr runner
  else
    match runner.programCounter.next with
    | .exit => .inr runner
    | .executeSequence common target =>
      let step := runSequenceStep cb frames runner common target
      afterStep step.1 step.2
    | .executeTryEntry => afterStep runner false
    | .executeCommand command param isComponent selected =>
      let step := runCommandStep cb frames runner command param isComponent selected
      afterStep step.1 step.2

/-- `suit_runner_run`, `none` when the loop has not left after `fuel` passes. -/
def suitRunnerRun (fuel : Nat) (runner : Runner U R) : Option (Runner U R) :=
  if runner.hasError then some runner else Loop.iter (runBody cb frames) fuel runner

theorem suitRunnerRun_mono {n m : Nat} (le : n ≤ m) {before after : Runner U R}
    (ran : suitRunnerRun cb frames n before = some after) :
    suitRunnerRun cb frames m before = some after := by
  unfold suitRunnerRun at ran ⊢
  split at ran
  · rename_i failed
    rw [if_pos failed]
    exact ran
  · rename_i fine
    rw [if_neg fine]
    exact Loop.iter_mono ran le

end Steps

section Control
variable {U R : Type} (cb : Callbacks U R)

def suitRunnerFinished (runner : Runner U R) : Bool :=
  !runner.hasError && !runner.effects.suspended

def suitRunnerHasError (runner : Runner U R) : Bool := runner.hasError

def suitRunnerSuspended (runner : Runner U R) : Bool :=
  !runner.hasError && runner.effects.suspended

/-- `suit_runner_resume`; the resumed function may suspend again. -/
def suitRunnerResume (runner : Runner U R) : Runner U R :=
  if runner.hasError then runner
  else if runner.effects.suspended then
    match runner.effects.onResume with
    | none =>
      { runner with effects := { runner.effects with suspended := false, onResume := none } }
    | some r =>
      match cb.onResume r with
      | none =>
        { runner with effects := { runner.effects with suspended := false, onResume := none } }
      | some r' =>
        { runner with effects := { runner.effects with suspended := true, onResume := some r' } }
  else runner

end Control

end TeepDevice.Suit
