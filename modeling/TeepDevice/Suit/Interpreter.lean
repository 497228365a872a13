import TeepDevice.Suit.Runner

/-! What a manifest's sequences mean, with no stack, no cursors and no
suspension: the pairs of common, then of the target sequence, each executed on
the objects selected at that time. This is the abstract side of the runner. -/
namespace TeepDevice.Suit
open Tcbor

inductive Selecting where
  | components (selected : Bytes)
  | dependencies (selected : Bytes)

def Selecting.isComponent : Selecting → Bool
  | .components _ => true
  | .dependencies _ => false

def Selecting.bytes : Selecting → Bytes
  | .components selected => selected
  | .dependencies selected => selected

variable {U R : Type} (cb : Callbacks U R) (frames : Frames) (manifest : Manifest)

/-- Suspension leaves no trace in the meaning of a sequence. -/
def settle (fx : Effects U R) : Effects U R := { fx with suspended := false, onResume := none }

def allObjects (isComponent : Bool) : List Object :=
  if isComponent then manifest.common.components.mapIdx Object.component
  else (List.range manifest.common.nDependencies).map Object.dependency

/-- An object with the address it is passed at; `none` where the next index of
a selection cannot be read or names no object. -/
abbrev Target := Option (Nat × Object)

def listedTarget (target : Nat) (isComponent : Bool) (index : Option Nat) : Target :=
  index.bind fun index => (getObject manifest index isComponent).map fun object => (target, object)

def targetsFrom (isComponent : Bool) : Selected → List Target
  | .all index =>
    ((allObjects manifest isComponent).drop index).map fun object => some (frames.allTarget, object)
  | .array ctx => (items readUint ctx).map (listedTarget manifest frames.arrayTarget isComponent)

def selectedTargets (selecting : Selecting) : List Target :=
  match readSelection selecting.bytes with
  | .bool true => targetsFrom frames manifest selecting.isComponent (.all 0)
  | .bool false => []
  | .uint index => [listedTarget manifest frames.uintTarget selecting.isComponent (some index)]
  | .array array => targetsFrom frames manifest selecting.isComponent (.array array)
  | .unreadable => [none]

/-- One command on one object. -/
def applyTo (handler : Handler U R) (command : Nat) (param : Bytes) (fx : Effects U R) :
    Target → Except (Effects U R) (Effects U R)
  | none => .error fx
  | some (target, object) =>
    match callHandler handler manifest target object command param fx with
    | (true, fx) => .ok (settle fx)
    | (false, fx) => .error (settle fx)

structure Meaning (U R : Type) where
  selecting : Selecting
  effects : Effects U R

def execCommand (isCommon : Bool) (command : Nat) (param : Bytes) (st : Meaning U R) :
    Except (Effects U R) (Meaning U R) :=
  if command = Command.directiveSetComponentIndex then
    .ok { st with selecting := .components param }
  else if command = Command.directiveSetDependencyIndex then
    .ok { st with selecting := .dependencies param }
  else
    match findHandler cb command isCommon with
    | none => .error st.effects
    | some handler => do
      let fx ← (selectedTargets frames manifest st.selecting).foldlM
        (applyTo manifest handler command param) st.effects
      return { st with effects := fx }

/-- One pair of a sequence, `none` for the first unreadable one. -/
def execPair (isCommon : Bool) (st : Meaning U R) :
    Option (Nat × Bytes) → Except (Effects U R) (Meaning U R)
  | none => .error st.effects
  | some (command, param) => execCommand cb frames manifest isCommon command param st

/-- Both sequences, from the given cursors on. -/
def execSequences (common target : Context) (st : Meaning U R) :
    Except (Effects U R) (Meaning U R) := do
  let st ← (items readCommand common).foldlM (execPair cb frames manifest true) st
  (items readCommand target).foldlM (execPair cb frames manifest false) st

/-- The interpreter: `ok` with the final effects when everything was executed,
`error` with the effects at the first failure. -/
def interpret (common target : Context) (user : U) : Except (Effects U R) (Meaning U R) :=
  execSequences cb frames manifest common target ⟨.components cborTrue, ⟨[], false, none, user, []⟩⟩

theorem readCommand_consuming : Consuming readCommand := by
  intro ctx after pair h
  unfold readCommand at h
  split at h
  · cases h
  · rename_i command
    split at h
    · cases h
    · rename_i param
      cases h
      exact Nat.lt_trans (readSubobject_length param) (readMatching_length command)

theorem readUint_consuming : Consuming readUint :=
  fun _ _ _ h => readMatching_length h

theorem allObjects_get (isComponent : Bool) (index : Nat) :
    (allObjects manifest isComponent)[index]? = getObject manifest index isComponent := by
  unfold allObjects getObject
  cases isComponent with
  | true => simp
  | false =>
    by_cases below : index < manifest.common.nDependencies
    · simp [below]
    · simp [below]

theorem targetsFrom_all (isComponent : Bool) (index : Nat) :
    targetsFrom frames manifest isComponent (.all index) =
      match getObject manifest index isComponent with
      | none => []
      | some object =>
        some (frames.allTarget, object) ::
          targetsFrom frames manifest isComponent (.all (index + 1)) := by
  rw [← allObjects_get]
  simp only [targetsFrom]
  split
  · rename_i past
    rw [List.drop_eq_nil_of_le (List.getElem?_eq_none_iff.mp past)]
    rfl
  · rename_i object here
    obtain ⟨below, value⟩ := List.getElem?_eq_some_iff.mp here
    rw [List.drop_eq_getElem_cons below, value]
    rfl

theorem targetsFrom_array (isComponent : Bool) (ctx : Context) :
    targetsFrom frames manifest isComponent (.array ctx) =
      if isEndOfContext ctx then []
      else
        match readUint ctx with
        | (none, _) => [none]
        | (some index, after) =>
          listedTarget manifest frames.arrayTarget isComponent (some index) ::
            targetsFrom frames manifest isComponent (.array after) := by
  simp only [targetsFrom]
  rw [items_unfold readUint_consuming]
  split
  · rfl
  · rcases readUint ctx with ⟨_ | index, after⟩
    · rfl
    · rfl

theorem execSequences_common {common target : Context} {st : Meaning U R}
    (more : isEndOfContext common = false) :
    execSequences cb frames manifest common target st =
      match readCommand common with
      | (none, _) => .error st.effects
      | (some (command, param), common) =>
        execCommand cb frames manifest true command param st >>=
          execSequences cb frames manifest common target := by
  simp only [execSequences]
  rw [items_unfold readCommand_consuming, more]
  rcases readCommand common with ⟨_ | ⟨command, param⟩, after⟩
  · rfl
  · simp only [Bool.false_eq_true, if_false, List.foldlM_cons, bind_assoc]
    rfl

theorem execSequences_target {common target : Context} {st : Meaning U R}
    (ended : isEndOfContext common = true) (more : isEndOfContext target = false) :
    execSequences cb frames manifest common target st =
      match readCommand target with
      | (none, _) => .error st.effects
      | (some (command, param), target) =>
        execCommand cb frames manifest false command param st >>=
          execSequences cb frames manifest common target := by
  have noCommon : items readCommand common = [] := by
    rw [items_unfold readCommand_consuming, if_pos ended]
  have resume : ∀ rest, execSequences cb frames manifest common rest = fun st =>
      (items readCommand rest).foldlM (execPair cb frames manifest false) st := by
    intro rest
    funext st
    simp only [execSequences, noCommon]
    rfl
  simp only [resume]
  rw [items_unfold readCommand_consuming, more]
  rcases readCommand target with ⟨_ | ⟨command, param⟩, after⟩
  · rfl
  · rfl

theorem execSequences_ended {common target : Context} {st : Meaning U R}
    (ended : isEndOfContext common = true) (last : isEndOfContext target = true) :
    execSequences cb frames manifest common target st = .ok st := by
  unfold execSequences
  rw [items_unfold readCommand_consuming, items_unfold readCommand_consuming, if_pos ended,
    if_pos last]
  rfl

end TeepDevice.Suit
