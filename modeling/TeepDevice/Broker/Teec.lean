import TeepDevice.Agent.EntryPoint

/-! The TEE client interface under the broker: operations of the caller, what a
call is to bring to the TA and back, and what it means for an implementation to
be exact. -/
namespace TeepDevice.Broker
open Tcbor Suit Teep Agent

/-- `TEEC_Operation`; a `TEEC_Parameter` has the two arms of `TEE_Param`. -/
structure Operation where
  paramTypes : Nat
  params : TeeParams

/-- What the C code of a call leaves undefined: a fault of the TA, a copy to
memory that was not allocated, past the end of an array or through a null
pointer. -/
inductive Trap where
  | ta (fault : Fault)
  | nullCopy | overRead | overflow | noOperation
  deriving DecidableEq, Repr

/-- `TEEC_InvokeCommand`, as a function of the TA. -/
abbrev Transport : Type := Ta → Nat → Operation → Except Trap (Ta × Nat × Operation)

/-- A loop over the four parameters that fails at the first that fails. -/
def forParams (f : Fin 4 → Except Trap TeeParam) : Except Trap TeeParams :=
  match f 0, f 1, f 2, f 3 with
  | .ok p0, .ok p1, .ok p2, .ok p3 => .ok fun
    | 0 => p0
    | 1 => p1
    | 2 => p2
    | 3 => p3
  | .error trap, _, _, _ => .error trap
  | .ok _, .error trap, _, _ => .error trap
  | .ok _, .ok _, .error trap, _ => .error trap
  | .ok _, .ok _, .ok _, .error trap => .error trap

theorem forParams_ok {f : Fin 4 → Except Trap TeeParam} {params : TeeParams}
    (each : ∀ i, f i = .ok (params i)) : forParams f = .ok params := by
  simp only [forParams, each]
  congr 1
  exact params_ext rfl rfl rfl rfl

/-- The parameter types of the TEE client interface that have a counterpart. -/
inductive Direction where
  | none | valueInput | valueOutput | valueInout | memrefInput | memrefOutput | memrefInout
  deriving DecidableEq, Repr

def Direction.ofType : Nat → Option Direction
  | 0 => some .none
  | 1 => some .valueInput
  | 2 => some .valueOutput
  | 3 => some .valueInout
  | 5 => some .memrefInput
  | 6 => some .memrefOutput
  | 7 => some .memrefInout
  | _ => Option.none

def Direction.number : Direction → Nat
  | .none => 0
  | .valueInput => 1
  | .valueOutput => 2
  | .valueInout => 3
  | .memrefInput => 5
  | .memrefOutput => 6
  | .memrefInout => 7

/-- What the TA is to see of a parameter. -/
def Direction.incoming : Direction → TeeParam → TeeParam
  | .none, _ => TeeParam.blank
  | .valueInput, param => ⟨param.a, param.b, [], 0⟩
  | .valueOutput, _ => TeeParam.blank
  | .valueInout, param => ⟨param.a, param.b, [], 0⟩
  | .memrefInput, param => ⟨0, 0, param.bytes, param.size⟩
  | .memrefOutput, param => ⟨0, 0, List.replicate param.size 0, param.size⟩
  | .memrefInout, param => ⟨0, 0, param.bytes, param.size⟩

/-- What the caller is to see of a parameter that the TA left as `tee`. -/
def Direction.returned : Direction → TeeParam → TeeParam → TeeParam
  | .none, param, _ => param
  | .valueInput, param, _ => param
  | .valueOutput, param, tee => { param with a := tee.a, b := tee.b }
  | .valueInout, param, tee => { param with a := tee.a, b := tee.b }
  | .memrefInput, param, _ => param
  | .memrefOutput, param, tee =>
    { param with size := tee.size, buffer := tee.bytes ++ param.buffer.drop tee.size }
  | .memrefInout, param, tee =>
    { param with size := tee.size, buffer := tee.bytes ++ param.buffer.drop tee.size }

/-- The memory of a parameter is there, and its size fits into 32 bits. -/
structure Backed (param : TeeParam) : Prop where
  inside : param.size ≤ param.buffer.length
  small : param.size < 2 ^ 32

/-- An operation whose types have counterparts and whose memory is there. -/
structure Sendable (op : Operation) (directions : Fin 4 → Direction) : Prop where
  word : op.paramTypes < 2 ^ 16
  known : ∀ i, Direction.ofType (paramTypeGet op.paramTypes i) = some (directions i)
  backed : ∀ i, Backed (op.params i)

/-- The call reaches the TA with the parameters as they are, its result comes
back, and on success so do the outputs. -/
def Exact (p : Platform) (fuel : Nat) (invoke : Transport) : Prop :=
  ∀ (ta : Ta) (cmdId : Nat) (op : Operation) (directions : Fin 4 → Direction),
    Sendable op directions →
    match taInvokeCommandEntryPoint p fuel ta cmdId op.paramTypes
        (fun i => (directions i).incoming (op.params i)) with
    | .error fault => invoke ta cmdId op = .error (.ta fault)
    | .ok (ta', result, params) =>
      ∃ returned : Operation, invoke ta cmdId op = .ok (ta', result, returned) ∧
        (result = teeSuccess → returned =
          ⟨op.paramTypes, fun i => (directions i).returned (op.params i) (params i)⟩)

section Calls
variable {p : Platform} {fuel : Nat} {invoke : Transport} {ta ta' : Ta} {cmdId result : Nat}
  {op : Operation} {directions : Fin 4 → Direction} {params : TeeParams}

theorem Exact.error (exact : Exact p fuel invoke) (sendable : Sendable op directions)
    {fault : Fault} (fails : taInvokeCommandEntryPoint p fuel ta cmdId op.paramTypes
      (fun i => (directions i).incoming (op.params i)) = .error fault) :
    invoke ta cmdId op = .error (.ta fault) := by
  have call := exact ta cmdId op directions sendable
  rw [fails] at call
  exact call

theorem Exact.ok (exact : Exact p fuel invoke) (sendable : Sendable op directions)
    (done : taInvokeCommandEntryPoint p fuel ta cmdId op.paramTypes
      (fun i => (directions i).incoming (op.params i)) = .ok (ta', result, params)) :
    ∃ returned : Operation, invoke ta cmdId op = .ok (ta', result, returned) ∧
      (result = teeSuccess → returned =
        ⟨op.paramTypes, fun i => (directions i).returned (op.params i) (params i)⟩) := by
  have call := exact ta cmdId op directions sendable
  rw [done] at call
  exact call

end Calls

/-- A word of types is put together again from its parts. -/
theorem paramTypes_paramTypeGet {types : Nat} (word : types < 2 ^ 16) :
    paramTypes (paramTypeGet types 0) (paramTypeGet types 1) (paramTypeGet types 2)
      (paramTypeGet types 3) = types := by
  rw [paramTypes_sum (paramTypeGet_lt _ _) (paramTypeGet_lt _ _) (paramTypeGet_lt _ _)]
  simp only [paramTypeGet_eq]
  change types / 1 % 16 + 16 * (types / 16 % 16) + 256 * (types / 256 % 16) +
    4096 * (types / 4096 % 16) = types
  omega

/-- The word of types for four directions. -/
def Direction.word (directions : Fin 4 → Direction) : Nat :=
  paramTypes (directions 0).number (directions 1).number (directions 2).number
    (directions 3).number

theorem Direction.number_lt (direction : Direction) : direction.number < 16 := by
  cases direction with
  | none => decide
  | valueInput => decide
  | valueOutput => decide
  | valueInout => decide
  | memrefInput => decide
  | memrefOutput => decide
  | memrefInout => decide

theorem Direction.number_ofType (direction : Direction) :
    Direction.ofType direction.number = some direction := by
  cases direction with
  | none => rfl
  | valueInput => rfl
  | valueOutput => rfl
  | valueInout => rfl
  | memrefInput => rfl
  | memrefOutput => rfl
  | memrefInout => rfl

theorem Sendable.of_word {op : Operation} {directions : Fin 4 → Direction}
    (word : op.paramTypes = Direction.word directions) (backed : ∀ i, Backed (op.params i)) :
    Sendable op directions where
  word := by
    have h0 := (directions 0).number_lt
    have h1 := (directions 1).number_lt
    have h2 := (directions 2).number_lt
    have h3 := (directions 3).number_lt
    rw [word, Direction.word, paramTypes_sum h0 h1 h2]
    omega
  known i := by
    rw [word, Direction.word,
      paramTypeGet_paramTypes (fun i => (directions i).number) (fun i => (directions i).number_lt)]
    exact Direction.number_ofType (directions i)
  backed := backed

theorem Direction.ofType_number {t : Nat} {direction : Direction}
    (known : Direction.ofType t = some direction) : t = direction.number := by
  unfold Direction.ofType at known
  split at known
  · cases known
    rfl
  · cases known
    rfl
  · cases known
    rfl
  · cases known
    rfl
  · cases known
    rfl
  · cases known
    rfl
  · cases known
    rfl
  · cases known

end TeepDevice.Broker
