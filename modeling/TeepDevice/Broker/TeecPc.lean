import TeepDevice.Broker.Teec

/-! The TEE client interface of the PC build (teec-pc.c): the TA is linked into
the broker, and parameters are copied to the heap and back. -/
namespace TeepDevice.Broker.Pc
open Tcbor Suit Teep Agent

/-- The first switch of `prepare_params`. -/
def teeType (t : Nat) : Nat :=
  match Direction.ofType t with
  | some direction => direction.number
  | none => typeNone

section Calls
variable (heap : Nat → Bool)

/-- `malloc` fails, and its result is written to all the same. -/
def lacks (size : Nat) : Bool := !heap size && size != 0

def prepareParam (type : Nat) (param : TeeParam) : Except Trap TeeParam :=
  if type = typeValueInput ∨ type = typeValueInout then .ok ⟨param.a, param.b, [], 0⟩
  else if type = typeMemrefInput ∨ type = typeMemrefInout then
    if lacks heap param.size then .error .nullCopy
    else if param.buffer.length < param.size then .error .overRead
    else .ok ⟨0, 0, param.bytes, param.size % 2 ^ 32⟩
  else if type = typeMemrefOutput then
    if lacks heap (param.size % 2 ^ 32) then .error .nullCopy
    else .ok ⟨0, 0, List.replicate (param.size % 2 ^ 32) 0, param.size % 2 ^ 32⟩
  else .ok .blank

def prepareTypes (op : Operation) : Nat :=
  paramTypes (teeType (paramTypeGet op.paramTypes 0)) (teeType (paramTypeGet op.paramTypes 1))
    (teeType (paramTypeGet op.paramTypes 2)) (teeType (paramTypeGet op.paramTypes 3))

def prepareParams (op : Operation) : Except Trap TeeParams :=
  forParams fun i => prepareParam heap (paramTypeGet (prepareTypes op) i) (op.params i)

def writebackParam (type : Nat) (param tee : TeeParam) : Except Trap TeeParam :=
  if type = typeValueOutput ∨ type = typeValueInout then .ok { param with a := tee.a, b := tee.b }
  else if type = typeMemrefOutput ∨ type = typeMemrefInout then
    if tee.buffer.length < tee.size then .error .overRead
    else if param.buffer.length < tee.size then .error .overflow
    else .ok { param with size := tee.size, buffer := tee.bytes ++ param.buffer.drop tee.size }
  else .ok param

def writebackParams (op : Operation) (types : Nat) (params : TeeParams) :
    Except Trap TeeParams :=
  forParams fun i => writebackParam (paramTypeGet types i) (op.params i) (params i)

/-- Outputs come back only with `TEE_SUCCESS`. -/
def teecInvokeCommand (p : Platform) (fuel : Nat) : Transport := fun ta cmdId op =>
  match prepareParams heap op with
  | .error trap => .error trap
  | .ok params =>
    match taInvokeCommandEntryPoint p fuel ta cmdId (prepareTypes op) params with
    | .error fault => .error (.ta fault)
    | .ok (ta, result, params) =>
      if result = teeSuccess then
        match writebackParams op (prepareTypes op) params with
        | .error trap => .error trap
        | .ok params => .ok (ta, result, ⟨op.paramTypes, params⟩)
      else .ok (ta, result, op)

end Calls

section Exactness
variable {heap : Nat → Bool} {op : Operation} {directions : Fin 4 → Direction}

theorem prepareTypes_eq (sendable : Sendable op directions) : prepareTypes op = op.paramTypes := by
  have each (i : Fin 4) : teeType (paramTypeGet op.paramTypes i) = paramTypeGet op.paramTypes i := by
    rw [teeType, sendable.known i]
    exact (Direction.ofType_number (sendable.known i)).symm
  rw [prepareTypes, each 0, each 1, each 2, each 3]
  exact paramTypes_paramTypeGet sendable.word

theorem prepareParam_incoming (allocates : ∀ size < 2 ^ 32, heap size = true)
    (direction : Direction) {param : TeeParam} (backed : Backed param) :
    prepareParam heap direction.number param = .ok (direction.incoming param) := by
  have kept : param.size % 2 ^ 32 = param.size := Nat.mod_eq_of_lt backed.small
  have there : ¬ param.buffer.length < param.size := Nat.not_lt.mpr backed.inside
  have allocated : ¬ lacks heap param.size = true := by
    rw [lacks, allocates param.size backed.small]
    exact Bool.false_ne_true
  have memref : (if lacks heap param.size then .error .nullCopy
      else if param.buffer.length < param.size then .error .overRead
      else .ok ⟨0, 0, param.bytes, param.size % 2 ^ 32⟩ : Except Trap TeeParam) =
      .ok ⟨0, 0, param.bytes, param.size⟩ := by
    rw [if_neg allocated, if_neg there, kept]
  cases direction with
  | none => rfl
  | valueInput => rfl
  | valueOutput => rfl
  | valueInout => rfl
  | memrefInput => exact memref
  | memrefOutput =>
    change (if lacks heap (param.size % 2 ^ 32) then .error .nullCopy
      else .ok ⟨0, 0, List.replicate (param.size % 2 ^ 32) 0, param.size % 2 ^ 32⟩ :
      Except Trap TeeParam) = _
    rw [kept, if_neg allocated]
    rfl
  | memrefInout => exact memref

/-- What the TA leaves of an incoming parameter fits into the caller's memory. -/
theorem writebackParam_returned (direction : Direction) {param tee : TeeParam}
    (backed : Backed param) (smaller : tee.size ≤ (direction.incoming param).size)
    (same : (direction.incoming param).size ≤ (direction.incoming param).buffer.length →
      tee.buffer.length = (direction.incoming param).buffer.length) :
    writebackParam direction.number param tee = .ok (direction.returned param tee) := by
  have memref (size : (direction.incoming param).size = param.size)
      (length : (direction.incoming param).buffer.length = param.size) :
      ¬ tee.buffer.length < tee.size ∧ ¬ param.buffer.length < tee.size := by
    have whole := same (by rw [size, length])
    have inside := backed.inside
    omega
  cases direction with
  | none => rfl
  | valueInput => rfl
  | valueOutput => rfl
  | valueInout => rfl
  | memrefInput => rfl
  | memrefOutput =>
    obtain ⟨read, written⟩ := memref rfl List.length_replicate
    exact (if_neg read).trans (if_neg written)
  | memrefInout =>
    obtain ⟨read, written⟩ := memref rfl (List.length_take_of_le backed.inside)
    exact (if_neg read).trans (if_neg written)

theorem teecInvokeCommand_exact (p : Platform) (fuel : Nat)
    (allocates : ∀ size < 2 ^ 32, heap size = true) :
    Exact p fuel (teecInvokeCommand heap p fuel) := by
  intro ta cmdId op directions sendable
  have types := prepareTypes_eq sendable
  have number (i : Fin 4) : paramTypeGet op.paramTypes i = (directions i).number :=
    Direction.ofType_number (sendable.known i)
  have prepared : prepareParams heap op = .ok fun i => (directions i).incoming (op.params i) := by
    apply forParams_ok
    intro i
    rw [types, number i]
    exact prepareParam_incoming allocates (directions i) (sendable.backed i)
  cases done : taInvokeCommandEntryPoint p fuel ta cmdId op.paramTypes
      (fun i => (directions i).incoming (op.params i)) with
  | error fault => simp only [teecInvokeCommand, prepared, types, done]
  | ok outcome =>
    obtain ⟨ta', result, params⟩ := outcome
    have within := entryPoint_within done
    have written : writebackParams op op.paramTypes params =
        .ok fun i => (directions i).returned (op.params i) (params i) := by
      apply forParams_ok
      intro i
      rw [number i]
      exact writebackParam_returned (directions i) (sendable.backed i) (within i).1 (within i).2
    simp only [teecInvokeCommand, prepared, types, done, written]
    by_cases success : result = teeSuccess
    · rw [if_pos success]
      exact ⟨_, rfl, fun _ => rfl⟩
    · rw [if_neg success]
      exact ⟨_, rfl, fun same => absurd same success⟩

end Exactness

end TeepDevice.Broker.Pc
