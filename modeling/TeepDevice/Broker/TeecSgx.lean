import TeepDevice.Broker.TeecPc

/-! The TEE client interface of the SGX build (teec-sgx.cpp) with the ecall of
teep-agent-ta.c behind it: the enclave copies parameters in and out through
pointers to the caller's operation. -/
namespace TeepDevice.Broker.Sgx
open Tcbor Suit Teep Agent

section Calls
variable (heap : Nat → Bool)

/-- Copying in, in the enclave; its sizes have 32 bits. -/
def enterParam (type : Nat) (param : TeeParam) : Except Trap TeeParam :=
  if type = typeValueInput ∨ type = typeValueInout then .ok ⟨param.a, param.b, [], 0⟩
  else if type = typeMemrefInput ∨ type = typeMemrefInout then
    if Pc.lacks heap (param.size % 2 ^ 32) then .error .nullCopy
    else if param.buffer.length < param.size % 2 ^ 32 then .error .overRead
    else .ok ⟨0, 0, param.buffer.take (param.size % 2 ^ 32), param.size % 2 ^ 32⟩
  else if type = typeMemrefOutput then
    if Pc.lacks heap (param.size % 2 ^ 32) then .error .nullCopy
    else .ok ⟨0, 0, List.replicate (param.size % 2 ^ 32) 0, param.size % 2 ^ 32⟩
  else .ok .blank

/-- `memcpy_s` to a memory of a size: what does not fit zeroes it. -/
def memcpyS (dst : Bytes) (size : Nat) (src : Bytes) : Bytes :=
  if size < src.length then List.replicate size 0 ++ dst.drop size
  else src ++ dst.drop src.length

/-- Copying out, whatever the result of the TA is. -/
def leaveParam (type : Nat) (param tee : TeeParam) : Except Trap TeeParam :=
  if type = typeValueOutput ∨ type = typeValueInout then .ok { param with a := tee.a, b := tee.b }
  else if type = typeMemrefOutput ∨ type = typeMemrefInout then
    if tee.buffer.length < tee.size then .error .overRead
    else if param.buffer.length < param.size then .error .overflow
    else .ok { param with size := tee.size, buffer := memcpyS param.buffer param.size tee.bytes }
  else .ok param

/-- `ecall_TA_InvokeCommandEntryPoint`; the pointers of an operation of the host
are outside of the enclave. -/
def ecallInvokeCommand (p : Platform) (fuel : Nat) (ta : Ta) (cmdId types : Nat)
    (params : TeeParams) : Except Trap (Ta × Nat × TeeParams) :=
  if ∃ i, Direction.ofType (paramTypeGet types i) = none then
    .ok (ta, teeErrorBadParameters, params)
  else
    match forParams fun i => enterParam heap (paramTypeGet types i) (params i) with
    | .error trap => .error trap
    | .ok inside =>
      match taInvokeCommandEntryPoint p fuel ta cmdId types inside with
      | .error fault => .error (.ta fault)
      | .ok (ta, result, inside) =>
        match forParams fun i => leaveParam (paramTypeGet types i) (params i) (inside i) with
        | .error trap => .error trap
        | .ok params => .ok (ta, result, params)

/-- An ecall that does not get into the enclave leaves the result as it was set
before, which is success; its status is not looked at. -/
def teecInvokeCommand (enters : Ta → Nat → Operation → Bool) (p : Platform) (fuel : Nat) :
    Transport := fun ta cmdId op =>
  if enters ta cmdId op then
    match ecallInvokeCommand heap p fuel ta cmdId (Pc.prepareTypes op) op.params with
    | .error trap => .error trap
    | .ok (ta, result, params) => .ok (ta, result, ⟨op.paramTypes, params⟩)
  else .ok (ta, teeSuccess, op)

end Calls

section Exactness
variable {heap : Nat → Bool} {op : Operation} {directions : Fin 4 → Direction}

theorem enterParam_incoming (allocates : ∀ size < 2 ^ 32, heap size = true)
    (direction : Direction) {param : TeeParam} (backed : Backed param) :
    enterParam heap direction.number param = .ok (direction.incoming param) := by
  have kept : param.size % 2 ^ 32 = param.size := Nat.mod_eq_of_lt backed.small
  have there : ¬ param.buffer.length < param.size := Nat.not_lt.mpr backed.inside
  have allocated : ¬ Pc.lacks heap param.size = true := by
    rw [Pc.lacks, allocates param.size backed.small]
    exact Bool.false_ne_true
  unfold enterParam
  rw [kept, if_neg allocated, if_neg there, if_neg allocated]
  cases direction with
  | none => rfl
  | valueInput => rfl
  | valueOutput => rfl
  | valueInout => rfl
  | memrefInput => rfl
  | memrefOutput => rfl
  | memrefInout => rfl

theorem memcpyS_fits {dst src : Bytes} {size : Nat} (fits : src.length ≤ size) :
    memcpyS dst size src = src ++ dst.drop src.length := if_neg (Nat.not_lt.mpr fits)

theorem leaveParam_returned (direction : Direction) {param tee : TeeParam}
    (backed : Backed param) (smaller : tee.size ≤ (direction.incoming param).size)
    (same : (direction.incoming param).size ≤ (direction.incoming param).buffer.length →
      tee.buffer.length = (direction.incoming param).buffer.length) :
    leaveParam direction.number param tee = .ok (direction.returned param tee) := by
  have memref (size : (direction.incoming param).size = param.size)
      (length : (direction.incoming param).buffer.length = param.size) :
      (if tee.buffer.length < tee.size then .error .overRead
        else if param.buffer.length < param.size then .error .overflow
        else .ok { param with
          size := tee.size, buffer := memcpyS param.buffer param.size tee.bytes } :
        Except Trap TeeParam) =
      .ok { param with size := tee.size, buffer := tee.bytes ++ param.buffer.drop tee.size } := by
    have whole := same (by rw [size, length])
    have read : tee.size ≤ tee.buffer.length := by omega
    have bytes : tee.bytes.length = tee.size := List.length_take_of_le read
    have fits : tee.bytes.length ≤ param.size := by omega
    rw [if_neg (Nat.not_lt.mpr read), if_neg (Nat.not_lt.mpr backed.inside), memcpyS_fits fits,
      bytes]
  cases direction with
  | none => rfl
  | valueInput => rfl
  | valueOutput => rfl
  | valueInout => rfl
  | memrefInput => rfl
  | memrefOutput => exact memref rfl List.length_replicate
  | memrefInout => exact memref rfl (List.length_take_of_le backed.inside)

theorem teecInvokeCommand_exact {enters : Ta → Nat → Operation → Bool} (p : Platform) (fuel : Nat)
    (allocates : ∀ size < 2 ^ 32, heap size = true)
    (entered : ∀ ta cmdId op, enters ta cmdId op = true) :
    Exact p fuel (teecInvokeCommand heap enters p fuel) := by
  intro ta cmdId op directions sendable
  have types := Pc.prepareTypes_eq sendable
  have number (i : Fin 4) : paramTypeGet op.paramTypes i = (directions i).number :=
    Direction.ofType_number (sendable.known i)
  have known : ¬ ∃ i, Direction.ofType (paramTypeGet op.paramTypes i) = none := by
    rintro ⟨i, unknown⟩
    rw [sendable.known i] at unknown
    cases unknown
  have prepared : (forParams fun i => enterParam heap (paramTypeGet op.paramTypes i)
      (op.params i)) = .ok fun i => (directions i).incoming (op.params i) := by
    apply forParams_ok
    intro i
    rw [number i]
    exact enterParam_incoming allocates (directions i) (sendable.backed i)
  simp only [teecInvokeCommand, entered, if_true, ecallInvokeCommand, types, if_neg known, prepared]
  cases done : taInvokeCommandEntryPoint p fuel ta cmdId op.paramTypes
      (fun i => (directions i).incoming (op.params i)) with
  | error fault => rfl
  | ok outcome =>
    obtain ⟨ta', result, params⟩ := outcome
    have within := entryPoint_within done
    have written : (forParams fun i => leaveParam (paramTypeGet op.paramTypes i) (op.params i)
        (params i)) = .ok fun i => (directions i).returned (op.params i) (params i) := by
      apply forParams_ok
      intro i
      rw [number i]
      exact leaveParam_returned (directions i) (sendable.backed i) (within i).1 (within i).2
    simp only [written]
    exact ⟨_, rfl, fun _ => rfl⟩

end Exactness

end TeepDevice.Broker.Sgx
