import TeepDevice.Broker.Transports
import TeepDevice.Linearization

/-! The TEE client interface of the Keystone build (teec-keystone.cpp) and the loop of
the enclave application that it talks to (`eapp_entry` of teep-agent-ta.c): two
threads, a queue of one command, and parameters copied piece by piece out of and into
the caller's memory. -/
namespace TeepDevice.Broker.Keystone
open Tcbor Suit Teep Agent Rendezvous

def teepAgentTaExit : Nat := 1000

/-- An entry of `params` in `invoke_command_t`. -/
structure CommandParam where
  a : Nat
  b : Nat
  size : Nat
  deriving DecidableEq, Repr

/-- `invoke_command_t`. -/
structure InvokeCommand where
  commandID : Nat
  paramTypes : Nat
  params : Fin 4 → CommandParam

/-- `CommandQueue::current` with the operation of the caller; `linked` says whether
the pointer to it is set. -/
structure Current where
  command : InvokeCommand
  operation : Operation
  linked : Bool
  commandResult : Nat

section Queue

/-- The parameters of `put_invoke_command`. -/
def commandParam (type : Nat) (param : TeeParam) : CommandParam :=
  if type = typeValueInput ∨ type = typeValueInout then ⟨param.a, param.b, 0⟩
  else if type = typeMemrefInput ∨ type = typeMemrefOutput ∨ type = typeMemrefInout then
    ⟨0, 0, param.size % 2 ^ 32⟩
  else ⟨0, 0, 0⟩

/-- What `put_invoke_command` puts. Without an operation its memory is no one's. -/
def putInvokeCommand (commandID : Nat) : Option Operation → Current
  | none => ⟨⟨commandID, 0, fun _ => ⟨0, 0, 0⟩⟩, ⟨0, fun _ => .blank⟩, false, 0⟩
  | some op =>
    ⟨⟨commandID, op.paramTypes, fun i =>
      commandParam (paramTypeGet op.paramTypes i) (op.params i)⟩, op, true, 0⟩

/-- `read_invoke_param` into a buffer of the given size: the bytes that are there. -/
def readInvokeParam (chunk : Nat) (current : Current) (index : Fin 4) (offset : Nat) :
    Option Bytes :=
  if !current.linked then none
  else
    let ref := current.operation.params index
    if ref.size < offset then some []
    else
      let size := min (ref.size - offset) chunk
      if ref.buffer.length < offset + size then none
      else some ((ref.buffer.drop offset).take size)

/-- `write_invoke_param`, which writes no further than the size of the parameter. -/
def writeInvokeParam (current : Current) (index : Fin 4) (offset : Nat) (buf : Bytes) :
    Option Current :=
  if !current.linked then none
  else
    let ref := current.operation.params index
    if ref.size < offset then some current
    else
      (Memory.write ref.buffer offset (buf.take (ref.size - offset))).map fun buffer =>
        { current with operation := { current.operation with
          params := Function.update current.operation.params index
            { ref with buffer := buffer } } }

/-- The outputs of `put_invoke_command_result`. -/
def resultParam (type : Nat) (param : TeeParam) (out : CommandParam) : TeeParam :=
  if type = typeValueOutput ∨ type = typeValueInout then { param with a := out.a, b := out.b }
  else if type = typeMemrefOutput ∨ type = typeMemrefInout then { param with size := out.size }
  else param

def isOutput (type : Nat) : Bool :=
  type == typeValueOutput || type == typeValueInout || type == typeMemrefOutput ||
    type == typeMemrefInout

/-- `put_invoke_command_result`: an output without an operation has nowhere to go. -/
def putInvokeCommandResult (current : Current) (cmd : InvokeCommand) (result : Nat) :
    Option Current :=
  if !current.linked && (List.finRange 4).any fun i => isOutput (paramTypeGet cmd.paramTypes i) then
    none
  else
    some { current with
      operation := { current.operation with
        params := fun i => resultParam (paramTypeGet cmd.paramTypes i)
          (current.operation.params i) (cmd.params i) }
      linked := false
      commandResult := result }

end Queue

/-- Where the loop of `eapp_entry` is: reading the parameters of a command, writing
them back with its result, or about to exit. -/
inductive Eapp where
  | reading (ta : Ta) (c : InvokeCommand) (i offset : Nat) (params : TeeParams)
  | writing (ta : Ta) (c : InvokeCommand) (i offset : Nat) (params : TeeParams) (result : Nat)
  | exiting (c : InvokeCommand)

section Eapp
variable (chunk : Nat) (heap : Nat → Bool)

/-- `ocall_pull_invoke_command` and the look at the command. -/
def pulled (ta : Ta) (current : Current) : Eapp :=
  if current.command.commandID = teepAgentTaExit then .exiting current.command
  else .reading ta current.command 0 0 fun _ => .blank

/-- A pass of the first loop over the parameters. -/
def readPass (current : Current) (ta : Ta) (c : InvokeCommand) (j : Fin 4) (offset : Nat)
    (params : TeeParams) : Option Eapp :=
  let type := paramTypeGet c.paramTypes j
  let param := c.params j
  if type = typeValueInput ∨ type = typeValueInout then
    some (.reading ta c (j + 1) 0 (Function.update params j ⟨param.a, param.b, [], 0⟩))
  else if type = typeMemrefInput ∨ type = typeMemrefInout then
    let filled : TeeParam := if offset = 0 then ⟨0, 0, [], param.size⟩ else params j
    if offset = 0 ∧ Pc.lacks heap param.size then none
    else if offset < param.size then
      match readInvokeParam chunk current j offset with
      | none => none
      | some buf =>
        if param.size < offset + buf.length then none
        else some (.reading ta c j (offset + buf.length)
          (Function.update params j { filled with buffer := filled.buffer ++ buf }))
    else some (.reading ta c (j + 1) 0 (Function.update params j filled))
  else if type = typeMemrefOutput then
    if Pc.lacks heap param.size then none
    else some (.reading ta c (j + 1) 0
      (Function.update params j ⟨0, 0, List.replicate param.size 0, param.size⟩))
  else some (.reading ta c (j + 1) 0 (Function.update params j .blank))

/-- A pass of the second loop: at most 256 bytes are written at a time. -/
def writePass (current : Current) (ta : Ta) (c : InvokeCommand) (j : Fin 4) (offset : Nat)
    (params : TeeParams) (result : Nat) : Option (Eapp × Current) :=
  let type := paramTypeGet c.paramTypes j
  let out (param : CommandParam) : InvokeCommand :=
    { c with params := Function.update c.params j param }
  let param := params j
  if type = typeValueOutput ∨ type = typeValueInout then
    some (.writing ta (out ⟨param.a, param.b, (c.params j).size⟩) (j + 1) 0 params result, current)
  else if type = typeMemrefOutput ∨ type = typeMemrefInout then
    let c := out ⟨0, 0, param.size⟩
    if offset < param.size then
      let n := min (param.size - offset) 256
      if param.buffer.length < offset + n then none
      else
        (writeInvokeParam current j offset ((param.buffer.drop offset).take n)).map fun current =>
          (.writing ta c j (offset + n) params result, current)
    else some (.writing ta c (j + 1) 0 params result, current)
  else some (.writing ta (out ⟨0, 0, (c.params j).size⟩) (j + 1) 0 params result, current)

/-- The enclave application between two of its accesses to the queue. -/
def eappWork (p : Platform) (fuel : Nat) :
    Eapp → Current → Option ((Eapp × Current) ⊕ (Option Ta × Current))
  | .exiting c, current =>
    (putInvokeCommandResult current c 0).map fun current => .inr (none, current)
  | .reading ta c i offset params, current =>
    if h : i < 4 then
      (readPass chunk heap current ta c ⟨i, h⟩ offset params).map fun eapp => .inl (eapp, current)
    else
      match taInvokeCommandEntryPoint p fuel ta c.commandID c.paramTypes params with
      | .error _ => none
      | .ok (ta, result, params) => some (.inl (.writing ta c 0 0 params result, current))
  | .writing ta c i offset params result, current =>
    if h : i < 4 then (writePass current ta c ⟨i, h⟩ offset params result).map .inl
    else (putInvokeCommandResult current c result).map fun current => .inr (some ta, current)

def server (p : Platform) (fuel : Nat) : Server Ta Eapp Current where
  start := pulled
  work := eappWork chunk heap p fuel

/-- `broker_main` on Keystone: each call of the broker is `TEEC_InvokeCommand`, also
the one that `TEEC_CloseSession` makes. -/
def caller (w : World) : Caller Host Current (Int × List Exchange) where
  next host :=
    match host.next w with
    | .inl (.invoke commandId op) => .inl (putInvokeCommand commandId (some op))
    | .inl .close => .inl (putInvokeCommand teepAgentTaExit none)
    | .inr result => .inr (result, host.trace)
  take host current := host.took w current.commandResult current.operation

end Eapp

section Reading
variable {chunk : Nat} {heap : Nat → Bool} {p : Platform} {fuel : Nat} {ta : Ta}
  {c : InvokeCommand} {current : Current} {params : TeeParams} {j : Fin 4}

theorem reading_pass (p : Platform) (fuel : Nat) {i offset : Nat} {eapp : Eapp} (h : i < 4)
    (pass : readPass chunk heap current ta c ⟨i, h⟩ offset params = some eapp) :
    (server chunk heap p fuel).work (.reading ta c i offset params) current =
      some (.inl (eapp, current)) := by
  simp only [server, eappWork, dif_pos h, pass, Option.map_some]

theorem readInvokeParam_piece {offset : Nat} (linked : current.linked = true)
    (backed : Backed (current.operation.params j))
    (inside : offset ≤ (current.operation.params j).size) :
    readInvokeParam chunk current j offset =
      some (((current.operation.params j).buffer.drop offset).take
        (min ((current.operation.params j).size - offset) chunk)) := by
  have room := backed.inside
  have there : ¬ (current.operation.params j).buffer.length <
      offset + min ((current.operation.params j).size - offset) chunk := by omega
  simp only [readInvokeParam, linked, Bool.not_true, Bool.false_eq_true, if_false,
    if_neg (Nat.not_lt.mpr inside), if_neg there]

/-- A pass over an input in memory, with what is there of it so far. -/
theorem readPass_memref (chunk : Nat) (ta : Ta) (allocates : ∀ size < 2 ^ 32, heap size = true)
    (type : paramTypeGet c.paramTypes j = typeMemrefInput ∨
      paramTypeGet c.paramTypes j = typeMemrefInout)
    (linked : current.linked = true) (backed : Backed (current.operation.params j))
    (size : (c.params j).size = (current.operation.params j).size) {offset : Nat}
    (inside : offset ≤ (current.operation.params j).size)
    (filled : offset = 0 ∨ params j = ⟨0, 0, (current.operation.params j).buffer.take offset,
      (current.operation.params j).size⟩) :
    readPass chunk heap current ta c j offset params =
      if offset < (current.operation.params j).size then
        let n := min ((current.operation.params j).size - offset) chunk
        some (.reading ta c j (offset + n) (Function.update params j ⟨0, 0,
          (current.operation.params j).buffer.take (offset + n),
          (current.operation.params j).size⟩))
      else
        some (.reading ta c (j + 1) 0 (Function.update params j ⟨0, 0,
          (current.operation.params j).buffer.take offset,
          (current.operation.params j).size⟩)) := by
  have notValue : ¬ (paramTypeGet c.paramTypes j = typeValueInput ∨
      paramTypeGet c.paramTypes j = typeValueInout) := by
    rcases type with type | type
    · rw [type]
      decide
    · rw [type]
      decide
  have allocated : ¬ (offset = 0 ∧ Pc.lacks heap (current.operation.params j).size = true) := by
    rintro ⟨-, lacks⟩
    rw [Pc.lacks, allocates _ backed.small] at lacks
    cases lacks
  have sofar : (if offset = 0 then ⟨0, 0, [], (current.operation.params j).size⟩ else params j :
      TeeParam) = ⟨0, 0, (current.operation.params j).buffer.take offset,
        (current.operation.params j).size⟩ := by
    split
    · rename_i zero
      rw [zero, List.take_zero]
    · rename_i later
      exact filled.resolve_left later
  have room := backed.inside
  unfold readPass
  simp only [if_neg notValue, if_pos type, size, sofar, if_neg allocated]
  split
  · rename_i more
    rw [readInvokeParam_piece linked backed inside]
    have length : (((current.operation.params j).buffer.drop offset).take
        (min ((current.operation.params j).size - offset) chunk)).length =
        min ((current.operation.params j).size - offset) chunk := by
      rw [List.length_take, List.length_drop]
      omega
    have fits : ¬ (current.operation.params j).size <
        offset + min ((current.operation.params j).size - offset) chunk := by omega
    simp only [length, if_neg fits, List.take_add]
  · rfl

/-- The first loop puts a parameter together from its pieces. -/
theorem read_memref (positive : 0 < chunk) (allocates : ∀ size < 2 ^ 32, heap size = true)
    (type : paramTypeGet c.paramTypes j = typeMemrefInput ∨
      paramTypeGet c.paramTypes j = typeMemrefInout)
    (linked : current.linked = true) (backed : Backed (current.operation.params j))
    (size : (c.params j).size = (current.operation.params j).size) {offset : Nat}
    (inside : offset ≤ (current.operation.params j).size)
    (filled : offset = 0 ∨ params j = ⟨0, 0, (current.operation.params j).buffer.take offset,
      (current.operation.params j).size⟩) :
    (server chunk heap p fuel).Passes (.reading ta c j offset params, current)
      (.reading ta c (j + 1) 0 (Function.update params j ⟨0, 0,
        (current.operation.params j).bytes, (current.operation.params j).size⟩), current) := by
  induction rest : (current.operation.params j).size - offset using Nat.strong_induction_on
    generalizing offset params with
  | _ rest ih =>
    have pass := readPass_memref chunk ta allocates type linked backed size inside filled
    split at pass
    · rename_i more
      refine .head (reading_pass p fuel j.isLt pass) ?_
      have next := ih _ (by omega) (by omega) (.inr (Function.update_self j ⟨0, 0,
        (current.operation.params j).buffer.take (offset +
          min ((current.operation.params j).size - offset) chunk),
        (current.operation.params j).size⟩ params)) rfl
      rw [Function.update_idem] at next
      exact next
    · rename_i whole
      have full : offset = (current.operation.params j).size := by omega
      have first := reading_pass p fuel j.isLt pass
      rw [full] at first ⊢
      exact .single first

/-- The first loop brings a parameter in as it is. -/
theorem read_param (p : Platform) (fuel : Nat) (positive : 0 < chunk)
    (allocates : ∀ size < 2 ^ 32, heap size = true) (ta : Ta) (params : TeeParams) (linked : current.linked = true)
    (backed : Backed (current.operation.params j)) (direction : Direction)
    (type : paramTypeGet c.paramTypes j = direction.number)
    (param : c.params j = commandParam direction.number (current.operation.params j)) :
    (server chunk heap p fuel).Passes (.reading ta c j 0 params, current)
      (.reading ta c (j + 1) 0 (Function.update params j
        (direction.incoming (current.operation.params j))), current) := by
  have kept : (current.operation.params j).size % 2 ^ 32 = (current.operation.params j).size :=
    Nat.mod_eq_of_lt backed.small
  have allocated : ¬ Pc.lacks heap (current.operation.params j).size = true := by
    rw [Pc.lacks, allocates _ backed.small]
    exact Bool.false_ne_true
  have single {eapp : Eapp} (pass : readPass chunk heap current ta c j 0 params = some eapp) :
      (server chunk heap p fuel).Passes (.reading ta c j 0 params, current) (eapp, current) :=
    .single (reading_pass p fuel j.isLt pass)
  have memref (size : (c.params j).size = (current.operation.params j).size)
      (inputs : paramTypeGet c.paramTypes j = typeMemrefInput ∨
        paramTypeGet c.paramTypes j = typeMemrefInout) :
      (server chunk heap p fuel).Passes (.reading ta c j 0 params, current)
        (.reading ta c (j + 1) 0 (Function.update params j ⟨0, 0,
          (current.operation.params j).bytes, (current.operation.params j).size⟩), current) :=
    read_memref positive allocates inputs linked backed size (Nat.zero_le _) (.inl rfl)
  cases direction with
  | none =>
    apply single
    unfold readPass
    rw [type]
    rfl
  | valueInput =>
    apply single
    unfold readPass
    rw [type, param]
    rfl
  | valueOutput =>
    apply single
    unfold readPass
    rw [type]
    rfl
  | valueInout =>
    apply single
    unfold readPass
    rw [type, param]
    rfl
  | memrefInput =>
    apply memref ?_ (.inl type)
    rw [param]
    exact kept
  | memrefOutput =>
    have size : c.params j = ⟨0, 0, (current.operation.params j).size⟩ := by
      rw [param]
      exact congrArg (CommandParam.mk 0 0) kept
    apply single
    unfold readPass
    rw [type, size]
    exact if_neg allocated
  | memrefInout =>
    apply memref ?_ (.inr type)
    rw [param]
    exact kept

/-- All four parameters come in. -/
theorem read_params (positive : 0 < chunk) (allocates : ∀ size < 2 ^ 32, heap size = true)
    (ta : Ta) (commandID : Nat) {op : Operation} {directions : Fin 4 → Direction}
    (sendable : Sendable op directions) :
    (server chunk heap p fuel).Passes
      (.reading ta (putInvokeCommand commandID (some op)).command 0 0 (fun _ => .blank),
        putInvokeCommand commandID (some op))
      (.reading ta (putInvokeCommand commandID (some op)).command 4 0
        (fun i => (directions i).incoming (op.params i)),
        putInvokeCommand commandID (some op)) := by
  have each (j : Fin 4) (params : TeeParams) := by
    have type : paramTypeGet op.paramTypes j = (directions j).number :=
      Direction.ofType_number (sendable.known j)
    have param : (putInvokeCommand commandID (some op)).command.params j =
        commandParam (directions j).number (op.params j) := by
      rw [← type]
      rfl
    exact @read_param chunk heap _ (putInvokeCommand commandID (some op)) j p fuel positive
      allocates ta params rfl (sendable.backed j) (directions j) type param
  refine (each 0 _).trans ((each 1 _).trans ((each 2 _).trans ?_))
  have last := each 3 (Function.update (Function.update (Function.update (fun _ => .blank) 0
    ((directions 0).incoming (op.params 0))) 1 ((directions 1).incoming (op.params 1))) 2
    ((directions 2).incoming (op.params 2)))
  have all : Function.update (Function.update (Function.update (Function.update
      (fun _ => TeeParam.blank) 0 ((directions 0).incoming (op.params 0))) 1
      ((directions 1).incoming (op.params 1))) 2 ((directions 2).incoming (op.params 2))) 3
      ((directions 3).incoming (op.params 3)) = fun i => (directions i).incoming (op.params i) := by
    exact params_ext rfl rfl rfl rfl
  rw [← all]
  exact last

end Reading

section Writing
variable {chunk : Nat} {heap : Nat → Bool} {p : Platform} {fuel : Nat} {ta : Ta}
  {c : InvokeCommand} {current : Current} {params : TeeParams} {result : Nat} {j : Fin 4}

theorem writing_pass (chunk : Nat) (heap : Nat → Bool) (p : Platform) (fuel : Nat)
    {i offset : Nat} {next : Eapp × Current} (h : i < 4)
    (pass : writePass current ta c ⟨i, h⟩ offset params result = some next) :
    (server chunk heap p fuel).work (.writing ta c i offset params result) current =
      some (.inl next) := by
  simp only [server, eappWork, dif_pos h, pass, Option.map_some]

/-- The memory of a parameter once the enclave has written its output. -/
def written : Direction → TeeParam → TeeParam → TeeParam
  | .none, param, _ => param
  | .valueInput, param, _ => param
  | .valueOutput, param, _ => param
  | .valueInout, param, _ => param
  | .memrefInput, param, _ => param
  | .memrefOutput, param, tee =>
    { param with buffer := tee.bytes ++ param.buffer.drop tee.size }
  | .memrefInout, param, tee =>
    { param with buffer := tee.bytes ++ param.buffer.drop tee.size }

/-- The entry of the command that goes back for it. -/
def commandOut : Direction → CommandParam → TeeParam → CommandParam
  | .none, param, _ => ⟨0, 0, param.size⟩
  | .valueInput, param, _ => ⟨0, 0, param.size⟩
  | .valueOutput, param, tee => ⟨tee.a, tee.b, param.size⟩
  | .valueInout, param, tee => ⟨tee.a, tee.b, param.size⟩
  | .memrefInput, param, _ => ⟨0, 0, param.size⟩
  | .memrefOutput, _, tee => ⟨0, 0, tee.size⟩
  | .memrefInout, _, tee => ⟨0, 0, tee.size⟩

/-- The caller's memory with the first bytes of an output in it. -/
def partly (current : Current) (j : Fin 4) (tee : TeeParam) (offset : Nat) : Current :=
  { current with operation := { current.operation with
    params := Function.update current.operation.params j
      { current.operation.params j with
        buffer := tee.buffer.take offset ++ (current.operation.params j).buffer.drop offset } } }

theorem partly_zero (tee : TeeParam) : partly current j tee 0 = current := by
  simp only [partly, List.take_zero, List.nil_append, List.drop_zero, Function.update_eq_self]

/-- The next piece goes behind what is there. -/
theorem writeInvokeParam_partly (linked : current.linked = true) {tee : TeeParam}
    (backed : Backed (current.operation.params j))
    (smaller : tee.size ≤ (current.operation.params j).size)
    (there : tee.size ≤ tee.buffer.length) {offset n : Nat} (inside : offset + n ≤ tee.size) :
    writeInvokeParam (partly current j tee offset) j offset ((tee.buffer.drop offset).take n) =
      some (partly current j tee (offset + n)) := by
  have room := backed.inside
  have before : (tee.buffer.take offset).length = offset := by
    rw [List.length_take]
    omega
  have piece : ((tee.buffer.drop offset).take n).length = n := by
    rw [List.length_take, List.length_drop]
    omega
  have clamped : ((tee.buffer.drop offset).take n).take
      ((current.operation.params j).size - offset) = (tee.buffer.drop offset).take n := by
    apply List.take_of_length_le
    omega
  have reaches : ¬ (current.operation.params j).size < offset := by omega
  have stored := Memory.write_behind (tee.buffer.take offset)
    ((current.operation.params j).buffer.drop offset) ((tee.buffer.drop offset).take n) (by
      rw [piece, List.length_drop]
      omega)
  rw [before, piece, List.drop_drop, ← List.append_assoc, ← List.take_add] at stored
  simp only [writeInvokeParam, partly, linked, Bool.not_true, Bool.false_eq_true, if_false,
    Function.update_self, if_neg reaches, clamped, stored, Option.map_some, Function.update_idem]

/-- The command with the entry for an output of the given size. -/
def sized (c : InvokeCommand) (j : Fin 4) (size : Nat) : InvokeCommand :=
  { c with params := Function.update c.params j ⟨0, 0, size⟩ }

/-- The second loop writes an output piece by piece. -/
theorem write_memref (type : paramTypeGet c.paramTypes j = typeMemrefOutput ∨
      paramTypeGet c.paramTypes j = typeMemrefInout)
    (linked : current.linked = true) (backed : Backed (current.operation.params j))
    (smaller : (params j).size ≤ (current.operation.params j).size)
    (there : (params j).size ≤ (params j).buffer.length) {offset : Nat}
    (inside : offset ≤ (params j).size) :
    (server chunk heap p fuel).Passes
      (.writing ta c j offset params result, partly current j (params j) offset)
      (.writing ta (sized c j (params j).size) (j + 1) 0 params result,
        partly current j (params j) (params j).size) := by
  induction rest : (params j).size - offset using Nat.strong_induction_on generalizing offset c with
  | _ rest ih =>
    have notValue : ¬ (paramTypeGet c.paramTypes j = typeValueOutput ∨
        paramTypeGet c.paramTypes j = typeValueInout) := by
      rcases type with type | type
      · rw [type]
        decide
      · rw [type]
        decide
    by_cases more : offset < (params j).size
    · have read : ¬ (params j).buffer.length <
          offset + min ((params j).size - offset) 256 := by omega
      have step : offset + min ((params j).size - offset) 256 ≤ (params j).size := by omega
      have piece := writeInvokeParam_partly linked backed smaller there step
      have pass : writePass (partly current j (params j) offset) ta c j offset params result =
          some (.writing ta (sized c j (params j).size) j
            (offset + min ((params j).size - offset) 256) params result,
            partly current j (params j) (offset + min ((params j).size - offset) 256)) := by
        unfold writePass
        simp only [if_neg notValue, if_pos type, if_pos more, if_neg read, piece, Option.map_some]
        rfl
      have next := @ih _ (by omega) (sized c j (params j).size) type _ step rfl
      have same : sized (sized c j (params j).size) j (params j).size =
          sized c j (params j).size := by
        simp only [sized, Function.update_idem]
      rw [same] at next
      exact .head (writing_pass chunk heap p fuel j.isLt pass) next
    · have whole : offset = (params j).size := by omega
      have pass : writePass (partly current j (params j) offset) ta c j offset params result =
          some (.writing ta (sized c j (params j).size) (j + 1) 0 params result,
            partly current j (params j) offset) := by
        unfold writePass
        simp only [if_neg notValue, if_pos type, if_neg more]
        rfl
      rw [← whole] at pass ⊢
      exact .single (writing_pass chunk heap p fuel j.isLt pass)

/-- The caller's memory with one parameter changed. -/
def Current.put (current : Current) (j : Fin 4) (param : TeeParam) : Current :=
  { current with operation := { current.operation with
    params := Function.update current.operation.params j param } }

def InvokeCommand.put (c : InvokeCommand) (j : Fin 4) (param : CommandParam) : InvokeCommand :=
  { c with params := Function.update c.params j param }

/-- The second loop brings a parameter back. -/
theorem write_param (chunk : Nat) (heap : Nat → Bool) (p : Platform) (fuel : Nat) (ta : Ta)
    (result : Nat) (linked : current.linked = true)
    (backed : Backed (current.operation.params j)) (direction : Direction)
    (type : paramTypeGet c.paramTypes j = direction.number)
    (smaller : (params j).size ≤ (direction.incoming (current.operation.params j)).size)
    (same : (direction.incoming (current.operation.params j)).size ≤
      (direction.incoming (current.operation.params j)).buffer.length →
      (params j).buffer.length = (direction.incoming (current.operation.params j)).buffer.length) :
    (server chunk heap p fuel).Passes (.writing ta c j 0 params result, current)
      (.writing ta (c.put j (commandOut direction (c.params j) (params j))) (j + 1) 0 params result,
        current.put j (written direction (current.operation.params j) (params j))) := by
  have single {next : Eapp × Current}
      (pass : writePass current ta c j 0 params result = some next) :
      (server chunk heap p fuel).Passes (.writing ta c j 0 params result, current) next :=
    .single (writing_pass chunk heap p fuel j.isLt pass)
  have untouched : current.put j (current.operation.params j) = current := by
    simp only [Current.put, Function.update_eq_self]
  have memref (size : (direction.incoming (current.operation.params j)).size =
        (current.operation.params j).size)
      (length : (direction.incoming (current.operation.params j)).buffer.length =
        (current.operation.params j).size)
      (outputs : paramTypeGet c.paramTypes j = typeMemrefOutput ∨
        paramTypeGet c.paramTypes j = typeMemrefInout) :
      (server chunk heap p fuel).Passes (.writing ta c j 0 params result, current)
        (.writing ta (sized c j (params j).size) (j + 1) 0 params result,
          partly current j (params j) (params j).size) := by
    have whole := same (by rw [size, length])
    have fits : (params j).size ≤ (current.operation.params j).size := by omega
    have there : (params j).size ≤ (params j).buffer.length := by omega
    have passes := @write_memref chunk heap p fuel ta c current params result j outputs linked
      backed fits there 0 (Nat.zero_le _)
    rw [partly_zero] at passes
    exact passes
  cases direction with
  | none =>
    apply single
    rw [written, untouched]
    unfold writePass
    rw [type]
    rfl
  | valueInput =>
    apply single
    rw [written, untouched]
    unfold writePass
    rw [type]
    rfl
  | valueOutput =>
    apply single
    rw [written, untouched]
    unfold writePass
    rw [type]
    rfl
  | valueInout =>
    apply single
    rw [written, untouched]
    unfold writePass
    rw [type]
    rfl
  | memrefInput =>
    apply single
    rw [written, untouched]
    unfold writePass
    rw [type]
    rfl
  | memrefOutput => exact memref rfl List.length_replicate (.inl type)
  | memrefInout => exact memref rfl (List.length_take_of_le backed.inside) (.inr type)

end Writing

section Call
variable {chunk : Nat} {heap : Nat → Bool} {p : Platform} {fuel : Nat} {ta ta' : Ta}
  {commandID result : Nat} {op : Operation} {directions : Fin 4 → Direction} {params : TeeParams}

/-- The command as it goes back. -/
def commandBack (op : Operation) (directions : Fin 4 → Direction) (params : TeeParams)
    (commandID : Nat) : InvokeCommand :=
  { (putInvokeCommand commandID (some op)).command with
    params := fun i => commandOut (directions i)
      ((putInvokeCommand commandID (some op)).command.params i) (params i) }

/-- The caller's memory before the result is put. -/
def writtenBack (op : Operation) (directions : Fin 4 → Direction) (params : TeeParams)
    (commandID : Nat) : Current :=
  { putInvokeCommand commandID (some op) with
    operation := { op with params := fun i => written (directions i) (op.params i) (params i) } }

/-- What is in the queue when the caller goes on. -/
def answeredBack (op : Operation) (directions : Fin 4 → Direction) (params : TeeParams)
    (commandID result : Nat) : Current :=
  { putInvokeCommand commandID (some op) with
    operation := { op with
      params := fun i => (directions i).returned (op.params i) (params i) }
    linked := false
    commandResult := result }

theorem passes_of_eq {server : Server Ta Eapp Current} {a b : Eapp × Current} (same : a = b) :
    server.Passes a b := by
  rw [same]
  exact .refl

theorem write_params (chunk : Nat) (heap : Nat → Bool) (p : Platform) (fuel : Nat) (ta : Ta)
    (commandID result : Nat) (sendable : Sendable op directions)
    (within : Within (fun i => (directions i).incoming (op.params i)) params) :
    (server chunk heap p fuel).Passes
      (.writing ta (putInvokeCommand commandID (some op)).command 0 0 params result,
        putInvokeCommand commandID (some op))
      (.writing ta (commandBack op directions params commandID) 4 0 params result,
        writtenBack op directions params commandID) := by
  have each (j : Fin 4) (c : InvokeCommand) (current : Current)
      (types : c.paramTypes = op.paramTypes) (linked : current.linked = true)
      (same : current.operation.params j = op.params j) :
      (server chunk heap p fuel).Passes (.writing ta c j 0 params result, current)
        (.writing ta (c.put j (commandOut (directions j) (c.params j) (params j))) (j + 1) 0 params
          result, current.put j (written (directions j) (op.params j) (params j))) := by
    have type : paramTypeGet c.paramTypes j = (directions j).number := by
      rw [types]
      exact Direction.ofType_number (sendable.known j)
    have passes := @write_param c current params j chunk heap p fuel ta result linked
    rw [same] at passes
    exact passes (sendable.backed j) (directions j) type (within j).1 (within j).2
  refine (each 0 _ _ rfl rfl rfl).trans ((each 1 _ _ rfl rfl rfl).trans
    ((each 2 _ _ rfl rfl rfl).trans ?_))
  apply (each 3 _ _ rfl rfl rfl).trans
  apply passes_of_eq
  apply congrArg₂ Prod.mk
  · apply congrArg (fun c => Eapp.writing ta c 4 0 params result)
    apply congrArg (InvokeCommand.mk commandID op.paramTypes)
    exact params_ext rfl rfl rfl rfl
  · apply congrArg (fun memory => Current.mk (putInvokeCommand commandID (some op)).command
      ⟨op.paramTypes, memory⟩ true 0)
    exact params_ext rfl rfl rfl rfl

end Call

end TeepDevice.Broker.Keystone
