import TeepDevice.Agent.Posting

/-! The entry points of the TA as they are called: a word of parameter types and
four parameters, which each handler checks and unpacks before the agent of
Agent.Session sees a command. -/
namespace TeepDevice.Agent
open Tcbor Suit Teep Transition

-- one name for the fact that numbers the parameters, whichever module writes an index
instance instNeZeroParams : NeZero 4 := ⟨by decide⟩

/-- `TEE_PARAM_TYPE_GET`, and `TEEC_PARAM_TYPE_GET` as well. -/
def paramTypeGet (types : Nat) (i : Fin 4) : Nat := (types >>> (i.val * 4)) &&& 0xF

/-- `TEE_PARAM_TYPES`, and `TEEC_PARAM_TYPES` as well. -/
def paramTypes (t0 t1 t2 t3 : Nat) : Nat := t0 ||| t1 <<< 4 ||| t2 <<< 8 ||| t3 <<< 12

abbrev typeNone : Nat := 0
abbrev typeValueInput : Nat := 1
abbrev typeValueOutput : Nat := 2
abbrev typeValueInout : Nat := 3
abbrev typeMemrefInput : Nat := 5
abbrev typeMemrefOutput : Nat := 6
abbrev typeMemrefInout : Nat := 7

abbrev teepAgentBrokerTaskDone : Nat := 1
abbrev teepAgentQueryNextBrokerTask : Nat := 2
abbrev teepAgentSetDevOption : Nat := 3

abbrev teeErrorOutOfMemory : Nat := 0xFFFF000C

/-- `TEE_Param` with the two arms of the union side by side: a pair of values, or
memory with the size that is announced for it. -/
structure TeeParam where
  a : Nat
  b : Nat
  buffer : Bytes
  size : Nat
  deriving DecidableEq, Repr

abbrev TeeParams : Type := Fin 4 → TeeParam

theorem forEachParam {holds : Fin 4 → Prop} (h0 : holds 0) (h1 : holds 1) (h2 : holds 2)
    (h3 : holds 3) (i : Fin 4) : holds i := by
  match i with
  | 0 => exact h0
  | 1 => exact h1
  | 2 => exact h2
  | 3 => exact h3

theorem params_ext {α : Type} {f g : Fin 4 → α} (h0 : f 0 = g 0) (h1 : f 1 = g 1)
    (h2 : f 2 = g 2) (h3 : f 3 = g 3) : f = g :=
  funext (forEachParam h0 h1 h2 h3)

def TeeParam.blank : TeeParam := ⟨0, 0, [], 0⟩

def TeeParam.bytes (param : TeeParam) : Bytes := param.buffer.take param.size

def BrokerCommand.number : BrokerCommand → Nat
  | .httpPost => 0
  | .httpGet => 1
  | .finish => 2

section Handlers
variable (p : Platform)

def handleSetDevOption (ta : Ta) (types : Nat) (params : TeeParams) : Except Fault (Ta × Nat) :=
  if types ≠ paramTypes typeValueInput typeMemrefInput typeNone typeNone then
    .ok (ta, teeErrorBadParameters)
  else
    match (params 1).bytes.getLast? with
    | none => .error .overRead
    | some last =>
      if last ≠ 0 then .ok (ta, teeErrorBadParameters)
      else .ok (setDevOption p ta (params 0).a ((params 1).bytes.takeWhile (· ≠ 0)))

def handleBrokerTaskDone (ta : Ta) (types : Nat) (params : TeeParams) : Except Fault (Ta × Nat) :=
  if types ≠ paramTypes typeMemrefInput typeNone typeNone typeNone then
    .ok (ta, teeErrorBadParameters)
  else brokerTaskDone p ta (params 0).bytes

/-- What `copyout_param` leaves in a parameter. -/
def TeeParam.filled (param : TeeParam) (src : Bytes) : TeeParam :=
  { param with buffer := src ++ param.buffer.drop src.length, size := src.length }

/-- `copyout_param` from memory where `src` is: nothing is copied into a parameter
that is too small. -/
def copyoutParam (param : TeeParam) (src : Bytes) (len : Nat) : Except Fault (Option TeeParam) :=
  if param.size < len then .ok none
  else if src.length < len then .error .overRead
  else .ok (some (param.filled (src.take len)))

/-- The parameters are filled one after the other: what comes before a parameter
that is too small stays filled. -/
def handleQueryNextBrokerTask (fuel : Nat) (ta : Ta) (types : Nat) (params : TeeParams) :
    Except Fault (Ta × Nat × TeeParams) :=
  if types ≠ paramTypes typeValueOutput typeMemrefOutput typeMemrefOutput typeNone then
    .ok (ta, teeErrorBadParameters, params)
  else
    match queryNextBrokerTask p fuel ta with
    | .error fault => .error fault
    | .ok ta =>
      let task := ta.session.taskBuffer
      let params := Function.update params 0 { params 0 with a := task.command.number }
      match taskString task with
      | none => .error .overRead
      | some uri =>
        match copyoutParam (params 1) (uri ++ [0]) (uri.length + 1) with
        | .error fault => .error fault
        | .ok none => .ok (ta, teeErrorBadParameters, params)
        | .ok (some param) =>
          let params := Function.update params 1 param
          match copyoutParam (params 2) task.postData task.postDataLen with
          | .error fault => .error fault
          | .ok none => .ok (ta, teeErrorBadParameters, params)
          | .ok (some param) => .ok (ta, teeSuccess, Function.update params 2 param)

def taInvokeCommandEntryPoint (fuel : Nat) (ta : Ta) (cmdId types : Nat) (params : TeeParams) :
    Except Fault (Ta × Nat × TeeParams) :=
  if cmdId = teepAgentSetDevOption then
    match handleSetDevOption p ta types params with
    | .error fault => .error fault
    | .ok (ta, result) => .ok (ta, result, params)
  else if cmdId = teepAgentBrokerTaskDone then
    match handleBrokerTaskDone p ta types params with
    | .error fault => .error fault
    | .ok (ta, result) => .ok (ta, result, params)
  else if cmdId = teepAgentQueryNextBrokerTask then
    handleQueryNextBrokerTask p fuel ta types params
  else .ok (ta, teeErrorNotImplemented, params)

/-- The session is there only on success. -/
def taOpenSessionEntryPoint (memory : Option Session) (types : Nat) : Nat × Option Ta :=
  if types ≠ paramTypes typeNone typeNone typeNone typeNone then (teeErrorBadParameters, none)
  else
    match memory with
    | none => (teeErrorOutOfMemory, none)
    | some memory => (teeSuccess, some (Ta.start memory))

end Handlers

section Types

theorem or_shiftLeft {x n : Nat} (small : x < 2 ^ n) (y : Nat) :
    x ||| y <<< n = x + 2 ^ n * y := by
  rw [Nat.or_comm, ← Nat.shiftLeft_add_eq_or_of_lt small, Nat.shiftLeft_eq, Nat.add_comm,
    Nat.mul_comm]

theorem paramTypes_sum {t0 t1 t2 : Nat} (h0 : t0 < 16) (h1 : t1 < 16) (h2 : t2 < 16) (t3 : Nat) :
    paramTypes t0 t1 t2 t3 = t0 + 16 * t1 + 256 * t2 + 4096 * t3 := by
  have two : t0 + 2 ^ 4 * t1 < 2 ^ 8 := by omega
  have three : t0 + 2 ^ 4 * t1 + 2 ^ 8 * t2 < 2 ^ 12 := by omega
  rw [paramTypes, @or_shiftLeft t0 4 h0, @or_shiftLeft _ 8 two, @or_shiftLeft _ 12 three]
  rfl

theorem paramTypeGet_eq (types : Nat) (i : Fin 4) :
    paramTypeGet types i = types / 2 ^ (i.val * 4) % 16 := by
  rw [paramTypeGet, Nat.shiftRight_eq_div_pow]
  exact Nat.and_two_pow_sub_one_eq_mod _ 4

theorem paramTypeGet_lt (types : Nat) (i : Fin 4) : paramTypeGet types i < 16 := by
  rw [paramTypeGet_eq]
  exact Nat.mod_lt _ (by decide)

/-- Each parameter's type comes out of the word as it went in. -/
theorem paramTypeGet_paramTypes (t : Fin 4 → Nat) (nibble : ∀ i, t i < 16) (i : Fin 4) :
    paramTypeGet (paramTypes (t 0) (t 1) (t 2) (t 3)) i = t i := by
  have h0 := nibble 0
  have h1 := nibble 1
  have h2 := nibble 2
  have h3 := nibble 3
  rw [paramTypeGet_eq, paramTypes_sum h0 h1 h2]
  match i with
  | 0 =>
    change _ / 1 % 16 = t 0
    omega
  | 1 =>
    change _ / 16 % 16 = t 1
    omega
  | 2 =>
    change _ / 256 % 16 = t 2
    omega
  | 3 =>
    change _ / 4096 % 16 = t 3
    omega

end Types

section Unpacking
variable {p : Platform} {fuel : Nat} {ta ta' : Ta} {params : TeeParams}

/-- The outputs of a query: the command's number, the URI and the data. -/
def handedOut (params : TeeParams) (command : BrokerCommand) (uri postData : Bytes) : TeeParams
  | 0 => { params 0 with a := command.number }
  | 1 => (params 1).filled uri
  | 2 => (params 2).filled postData
  | 3 => params 3

/-- The outcome of a command that has no outputs. -/
def withoutOutputs (params : TeeParams) (outcome : Ta × Response) : Ta × Nat × TeeParams :=
  (outcome.1, outcome.2.result, params)

theorem entryPoint_setDevOption (p : Platform) (fuel : Nat) (ta : Ta) (params : TeeParams) :
    taInvokeCommandEntryPoint p fuel ta teepAgentSetDevOption
        (paramTypes typeValueInput typeMemrefInput typeNone typeNone) params =
      (invokeCommand p fuel ta (.setDevOption (params 0).a (params 1).bytes)).map
        (withoutOutputs params) := by
  simp only [taInvokeCommandEntryPoint, if_pos, handleSetDevOption, invokeCommand, ne_eq,
    not_true_eq_false, if_false]
  cases (params 1).bytes.getLast? with
  | none => rfl
  | some last =>
    by_cases zero : last = 0
    · simp only [zero, not_true_eq_false, if_false]
      rfl
    · simp only [zero, not_false_eq_true, if_true]
      rfl

theorem entryPoint_brokerTaskDone (p : Platform) (fuel : Nat) (ta : Ta) (params : TeeParams) :
    taInvokeCommandEntryPoint p fuel ta teepAgentBrokerTaskDone
        (paramTypes typeMemrefInput typeNone typeNone typeNone) params =
      (invokeCommand p fuel ta (.brokerTaskDone (params 0).bytes)).map
        (withoutOutputs params) := by
  have other : ¬ teepAgentBrokerTaskDone = teepAgentSetDevOption := by decide
  simp only [taInvokeCommandEntryPoint, if_neg other, if_pos, handleBrokerTaskDone, invokeCommand,
    ne_eq, not_true_eq_false, if_false]
  cases brokerTaskDone p ta (params 0).bytes with
  | error fault => rfl
  | ok done => rfl

/-- The array of the task has room for the data it is said to hold. -/
def BrokerTask.Roomy (task : BrokerTask) : Prop := task.postDataLen ≤ task.postData.length

theorem copyoutParam_fits {param : TeeParam} {src : Bytes} {len : Nat} (there : len ≤ src.length)
    (fits : len ≤ param.size) : copyoutParam param src len = .ok (some (param.filled (src.take len))) := by
  rw [copyoutParam, if_neg (Nat.not_lt.mpr fits), if_neg (Nat.not_lt.mpr there)]

theorem copyoutParam_small {param : TeeParam} {src : Bytes} {len : Nat} (small : param.size < len) :
    copyoutParam param src len = .ok none := if_pos small

/-- A query that succeeds fills the parameters with the task. -/
theorem entryPoint_query (params : TeeParams) {uri postData : Bytes} {command : BrokerCommand}
    {result : Nat}
    (done : invokeCommand p fuel ta (.queryNextBrokerTask (params 1).size (params 2).size) =
      .ok (ta', ⟨result, some (command, uri, postData)⟩))
    (roomy : ta'.session.taskBuffer.Roomy) :
    taInvokeCommandEntryPoint p fuel ta teepAgentQueryNextBrokerTask
        (paramTypes typeValueOutput typeMemrefOutput typeMemrefOutput typeNone) params =
      .ok (ta', result, handedOut params command uri postData) := by
  obtain ⟨query, copied⟩ := invokeCommand_query done
  have notOption : ¬ teepAgentQueryNextBrokerTask = teepAgentSetDevOption := by decide
  have notDone : ¬ teepAgentQueryNextBrokerTask = teepAgentBrokerTaskDone := by decide
  simp only [taInvokeCommandEntryPoint, if_neg notOption, if_neg notDone, if_pos,
    handleQueryNextBrokerTask, ne_eq, not_true_eq_false, if_false, query]
  unfold copyoutTask at copied
  split at copied
  · cases copied
  · rename_i string text
    split at copied
    · cases copied
    · rename_i uriFits
      split at copied
      · cases copied
      · rename_i dataFits
        cases copied
        have first : copyoutParam (params 1) (string ++ [0]) (string.length + 1) =
            .ok (some ((params 1).filled (string ++ [0]))) := by
          have whole : string.length + 1 = (string ++ [0]).length := by
            rw [List.length_append, List.length_singleton]
          rw [whole, copyoutParam_fits (Nat.le_refl _) (whole ▸ Nat.not_lt.mp uriFits),
            List.take_length]
        have second : copyoutParam (params 2) ta'.session.taskBuffer.postData
            ta'.session.taskBuffer.postDataLen = .ok (some ((params 2).filled
              (ta'.session.taskBuffer.postData.take ta'.session.taskBuffer.postDataLen))) :=
          copyoutParam_fits roomy (Nat.not_lt.mp dataFits)
        have one : (1 : Fin 4) ≠ 0 := by decide
        have two : (2 : Fin 4) ≠ 0 := by decide
        have two' : (2 : Fin 4) ≠ 1 := by decide
        simp only [text, Function.update_of_ne one, first, Function.update_of_ne two,
          Function.update_of_ne two', second]
        congr 3
        exact params_ext rfl rfl rfl rfl

theorem entryPoint_query_fault (params : TeeParams) {fault : Fault}
    (done : invokeCommand p fuel ta (.queryNextBrokerTask (params 1).size (params 2).size) =
      .error fault) :
    taInvokeCommandEntryPoint p fuel ta teepAgentQueryNextBrokerTask
        (paramTypes typeValueOutput typeMemrefOutput typeMemrefOutput typeNone) params =
      .error fault := by
  have notOption : ¬ teepAgentQueryNextBrokerTask = teepAgentSetDevOption := by decide
  have notDone : ¬ teepAgentQueryNextBrokerTask = teepAgentBrokerTaskDone := by decide
  simp only [taInvokeCommandEntryPoint, if_neg notOption, if_neg notDone, if_pos,
    handleQueryNextBrokerTask, ne_eq, not_true_eq_false, if_false]
  simp only [invokeCommand] at done
  cases query : queryNextBrokerTask p fuel ta with
  | error fault' =>
    rw [query] at done
    cases done
    rfl
  | ok next =>
    simp only [query] at done
    cases text : taskString next.session.taskBuffer with
    | none =>
      simp only [copyoutTask, text] at done
      cases done
      simp only [text]
    | some string =>
      simp only [copyoutTask, text] at done
      split at done
      · rename_i copied
        split at copied
        · cases copied
        · split at copied
          · cases copied
          · cases copied
      · cases done

/-- A query that finds no room ends with an error, whatever it filled. -/
theorem entryPoint_query_refused (params : TeeParams) {result : Nat}
    (done : invokeCommand p fuel ta (.queryNextBrokerTask (params 1).size (params 2).size) =
      .ok (ta', ⟨result, none⟩)) :
    result = teeErrorBadParameters ∧ ∃ params',
      taInvokeCommandEntryPoint p fuel ta teepAgentQueryNextBrokerTask
        (paramTypes typeValueOutput typeMemrefOutput typeMemrefOutput typeNone) params =
        .ok (ta', result, params') := by
  obtain ⟨query, copied⟩ := invokeCommand_query done
  have notOption : ¬ teepAgentQueryNextBrokerTask = teepAgentSetDevOption := by decide
  have notDone : ¬ teepAgentQueryNextBrokerTask = teepAgentBrokerTaskDone := by decide
  have one : (1 : Fin 4) ≠ 0 := by decide
  have two : (2 : Fin 4) ≠ 0 := by decide
  have two' : (2 : Fin 4) ≠ 1 := by decide
  simp only [taInvokeCommandEntryPoint, if_neg notOption, if_neg notDone, if_pos,
    handleQueryNextBrokerTask, ne_eq, not_true_eq_false, if_false, query]
  unfold copyoutTask at copied
  split at copied
  · cases copied
  · rename_i string text
    simp only [text, Function.update_of_ne one]
    split at copied
    · rename_i small
      cases copied
      rw [copyoutParam_small small]
      exact ⟨rfl, _, rfl⟩
    · rename_i uriFits
      have whole : string.length + 1 = (string ++ [0]).length := by
        rw [List.length_append, List.length_singleton]
      rw [copyoutParam_fits (Nat.le_of_eq whole) (Nat.not_lt.mp uriFits)]
      simp only [Function.update_of_ne two, Function.update_of_ne two']
      split at copied
      · rename_i small
        cases copied
        rw [copyoutParam_small small]
        exact ⟨rfl, _, rfl⟩
      · cases copied

end Unpacking

section Bounds
variable {p : Platform} {fuel : Nat}

/-- Outputs stay inside of the memory that was passed. -/
def Within (params params' : TeeParams) : Prop :=
  ∀ i, (params' i).size ≤ (params i).size ∧
    ((params i).size ≤ (params i).buffer.length →
      (params' i).buffer.length = (params i).buffer.length)

theorem Within.refl (params : TeeParams) : Within params params :=
  fun _ => ⟨Nat.le_refl _, fun _ => rfl⟩

theorem Within.trans {params params' params'' : TeeParams} (first : Within params params')
    (second : Within params' params'') : Within params params'' := by
  intro i
  obtain ⟨smaller, same⟩ := first i
  obtain ⟨smaller', same'⟩ := second i
  refine ⟨Nat.le_trans smaller' smaller, fun room => ?_⟩
  have room' : (params' i).size ≤ (params' i).buffer.length := by
    rw [same room]
    exact Nat.le_trans smaller room
  exact (same' room').trans (same room)

theorem copyoutParam_within {params : TeeParams} {i : Fin 4} {src : Bytes} {len : Nat}
    {param : TeeParam} (copied : copyoutParam (params i) src len = .ok (some param)) :
    Within params (Function.update params i param) := by
  unfold copyoutParam at copied
  split at copied
  · cases copied
  · rename_i fits
    split at copied
    · cases copied
    · cases copied
      intro j
      by_cases same : j = i
      · subst same
        have short : (src.take len).length ≤ len := List.length_take_le len src
        rw [Function.update_self]
        refine ⟨Nat.le_trans short (Nat.not_lt.mp fits), fun room => ?_⟩
        simp only [TeeParam.filled, List.length_append, List.length_drop]
        omega
      · rw [Function.update_of_ne same]
        exact ⟨Nat.le_refl _, fun _ => rfl⟩

theorem entryPoint_within {ta ta' : Ta} {cmdId types result : Nat} {params params' : TeeParams}
    (done : taInvokeCommandEntryPoint p fuel ta cmdId types params = .ok (ta', result, params')) :
    Within params params' := by
  unfold taInvokeCommandEntryPoint at done
  split at done
  · split at done
    · cases done
    · cases done
      exact Within.refl params
  · split at done
    · split at done
      · cases done
      · cases done
        exact Within.refl params
    · split at done
      · unfold handleQueryNextBrokerTask at done
        split at done
        · cases done
          exact Within.refl params
        · split at done
          · cases done
          · rename_i next query
            have command : Within params (Function.update params 0
                { params 0 with a := next.session.taskBuffer.command.number }) := by
              intro j
              by_cases same : j = 0
              · subst same
                rw [Function.update_self]
                exact ⟨Nat.le_refl _, fun _ => rfl⟩
              · rw [Function.update_of_ne same]
                exact ⟨Nat.le_refl _, fun _ => rfl⟩
            dsimp only at done
            split at done
            · cases done
            · split at done
              · cases done
              · cases done
                exact command
              · rename_i uri
                have first := command.trans (copyoutParam_within uri)
                split at done
                · cases done
                · cases done
                  exact first
                · rename_i data
                  cases done
                  exact first.trans (copyoutParam_within data)
      · cases done
        exact Within.refl params

end Bounds

section Room
variable {p : Platform}

/-- The array of the task keeps its size, and no task claims more than that. -/
structure HasRoom (ta : Ta) : Prop where
  array : ta.session.taskBuffer.postData.length = teepMaxMessageLen
  small : ta.session.onGoingTask = true → ta.session.taskBuffer.postDataLen ≤ teepMaxMessageLen

theorem HasRoom.roomy {ta : Ta} (room : HasRoom ta) (busy : ta.session.onGoingTask = true) :
    ta.session.taskBuffer.Roomy := by
  rw [BrokerTask.Roomy, room.array]
  exact room.small busy

theorem encodes_small {q : Qcbor} (encodes : Encodes q) (session : Session) (type : MessageType)
    {buffer : Bytes} (array : buffer.length = teepMaxMessageLen) :
    (q.encode (messageOps session type) buffer).2.getD teepMaxMessageLen ≤ teepMaxMessageLen := by
  have produced := encodes _ _ (treeOf_messageOps session type) buffer
  split at produced
  · rename_i fits
    rw [produced, ← array]
    exact fits
  · rw [produced.1]
    exact Nat.le_refl _

theorem handsOut_hasRoom {ta next : Ta} (encodes : Encodes p.qcbor)
    (array : ta.session.taskBuffer.postData.length = teepMaxMessageLen)
    (hands : HandsOut p ta next) : HasRoom next := by
  cases hands with
  | initial state => exact ⟨array, fun _ => Nat.zero_le _⟩
  | @posted type state =>
    constructor
    · have size := encodes_size encodes ta.session type ta.session.taskBuffer.postData
      exact size.trans array
    · exact fun _ => encodes_small encodes ta.session type array
  | fetch state waits fits => exact ⟨array, fun _ => Nat.zero_le _⟩
  | finish state => exact ⟨array, fun _ => Nat.zero_le _⟩

theorem step_hasRoom (encodes : Encodes p.qcbor) {ta ta' : Ta} {command : Command}
    (room : HasRoom ta) (step : Step p ta command ta') : HasRoom ta' := by
  cases step_outcome step with
  | unchanged => exact room
  | configured state => exact ⟨room.array, room.small⟩
  | replied _ _ outcome =>
    have same := tamOutcome_taskBuffer outcome
    refine ⟨?_, fun busy => by cases busy⟩
    exact (congrArg (·.postData.length) same).trans room.array
  | downloaded =>
    have same := @handleComponentDownload_taskBuffer p ta
    refine ⟨?_, fun busy => by cases busy⟩
    exact (congrArg (·.postData.length) (same _)).trans room.array
  | @queried fuel _ _ _ idle query =>
    refine query_rule (fun s => s.session.taskBuffer.postData.length = teepMaxMessageLen)
      HasRoom ?_ ?_ room.array idle query
    · intro s next array _ pass
      obtain ⟨state, runner, rfl⟩ := pass_same pass
      exact array
    · intro s next array _ pass
      exact handsOut_hasRoom encodes array (queryBody_handsOut pass)

theorem start_hasRoom {memory : Session}
    (array : memory.taskBuffer.postData.length = teepMaxMessageLen) : HasRoom (Ta.start memory) :=
  ⟨array, fun busy => by cases busy⟩

end Room

section Calls
variable {p : Platform} {fuel : Nat} {ta ta' : Ta} {memory : Session}

/-- What an entry makes of its parameters: it rejects them, or does a command. -/
inductive Entered (p : Platform) (fuel : Nat) (ta : Ta) (cmdId types : Nat) (params : TeeParams) :
    Prop where
  | rejected (result : Nat) (code : result ≠ teeSuccess)
      (same : taInvokeCommandEntryPoint p fuel ta cmdId types params = .ok (ta, result, params))
  | served (command : Command) (serves :
      match invokeCommand p fuel ta command with
      | .error fault => taInvokeCommandEntryPoint p fuel ta cmdId types params = .error fault
      | .ok (ta', response) => ∃ params',
        taInvokeCommandEntryPoint p fuel ta cmdId types params =
          .ok (ta', response.result, params'))

theorem entered_option (types : Nat) (params : TeeParams) :
    Entered p fuel ta teepAgentSetDevOption types params := by
  by_cases right : types = paramTypes typeValueInput typeMemrefInput typeNone typeNone
  · subst right
    apply Entered.served (.setDevOption (params 0).a (params 1).bytes)
    rw [entryPoint_setDevOption]
    cases invokeCommand p fuel ta (.setDevOption (params 0).a (params 1).bytes) with
    | error fault => rfl
    | ok outcome => exact ⟨params, rfl⟩
  · apply Entered.rejected teeErrorBadParameters (by decide)
    simp only [taInvokeCommandEntryPoint, if_pos, handleSetDevOption, ne_eq, right,
      not_false_eq_true]

theorem entered_done (types : Nat) (params : TeeParams) :
    Entered p fuel ta teepAgentBrokerTaskDone types params := by
  have other : ¬ teepAgentBrokerTaskDone = teepAgentSetDevOption := by decide
  by_cases right : types = paramTypes typeMemrefInput typeNone typeNone typeNone
  · subst right
    apply Entered.served (.brokerTaskDone (params 0).bytes)
    rw [entryPoint_brokerTaskDone]
    cases invokeCommand p fuel ta (.brokerTaskDone (params 0).bytes) with
    | error fault => rfl
    | ok outcome => exact ⟨params, rfl⟩
  · apply Entered.rejected teeErrorBadParameters (by decide)
    simp only [taInvokeCommandEntryPoint, if_neg other, if_pos, handleBrokerTaskDone, ne_eq, right,
      not_false_eq_true]

theorem entered_query (encodes : Encodes p.qcbor) (room : HasRoom ta) (types : Nat)
    (params : TeeParams) : Entered p fuel ta teepAgentQueryNextBrokerTask types params := by
  have notOption : ¬ teepAgentQueryNextBrokerTask = teepAgentSetDevOption := by decide
  have notDone : ¬ teepAgentQueryNextBrokerTask = teepAgentBrokerTaskDone := by decide
  by_cases right : types = paramTypes typeValueOutput typeMemrefOutput typeMemrefOutput typeNone
  · subst right
    apply Entered.served (.queryNextBrokerTask (params 1).size (params 2).size)
    cases done : invokeCommand p fuel ta (.queryNextBrokerTask (params 1).size (params 2).size) with
    | error fault => exact entryPoint_query_fault params done
    | ok outcome =>
      obtain ⟨ta', result, task⟩ := outcome
      cases task with
      | none => exact (entryPoint_query_refused params done).2
      | some handed =>
        obtain ⟨command, uri, postData⟩ := handed
        have room' := step_hasRoom encodes room ⟨fuel, _, done⟩
        have busy := query_busy (invokeCommand_query done).1
        exact ⟨_, entryPoint_query params done (room'.roomy busy)⟩
  · apply Entered.rejected teeErrorBadParameters (by decide)
    simp only [taInvokeCommandEntryPoint, if_neg notOption, if_neg notDone, if_pos,
      handleQueryNextBrokerTask, ne_eq, right, not_false_eq_true]

theorem entered (encodes : Encodes p.qcbor) (room : HasRoom ta) (cmdId types : Nat)
    (params : TeeParams) : Entered p fuel ta cmdId types params := by
  by_cases option : cmdId = teepAgentSetDevOption
  · rw [option]
    exact entered_option types params
  · by_cases done : cmdId = teepAgentBrokerTaskDone
    · rw [done]
      exact entered_done types params
    · by_cases query : cmdId = teepAgentQueryNextBrokerTask
      · rw [query]
        exact entered_query encodes room types params
      · apply Entered.rejected teeErrorNotImplemented (by decide)
        simp only [taInvokeCommandEntryPoint, if_neg option, if_neg done, if_neg query]

/-- A call of the entry point with what it leaves. -/
structure EntryCall where
  cmdId : Nat
  types : Nat
  params : TeeParams
  result : Nat
  returned : TeeParams

def EntryStep (p : Platform) (ta : Ta) (call : EntryCall) (ta' : Ta) : Prop :=
  ∃ fuel, taInvokeCommandEntryPoint p fuel ta call.cmdId call.types call.params =
    .ok (ta', call.result, call.returned)

theorem entryStep_command (encodes : Encodes p.qcbor) (room : HasRoom ta) {call : EntryCall}
    (step : EntryStep p ta call ta') : ta' = ta ∨ ∃ command, Step p ta command ta' := by
  obtain ⟨fuel, done⟩ := step
  cases @entered p fuel ta encodes room call.cmdId call.types call.params with
  | rejected result code same =>
    rw [same] at done
    exact .inl (congrArg Prod.fst (Except.ok.inj done)).symm
  | served command serves =>
    split at serves
    · rw [serves] at done
      cases done
    · rename_i invoked
      obtain ⟨params', same⟩ := serves
      rw [same] at done
      obtain rfl : _ = ta' := congrArg Prod.fst (Except.ok.inj done)
      exact .inr ⟨command, fuel, _, invoked⟩

/-- What a session is after calls with any command, types and memory. -/
structure Served (p : Platform) (memory : Session) (ta : Ta) : Prop where
  reached : ∃ commands, Run (Step p) (Ta.start memory) commands ta
  room : HasRoom ta
  faults : ∀ fuel cmdId types params fault,
    taInvokeCommandEntryPoint p fuel ta cmdId types params = .error fault →
      ∃ command, invokeCommand p fuel ta command = .error fault

theorem served_of (encodes : Encodes p.qcbor) (room : HasRoom ta)
    (reached : ∃ commands, Run (Step p) (Ta.start memory) commands ta) : Served p memory ta := by
  refine ⟨reached, room, ?_⟩
  intro fuel cmdId types params fault fails
  cases @entered p fuel ta encodes room cmdId types params with
  | rejected result code same =>
    rw [same] at fails
    cases fails
  | served command serves =>
    split at serves
    · rename_i fault' invoked
      rw [serves] at fails
      cases fails
      exact ⟨command, invoked⟩
    · obtain ⟨params', same⟩ := serves
      rw [same] at fails
      cases fails

/-- Whatever the normal world calls, in any order, the agent goes through a run of its
commands; what a call returns stays in the memory it was given, and a fault is one of a
command. -/
theorem entry_points_refine (encodes : Encodes p.qcbor)
    (array : memory.taskBuffer.postData.length = teepMaxMessageLen) {calls : List EntryCall}
    (run : Run (EntryStep p) (Ta.start memory) calls ta) :
    Served p memory ta ∧ ∀ call ∈ calls, Within call.params call.returned := by
  induction run with
  | nil => exact ⟨served_of encodes (start_hasRoom array) ⟨[], .nil _⟩, nofun⟩
  | @snoc ta ta' calls call _ last ih =>
    obtain ⟨served, within⟩ := ih
    refine ⟨?_, ?_⟩
    · rcases entryStep_command encodes served.room last with rfl | ⟨command, step⟩
      · exact served
      · obtain ⟨commands, reached⟩ := served.reached
        exact served_of encodes (step_hasRoom encodes served.room step) ⟨_, reached.snoc step⟩
    · intro other member
      rcases List.mem_append.mp member with earlier | here
      · exact within other earlier
      · rw [List.mem_singleton.mp here]
        obtain ⟨fuel, done⟩ := last
        exact entryPoint_within done

/-- An option with a wrong word of types, and a command that there is not. -/
def straySession : List EntryCall :=
  [⟨teepAgentSetDevOption, 0, fun _ => .blank, teeErrorBadParameters, fun _ => .blank⟩,
    ⟨9, 0, fun _ => .blank, teeErrorNotImplemented, fun _ => .blank⟩]

theorem entry_points_refine_stray :
    Run (EntryStep readmePlatform) (Ta.start blankMemory) straySession (Ta.start blankMemory) ∧
      Served readmePlatform blankMemory (Ta.start blankMemory) ∧
      ∀ call ∈ straySession, Within call.params call.returned := by
  have run : Run (EntryStep readmePlatform) (Ta.start blankMemory) straySession
      (Ta.start blankMemory) := by
    apply Run.cons (t := Ta.start blankMemory)
    · exact ⟨0, rfl⟩
    · exact Run.cons ⟨0, rfl⟩ (.nil _)
  exact ⟨run, entry_points_refine referenceQcbor_encodes (by decide +kernel) run⟩

end Calls

end TeepDevice.Agent
