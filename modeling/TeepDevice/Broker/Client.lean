import TeepDevice.Broker.Delivery
import TeepDevice.Broker.Http
import TeepDevice.Broker.Teec
import TeepDevice.Loop

/-! `broker_main` as the sequence of its TEEC calls (teep-broker.c): what each call
is made with, what is taken from it, and the HTTP requests in between. Over an
exact transport it is the loop of Broker.Loop. -/
namespace TeepDevice.Broker
open Tcbor Suit Teep Agent Transition

/-- `struct broker_task` on the stack of the broker. -/
structure RawTask where
  command : Nat
  uri : Bytes
  postData : Bytes
  postDataLen : Nat
  deriving DecidableEq, Repr

/-- The local `task` before a query: its arrays have their sizes and hold anything. -/
structure TaskMemory extends RawTask where
  uriSize : uri.length = teepMaxUriLen
  postDataSize : postData.length = teepMaxMessageLen

def httpResBufSize : Nat := 6 * 1024 * 1024

/-- What the broker meets: its command line, the stack under each query, and what
the requests are answered with, where `none` is a request that fails. -/
structure World where
  uri : Bytes
  talist : Bytes
  stack : Nat → TaskMemory
  reply : Nat → Option Bytes
  uriSmall : uri.length + 1 < 2 ^ 32
  talistSmall : talist.length + 1 < 2 ^ 32
  replySmall : ∀ n body, reply n = some body → body.length ≤ httpResBufSize

/-- A request as it goes out, and what came back. -/
structure Exchange where
  method : Http.Method
  url : Bytes
  data : Bytes
  reply : Option Bytes
  deriving DecidableEq, Repr

/-- Which call comes next. -/
inductive Place where
  | settingUri | settingTaList | querying
  | reporting (body : Bytes)
  | closing (result : Int)
  | closed (result : Int)
  deriving DecidableEq, Repr

structure Host where
  place : Place
  queries : Nat
  trace : List Exchange
  deriving DecidableEq, Repr

def Host.start : Host := ⟨.settingUri, 0, []⟩

inductive Call where
  | invoke (commandId : Nat) (op : Operation)
  | close

def optionOperation (option : Nat) (value : Bytes) : Operation where
  paramTypes := paramTypes typeValueInput typeMemrefInput typeNone typeNone
  params
    | 0 => ⟨option, 0, [], 0⟩
    | 1 => ⟨0, 0, value ++ [0], value.length + 1⟩
    | _ => .blank

def doneOperation (body : Bytes) : Operation where
  paramTypes := paramTypes typeMemrefInput typeNone typeNone typeNone
  params
    | 0 => ⟨0, 0, body, body.length⟩
    | _ => .blank

def queryOperation (task : TaskMemory) : Operation where
  paramTypes := paramTypes typeValueOutput typeMemrefOutput typeMemrefOutput typeNone
  params
    | 1 => ⟨0, 0, task.uri, teepMaxUriLen⟩
    | 2 => ⟨0, 0, task.postData, teepMaxMessageLen⟩
    | _ => .blank

section Code
variable (w : World)

/-- The call that is made at a place, or the return of `broker_main`'s loop. -/
def Host.next (host : Host) : Call ⊕ Int :=
  match host.place with
  | .settingUri => .inl (.invoke teepAgentSetDevOption (optionOperation 0 w.uri))
  | .settingTaList => .inl (.invoke teepAgentSetDevOption (optionOperation 1 w.talist))
  | .querying =>
    .inl (.invoke teepAgentQueryNextBrokerTask (queryOperation (w.stack host.queries)))
  | .reporting body => .inl (.invoke teepAgentBrokerTaskDone (doneOperation body))
  | .closing _ => .inl .close
  | .closed result => .inr result

/-- `broker_http_post` and `broker_http_get` up to the call of `broker_task_done`. -/
def Host.request (host : Host) (method : Http.Method) (task : RawTask) : Host :=
  let data :=
    match method with
    | .post => task.postData.take task.postDataLen
    | .get => []
  let reply := w.reply host.trace.length
  let trace := host.trace ++ [⟨method, task.uri.takeWhile (· ≠ 0), data, reply⟩]
  match reply with
  | none => { host with place := .closing (-1), trace := trace }
  | some body => { host with place := .reporting body, trace := trace }

/-- The body of the loop of `loop_teep` from the task on. -/
def Host.dispatch (host : Host) (task : RawTask) : Host :=
  if task.command = BrokerCommand.finish.number then { host with place := .closing 0 }
  else if task.command = BrokerCommand.httpPost.number then host.request w .post task
  else if task.command = BrokerCommand.httpGet.number then host.request w .get task
  else { host with place := .closing (-1) }

/-- The end of `agent_query_next_broker_task`. A result that is neither success nor
negative leaves a task that was not filled in. -/
def Host.queried (host : Host) (result : Nat) (op : Operation) : Host :=
  let memory := w.stack host.queries
  let host := { host with queries := host.queries + 1 }
  if result = teeSuccess then
    if ((op.params 1).buffer.take (op.params 1).size).getLast? ≠ some 0 then
      { host with place := .closing (-1) }
    else
      host.dispatch w ⟨(op.params 0).a, (op.params 1).buffer, (op.params 2).buffer,
        (op.params 2).size⟩
  else if toInt result < 0 then { host with place := .closing (-1) }
  else
    host.dispatch w ⟨memory.command, (op.params 1).buffer, (op.params 2).buffer,
      memory.postDataLen⟩

/-- How the broker goes on after a call of the TA. -/
def Host.took (host : Host) (result : Nat) (op : Operation) : Host :=
  match host.place with
  | .settingUri => { host with place := .settingTaList }
  | .settingTaList => { host with place := .querying }
  | .querying => host.queried w result op
  | .reporting _ =>
    if toInt result < 0 then { host with place := .closing (-1) }
    else { host with place := .querying }
  | .closing result => { host with place := .closed result }
  | .closed _ => host

/-- The return of `TEEC_CloseSession`. -/
def Host.hungUp (host : Host) : Host :=
  match host.place with
  | .closing result => { host with place := .closed result }
  | _ => host

/-- How a run of the broker ends: with the result of `loop_teep`, the TA and the
requests made, or in a trap. -/
abbrev Outcome : Type := Except Trap (Int × Ta × List Exchange)

/-- One call of the broker over a transport. -/
def mainBody (invoke : Transport) (s : Host × Ta) : (Host × Ta) ⊕ Outcome :=
  match s.1.next w with
  | .inr result => .inr (.ok (result, s.2, s.1.trace))
  | .inl .close => .inl (s.1.hungUp, s.2)
  | .inl (.invoke commandId op) =>
    match invoke s.2 commandId op with
    | .error trap => .inr (.error trap)
    | .ok (ta, result, op) => .inl (s.1.took w result op, ta)

def brokerMain (invoke : Transport) (fuel : Nat) (s : Host × Ta) : Option Outcome :=
  Loop.iter (mainBody w invoke) fuel s

end Code

section Readme

def blankTask : TaskMemory where
  command := 0
  uri := List.replicate teepMaxUriLen 0
  postData := List.replicate teepMaxMessageLen 0
  postDataLen := 0
  uriSize := List.length_replicate
  postDataSize := List.length_replicate

/-- The answers of the session that README.md shows: the two messages of the TAM, the
component, and nothing to the Success. -/
def readmeReplies : List Bytes :=
  [readmeQueryRequest, readmeUpdate, [0x7F, 0x45, 0x4C, 0x46], []]

theorem readmeReplies_small : ∀ body ∈ readmeReplies, body.length ≤ httpResBufSize := by
  decide +kernel

def readmeWorld : World where
  uri := [0x61]
  talist := []
  stack _ := blankTask
  reply n := readmeReplies[n]?
  uriSmall := by decide
  talistSmall := by decide
  replySmall _ body replied := readmeReplies_small body (List.mem_of_getElem? replied)

end Readme

section Sending
variable {w : World}

theorem backed_blank : Backed TeeParam.blank := ⟨Nat.le_refl _, by decide⟩

def optionDirections : Fin 4 → Direction
  | 0 => .valueInput
  | 1 => .memrefInput
  | 2 => .none
  | 3 => .none

def doneDirections : Fin 4 → Direction
  | 0 => .memrefInput
  | 1 => .none
  | 2 => .none
  | 3 => .none

def queryDirections : Fin 4 → Direction
  | 0 => .valueOutput
  | 1 => .memrefOutput
  | 2 => .memrefOutput
  | 3 => .none

theorem optionOperation_sendable (option : Nat) {value : Bytes}
    (small : value.length + 1 < 2 ^ 32) :
    Sendable (optionOperation option value) optionDirections := by
  apply Sendable.of_word rfl
  intro i
  match i with
  | 0 => exact ⟨Nat.le_refl _, Nat.two_pow_pos 32⟩
  | 1 =>
    have length : (value ++ [(0 : UInt8)]).length = value.length + 1 := List.length_append
    exact ⟨Nat.le_of_eq length.symm, small⟩
  | 2 => exact backed_blank
  | 3 => exact backed_blank

theorem doneOperation_sendable {body : Bytes} (small : body.length < 2 ^ 32) :
    Sendable (doneOperation body) doneDirections := by
  apply Sendable.of_word rfl
  intro i
  match i with
  | 0 => exact ⟨Nat.le_refl _, small⟩
  | 1 => exact backed_blank
  | 2 => exact backed_blank
  | 3 => exact backed_blank

theorem queryOperation_sendable (task : TaskMemory) :
    Sendable (queryOperation task) queryDirections := by
  apply Sendable.of_word rfl
  intro i
  match i with
  | 0 => exact backed_blank
  | 1 =>
    have small : teepMaxUriLen < 2 ^ 32 := by decide
    exact ⟨Nat.le_of_eq task.uriSize.symm, small⟩
  | 2 =>
    have small : teepMaxMessageLen < 2 ^ 32 := by decide
    exact ⟨Nat.le_of_eq task.postDataSize.symm, small⟩
  | 3 => exact backed_blank

/-- Only a reply that was received is reported. -/
def Host.Bounded (host : Host) : Prop :=
  ∀ body, host.place = .reporting body → body.length < 2 ^ 32

/-- Whatever the broker sends can be sent. -/
theorem next_sendable {host : Host} (bounded : host.Bounded) {commandId : Nat} {op : Operation}
    (next : host.next w = .inl (.invoke commandId op)) :
    ∃ directions, Sendable op directions := by
  unfold Host.next at next
  split at next
  · cases next
    exact ⟨_, optionOperation_sendable 0 w.uriSmall⟩
  · cases next
    exact ⟨_, optionOperation_sendable 1 w.talistSmall⟩
  · cases next
    exact ⟨_, queryOperation_sendable _⟩
  · rename_i body place
    cases next
    exact ⟨_, doneOperation_sendable (bounded body place)⟩
  · cases next
  · cases next

theorem request_bounded (host : Host) (method : Http.Method) (task : RawTask) :
    (host.request w method task).Bounded := by
  intro body place
  unfold Host.request at place
  dsimp only at place
  split at place
  · cases place
  · rename_i reply
    cases place
    have size := w.replySmall _ _ reply
    have buffer : httpResBufSize < 2 ^ 32 := by decide
    omega

theorem dispatch_bounded (host : Host) (task : RawTask) : (host.dispatch w task).Bounded := by
  unfold Host.dispatch
  split
  · intro body place
    cases place
  · split
    · exact request_bounded host .post task
    · split
      · exact request_bounded host .get task
      · intro body place
        cases place

theorem took_bounded {host : Host} (result : Nat) (op : Operation) :
    (host.took w result op).Bounded := by
  unfold Host.took
  split
  · intro body place
    cases place
  · intro body place
    cases place
  · unfold Host.queried
    dsimp only
    split
    · split
      · intro body place
        cases place
      · exact dispatch_bounded _ _
    · split
      · intro body place
        cases place
      · exact dispatch_bounded _ _
  · split
    · intro body place
      cases place
    · intro body place
      cases place
  · intro body place
    cases place
  · rename_i result closed
    intro body place
    rw [closed] at place
    cases place

theorem hungUp_bounded {host : Host} (bounded : host.Bounded) : host.hungUp.Bounded := by
  unfold Host.hungUp
  split
  · intro body place
    cases place
  · exact bounded

theorem pass_bounded {invoke : Transport} {s s' : Host × Ta} (bounded : s.1.Bounded)
    (pass : mainBody w invoke s = .inl s') : s'.1.Bounded := by
  unfold mainBody at pass
  split at pass
  · cases pass
  · cases pass
    exact hungUp_bounded bounded
  · split at pass
    · cases pass
    · cases pass
      exact took_bounded _ _

end Sending

section Results
variable {p : Platform} {fuel : Nat}

/-- Success, or an error that is negative as an `int`. -/
def Settled (result : Nat) : Prop := result = teeSuccess ∨ toInt result < 0

theorem settled_success : Settled teeSuccess := .inl rfl

theorem settled_badParameters : Settled teeErrorBadParameters := .inr (by decide)

theorem settled_badState : Settled teeErrorBadState := .inr (by decide)

theorem settled_badFormat : Settled teeErrorBadFormat := .inr (by decide)

theorem settled_notImplemented : Settled teeErrorNotImplemented := .inr (by decide)

theorem setDevOption_settled (ta : Ta) (option : Nat) (value : Bytes) :
    Settled (setDevOption p ta option value).2 := by
  unfold setDevOption
  split
  · exact settled_badState
  · split
    · split
      · exact settled_badParameters
      · exact settled_success
    · split
      · split
        · exact settled_success
        · split
          · exact settled_badParameters
          · exact settled_success
      · exact settled_badParameters

theorem tamOutcome_settled {ta ta' : Ta} {buffer : Bytes} {result : Nat}
    (outcome : TamOutcome p ta buffer ta' result) : Settled result := by
  cases outcome with
  | ended => exact settled_success
  | afterError => exact settled_badFormat
  | unparsed => exact settled_badFormat
  | refused => exact settled_success
  | requested => exact settled_success
  | notStored => exact settled_success
  | updated => exact settled_success

theorem handleComponentDownload_settled (ta : Ta) (buffer : Bytes) :
    Settled (handleComponentDownload p ta buffer).2 := by
  unfold handleComponentDownload
  split
  · exact settled_badState
  · exact settled_success

theorem brokerTaskDone_settled {ta ta' : Ta} {buffer : Bytes} {result : Nat}
    (done : Agent.brokerTaskDone p ta buffer = .ok (ta', result)) : Settled result := by
  unfold Agent.brokerTaskDone at done
  split at done
  · cases done
    exact settled_badState
  · split at done
    · cases done
      exact settled_badState
    · split at done
      · cases done
      · rename_i handled
        cases done
        exact tamOutcome_settled (handleTamMessage_outcome handled)
    · have settled := handleComponentDownload_settled (p := p) ta buffer
      cases done
      exact settled

theorem entryPoint_settled {ta ta' : Ta} {cmdId types result : Nat} {params params' : TeeParams}
    (done : taInvokeCommandEntryPoint p fuel ta cmdId types params = .ok (ta', result, params')) :
    Settled result := by
  unfold taInvokeCommandEntryPoint at done
  split at done
  · unfold handleSetDevOption at done
    split at done
    · cases done
    · rename_i handled
      cases done
      split at handled
      · cases handled
        exact settled_badParameters
      · split at handled
        · cases handled
        · split at handled
          · cases handled
            exact settled_badParameters
          · have settled := setDevOption_settled (p := p) ta (params 0).a
              ((params 1).bytes.takeWhile (· ≠ 0))
            rw [Except.ok.inj handled] at settled
            exact settled
  · split at done
    · unfold handleBrokerTaskDone at done
      split at done
      · cases done
      · rename_i handled
        cases done
        split at handled
        · cases handled
          exact settled_badParameters
        · exact brokerTaskDone_settled handled
    · split at done
      · unfold handleQueryNextBrokerTask at done
        split at done
        · cases done
          exact settled_badParameters
        · split at done
          · cases done
          · dsimp only at done
            split at done
            · cases done
            · split at done
              · cases done
              · cases done
                exact settled_badParameters
              · split at done
                · cases done
                · cases done
                  exact settled_badParameters
                · cases done
                  exact settled_success
      · cases done
        exact settled_notImplemented

end Results

section Agreement
variable {w : World} {p : Platform} {fuel : Nat}

/-- What the broker takes from a call that failed does not depend on the outputs. -/
theorem took_failed (host : Host) {result : Nat} (failed : result ≠ teeSuccess)
    (settled : Settled result) (op op' : Operation) :
    host.took w result op = host.took w result op' := by
  have negative : toInt result < 0 := settled.resolve_left failed
  unfold Host.took
  split
  · rfl
  · rfl
  · unfold Host.queried
    dsimp only
    rw [if_neg failed, if_pos negative, if_neg failed, if_pos negative]
  · rfl
  · rfl
  · rfl

/-- Two exact transports take the broker the same step. -/
theorem mainBody_agree {left right : Transport} (exact : Exact p fuel left)
    (exact' : Exact p fuel right) {s : Host × Ta} (bounded : s.1.Bounded) :
    mainBody w left s = mainBody w right s := by
  obtain ⟨host, ta⟩ := s
  unfold mainBody
  cases next : host.next w with
  | inr result => rfl
  | inl call =>
    cases call with
    | close => rfl
    | invoke commandId op =>
      simp only
      obtain ⟨directions, sendable⟩ := next_sendable bounded next
      have one := exact ta commandId op directions sendable
      have two := exact' ta commandId op directions sendable
      cases done : taInvokeCommandEntryPoint p fuel ta commandId op.paramTypes
          (fun i => (directions i).incoming (op.params i)) with
      | error fault =>
        rw [done] at one two
        rw [one, two]
      | ok outcome =>
        obtain ⟨ta', result, params⟩ := outcome
        rw [done] at one two
        obtain ⟨back, sent, outputs⟩ := one
        obtain ⟨back', sent', outputs'⟩ := two
        rw [sent, sent']
        by_cases success : result = teeSuccess
        · rw [outputs success, outputs' success]
        · have same := took_failed (w := w) host success (entryPoint_settled done) back back'
          simp only [same]

/-- A run of the broker does not depend on which exact transport carries it. -/
theorem brokerMain_agree {left right : Transport} (exact : Exact p fuel left)
    (exact' : Exact p fuel right) (n : Nat) {s : Host × Ta} (bounded : s.1.Bounded) :
    brokerMain w left n s = brokerMain w right n s := by
  induction n generalizing s with
  | zero => rfl
  | succ n ih =>
    have same := mainBody_agree (w := w) exact exact' bounded
    unfold brokerMain Loop.iter
    cases pass : mainBody w left s with
    | inl s' =>
      rw [← same, pass]
      exact ih (pass_bounded bounded pass)
    | inr outcome => rw [← same, pass]

end Agreement

end TeepDevice.Broker
