import TeepDevice.Agent.Correlation

/-! The broker (teep-broker.c) and its loop around the agent: HTTP requests
succeed with arbitrary bodies, and TEEC hands results on unchanged. -/
namespace TeepDevice.Broker
open Tcbor Suit Teep Agent Transition

/-- The cast of a result to a 32-bit `int`. -/
def toInt (result : Nat) : Int := if result < 2 ^ 31 then result else (result : Int) - 2 ^ 32

/-- `struct broker_task` as the broker received it. -/
structure Task where
  command : BrokerCommand
  uri : Bytes
  postData : Bytes
  deriving DecidableEq, Repr

section Calls
variable (p : Platform) (fuel : Nat)

def setAgentDevOption (ta : Ta) (option : Nat) (value : Bytes) : Except Fault (Ta × Int) :=
  match invokeCommand p fuel ta (.setDevOption option (value ++ [0])) with
  | .error fault => .error fault
  | .ok (ta, response) => .ok (ta, toInt response.result)

def brokerTaskDone (ta : Ta) (body : Bytes) : Except Fault (Ta × Int) :=
  match invokeCommand p fuel ta (.brokerTaskDone body) with
  | .error fault => .error fault
  | .ok (ta, response) => .ok (ta, toInt response.result)

/-- The task is there only if the agent reported success. -/
def agentQueryNextBrokerTask (ta : Ta) : Except Fault (Ta × Int × Option Task) :=
  match invokeCommand p fuel ta (.queryNextBrokerTask teepMaxUriLen teepMaxMessageLen) with
  | .error fault => .error fault
  | .ok (ta, ⟨result, none⟩) => .ok (ta, toInt result, none)
  | .ok (ta, ⟨_, some (command, uri, postData)⟩) =>
    if uri.getLast? ≠ some 0 then .ok (ta, -1, none) else .ok (ta, 0, some ⟨command, uri, postData⟩)

/-- Where `loop_teep` is: at its head, in an HTTP request, or left with a result. -/
inductive Position where
  | querying
  | requesting (task : Task)
  | exited (result : Int)
  deriving DecidableEq, Repr

structure System where
  ta : Ta
  position : Position

/-- `loop_teep` from one position to the next; `body` is what the HTTP request
under way is answered with, `broker_http_post` and `broker_http_get` alike. -/
def loopTeep (s : System) (body : Bytes) : Except Fault System :=
  match s.position with
  | .exited result => .ok ⟨s.ta, .exited result⟩
  | .querying =>
    match agentQueryNextBrokerTask p fuel s.ta with
    | .error fault => .error fault
    | .ok (ta, _, none) => .ok ⟨ta, .exited (-1)⟩
    | .ok (ta, result, some task) =>
      if result < 0 then .ok ⟨ta, .exited (-1)⟩
      else if task.command = .finish then .ok ⟨ta, .exited 0⟩
      else .ok ⟨ta, .requesting task⟩
  | .requesting _ =>
    match brokerTaskDone p fuel s.ta body with
    | .error fault => .error fault
    | .ok (ta, result) =>
      if result < 0 then .ok ⟨ta, .exited (-1)⟩ else .ok ⟨ta, .querying⟩

/-- The two options are set first, and their results are not looked at. -/
def System.start (memory : Session) (uri talist : Bytes) : Except Fault System :=
  match setAgentDevOption p fuel (Ta.start memory) 0 uri with
  | .error fault => .error fault
  | .ok (ta, _) =>
    match setAgentDevOption p fuel ta 1 talist with
    | .error fault => .error fault
    | .ok (ta, _) => .ok ⟨ta, .querying⟩

end Calls

/-- One step of the composed system. -/
def LoopStep (p : Platform) (s : System) (body : Bytes) (s' : System) : Prop :=
  ∃ fuel, loopTeep p fuel s body = .ok s'

/-- A step executed under a condition. -/
def execLoop (p : Platform) (fuel : Nat) (ok : System → Bytes → Prop)
    [∀ s body, Decidable (ok s body)] (s : System) (body : Bytes) : Option System :=
  if ok s body then
    match loopTeep p fuel s body with
    | .error _ => none
    | .ok s' => some s'
  else none

theorem execLoop_guarded {p : Platform} {fuel : Nat} {ok : System → Bytes → Prop}
    [∀ s body, Decidable (ok s body)] {s s' : System} {body : Bytes}
    (executed : execLoop p fuel ok s body = some s') : Guarded ok (LoopStep p) s body s' := by
  unfold execLoop at executed
  split at executed
  · rename_i condition
    split at executed
    · cases executed
    · rename_i next done
      cases executed
      exact ⟨condition, fuel, done⟩
  · cases executed

end TeepDevice.Broker
