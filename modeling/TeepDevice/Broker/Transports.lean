import TeepDevice.Broker.Client
import TeepDevice.Broker.TeecPc

/-! The broker over an exact transport takes the steps of the loop of Broker.Loop,
and its requests are the tasks of that loop with their replies. -/
namespace TeepDevice.Broker
open Tcbor Suit Teep Agent Transition

/-- The request made for a task, with its reply. -/
def exchangeOf (task : Task) (reply : Option Bytes) : Exchange :=
  match task.command with
  | .httpGet => ⟨.get, task.uri.takeWhile (· ≠ 0), [], reply⟩
  | _ => ⟨.post, task.uri.takeWhile (· ≠ 0), task.postData, reply⟩

/-- The loop with the requests it made and their replies. -/
structure Traced where
  system : System
  trace : List Exchange

/-- A step of the loop; the request under way is on record when it is answered. -/
def TracedStep (p : Platform) (s : Traced) (body : Bytes) (s' : Traced) : Prop :=
  LoopStep p s.system body s'.system ∧
    s'.trace =
      match s.system.position with
      | .requesting task => s.trace ++ [exchangeOf task (some body)]
      | _ => s.trace

/-- Where the loop is when the broker is at a place. A request that failed leaves the
loop waiting for ever. -/
inductive At : Host → Position → List Exchange → Prop where
  | querying {queries : Nat} {trace : List Exchange} :
    At ⟨.querying, queries, trace⟩ .querying trace
  | reporting {queries : Nat} {trace : List Exchange} (task : Task) (body : Bytes) :
    At ⟨.reporting body, queries, trace ++ [exchangeOf task (some body)]⟩ (.requesting task) trace
  | failed {place : Place} {queries : Nat} {trace : List Exchange} (task : Task)
      (left : place = .closing (-1) ∨ place = .closed (-1)) :
    At ⟨place, queries, trace ++ [exchangeOf task none]⟩ (.requesting task) trace
  | left {place : Place} {queries : Nat} {trace : List Exchange} {result : Int}
      (left : place = .closing result ∨ place = .closed result) :
    At ⟨place, queries, trace⟩ (.exited result) trace

section Steps
variable {p : Platform} {fuel : Nat} {w : World} {invoke : Transport}

theorem optionOperation_bytes (option : Nat) (value : Bytes) :
    ((optionDirections 1).incoming ((optionOperation option value).params 1)).bytes =
      value ++ [0] := by
  have length : value.length + 1 = (value ++ [(0 : UInt8)]).length := by
    rw [List.length_append, List.length_singleton]
  change ((value ++ [0]).take (value.length + 1)).take (value.length + 1) = value ++ [0]
  rw [length, List.take_length, List.take_length]

theorem doneOperation_bytes (body : Bytes) :
    ((doneDirections 0).incoming ((doneOperation body).params 0)).bytes = body := by
  change (body.take body.length).take body.length = body
  rw [List.take_length, List.take_length]

theorem exact_option (exact : Exact p fuel invoke) (ta : Ta) (option : Nat) {value : Bytes}
    (small : value.length + 1 < 2 ^ 32) :
    match invokeCommand p fuel ta (.setDevOption option (value ++ [0])) with
    | .error fault =>
      invoke ta teepAgentSetDevOption (optionOperation option value) = .error (.ta fault)
    | .ok (ta', response) => ∃ returned,
      invoke ta teepAgentSetDevOption (optionOperation option value) =
        .ok (ta', response.result, returned) := by
  have sendable := optionOperation_sendable option small
  have entry := entryPoint_setDevOption p fuel ta
    (fun i => (optionDirections i).incoming ((optionOperation option value).params i))
  rw [optionOperation_bytes] at entry
  cases done : invokeCommand p fuel ta (.setDevOption option (value ++ [0])) with
  | error fault => exact exact.error sendable (entry.trans (congrArg _ done))
  | ok outcome =>
    obtain ⟨returned, sent, _⟩ := exact.ok sendable (entry.trans (congrArg _ done))
    exact ⟨returned, sent⟩

theorem exact_done (exact : Exact p fuel invoke) (ta : Ta) {body : Bytes}
    (small : body.length < 2 ^ 32) :
    match invokeCommand p fuel ta (.brokerTaskDone body) with
    | .error fault =>
      invoke ta teepAgentBrokerTaskDone (doneOperation body) = .error (.ta fault)
    | .ok (ta', response) => ∃ returned,
      invoke ta teepAgentBrokerTaskDone (doneOperation body) =
        .ok (ta', response.result, returned) := by
  have sendable := doneOperation_sendable small
  have entry := entryPoint_brokerTaskDone p fuel ta
    (fun i => (doneDirections i).incoming ((doneOperation body).params i))
  rw [doneOperation_bytes] at entry
  cases done : invokeCommand p fuel ta (.brokerTaskDone body) with
  | error fault => exact exact.error sendable (entry.trans (congrArg _ done))
  | ok outcome =>
    obtain ⟨returned, sent, _⟩ := exact.ok sendable (entry.trans (congrArg _ done))
    exact ⟨returned, sent⟩

/-- The operation of a query that was answered with a task. -/
def answered (task : TaskMemory) (command : BrokerCommand) (uri data : Bytes) : Operation where
  paramTypes := (queryOperation task).paramTypes
  params
    | 0 => ⟨command.number, 0, [], 0⟩
    | 1 => ⟨0, 0, uri ++ task.uri.drop uri.length, uri.length⟩
    | 2 => ⟨0, 0, data ++ task.postData.drop data.length, data.length⟩
    | 3 => .blank

theorem returned_filled (param tee : TeeParam) (src : Bytes) :
    Direction.memrefOutput.returned param (tee.filled src) =
      { param with size := src.length, buffer := src ++ param.buffer.drop src.length } := by
  have bytes : (tee.filled src).bytes = src := List.take_left
  simp only [Direction.returned, bytes]
  rfl

theorem exact_query_task (exact : Exact p fuel invoke) {ta ta' : Ta} (task : TaskMemory)
    {command : BrokerCommand} {uri data : Bytes} {result : Nat}
    (done : invokeCommand p fuel ta (.queryNextBrokerTask teepMaxUriLen teepMaxMessageLen) =
      .ok (ta', ⟨result, some (command, uri, data)⟩))
    (roomy : ta'.session.taskBuffer.Roomy) (success : result = teeSuccess) :
    invoke ta teepAgentQueryNextBrokerTask (queryOperation task) =
      .ok (ta', result, answered task command uri data) := by
  have entry := entryPoint_query (fun i =>
    (queryDirections i).incoming ((queryOperation task).params i)) done roomy
  obtain ⟨returned, sent, outputs⟩ := exact.ok (queryOperation_sendable task) entry
  rw [sent, outputs success]
  congr 4
  exact params_ext rfl (returned_filled _ _ uri) (returned_filled _ _ data) rfl

theorem exact_query_refused (exact : Exact p fuel invoke) {ta ta' : Ta} (task : TaskMemory)
    {result : Nat}
    (done : invokeCommand p fuel ta (.queryNextBrokerTask teepMaxUriLen teepMaxMessageLen) =
      .ok (ta', ⟨result, none⟩)) :
    result = teeErrorBadParameters ∧ ∃ returned,
      invoke ta teepAgentQueryNextBrokerTask (queryOperation task) =
        .ok (ta', result, returned) := by
  obtain ⟨refused, params, entry⟩ := entryPoint_query_refused (fun i =>
    (queryDirections i).incoming ((queryOperation task).params i)) done
  obtain ⟨returned, sent, _⟩ := exact.ok (queryOperation_sendable task) entry
  exact ⟨refused, returned, sent⟩

theorem exact_query_fault (exact : Exact p fuel invoke) {ta : Ta} (task : TaskMemory)
    {fault : Fault}
    (done : invokeCommand p fuel ta (.queryNextBrokerTask teepMaxUriLen teepMaxMessageLen) =
      .error fault) :
    invoke ta teepAgentQueryNextBrokerTask (queryOperation task) = .error (.ta fault) :=
  exact.error (queryOperation_sendable task) (entryPoint_query_fault (fun i =>
    (queryDirections i).incoming ((queryOperation task).params i)) done)

theorem takeWhile_terminated {uri : Bytes} (ends : 0 ∈ uri) (rest : Bytes) :
    (uri ++ rest).takeWhile (· ≠ 0) = uri.takeWhile (· ≠ 0) := by
  induction uri with
  | nil => cases ends
  | cons c uri ih =>
    rw [List.cons_append, List.takeWhile_cons, List.takeWhile_cons]
    by_cases zero : c = 0
    · simp only [zero, ne_eq, not_true_eq_false, decide_false, Bool.false_eq_true, if_false]
    · have later : 0 ∈ uri := (List.mem_cons.mp ends).resolve_left fun same => zero same.symm
      rw [ih later]

/-- A task that was copied out is requested as it is, or the loop is left. -/
theorem dispatch_answered (w : World) (queries : Nat) (trace : List Exchange) (task : TaskMemory)
    (command : BrokerCommand) (string data : Bytes) :
    At (Host.dispatch w ⟨.querying, queries, trace⟩
        ⟨command.number, (string ++ [0]) ++ task.uri.drop (string.length + 1),
          data ++ task.postData.drop data.length, data.length⟩)
      (if command = .finish then .exited 0 else .requesting ⟨command, string ++ [0], data⟩)
      trace := by
  have zero : (0 : UInt8) ∈ string ++ [0] := List.mem_append_right _ List.mem_cons_self
  have url := takeWhile_terminated zero (task.uri.drop (string.length + 1))
  have body : (data ++ task.postData.drop data.length).take data.length = data := List.take_left
  cases command with
  | finish => exact .left (.inl rfl)
  | httpPost =>
    change At (Host.request w ⟨.querying, queries, trace⟩ .post _) (.requesting _) trace
    unfold Host.request
    simp only [url, body]
    cases w.reply trace.length with
    | none => exact .failed ⟨.httpPost, string ++ [0], data⟩ (.inl rfl)
    | some reply => exact .reporting ⟨.httpPost, string ++ [0], data⟩ reply
  | httpGet =>
    change At (Host.request w ⟨.querying, queries, trace⟩ .get _) (.requesting _) trace
    unfold Host.request
    simp only [url]
    cases w.reply trace.length with
    | none => exact .failed ⟨.httpGet, string ++ [0], data⟩ (.inl rfl)
    | some reply => exact .reporting ⟨.httpGet, string ++ [0], data⟩ reply

theorem copied_task {task : BrokerTask} {uriSize postDataSize result : Nat}
    {command : BrokerCommand} {uri data : Bytes}
    (copied : copyoutTask task uriSize postDataSize = .ok ⟨result, some (command, uri, data)⟩) :
    result = teeSuccess ∧ ∃ string, uri = string ++ [0] := by
  rcases copyoutTask_cases copied with refused | ⟨string, data', handed⟩
  · cases refused
  · cases handed
    exact ⟨rfl, string, rfl⟩

theorem loopTeep_refused {ta ta' : Ta} {result : Nat} (body : Bytes)
    (done : invokeCommand p fuel ta (.queryNextBrokerTask teepMaxUriLen teepMaxMessageLen) =
      .ok (ta', ⟨result, none⟩)) :
    loopTeep p fuel ⟨ta, .querying⟩ body = .ok ⟨ta', .exited (-1)⟩ := by
  simp only [loopTeep, agentQueryNextBrokerTask, done]

theorem loopTeep_task {ta ta' : Ta} {result : Nat} {command : BrokerCommand}
    {string data : Bytes} (body : Bytes)
    (done : invokeCommand p fuel ta (.queryNextBrokerTask teepMaxUriLen teepMaxMessageLen) =
      .ok (ta', ⟨result, some (command, string ++ [0], data)⟩)) :
    loopTeep p fuel ⟨ta, .querying⟩ body =
      .ok ⟨ta', if command = .finish then .exited 0
        else .requesting ⟨command, string ++ [0], data⟩⟩ := by
  have ends : ¬ (string ++ [(0 : UInt8)]).getLast? ≠ some 0 := by
    rw [List.getLast?_concat]
    exact fun other => other rfl
  simp only [loopTeep, agentQueryNextBrokerTask, done, if_neg ends, lt_self_iff_false, if_false]
  split
  · rfl
  · rfl

theorem loopTeep_done {ta ta' : Ta} {response : Response} (task : Task) {body : Bytes}
    (done : invokeCommand p fuel ta (.brokerTaskDone body) = .ok (ta', response)) :
    loopTeep p fuel ⟨ta, .requesting task⟩ body =
      .ok ⟨ta', if toInt response.result < 0 then .exited (-1) else .querying⟩ := by
  simp only [loopTeep, brokerTaskDone, done]
  split
  · rfl
  · rfl

/-- A step of the loop is a command of the agent, or none once the loop was left. -/
theorem loopTeep_command {s s' : System} {body : Bytes} (step : loopTeep p fuel s body = .ok s') :
    s'.ta = s.ta ∨ ∃ command, Step p s.ta command s'.ta := by
  obtain ⟨ta, position⟩ := s
  cases position with
  | exited result =>
    cases step
    exact .inl rfl
  | querying =>
    right
    cases done : invokeCommand p fuel ta (.queryNextBrokerTask teepMaxUriLen teepMaxMessageLen) with
    | error fault =>
      simp only [loopTeep, agentQueryNextBrokerTask, done] at step
      cases step
    | ok outcome =>
      obtain ⟨ta', result, task⟩ := outcome
      cases task with
      | none =>
        rw [loopTeep_refused body done] at step
        cases step
        exact ⟨_, fuel, _, done⟩
      | some handed =>
        obtain ⟨command, uri, data⟩ := handed
        obtain ⟨-, copied⟩ := invokeCommand_query done
        obtain ⟨-, string, rfl⟩ := copied_task copied
        rw [loopTeep_task body done] at step
        cases step
        exact ⟨_, fuel, _, done⟩
  | requesting task =>
    right
    cases done : invokeCommand p fuel ta (.brokerTaskDone body) with
    | error fault =>
      simp only [loopTeep, brokerTaskDone, done] at step
      cases step
    | ok outcome =>
      obtain ⟨ta', response⟩ := outcome
      rw [loopTeep_done task done] at step
      cases step
      exact ⟨_, fuel, _, done⟩

theorem loopStep_hasRoom (encodes : Encodes p.qcbor) {s s' : System} {body : Bytes}
    (room : HasRoom s.ta) (step : LoopStep p s body s') : HasRoom s'.ta := by
  obtain ⟨fuel, step⟩ := step
  rcases loopTeep_command step with same | ⟨command, taken⟩
  · rw [same]
    exact room
  · exact step_hasRoom encodes room taken

/-- A pass of the broker over an exact transport is at most one step of the loop. -/
theorem pass_refines (exact : Exact p fuel invoke) (encodes : Encodes p.qcbor) {host : Host}
    {s : Traced} (room : HasRoom s.system.ta) (bounded : host.Bounded)
    (at_ : At host s.system.position s.trace) {next : Host × Ta}
    (pass : mainBody w invoke (host, s.system.ta) = .inl next) :
    ∃ bodies s', Run (TracedStep p) s bodies s' ∧ s'.system.ta = next.2 ∧
      At next.1 s'.system.position s'.trace := by
  obtain ⟨⟨ta, position⟩, trace⟩ := s
  cases at_ with
  | @querying queries =>
    cases done : invokeCommand p fuel ta (.queryNextBrokerTask teepMaxUriLen teepMaxMessageLen) with
    | error fault =>
      have fails := exact_query_fault exact (w.stack queries) done
      simp only [mainBody, Host.next, fails] at pass
      cases pass
    | ok outcome =>
      obtain ⟨ta', result, task⟩ := outcome
      cases task with
      | none =>
        obtain ⟨refused, returned, sent⟩ := exact_query_refused exact (w.stack queries) done
        have failed : ¬ result = teeSuccess := by rw [refused]; decide
        have negative : toInt result < 0 := by rw [refused]; decide
        simp only [mainBody, Host.next, sent, Host.took, Host.queried, if_neg failed,
          if_pos negative] at pass
        cases pass
        exact ⟨[[]], ⟨⟨ta', .exited (-1)⟩, trace⟩,
          .snoc (.nil _) ⟨⟨fuel, loopTeep_refused [] done⟩, rfl⟩, rfl, .left (.inl rfl)⟩
      | some handed =>
        obtain ⟨command, uri, data⟩ := handed
        obtain ⟨query, copied⟩ := invokeCommand_query done
        obtain ⟨success, string, rfl⟩ := copied_task copied
        have room' := step_hasRoom encodes room ⟨fuel, _, done⟩
        have sent := exact_query_task exact (w.stack queries) done (room'.roomy (query_busy query))
          success
        have ends : ¬ (((answered (w.stack queries) command (string ++ [0]) data).params 1).buffer.take
            ((answered (w.stack queries) command (string ++ [0]) data).params 1).size).getLast? ≠
            some 0 := by
          change ¬ ((string ++ [0] ++ (w.stack queries).uri.drop _).take
            (string ++ [0]).length).getLast? ≠ some 0
          rw [List.take_left, List.getLast?_concat]
          exact fun other => other rfl
        simp only [mainBody, Host.next, sent, Host.took, Host.queried, if_pos success,
          if_neg ends] at pass
        cases pass
        refine ⟨[[]], ⟨⟨ta', _⟩, trace⟩, .snoc (.nil _) ⟨⟨fuel, loopTeep_task [] done⟩, rfl⟩, rfl, ?_⟩
        have length : (string ++ [(0 : UInt8)]).length = string.length + 1 := by
          rw [List.length_append, List.length_singleton]
        have dispatched := dispatch_answered w (queries + 1) trace (w.stack queries) command string
          data
        rw [← length] at dispatched
        exact dispatched
  | @reporting queries _ task body =>
    have small := bounded body rfl
    have call := exact_done exact ta small
    cases done : invokeCommand p fuel ta (.brokerTaskDone body) with
    | error fault =>
      rw [done] at call
      simp only [mainBody, Host.next, call] at pass
      cases pass
    | ok outcome =>
      obtain ⟨ta', response⟩ := outcome
      rw [done] at call
      obtain ⟨returned, sent⟩ := call
      simp only [mainBody, Host.next, sent, Host.took] at pass
      refine ⟨[body], ⟨⟨ta', _⟩, trace ++ [exchangeOf task (some body)]⟩,
        .snoc (.nil _) ⟨⟨fuel, loopTeep_done task done⟩, rfl⟩, ?_⟩
      by_cases negative : toInt response.result < 0
      · rw [if_pos negative] at pass
        cases pass
        refine ⟨rfl, ?_⟩
        simp only [if_pos negative]
        exact .left (.inl rfl)
      · rw [if_neg negative] at pass
        cases pass
        refine ⟨rfl, ?_⟩
        simp only [if_neg negative]
        exact .querying
  | failed task left =>
    refine ⟨[], _, .nil _, ?_⟩
    rcases left with rfl | rfl
    · cases pass
      exact ⟨rfl, .failed task (.inr rfl)⟩
    · cases pass
  | left place =>
    refine ⟨[], _, .nil _, ?_⟩
    rcases place with rfl | rfl
    · cases pass
      exact ⟨rfl, .left (.inr rfl)⟩
    · cases pass

variable (p w invoke) in
/-- A pass of the broker that does not end it. -/
def Pass (s : Host × Ta) (_ : Unit) (s' : Host × Ta) : Prop := mainBody w invoke s = .inl s'

/-- The places before the loop, and the loop with a run that leads there. -/
inductive Started (p : Platform) (fuel : Nat) (w : World) (memory : Session) :
    Host × Ta → Prop where
  | uri : Started p fuel w memory (Host.start, Ta.start memory)
  | talist {ta : Ta} {result : Int}
      (set : setAgentDevOption p fuel (Ta.start memory) 0 w.uri = .ok (ta, result)) :
    Started p fuel w memory (⟨.settingTaList, 0, []⟩, ta)
  | looping {host : Host} {start : System} {bodies : List Bytes} {s : Traced}
      (started : System.start p fuel memory w.uri w.talist = .ok start)
      (run : Run (TracedStep p) ⟨start, []⟩ bodies s)
      (at_ : At host s.system.position s.trace) :
    Started p fuel w memory (host, s.system.ta)

theorem setAgentDevOption_of {ta ta' : Ta} {option : Nat} {value : Bytes} {response : Response}
    (done : invokeCommand p fuel ta (.setDevOption option (value ++ [0])) = .ok (ta', response)) :
    setAgentDevOption p fuel ta option value = .ok (ta', toInt response.result) := by
  simp only [setAgentDevOption, done]

theorem System.start_of {memory : Session} {ta ta' : Ta} {uri talist : Bytes}
    {result result' : Int} (first : setAgentDevOption p fuel (Ta.start memory) 0 uri = .ok (ta, result))
    (second : setAgentDevOption p fuel ta 1 talist = .ok (ta', result')) :
    System.start p fuel memory uri talist = .ok ⟨ta', .querying⟩ := by
  simp only [System.start, first, second]

theorem setAgentDevOption_hasRoom (encodes : Encodes p.qcbor) {ta ta' : Ta} {option : Nat}
    {value : Bytes} {result : Int} (room : HasRoom ta)
    (set : setAgentDevOption p fuel ta option value = .ok (ta', result)) : HasRoom ta' := by
  unfold setAgentDevOption at set
  split at set
  · cases set
  · rename_i done
    cases set
    exact step_hasRoom encodes room ⟨fuel, _, done⟩

theorem start_room (encodes : Encodes p.qcbor) {memory : Session}
    (array : memory.taskBuffer.postData.length = teepMaxMessageLen) {uri talist : Bytes}
    {s : System} (started : System.start p fuel memory uri talist = .ok s) : HasRoom s.ta := by
  unfold System.start at started
  split at started
  · cases started
  · rename_i first
    split at started
    · cases started
    · rename_i second
      cases started
      exact setAgentDevOption_hasRoom encodes (setAgentDevOption_hasRoom encodes
        (start_hasRoom array) first) second

theorem pass_started (exact : Exact p fuel invoke) (encodes : Encodes p.qcbor) {memory : Session}
    (array : memory.taskBuffer.postData.length = teepMaxMessageLen) {s s' : Host × Ta}
    (bounded : s.1.Bounded) (started : Started p fuel w memory s) (pass : Pass w invoke s () s') :
    Started p fuel w memory s' := by
  unfold Pass at pass
  cases started with
  | uri =>
    have call := exact_option exact (Ta.start memory) 0 w.uriSmall
    cases done : invokeCommand p fuel (Ta.start memory) (.setDevOption 0 (w.uri ++ [0])) with
    | error fault =>
      rw [done] at call
      simp only [mainBody, Host.start, Host.next, call] at pass
      cases pass
    | ok outcome =>
      rw [done] at call
      obtain ⟨returned, sent⟩ := call
      simp only [mainBody, Host.start, Host.next, sent, Host.took] at pass
      cases pass
      exact .talist (setAgentDevOption_of done)
  | @talist ta result set =>
    have call := exact_option exact ta 1 w.talistSmall
    cases done : invokeCommand p fuel ta (.setDevOption 1 (w.talist ++ [0])) with
    | error fault =>
      rw [done] at call
      simp only [mainBody, Host.next, call] at pass
      cases pass
    | ok outcome =>
      rw [done] at call
      obtain ⟨returned, sent⟩ := call
      simp only [mainBody, Host.next, sent, Host.took] at pass
      cases pass
      have whole := System.start_of set (setAgentDevOption_of done)
      exact Started.looping (s := ⟨⟨outcome.1, .querying⟩, []⟩) whole (.nil _) .querying
  | @looping host start bodies s started run at_ =>
    have room : HasRoom s.system.ta := run.invariant (fun s => HasRoom s.system.ta)
      (fun _ _ _ room step => loopStep_hasRoom encodes room step.1)
      (start_room encodes array started)
    obtain ⟨more, t, further, same, at'⟩ := pass_refines exact encodes room bounded at_ pass
    have next : s' = (s'.1, t.system.ta) := by rw [same]
    rw [next]
    exact .looping started (run.append further) at'

/-- Over an exact transport the broker does nothing but set its options and run the
loop: each state it reaches is one of the loop, with the requests of that run. -/
theorem run_started (exact : Exact p fuel invoke) (encodes : Encodes p.qcbor)
    {memory : Session} (array : memory.taskBuffer.postData.length = teepMaxMessageLen)
    {passes : List Unit} {s : Host × Ta}
    (run : Run (Pass w invoke) (Host.start, Ta.start memory) passes s) :
    Started p fuel w memory s := by
  have both : s.1.Bounded ∧ Started p fuel w memory s := by
    refine run.invariant (fun s => s.1.Bounded ∧ Started p fuel w memory s) ?_ ⟨?_, .uri⟩
    · rintro s ⟨⟩ s' ⟨bounded, started⟩ pass
      exact ⟨pass_bounded bounded pass, pass_started exact encodes array bounded started pass⟩
    · intro body place
      cases place
  exact both.2

theorem main_run {n : Nat} {s : Host × Ta} {outcome : Outcome}
    (ran : brokerMain w invoke n s = some outcome) :
    ∃ passes s', Run (Pass w invoke) s passes s' ∧ mainBody w invoke s' = .inr outcome := by
  induction n generalizing s with
  | zero => cases ran
  | succ n ih =>
    unfold brokerMain Loop.iter at ran
    cases pass : mainBody w invoke s with
    | inl next =>
      rw [pass] at ran
      obtain ⟨passes, s', run, last⟩ := ih ran
      exact ⟨() :: passes, s', .cons pass run, last⟩
    | inr early =>
      rw [pass] at ran
      cases ran
      exact ⟨[], s, .nil s, pass⟩

/-- A broker that returns has been through a run of the loop, to where the loop was left
with this result or to a request that failed. -/
inductive Returned (p : Platform) (fuel : Nat) (w : World) (memory : Session) (ta : Ta) :
    Int → List Exchange → Prop where
  | left {start : System} {bodies : List Bytes} {s : Traced} {result : Int}
      (started : System.start p fuel memory w.uri w.talist = .ok start)
      (run : Run (TracedStep p) ⟨start, []⟩ bodies s) (same : s.system.ta = ta)
      (position : s.system.position = .exited result) :
    Returned p fuel w memory ta result s.trace
  | failed {start : System} {bodies : List Bytes} {s : Traced} {task : Task}
      (started : System.start p fuel memory w.uri w.talist = .ok start)
      (run : Run (TracedStep p) ⟨start, []⟩ bodies s) (same : s.system.ta = ta)
      (position : s.system.position = .requesting task) :
    Returned p fuel w memory ta (-1) (s.trace ++ [exchangeOf task none])

/-- Over an exact transport the broker does what the loop does, and no trap but a fault
of the TA itself ends it. -/
theorem brokerMain_refines (exact : Exact p fuel invoke) (encodes : Encodes p.qcbor)
    {memory : Session} (array : memory.taskBuffer.postData.length = teepMaxMessageLen) {n : Nat}
    {outcome : Outcome}
    (ran : brokerMain w invoke n (Host.start, Ta.start memory) = some outcome) :
    match outcome with
    | .ok (result, ta, trace) => Returned p fuel w memory ta result trace
    | .error trap => ∃ fault, trap = .ta fault := by
  obtain ⟨passes, ⟨host, ta⟩, run, last⟩ := main_run ran
  have started := run_started exact encodes array run
  have bounded : host.Bounded := by
    apply run.invariant (fun s => s.1.Bounded) (fun _ _ _ bounded pass => pass_bounded bounded pass)
    intro body place
    cases place
  unfold mainBody at last
  cases next : host.next w with
  | inr result =>
    simp only [next] at last
    cases last
    have place : host.place = .closed result := by
      unfold Host.next at next
      split at next
      · cases next
      · cases next
      · cases next
      · cases next
      · cases next
      · rename_i place
        cases next
        exact place
    cases started with
    | uri => cases place
    | talist set => cases place
    | @looping _ start bodies s started steps at_ =>
      obtain ⟨⟨ta, position⟩, trace⟩ := s
      cases at_ with
      | querying => cases place
      | reporting task body => cases place
      | failed task left =>
        rcases left with rfl | rfl
        · cases place
        · cases place
          exact .failed started steps rfl rfl
      | left left =>
        rcases left with rfl | rfl
        · cases place
        · cases place
          exact .left started steps rfl rfl
  | inl call =>
    cases call with
    | close =>
      simp only [next] at last
      cases last
    | invoke commandId op =>
      simp only [next] at last
      obtain ⟨directions, sendable⟩ := next_sendable bounded next
      cases done : taInvokeCommandEntryPoint p fuel ta commandId op.paramTypes
          (fun i => (directions i).incoming (op.params i)) with
      | error fault =>
        rw [exact.error sendable done] at last
        cases last
        exact ⟨fault, rfl⟩
      | ok result =>
        obtain ⟨ta', result, params⟩ := result
        obtain ⟨back, sent, -⟩ := exact.ok sendable done
        rw [sent] at last
        cases last

end Steps

section Readme

/-- The broker of the PC build in the session of README.md. -/
def readmePass (s : Host × Ta) (_ : Unit) : Option (Host × Ta) :=
  (mainBody readmeWorld (Pc.teecInvokeCommand (fun _ => true) readmePlatform 20) s).getLeft?

theorem readmeRun :
    ∃ s, Run (Pass readmeWorld (Pc.teecInvokeCommand (fun _ => true) readmePlatform 20))
        (Host.start, Ta.start blankMemory) (List.replicate 12 ()) s ∧
      s.1.trace.map (fun e => e.method) = [.post, .post, .get, .post] := by
  have reached : (exec readmePass (Host.start, Ta.start blankMemory) (List.replicate 12 ())).map
      (fun s => s.1.trace.map fun e => e.method) = some [.post, .post, .get, .post] := by
    decide +kernel
  obtain ⟨s, executed, methods⟩ := Option.map_eq_some_iff.mp reached
  refine ⟨s, ?_, methods⟩
  apply Run.of_exec _ executed
  intro s a t pass
  exact Sum.getLeft?_eq_some_iff.mp pass

/-- The whole of it, with the result that `loop_teep` returns. -/
def readmeMain : Option Outcome :=
  brokerMain readmeWorld (Pc.teecInvokeCommand (fun _ => true) readmePlatform 20) 20
    (Host.start, Ta.start blankMemory)

theorem readmeMain_ends : ∃ ta trace, readmeMain = some (.ok (0, ta, trace)) ∧
    trace.map (fun e => e.method) = [.post, .post, .get, .post] := by
  have reached : readmeMain.map (fun outcome => outcome.toOption.map fun r =>
      (r.1, r.2.2.map fun e => e.method)) = some (some (0, [.post, .post, .get, .post])) := by
    decide +kernel
  obtain ⟨outcome, ran, last⟩ := Option.map_eq_some_iff.mp reached
  cases outcome with
  | error trap => cases last
  | ok r =>
    obtain ⟨result, ta, trace⟩ := r
    simp only [Except.toOption, Option.map_some, Option.some.injEq, Prod.mk.injEq] at last
    obtain ⟨rfl, methods⟩ := last
    exact ⟨ta, trace, ran, methods⟩

theorem brokerMain_refines_readme :
    ∃ ta trace, readmeMain = some (.ok (0, ta, trace)) ∧
      trace.map (fun e => e.method) = [.post, .post, .get, .post] ∧
      Returned readmePlatform 20 readmeWorld blankMemory ta 0 trace := by
  obtain ⟨ta, trace, ran, methods⟩ := readmeMain_ends
  exact ⟨ta, trace, ran, methods, brokerMain_refines (Pc.teecInvokeCommand_exact readmePlatform 20
    fun _ _ => rfl) referenceQcbor_encodes (by decide +kernel) ran⟩

end Readme

end TeepDevice.Broker
