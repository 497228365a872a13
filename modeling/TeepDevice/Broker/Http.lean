import Mathlib.Data.List.Induction
import TeepDevice.Memory
import TeepDevice.Tcbor.Primitive

/-! The HTTP requests of the broker (http-lws.c): the callbacks that libwebsockets
makes from `lws_service`, the loop around it, and what is read off when the loop
is left. -/
namespace TeepDevice.Broker.Http

inductive TamResult where
  | ongoing | okay | failStart | failConnErr | failRefused | failOversize | failClosed
  deriving DecidableEq, Repr

def TamResult.toInt : TamResult → Int
  | .ongoing => 1
  | .okay => 0
  | .failStart => -1
  | .failConnErr => -2
  | .failRefused => -3
  | .failOversize => -4
  | .failClosed => -5

/-- `struct libteep_async` and the output of its `io`. -/
structure LibteepAsync where
  out : Bytes
  outLen : Nat
  maxOutLen : Nat
  httpResp : Nat
  result : TamResult
  deriving DecidableEq, Repr

/-- The reasons of a callback with what comes along: the response code, the bytes
that were read, and whether the calls back into libwebsockets succeed. The reads
that `lws_http_client_read` makes are events of their own. -/
inductive Event where
  | clientConnectionError
  | closedClientHttp
  | establishedClientHttp (response : Nat)
  | clientAppendHandshakeHeader (added : Bool)
  | completedClientHttp
  | receiveClientHttpRead (chunk : Bytes)
  | receiveClientHttp (read : Bool)
  | clientHttpWriteable (written : Bool)
  | other
  deriving DecidableEq, Repr

/-- A value, or what `lws_callback_http_dummy` returns. -/
inductive Returned where
  | value (n : Int)
  | dummy
  deriving DecidableEq, Repr

/-- The callbacks of the two protocols, which treat a response and the header of a
request each in their own way. `none` is a copy outside of the buffer. -/
def callbackHttp (established : Nat → LibteepAsync → LibteepAsync × Returned)
    (appendHeader : Bool → Returned) (laoa : LibteepAsync) :
    Event → Option (LibteepAsync × Returned)
  | .clientConnectionError => some ({ laoa with result := .failConnErr }, .dummy)
  | .closedClientHttp =>
    if laoa.result = .ongoing then some ({ laoa with result := .failClosed }, .dummy)
    else some (laoa, .dummy)
  | .establishedClientHttp response =>
    some (established response { laoa with httpResp := response })
  | .clientAppendHandshakeHeader added => some (laoa, appendHeader added)
  | .completedClientHttp => some ({ laoa with result := .okay }, .dummy)
  | .receiveClientHttpRead chunk =>
    if laoa.maxOutLen < laoa.outLen + chunk.length then
      some ({ laoa with result := .failOversize }, .value (-1))
    else
      (Memory.write laoa.out laoa.outLen chunk).map fun out =>
        ({ laoa with out := out, outLen := laoa.outLen + chunk.length }, .dummy)
  | .receiveClientHttp read => some (laoa, .value (if read then 0 else -1))
  | .clientHttpWriteable written => some (laoa, if written then .dummy else .value (-1))
  | .other => some (laoa, .dummy)

def callbackTeep : LibteepAsync → Event → Option (LibteepAsync × Returned) :=
  callbackHttp
    (fun response laoa =>
      if response = 204 then ({ laoa with result := .okay }, .value 0) else (laoa, .dummy))
    (fun added => if added then .dummy else .value (-1))

def callbackDownloadTaImage : LibteepAsync → Event → Option (LibteepAsync × Returned) :=
  callbackHttp
    (fun response laoa =>
      if response ≠ 200 then ({ laoa with result := .failRefused }, .value (-1))
      else (laoa, .dummy))
    (fun _ => .dummy)

/-- What one call of `lws_service` delivers and returns. -/
structure Service where
  events : List Event
  result : Int
  deriving DecidableEq, Repr

/-- Why there is nothing to return: the loop goes on, or a copy left the buffer. -/
inductive NotLeft where
  | spinning | outOfBounds
  deriving DecidableEq, Repr

/-- The outcome of the steps before the loop. -/
structure Setup where
  contextCreated : Bool
  proto : Option String
  allocated : Bool
  connected : Bool
  deriving DecidableEq, Repr

def Setup.starts (setup : Setup) : Bool :=
  setup.contextCreated && (setup.proto = some "http" || setup.proto = some "https") &&
    setup.allocated && setup.connected

/-- The return value, the caller's buffer and the caller's `*out_len`. -/
structure Response where
  returnValue : Int
  out : Bytes
  outLen : Nat
  deriving DecidableEq, Repr

section Transfer
variable (callback : LibteepAsync → Event → Option (LibteepAsync × Returned))

def deliver (laoa : LibteepAsync) (events : List Event) : Option LibteepAsync :=
  events.foldlM (fun laoa event => (callback laoa event).map Prod.fst) laoa

/-- The loop around `lws_service`; the calls it does not make are handed back. -/
def serviceLoop : List Service → LibteepAsync → Except NotLeft (LibteepAsync × List Service)
  | [], _ => .error .spinning
  | service :: rest, laoa =>
    match deliver callback laoa service.events with
    | none => .error .outOfBounds
    | some laoa =>
      if service.result = 0 ∧ laoa.result = .ongoing then serviceLoop rest laoa
      else .ok (laoa, rest)

/-- `http_get` and `http_post` differ in their callback only. -/
def http (setup : Setup) (out : Bytes) (services : List Service) :
    Except NotLeft (Response × List Service) :=
  if setup.starts then
    match serviceLoop callback services ⟨out, 0, out.length, 0, .ongoing⟩ with
    | .error reason => .error reason
    | .ok (laoa, rest) =>
      if laoa.result.toInt < 0 then .ok (⟨laoa.result.toInt, laoa.out, out.length⟩, rest)
      else .ok (⟨0, laoa.out, laoa.outLen⟩, rest)
  else .ok (⟨-1, out, out.length⟩, services)

end Transfer

def httpGet : Setup → Bytes → List Service → Except NotLeft (Response × List Service) :=
  http callbackDownloadTaImage

def httpPost : Setup → Bytes → List Service → Except NotLeft (Response × List Service) :=
  http callbackTeep

/-- The two requests. -/
inductive Method where
  | get | post
  deriving DecidableEq, Repr

def Method.callback : Method → LibteepAsync → Event → Option (LibteepAsync × Returned)
  | .get => callbackDownloadTaImage
  | .post => callbackTeep

def Method.http : Method → Setup → Bytes → List Service →
    Except NotLeft (Response × List Service)
  | .get => httpGet
  | .post => httpPost

/-- The callbacks that end a transfer. -/
def Method.ends : Method → Event → Bool
  | _, .completedClientHttp => true
  | .post, .establishedClientHttp response => response = 204
  | _, _ => false

/-- The callbacks by which a server refuses a request. -/
def Method.refuses : Method → Event → Bool
  | .get, .establishedClientHttp response => response ≠ 200
  | _, _ => false

/-- The chunks that were read, in order. -/
def Event.chunk : Event → Bytes
  | .receiveClientHttpRead chunk => chunk
  | _ => []

def readChunks (events : List Event) : Bytes := events.flatMap Event.chunk

def Ended (method : Method) (events : List Event) : Prop :=
  ∃ event ∈ events, method.ends event = true

/-- A transfer that did not come to its end, or brought too much. -/
inductive Interrupted (method : Method) (size : Nat) (events : List Event) : Prop where
  | connectionError (seen : .clientConnectionError ∈ events)
  | refused {event} (seen : event ∈ events) (refuses : method.refuses event = true)
  | oversized (larger : size < (readChunks events).length)
  | closedEarly {before after} (split : events = before ++ .closedClientHttp :: after)
      (early : ¬ Ended method before)

/-- What a return has to mean. -/
structure Right (method : Method) (size : Nat) (events : List Event) (response : Response) :
    Prop where
  complete : response.returnValue = 0 → Ended method events ∧ response.outLen ≤ size ∧
    response.out.take response.outLen = readChunks events
  interrupted : Interrupted method size events → response.returnValue < 0
  sign : response.returnValue ≤ 0

/-- The chunks that have a place in the buffer. -/
def stored (size : Nat) (events : List Event) : Bytes :=
  events.foldl (fun written event =>
    if size < written.length + event.chunk.length then written else written ++ event.chunk) []

/-- A callback that makes the transfer fail, after these others. -/
inductive Fails (method : Method) (size : Nat) (before : List Event) : Event → Prop where
  | connectionError : Fails method size before .clientConnectionError
  | refused {event} (refuses : method.refuses event = true) :
    Fails method size before event
  | oversize {chunk} (larger : size < (stored size before).length + chunk.length) :
      Fails method size before (.receiveClientHttpRead chunk)
  | closed (early : ¬ Ended method before) : Fails method size before .closedClientHttp

/-- A callback makes the transfer fail, and none after it ends the transfer. -/
def FailsLast (method : Method) (size : Nat) (events : List Event) : Prop :=
  ∃ before event after, events = before ++ event :: after ∧ Fails method size before event ∧
    ¬ Ended method after

section Events
variable {method : Method} {size : Nat} {events : List Event} {event : Event}

theorem ended_snoc :
    Ended method (events ++ [event]) ↔ Ended method events ∨ method.ends event = true := by
  simp only [Ended, List.mem_append, List.mem_singleton, or_and_right, exists_or,
    exists_eq_left]

theorem failsLast_snoc : FailsLast method size (events ++ [event]) ↔
    Fails method size events event ∨
      FailsLast method size events ∧ method.ends event = false := by
  constructor
  · rintro ⟨before, failing, after, split, fails, quiet⟩
    rcases List.eq_nil_or_concat after with rfl | ⟨after, last, rfl⟩
    · obtain ⟨rfl, same⟩ := List.append_inj' split rfl
      cases same
      exact .inl fails
    · rw [List.concat_eq_append, ← List.cons_append, ← List.append_assoc] at split
      obtain ⟨rfl, same⟩ := List.append_inj' split rfl
      cases same
      rw [List.concat_eq_append, ended_snoc, not_or, Bool.not_eq_true] at quiet
      exact .inr ⟨⟨before, failing, after, rfl, fails, quiet.1⟩, quiet.2⟩
  · rintro (fails | ⟨⟨before, failing, after, rfl, fails, quiet⟩, goesOn⟩)
    · exact ⟨events, event, [], rfl, fails, nofun⟩
    · refine ⟨before, failing, after ++ [event], ?_, fails, ?_⟩
      · rw [← List.cons_append, List.append_assoc]
      · rw [ended_snoc, not_or, Bool.not_eq_true]
        exact ⟨quiet, goesOn⟩

theorem stored_snoc : stored size (events ++ [event]) =
    if size < (stored size events).length + event.chunk.length then stored size events
    else stored size events ++ event.chunk :=
  List.foldl_append

/-- Only a read brings a chunk. -/
theorem stored_snoc_nil (nothing : event.chunk = []) :
    stored size (events ++ [event]) = stored size events := by
  rw [stored_snoc, nothing, List.append_nil, ite_self]

/-- Nothing is left out as long as there is a place for everything. -/
theorem stored_eq (fits : (readChunks events).length ≤ size) :
    stored size events = readChunks events := by
  induction events using List.reverseRecOn with
  | nil => rfl
  | append_singleton events event ih =>
    rw [readChunks, List.flatMap_append, List.length_append] at fits
    have before := ih (Nat.le_of_add_right_le fits)
    rw [List.flatMap_singleton] at fits
    calc stored size (events ++ [event]) = readChunks events ++ event.chunk := by
          rw [stored_snoc, before]
          exact if_neg (Nat.not_lt.mpr fits)
      _ = readChunks (events ++ [event]) := by
          rw [readChunks, readChunks, List.flatMap_append, List.flatMap_singleton]

end Events

/-- What a result tells about the callbacks so far. -/
structure Verdict (method : Method) (size : Nat) (events : List Event) (result : TamResult) :
    Prop where
  failed : result.toInt < 0 ↔ FailsLast method size events
  okay : result = .okay ↔ Ended method events ∧ ¬ FailsLast method size events

section Verdicts
variable {method : Method} {size : Nat} {events : List Event} {event : Event}
  {result : TamResult}

theorem Verdict.start : Verdict method size [] .ongoing where
  failed := by
    refine ⟨fun negative => absurd negative (by decide), ?_⟩
    rintro ⟨before, event, after, split, -⟩
    exact absurd split (by simp)
  okay := ⟨nofun, fun ⟨⟨_, member, _⟩, _⟩ => absurd member (List.not_mem_nil)⟩

theorem not_okay_of_negative (negative : result.toInt < 0) : result ≠ .okay := by
  rintro rfl
  exact absurd negative (by decide)

theorem Verdict.fails (fails : Fails method size events event) (negative : result.toInt < 0) :
    Verdict method size (events ++ [event]) result := by
  have last := (failsLast_snoc).mpr (.inl fails)
  exact ⟨iff_of_true negative last,
    iff_of_false (not_okay_of_negative negative) fun ended => ended.2 last⟩

theorem Verdict.ends (quiet : ¬ Fails method size events event)
    (ends : method.ends event = true) : Verdict method size (events ++ [event]) .okay := by
  have notLast : ¬ FailsLast method size (events ++ [event]) := by
    rw [failsLast_snoc, ends]
    rintro (fails | ⟨-, goesOn⟩)
    · exact quiet fails
    · cases goesOn
  exact ⟨iff_of_false (by decide) notLast,
    iff_of_true rfl ⟨(ended_snoc).mpr (.inr ends), notLast⟩⟩

theorem Verdict.quiet (verdict : Verdict method size events result)
    (quiet : ¬ Fails method size events event) (goesOn : method.ends event = false) :
    Verdict method size (events ++ [event]) result := by
  have last : FailsLast method size (events ++ [event]) ↔ FailsLast method size events := by
    rw [failsLast_snoc, goesOn]
    exact ⟨fun h => (h.resolve_left quiet).1, fun h => .inr ⟨h, rfl⟩⟩
  have ended : Ended method (events ++ [event]) ↔ Ended method events := by
    rw [ended_snoc, goesOn]
    exact ⟨fun h => h.resolve_right Bool.false_ne_true, .inl⟩
  exact ⟨verdict.failed.trans last.symm, by rw [last, ended]; exact verdict.okay⟩

/-- A result is a failure, the end, or that the transfer goes on. -/
theorem TamResult.cases (result : TamResult) :
    result.toInt < 0 ∨ result = .okay ∨ result = .ongoing := by
  cases result <;> decide

end Verdicts

/-- The state after these callbacks. -/
structure Follows (method : Method) (size : Nat) (events : List Event) (laoa : LibteepAsync) :
    Prop where
  length : laoa.out.length = size
  limit : laoa.maxOutLen = size
  content : laoa.out.take laoa.outLen = stored size events
  position : laoa.outLen = (stored size events).length
  verdict : Verdict method size events laoa.result

section Steps
variable {method : Method} {size : Nat} {events : List Event} {laoa after : LibteepAsync}

theorem Follows.outLen_le (follows : Follows method size events laoa) : laoa.outLen ≤ size := by
  have short := congrArg List.length follows.content
  rw [List.length_take, follows.length, ← follows.position] at short
  rw [← short]
  exact Nat.min_le_right _ _

/-- A callback that leaves the output as it is. -/
theorem Follows.keeps {event : Event} (follows : Follows method size events laoa)
    (out : after.out = laoa.out ∧ after.outLen = laoa.outLen ∧ after.maxOutLen = laoa.maxOutLen)
    (same : stored size (events ++ [event]) = stored size events)
    (verdict : Verdict method size (events ++ [event]) after.result) :
    Follows method size (events ++ [event]) after where
  length := by rw [out.1, follows.length]
  limit := by rw [out.2.2, follows.limit]
  content := by rw [out.1, out.2.1, same, follows.content]
  position := by rw [out.2.1, same, follows.position]
  verdict := verdict

/-- A connection that is closed makes a transfer fail that goes on, and no other. -/
theorem Follows.closed (follows : Follows method size events laoa) :
    ∃ after r, method.callback laoa .closedClientHttp = some (after, r) ∧
      Follows method size (events ++ [.closedClientHttp]) after := by
  have last : FailsLast method size (events ++ [.closedClientHttp]) ↔
      Fails method size events .closedClientHttp ∨ FailsLast method size events := by
    rw [failsLast_snoc]
    cases method <;> exact or_congr_right (and_iff_left rfl)
  have callback : method.callback laoa .closedClientHttp =
      if laoa.result = .ongoing then some ({ laoa with result := .failClosed }, .dummy)
      else some (laoa, .dummy) := by
    cases method <;> rfl
  rw [callback]
  by_cases ongoing : laoa.result = .ongoing
  · rw [if_pos ongoing]
    have notLast : ¬ FailsLast method size events := by
      rw [← follows.verdict.failed, ongoing]
      decide
    have early : ¬ Ended method events := by
      intro ended
      have okay := follows.verdict.okay.mpr ⟨ended, notLast⟩
      exact nomatch ongoing.symm.trans okay
    exact ⟨_, _, rfl, follows.keeps ⟨rfl, rfl, rfl⟩ (stored_snoc_nil rfl)
      (.fails (.closed early) (Int.negSucc_lt_zero _))⟩
  · rw [if_neg ongoing]
    refine ⟨_, _, rfl, follows.keeps ⟨rfl, rfl, rfl⟩ (stored_snoc_nil rfl) ?_⟩
    -- after a failure the close is one more, after the end it is none
    rcases laoa.result.cases with negative | okay | goesOn
    · have failing := last.mpr (.inr (follows.verdict.failed.mp negative))
      exact ⟨iff_of_true negative failing,
        iff_of_false (not_okay_of_negative negative) fun ended => ended.2 failing⟩
    · refine follows.verdict.quiet ?_ (by cases method <;> rfl)
      rintro (- | refuses | - | early)
      · cases method <;> cases refuses
      · exact early (follows.verdict.okay.mp okay).1
    · exact absurd goesOn ongoing

/-- A chunk is stored behind the others, or there is no place for it. -/
theorem Follows.read (follows : Follows method size events laoa) (chunk : Bytes) :
    ∃ after r, method.callback laoa (.receiveClientHttpRead chunk) = some (after, r) ∧
      Follows method size (events ++ [.receiveClientHttpRead chunk]) after := by
  have callback : method.callback laoa (.receiveClientHttpRead chunk) =
      if laoa.maxOutLen < laoa.outLen + chunk.length then
        some ({ laoa with result := .failOversize }, .value (-1))
      else
        (Memory.write laoa.out laoa.outLen chunk).map fun out =>
          ({ laoa with out := out, outLen := laoa.outLen + chunk.length }, .dummy) := by
    cases method <;> rfl
  have store := @stored_snoc size events (.receiveClientHttpRead chunk)
  simp only [Event.chunk] at store
  rw [callback]
  by_cases larger : laoa.maxOutLen < laoa.outLen + chunk.length
  · rw [if_pos larger]
    rw [follows.limit, follows.position] at larger
    exact ⟨_, _, rfl, follows.keeps ⟨rfl, rfl, rfl⟩ (store.trans (if_pos larger))
      (.fails (.oversize larger) (Int.negSucc_lt_zero _))⟩
  · rw [if_neg larger]
    rw [follows.limit, follows.position] at larger
    have store := store.trans (if_neg larger)
    have out : laoa.out = stored size events ++ laoa.out.drop laoa.outLen := by
      rw [← follows.content, List.take_append_drop]
    have length := congrArg List.length out
    rw [List.length_append, follows.length] at length
    have written := Memory.write_behind (stored size events) (laoa.out.drop laoa.outLen) chunk
      (by omega)
    rw [← follows.position, ← out] at written
    rw [written]
    refine ⟨_, _, rfl, ?_, follows.limit, ?_, ?_, ?_⟩
    · simp only [List.length_append, List.length_drop] at length ⊢
      omega
    · rw [store, follows.position]
      rw [← List.length_append, ← List.append_assoc, List.take_left]
    · rw [store, List.length_append, follows.position]
    · refine follows.verdict.quiet ?_ (by cases method <;> rfl)
      rintro (- | refuses | larger' | -)
      · cases method <;> cases refuses
      · exact larger larger'

/-- A callback that the transfer takes no notice of. -/
theorem Follows.ignores {event : Event} (follows : Follows method size events laoa)
    (out : after.out = laoa.out ∧ after.outLen = laoa.outLen ∧ after.maxOutLen = laoa.maxOutLen)
    (result : after.result = laoa.result) (nothing : event.chunk = [])
    (quiet : ¬ Fails method size events event) (goesOn : method.ends event = false) :
    Follows method size (events ++ [event]) after := by
  apply follows.keeps out (stored_snoc_nil nothing)
  rw [result]
  exact follows.verdict.quiet quiet goesOn

theorem Follows.untouched {event : Event} (follows : Follows method size events laoa)
    (same : ∃ r, method.callback laoa event = some (laoa, r)) (nothing : event.chunk = [])
    (quiet : ¬ Fails method size events event) (goesOn : method.ends event = false) :
    ∃ after r, method.callback laoa event = some (after, r) ∧
      Follows method size (events ++ [event]) after := by
  obtain ⟨r, callback⟩ := same
  exact ⟨laoa, r, callback, follows.ignores ⟨rfl, rfl, rfl⟩ rfl nothing quiet goesOn⟩

/-- One callback, of either protocol. -/
theorem Follows.callback (follows : Follows method size events laoa) (event : Event) :
    ∃ after r, method.callback laoa event = some (after, r) ∧
      Follows method size (events ++ [event]) after := by
  cases event with
  | closedClientHttp => exact follows.closed
  | receiveClientHttpRead chunk => exact follows.read chunk
  | clientConnectionError =>
    refine ⟨{ laoa with result := .failConnErr }, .dummy, by cases method <;> rfl, ?_⟩
    exact follows.keeps ⟨rfl, rfl, rfl⟩ (stored_snoc_nil rfl)
      (.fails .connectionError (Int.negSucc_lt_zero _))
  | completedClientHttp =>
    refine ⟨{ laoa with result := .okay }, .dummy, by cases method <;> rfl, ?_⟩
    refine follows.keeps ⟨rfl, rfl, rfl⟩ (stored_snoc_nil rfl) (.ends ?_ (by cases method <;> rfl))
    rintro (- | refuses | - | -)
    cases method <;> cases refuses
  | establishedClientHttp response =>
    cases method with
    | get =>
      by_cases accepted : response = 200
      · refine ⟨{ laoa with httpResp := response }, .dummy, ?_, ?_⟩
        · simp [Method.callback, callbackDownloadTaImage, callbackHttp, accepted]
        · refine follows.ignores ⟨rfl, rfl, rfl⟩ rfl rfl ?_ rfl
          rintro (- | refuses | - | -)
          exact of_decide_eq_true refuses accepted
      · refine ⟨{ laoa with httpResp := response, result := .failRefused }, .value (-1), ?_, ?_⟩
        · simp [Method.callback, callbackDownloadTaImage, callbackHttp, accepted]
        · exact follows.keeps ⟨rfl, rfl, rfl⟩ (stored_snoc_nil rfl)
            (.fails (.refused (decide_eq_true accepted)) (Int.negSucc_lt_zero _))
    | post =>
      have quiet : ¬ Fails .post size events (.establishedClientHttp response) := by
        rintro (- | refuses | - | -)
        cases refuses
      by_cases noContent : response = 204
      · refine ⟨{ laoa with httpResp := response, result := .okay }, .value 0, ?_, ?_⟩
        · simp [Method.callback, callbackTeep, callbackHttp, noContent]
        · exact follows.keeps ⟨rfl, rfl, rfl⟩ (stored_snoc_nil rfl)
            (.ends quiet (decide_eq_true noContent))
      · refine ⟨{ laoa with httpResp := response }, .dummy, ?_, ?_⟩
        · simp [Method.callback, callbackTeep, callbackHttp, noContent]
        · exact follows.ignores ⟨rfl, rfl, rfl⟩ rfl rfl quiet (decide_eq_false noContent)
  | clientAppendHandshakeHeader _ | receiveClientHttp _ | clientHttpWriteable _ | other =>
    refine follows.untouched (by cases method <;> exact ⟨_, rfl⟩) rfl ?_ (by cases method <;> rfl)
    rintro (- | refuses | - | -)
    cases method <;> cases refuses

/-- The callbacks of one call of `lws_service`. -/
theorem Follows.deliver (follows : Follows method size events laoa) (next : List Event) :
    ∃ after, deliver method.callback laoa next = some after ∧
      Follows method size (events ++ next) after := by
  induction next generalizing events laoa with
  | nil =>
    rw [List.append_nil]
    exact ⟨laoa, rfl, follows⟩
  | cons event next ih =>
    obtain ⟨mid, r, callback, follows⟩ := follows.callback event
    obtain ⟨after, delivered, follows⟩ := ih follows
    rw [List.append_assoc] at follows
    refine ⟨after, ?_, follows⟩
    rw [Http.deliver, List.foldlM_cons, callback]
    exact delivered

/-- The loop, from the callbacks before it to the call that it is left after. -/
theorem serviceLoop_follows (follows : Follows method size events laoa)
    (services : List Service) :
    serviceLoop method.callback services laoa = .error .spinning ∨
      ∃ used rest after, services = used ++ rest ∧
        serviceLoop method.callback services laoa = .ok (after, rest) ∧
        Follows method size (events ++ used.flatMap Service.events) after := by
  induction services generalizing events laoa with
  | nil => exact .inl rfl
  | cons service services ih =>
    obtain ⟨after, delivered, follows⟩ := follows.deliver service.events
    rw [serviceLoop, delivered]
    by_cases again : service.result = 0 ∧ after.result = .ongoing
    · simp only [if_pos again]
      rcases ih follows with spinning | ⟨used, rest, last, rfl, left, follows⟩
      · exact .inl spinning
      · refine .inr ⟨service :: used, rest, last, rfl, left, ?_⟩
        rw [List.flatMap_cons, ← List.append_assoc]
        exact follows
    · simp only [if_neg again]
      refine .inr ⟨[service], services, after, rfl, rfl, ?_⟩
      rw [List.flatMap_singleton]
      exact follows

/-- What is returned is right if the last word is a failure, or there is an end and
no interruption. -/
theorem Follows.right_iff (follows : Follows method size events laoa) {response : Response}
    (value : response.returnValue = if laoa.result.toInt < 0 then laoa.result.toInt else 0)
    (out : response.returnValue = 0 → response.out = laoa.out ∧ response.outLen = laoa.outLen) :
    Right method size events response ↔ FailsLast method size events ∨
      Ended method events ∧ ¬ Interrupted method size events := by
  by_cases last : FailsLast method size events
  · have negative := follows.verdict.failed.mpr last
    rw [if_pos negative] at value
    rw [← value] at negative
    refine iff_of_true ⟨fun zero => ?_, fun _ => negative, Int.le_of_lt negative⟩ (.inl last)
    exact absurd zero (Int.ne_of_lt negative)
  · rw [if_neg fun negative => last (follows.verdict.failed.mp negative)] at value
    obtain ⟨sameOut, sameLen⟩ := out value
    constructor
    · intro right
      refine .inr ⟨(right.complete value).1, fun interrupted => ?_⟩
      have negative := right.interrupted interrupted
      rw [value] at negative
      exact absurd negative (Int.lt_irrefl 0)
    · rintro (last' | ⟨ended, whole⟩)
      · exact absurd last' last
      · refine ⟨fun _ => ⟨ended, ?_, ?_⟩, fun interrupted => absurd interrupted whole,
          Int.le_of_eq value⟩
        · rw [sameLen]
          exact follows.outLen_le
        · rw [sameOut, sameLen, follows.content]
          exact stored_eq (Nat.not_lt.mp fun larger => whole (.oversized larger))

end Steps

end TeepDevice.Broker.Http
