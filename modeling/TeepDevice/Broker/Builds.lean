import TeepDevice.Broker.Transports
import TeepDevice.Broker.TeecSgx

/-! The broker on the PC and on SGX: the same while the enclave is there, and what SGX
comes to once the enclave is lost. -/
namespace TeepDevice.Broker
open Tcbor Suit Teep Agent Transition

section Agreement
variable {heap heap' : Nat → Bool} {enters : Ta → Nat → Operation → Bool}

/-- Where memory can be allocated and ecalls get in, both bring a call to the TA and
back as it is. -/
theorem transports_exact (p : Platform) (fuel : Nat) (allocates : ∀ size < 2 ^ 32, heap size = true)
    (entered : ∀ ta cmdId op, enters ta cmdId op = true) :
    Exact p fuel (Pc.teecInvokeCommand heap p fuel) ∧
      Exact p fuel (Sgx.teecInvokeCommand heap enters p fuel) :=
  ⟨Pc.teecInvokeCommand_exact p fuel allocates, Sgx.teecInvokeCommand_exact p fuel allocates entered⟩

theorem transports_exact_readme :
    Exact readmePlatform 20 (Pc.teecInvokeCommand (fun _ => true) readmePlatform 20) ∧
      Exact readmePlatform 20
        (Sgx.teecInvokeCommand (fun _ => true) (fun _ _ _ => true) readmePlatform 20) :=
  transports_exact readmePlatform 20 (fun _ _ => rfl) fun _ _ _ => rfl

/-- The PC build and the SGX build take the broker through the same run. -/
theorem builds_agree (p : Platform) (fuel : Nat) (w : World)
    (allocates : ∀ size < 2 ^ 32, heap size = true)
    (allocates' : ∀ size < 2 ^ 32, heap' size = true)
    (entered : ∀ ta cmdId op, enters ta cmdId op = true) (memory : Session) (n : Nat) :
    brokerMain w (Sgx.teecInvokeCommand heap enters p fuel) n (Host.start, Ta.start memory) =
      brokerMain w (Pc.teecInvokeCommand heap' p fuel) n (Host.start, Ta.start memory) := by
  apply brokerMain_agree (Sgx.teecInvokeCommand_exact p fuel allocates entered)
    (Pc.teecInvokeCommand_exact p fuel allocates')
  intro body place
  cases place

theorem builds_agree_readme :
    ∃ ta trace, brokerMain readmeWorld
        (Sgx.teecInvokeCommand (fun _ => true) (fun _ _ _ => true) readmePlatform 20) 20
        (Host.start, Ta.start blankMemory) = some (.ok (0, ta, trace)) ∧
      trace.map (fun e => e.method) = [.post, .post, .get, .post] := by
  obtain ⟨ta, trace, ran, methods⟩ := readmeMain_ends
  refine ⟨ta, trace, ?_, methods⟩
  rw [builds_agree readmePlatform 20 readmeWorld (fun _ _ => rfl) (fun _ _ => rfl)
    (fun _ _ _ => rfl) blankMemory 20]
  exact ran

end Agreement

section Lost
variable {p : Platform} {fuel : Nat} {heap : Nat → Bool} {w : World}

/-- The SGX transport after its enclave is lost: no ecall gets in. -/
def lost (heap : Nat → Bool) (p : Platform) (fuel : Nat) : Transport :=
  Sgx.teecInvokeCommand heap (fun _ _ _ => false) p fuel

/-- The request that the broker then makes of what its stack holds. -/
def leaked (w : World) (query request : Nat) : Exchange where
  method := .post
  url := (w.stack query).uri.takeWhile (· ≠ 0)
  data := (w.stack query).postData
  reply := w.reply request

/-- A query that does not get in is taken for one that succeeded. -/
theorem lost_query (ta : Ta) (queries : Nat) (trace : List Exchange)
    (terminated : (w.stack queries).uri.getLast? = some 0) {body : Bytes}
    (replied : w.reply trace.length = some body) :
    mainBody w (lost heap p fuel) (⟨.querying, queries, trace⟩, ta) =
      .inl (⟨.reporting body, queries + 1, trace ++ [leaked w queries trace.length]⟩, ta) := by
  have uri : (w.stack queries).uri.take teepMaxUriLen = (w.stack queries).uri :=
    List.take_of_length_le (Nat.le_of_eq (w.stack queries).uriSize)
  have data : (w.stack queries).postData.take teepMaxMessageLen = (w.stack queries).postData :=
    List.take_of_length_le (Nat.le_of_eq (w.stack queries).postDataSize)
  have last : ¬ ((w.stack queries).uri.take teepMaxUriLen).getLast? ≠ some 0 := by
    rw [uri]
    exact not_not_intro terminated
  have post : (0 : Nat) = BrokerCommand.httpPost.number := rfl
  have notFinish : ¬ (0 : Nat) = BrokerCommand.finish.number := by decide
  have call : lost heap p fuel ta teepAgentQueryNextBrokerTask
      (queryOperation (w.stack queries)) =
        .ok (ta, teeSuccess, queryOperation (w.stack queries)) := rfl
  simp only [mainBody, Host.next, call, Host.took, Host.queried, if_true]
  have ends : ¬ (((queryOperation (w.stack queries)).params 1).buffer.take
      ((queryOperation (w.stack queries)).params 1).size).getLast? ≠ some 0 := last
  rw [if_neg ends]
  have dispatched (host : Host) : host.dispatch w
      ⟨((queryOperation (w.stack queries)).params 0).a,
        ((queryOperation (w.stack queries)).params 1).buffer,
        ((queryOperation (w.stack queries)).params 2).buffer,
        ((queryOperation (w.stack queries)).params 2).size⟩ =
      host.request w .post ⟨0, (w.stack queries).uri, (w.stack queries).postData,
        teepMaxMessageLen⟩ := by
    exact (if_neg notFinish).trans (if_pos post)
  rw [dispatched]
  simp only [Host.request, data, replied, leaked]

/-- What is reported is not looked at either. -/
theorem lost_report (ta : Ta) (queries : Nat) (trace : List Exchange) (body : Bytes) :
    mainBody w (lost heap p fuel) (⟨.reporting body, queries, trace⟩, ta) =
      .inl (⟨.querying, queries, trace⟩, ta) := by
  have sent : ¬ toInt teeSuccess < 0 := by decide
  have call : lost heap p fuel ta teepAgentBrokerTaskDone (doneOperation body) =
      .ok (ta, teeSuccess, doneOperation body) := rfl
  simp only [mainBody, Host.next, call, Host.took, if_neg sent]

/-- The requests of the broker from the time its enclave is lost: one for each query,
with all of what the array for a message holds on the stack. -/
theorem lost_run (ta : Ta) (queries : Nat) (trace : List Exchange) (n : Nat)
    (terminated : ∀ k < n, (w.stack (queries + k)).uri.getLast? = some 0)
    (replied : ∀ k < n, w.reply (trace.length + k) ≠ none) :
    Run (Pass w (lost heap p fuel)) (⟨.querying, queries, trace⟩, ta) (List.replicate (n + n) ())
      (⟨.querying, queries + n,
        trace ++ (List.range n).map fun k => leaked w (queries + k) (trace.length + k)⟩, ta) := by
  induction n with
  | zero =>
    rw [List.range_zero, List.map_nil, List.append_nil]
    exact .nil _
  | succ n ih =>
    have before := ih (fun k less => terminated k (Nat.lt_succ_of_lt less))
      fun k less => replied k (Nat.lt_succ_of_lt less)
    obtain ⟨body, reply⟩ := Option.ne_none_iff_exists'.mp (replied n (Nat.lt_succ_self n))
    have length : (trace ++ (List.range n).map fun k =>
        leaked w (queries + k) (trace.length + k)).length = trace.length + n := by
      rw [List.length_append, List.length_map, List.length_range]
    have query := @lost_query p fuel heap w ta (queries + n) _
      (terminated n (Nat.lt_succ_self n)) body (by rw [length]; exact reply)
    have labels : List.replicate (n + 1 + (n + 1)) () = List.replicate (n + n) () ++ [()] ++ [()] := by
      rw [← List.replicate_succ', ← List.replicate_succ']
      congr 1
      omega
    rw [labels, List.range_succ, List.map_append, ← List.append_assoc]
    rw [length] at query
    exact (before.snoc query).snoc (lost_report ta _ _ body)

theorem lost_run_readme :
    Run (Pass readmeWorld (lost (fun _ => true) readmePlatform 20))
      (⟨.querying, 0, []⟩, Ta.start blankMemory) (List.replicate 8 ())
      (⟨.querying, 4, (List.range 4).map fun k => leaked readmeWorld k k⟩, Ta.start blankMemory) := by
  have terminated : blankTask.uri.getLast? = some 0 := by decide +kernel
  have run := @lost_run readmePlatform 20 (fun _ => true) readmeWorld (Ta.start blankMemory) 0 [] 4
    (fun _ _ => terminated) (by decide +kernel)
  simp only [List.length_nil, List.nil_append, Nat.zero_add] at run
  exact run

/-- It does not come to an end by itself. -/
theorem lost_diverges (ta : Ta) (queries : Nat) (trace : List Exchange)
    (terminated : ∀ k, (w.stack k).uri.getLast? = some 0)
    (replied : ∀ k, w.reply k ≠ none) (n : Nat) :
    brokerMain w (lost heap p fuel) n (⟨.querying, queries, trace⟩, ta) = none := by
  apply Loop.iter_diverges fun s : Host × Ta =>
    s.1.place = .querying ∨ ∃ body, s.1.place = .reporting body
  · rintro ⟨⟨place, queries, trace⟩, ta⟩ (querying | ⟨body, reporting⟩)
    · cases querying
      obtain ⟨body, reply⟩ := Option.ne_none_iff_exists'.mp (replied trace.length)
      exact ⟨_, lost_query ta queries trace (terminated queries) reply, .inr ⟨body, rfl⟩⟩
    · cases reporting
      exact ⟨_, lost_report ta queries trace body, .inl rfl⟩
  · exact .inl rfl

end Lost

end TeepDevice.Broker
