import TeepDevice.Broker.TeecKeystone

/-! The broker and the enclave application of the Keystone build as two threads.
Taken one after the other they do what the broker does over an exact transport;
under a scheduler they do the same, and both come to their ends. -/
namespace TeepDevice.Broker.Keystone
open Transition Tcbor Suit Teep Agent Rendezvous

section Answers
variable {op : Operation} {directions : Fin 4 → Direction} {commandID result : Nat}

theorem resultParam_returned (direction : Direction) (param tee : TeeParam) (c : CommandParam) :
    resultParam direction.number (written direction param tee) (commandOut direction c tee) =
      direction.returned param tee := by
  cases direction with
  | none => rfl
  | valueInput => rfl
  | valueOutput => rfl
  | valueInout => rfl
  | memrefInput => rfl
  | memrefOutput => rfl
  | memrefInout => rfl

theorem put_result (sendable : Sendable op directions) (params : TeeParams)
    (commandID result : Nat) :
    putInvokeCommandResult (writtenBack op directions params commandID)
        (commandBack op directions params commandID) result =
      some (answeredBack op directions params commandID result) := by
  have returned (i : Fin 4) : resultParam (paramTypeGet op.paramTypes i)
      (written (directions i) (op.params i) (params i))
      (commandOut (directions i) ((putInvokeCommand commandID (some op)).command.params i)
        (params i)) = (directions i).returned (op.params i) (params i) := by
    have type : paramTypeGet op.paramTypes i = (directions i).number :=
      Direction.ofType_number (sendable.known i)
    rw [type]
    exact resultParam_returned _ _ _ _
  have linked : (writtenBack op directions params commandID).linked = true := rfl
  simp only [putInvokeCommandResult, linked, Bool.not_true, Bool.false_and, Bool.false_eq_true,
    if_false]
  apply congrArg some
  apply congrArg (fun memory => Current.mk (putInvokeCommand commandID (some op)).command
    ⟨op.paramTypes, memory⟩ false result)
  exact funext returned

/-- An exit has no parameters to read or to write. -/
theorem put_exit : putInvokeCommandResult (putInvokeCommand teepAgentTaExit none)
    (putInvokeCommand teepAgentTaExit none).command 0 =
      some { putInvokeCommand teepAgentTaExit none with linked := false } := by
  have none (i : Fin 4) : paramTypeGet 0 i = 0 := by
    rw [paramTypeGet_eq, Nat.zero_div, Nat.zero_mod]
  simp only [putInvokeCommandResult, putInvokeCommand, none]
  rfl

end Answers

section Calls
variable {chunk : Nat} {heap : Nat → Bool} {p : Platform} {fuel : Nat} {ta ta' : Ta} {w : World}
  {host : Host} {commandID result : Nat} {op : Operation} {directions : Fin 4 → Direction}
  {params : TeeParams}

theorem command_ne_exit (next : host.next w = .inl (.invoke commandID op)) :
    commandID ≠ teepAgentTaExit := by
  unfold Host.next at next
  split at next
  · cases next
    decide
  · cases next
    decide
  · cases next
    decide
  · cases next
    decide
  · cases next
  · cases next

/-- A call of the broker, from the command in the queue to its result. -/
theorem sequential_invoke (positive : 0 < chunk) (allocates : ∀ size < 2 ^ 32, heap size = true)
    (next : host.next w = .inl (.invoke commandID op)) (sendable : Sendable op directions)
    (done : taInvokeCommandEntryPoint p fuel ta commandID op.paramTypes
      (fun i => (directions i).incoming (op.params i)) = .ok (ta', result, params)) :
    ∃ n, (Sequential.idle host (some ta)).after (caller w) (server chunk heap p fuel) n =
      some (.idle (host.took w result
        ⟨op.paramTypes, fun i => (directions i).returned (op.params i) (params i)⟩)
        (some ta')) := by
  have calls : (caller w).next host = .inl (putInvokeCommand commandID (some op)) := by
    simp only [caller, next]
  have starts : (server chunk heap p fuel).start ta (putInvokeCommand commandID (some op)) =
      .reading ta (putInvokeCommand commandID (some op)).command 0 0 fun _ => .blank := by
    have other : (putInvokeCommand commandID (some op)).command.commandID ≠ teepAgentTaExit :=
      command_ne_exit next
    simp only [server, pulled, if_neg other]
  have reads := @read_params chunk heap p fuel positive allocates ta commandID op directions sendable
  have enters : (server chunk heap p fuel).work
      (.reading ta (putInvokeCommand commandID (some op)).command 4 0
        fun i => (directions i).incoming (op.params i)) (putInvokeCommand commandID (some op)) =
      some (.inl (.writing ta' (putInvokeCommand commandID (some op)).command 0 0 params result,
        putInvokeCommand commandID (some op))) := by
    have past : ¬ 4 < 4 := Nat.lt_irrefl 4
    have entered : taInvokeCommandEntryPoint p fuel ta
        (putInvokeCommand commandID (some op)).command.commandID
        (putInvokeCommand commandID (some op)).command.paramTypes
        (fun i => (directions i).incoming (op.params i)) = .ok (ta', result, params) := done
    simp only [server, eappWork, dif_neg past, entered]
  have writes := write_params chunk heap p fuel ta' commandID result sendable
    (entryPoint_within done)
  have answers : (server chunk heap p fuel).work
      (.writing ta' (commandBack op directions params commandID) 4 0 params result)
      (writtenBack op directions params commandID) =
      some (.inr (some ta', answeredBack op directions params commandID result)) := by
    have past : ¬ 4 < 4 := Nat.lt_irrefl 4
    simp only [server, eappWork, dif_neg past, put_result sendable, Option.map_some]
  rw [← starts] at reads
  exact after_call calls ((reads.trans (.single enters)).trans writes) answers

/-- The call that ends the enclave application. -/
theorem sequential_close (next : host.next w = .inl .close) :
    ∃ n, (Sequential.idle host (some ta)).after (caller w) (server chunk heap p fuel) n =
      some (.idle host.hungUp none) := by
  have calls : (caller w).next host = .inl (putInvokeCommand teepAgentTaExit none) := by
    simp only [caller, next]
  have answers : (server chunk heap p fuel).work
      (.exiting (putInvokeCommand teepAgentTaExit none).command)
      (putInvokeCommand teepAgentTaExit none) =
      some (.inr (none, { putInvokeCommand teepAgentTaExit none with linked := false })) := by
    simp only [server, eappWork, put_exit, Option.map_some]
  obtain ⟨n, reached⟩ := @after_call _ _ _ _ _ (caller w) (server chunk heap p fuel) host ta _ _ _ _
    calls .refl answers
  refine ⟨n, reached.trans ?_⟩
  cases place : host.place with
  | closing result => simp only [caller, Host.took, Host.hungUp, place]
  | settingUri => simp only [Host.next, place, Sum.inl.injEq, reduceCtorEq] at next
  | settingTaList => simp only [Host.next, place, Sum.inl.injEq, reduceCtorEq] at next
  | querying => simp only [Host.next, place, Sum.inl.injEq, reduceCtorEq] at next
  | reporting body => simp only [Host.next, place, Sum.inl.injEq, reduceCtorEq] at next
  | closed result => simp only [Host.next, place, reduceCtorEq] at next

end Calls

section Sequence
variable {chunk : Nat} {heap : Nat → Bool} {p : Platform} {fuel : Nat} {ta ta' : Ta} {w : World}
  {host host' : Host} {invoke : Transport}

/-- The session has not been closed. -/
def Host.Open (host : Host) : Prop := ∀ result, host.place ≠ .closed result

theorem request_open (host : Host) (method : Http.Method) (task : RawTask) :
    Host.Open (host.request w method task) := by
  intro result closed
  unfold Host.request at closed
  dsimp only at closed
  split at closed
  · cases closed
  · cases closed

theorem dispatch_open (host : Host) (task : RawTask) : Host.Open (host.dispatch w task) := by
  unfold Host.dispatch
  split
  · intro result closed
    cases closed
  · split
    · exact request_open host .post task
    · split
      · exact request_open host .get task
      · intro result closed
        cases closed

theorem queried_open (host : Host) (result : Nat) (op : Operation) :
    Host.Open (host.queried w result op) := by
  unfold Host.queried
  dsimp only
  split
  · split
    · intro result closed
      cases closed
    · exact dispatch_open _ _
  · split
    · intro result closed
      cases closed
    · exact dispatch_open _ _

/-- A call of the TA leaves the session open. -/
theorem took_open {commandID : Nat} {op : Operation}
    (next : host.next w = .inl (.invoke commandID op)) (result : Nat) (answer : Operation) :
    Host.Open (host.took w result answer) := by
  unfold Host.took
  cases place : host.place with
  | settingUri =>
    intro result closed
    cases closed
  | settingTaList =>
    intro result closed
    cases closed
  | querying => exact queried_open host result answer
  | reporting body =>
    simp only
    split
    · intro result closed
      cases closed
    · intro result closed
      cases closed
  | closing result => simp only [Host.next, place, Sum.inl.injEq, reduceCtorEq] at next
  | closed result => simp only [Host.next, place, reduceCtorEq] at next

/-- What a pass of the broker over an exact transport does, the two threads do too. -/
theorem sequential_pass (exact : Exact p fuel invoke) (positive : 0 < chunk)
    (allocates : ∀ size < 2 ^ 32, heap size = true) (bounded : host.Bounded) {commandID : Nat}
    {op : Operation} (next : host.next w = .inl (.invoke commandID op))
    (pass : mainBody w invoke (host, ta) = .inl (host', ta')) :
    ∃ n, (Sequential.idle host (some ta)).after (caller w) (server chunk heap p fuel) n =
      some (.idle host' (some ta')) := by
  obtain ⟨directions, sendable⟩ := next_sendable bounded next
  simp only [mainBody, next] at pass
  cases done : taInvokeCommandEntryPoint p fuel ta commandID op.paramTypes
      (fun i => (directions i).incoming (op.params i)) with
  | error fault =>
    rw [exact.error sendable done] at pass
    cases pass
  | ok outcome =>
    obtain ⟨after, result, params⟩ := outcome
    obtain ⟨n, reached⟩ := @sequential_invoke chunk heap p fuel ta after w host commandID result op
      directions params positive allocates next sendable done
    obtain ⟨back, sent, outputs⟩ := exact.ok sendable done
    rw [sent] at pass
    cases pass
    refine ⟨n, reached.trans ?_⟩
    by_cases success : result = teeSuccess
    · rw [outputs success]
    · rw [took_failed (w := w) host success (entryPoint_settled done) back]

/-- The end of a session: the enclave application exits and the broker returns. -/
theorem sequential_end (result : Int) (queries : Nat) (trace : List Exchange) :
    ∃ n, (Sequential.idle ⟨.closing result, queries, trace⟩ (some ta)).after (caller w)
      (server chunk heap p fuel) n = some (.done (result, trace) none) := by
  obtain ⟨n, closed⟩ := @sequential_close chunk heap p fuel ta w ⟨.closing result, queries, trace⟩ rfl
  exact ⟨n + 1, Sequential.after_trans closed (Sequential.after_one rfl)⟩

/-- The two threads, one after the other, come to where the broker over an exact
transport closes its session: with its result, its requests and its TA. -/
theorem sequential_main (exact : Exact p fuel invoke) (positive : 0 < chunk)
    (allocates : ∀ size < 2 ^ 32, heap size = true) (bounded : host.Bounded)
    (isOpen : Host.Open host) {n : Nat} {result : Int} {trace : List Exchange}
    (ran : brokerMain w invoke n (host, ta) = some (.ok (result, ta', trace))) :
    ∃ m queries, (Sequential.idle host (some ta)).after (caller w) (server chunk heap p fuel) m =
      some (.idle ⟨.closing result, queries, trace⟩ (some ta')) := by
  induction n generalizing host ta with
  | zero => cases ran
  | succ n ih =>
    unfold brokerMain Loop.iter at ran
    cases next : host.next w with
    | inr early =>
      unfold Host.next at next
      split at next
      · cases next
      · cases next
      · cases next
      · cases next
      · cases next
      · rename_i result closed
        exact absurd closed (isOpen result)
    | inl call =>
      cases call with
      | close =>
        obtain ⟨place, queries, requests⟩ := host
        cases place with
        | closing early =>
          have pass : mainBody w invoke (⟨.closing early, queries, requests⟩, ta) =
              .inl (⟨.closed early, queries, requests⟩, ta) := rfl
          rw [pass] at ran
          cases n with
          | zero => cases ran
          | succ n =>
            cases ran
            exact ⟨0, queries, rfl⟩
        | settingUri => cases next
        | settingTaList => cases next
        | querying => cases next
        | reporting body => cases next
        | closed early => cases next
      | invoke commandID op =>
        cases pass : mainBody w invoke (host, ta) with
        | inr outcome =>
          rw [pass] at ran
          simp only [mainBody, next] at pass
          split at pass
          · cases pass
            cases ran
          · cases pass
        | inl later =>
          obtain ⟨host', after⟩ := later
          rw [pass] at ran
          obtain ⟨k, first⟩ := sequential_pass exact positive allocates bounded next pass
          have isOpen' : Host.Open host' := by
            simp only [mainBody, next] at pass
            split at pass
            · cases pass
            · cases pass
              exact took_open next _ _
          obtain ⟨m, queries, rest⟩ := ih (pass_bounded bounded pass) isOpen' ran
          exact ⟨k + m, queries, Sequential.after_trans first rest⟩

end Sequence

section Confinement
variable {chunk : Nat} {heap : Nat → Bool} {p : Platform} {fuel : Nat} {ta : Ta}
  {put current current' : Current} {eapp eapp' : Eapp} {c : InvokeCommand} {j : Fin 4}

def isMemrefOutput (type : Nat) : Bool := type == typeMemrefOutput || type == typeMemrefInout

/-- A parameter of the caller during a call: the memory of an output changes within
its size, and nothing else does. -/
structure Kept (type : Nat) (before after : TeeParam) : Prop where
  a : after.a = before.a
  b : after.b = before.b
  size : after.size = before.size
  length : after.buffer.length = before.buffer.length
  behind : after.buffer.drop before.size = before.buffer.drop before.size
  input : isMemrefOutput type = false → after.buffer = before.buffer

structure Confined (put current : Current) : Prop where
  command : current.command = put.command
  linked : current.linked = put.linked
  params : ∀ i, Kept (paramTypeGet put.command.paramTypes i) (put.operation.params i)
    (current.operation.params i)

theorem Confined.refl (put : Current) : Confined put put where
  command := rfl
  linked := rfl
  params _ := ⟨rfl, rfl, rfl, rfl, rfl, fun _ => rfl⟩

def Eapp.command : Eapp → InvokeCommand
  | .reading _ c _ _ _ => c
  | .writing _ c _ _ _ _ => c
  | .exiting c => c

/-- The enclave application serves what was put. -/
def Serves (put : Current) (s : Eapp × Current) : Prop :=
  s.1.command.paramTypes = put.command.paramTypes ∧ Confined put s.2

/-- A piece that is written to an output stays within it. -/
theorem Confined.write (confined : Confined put current) {offset : Nat} {buf : Bytes}
    (output : isMemrefOutput (paramTypeGet put.command.paramTypes j) = true)
    (written : writeInvokeParam current j offset buf = some current') : Confined put current' := by
  unfold writeInvokeParam at written
  split at written
  · cases written
  · dsimp only at written
    split at written
    · cases written
      exact confined
    · rename_i reaches
      obtain ⟨buffer, stored, rfl⟩ := Option.map_eq_some_iff.mp written
      refine ⟨confined.command, confined.linked, fun i => ?_⟩
      have kept := confined.params i
      by_cases same : i = j
      · subst same
        have within : offset +
            (buf.take ((current.operation.params i).size - offset)).length ≤
              (put.operation.params i).size := by
          rw [List.length_take, ← kept.size]
          omega
        simp only [Function.update_self]
        exact ⟨kept.a, kept.b, kept.size, (Memory.write_length stored).trans kept.length,
          (Memory.write_drop stored within).trans kept.behind,
          fun input => absurd output (by rw [input]; exact Bool.false_ne_true)⟩
      · simp only [Function.update_of_ne same]
        exact kept

theorem readPass_command {offset : Nat} {params : TeeParams}
    (pass : readPass chunk heap current ta c j offset params = some eapp) : eapp.command = c := by
  unfold readPass at pass
  dsimp only at pass
  split at pass
  · cases pass
    rfl
  · split at pass
    · split at pass
      · cases pass
      · split at pass
        · split at pass
          · cases pass
          · split at pass
            · cases pass
            · cases pass
              rfl
        · cases pass
          rfl
    · split at pass
      · split at pass
        · cases pass
        · cases pass
          rfl
      · cases pass
        rfl

theorem writePass_serves (confined : Confined put current)
    (types : c.paramTypes = put.command.paramTypes) {offset result : Nat} {params : TeeParams}
    {next : Eapp × Current} (pass : writePass current ta c j offset params result = some next) :
    Serves put next := by
  unfold writePass at pass
  dsimp only at pass
  split at pass
  · cases pass
    exact ⟨types, confined⟩
  · split at pass
    · rename_i output
      split at pass
      · split at pass
        · cases pass
        · obtain ⟨later, written, rfl⟩ := Option.map_eq_some_iff.mp pass
          have isOutput : isMemrefOutput (paramTypeGet put.command.paramTypes j) = true := by
            simpa only [← types, isMemrefOutput, Bool.or_eq_true, beq_iff_eq] using output
          exact ⟨types, confined.write isOutput written⟩
      · cases pass
        exact ⟨types, confined⟩
    · cases pass
      exact ⟨types, confined⟩

/-- A pass of the enclave application changes the caller's memory only where the
operation has outputs. -/
theorem work_serves (serves : Serves put (eapp, current)) {next : Eapp × Current}
    (pass : (server chunk heap p fuel).work eapp current = some (.inl next)) :
    Serves put next := by
  obtain ⟨types, confined⟩ := serves
  simp only [server, eappWork] at pass
  split at pass
  · obtain ⟨later, -, answer⟩ := Option.map_eq_some_iff.mp pass
    cases answer
  · split at pass
    · obtain ⟨later, read, answer⟩ := Option.map_eq_some_iff.mp pass
      cases answer
      exact ⟨(congrArg InvokeCommand.paramTypes (readPass_command read)).trans types, confined⟩
    · split at pass
      · cases pass
      · cases pass
        exact ⟨types, confined⟩
  · split at pass
    · obtain ⟨later, written, answer⟩ := Option.map_eq_some_iff.mp pass
      cases answer
      exact writePass_serves confined types written
    · obtain ⟨later, -, answer⟩ := Option.map_eq_some_iff.mp pass
      cases answer

theorem pulled_serves (ta : Ta) (put : Current) : Serves put (pulled ta put, put) := by
  unfold pulled
  split
  · exact ⟨rfl, Confined.refl put⟩
  · exact ⟨rfl, Confined.refl put⟩

theorem passes_serve {later : Eapp × Current} (passes : (server chunk heap p fuel).Passes
    ((server chunk heap p fuel).start ta put, put) later) : Serves put later := by
  induction passes with
  | refl => exact pulled_serves ta put
  | tail _ pass ih => exact work_serves ih pass

end Confinement

section Threads
variable {chunk : Nat} {heap : Nat → Bool} {p : Platform} {fuel : Nat} {ta ta' : Ta} {w : World}
  {invoke : Transport} {garbage : Current}

theorem start_bounded : Host.start.Bounded := by
  intro body place
  cases place

theorem start_open : Host.Open Host.start := by
  intro result closed
  cases closed

/-- Under every scheduler the two threads take a bounded number of turns, and when
neither can take another the broker has returned what it returns over an exact
transport, after the same requests, and the enclave application has exited. -/
theorem threads_complete (exact : Exact p fuel invoke) (positive : 0 < chunk)
    (allocates : ∀ size < 2 ^ 32, heap size = true) {n : Nat} {result : Int}
    {trace : List Exchange}
    (ran : brokerMain w invoke n (Host.start, ta) = some (.ok (result, ta', trace)))
    (garbage : Current) :
    ∃ bound, ∀ (turns : List Turn) t,
      Run (Step (caller w) (server chunk heap p fuel)) (.start Host.start ta garbage) turns t →
      turns.countP Turn.own ≤ bound + turns.countP (fun turn => !turn.own) ∧
        ((∀ turn, turn.own = true →
            t.step (caller w) (server chunk heap p fuel) turn = none) →
          t.caller = .finished (result, trace) ∧ t.server = .stopped) := by
  obtain ⟨m, queries, reached⟩ := sequential_main exact positive allocates start_bounded
    start_open ran
  obtain ⟨k, closed⟩ := @sequential_end chunk heap p fuel ta' w result queries trace
  have stops := Sequential.after_trans reached closed
  refine ⟨1 + 4 * (m + k), fun turns t run => ⟨run_bounded stops rfl run, fun halted => ?_⟩⟩
  have last := run_completes stops rfl run halted
  exact (run_sound (System.Sound.start _ _ _) run).ended last (halted .server rfl)

theorem threads_complete_readme :
    ∃ trace, trace.map (fun e : Exchange => e.method) = [.post, .post, .get, .post] ∧
    ∃ bound, ∀ (turns : List Turn) t,
      Run (Step (caller readmeWorld) (server 512 (fun _ => true) readmePlatform 20))
        (.start Host.start (Ta.start blankMemory)
          (putInvokeCommand 0 none)) turns t →
      turns.countP Turn.own ≤ bound + turns.countP (fun turn => !turn.own) ∧
        ((∀ turn, turn.own = true →
            t.step (caller readmeWorld) (server 512 (fun _ => true) readmePlatform 20) turn =
              none) →
          t.caller = .finished (0, trace) ∧ t.server = .stopped) := by
  obtain ⟨ta, trace, ran, methods⟩ := readmeMain_ends
  exact ⟨trace, methods, threads_complete
    (Pc.teecInvokeCommand_exact readmePlatform 20 fun _ _ => rfl) (Nat.succ_pos 511)
    (fun _ _ => rfl) ran _⟩

/-- Under every scheduler, while the enclave application is at work the broker waits in
the call that it serves, and of the broker's memory only what this call has as outputs
has changed, within the sizes it gives. -/
theorem threads_confined {turns : List Turn}
    {t : Rendezvous.System Host Ta Eapp Current (Int × List Exchange)}
    (run : Run (Step (caller w) (server chunk heap p fuel)) (.start Host.start ta garbage) turns t)
    {eapp : Eapp} (working : t.server = .working eapp) :
    t.caller.waiting ∧ ∃ put, (caller w).next t.k = .inl put ∧ Confined put t.slot := by
  obtain ⟨waiting, put, ready, next, passes⟩ := run_serving run working
  exact ⟨waiting, put, next, (passes_serve passes).2⟩

theorem threads_confined_readme :
    ∃ t eapp, Run (Step (caller readmeWorld) (server 512 (fun _ => true) readmePlatform 20))
        (.start Host.start (Ta.start blankMemory) (putInvokeCommand 0 none))
        [.server, .caller, .caller, .server, .server, .server] t ∧
      t.server = .working eapp ∧ t.caller.waiting ∧
      ∃ put, (caller readmeWorld).next t.k = .inl put ∧ Confined put t.slot := by
  have reached : (exec (System.step (caller readmeWorld)
      (server 512 (fun _ => true) readmePlatform 20))
      (.start Host.start (Ta.start blankMemory) (putInvokeCommand 0 none))
      [.server, .caller, .caller, .server, .server, .server]).map (fun t =>
        match t.server with
        | .working _ => true
        | _ => false) = some true := by decide +kernel
  obtain ⟨t, executed, working⟩ := Option.map_eq_some_iff.mp reached
  have run : Run (Step (caller readmeWorld) (server 512 (fun _ => true) readmePlatform 20)) _ _ t :=
    Run.of_exec (fun _ _ _ step => step) executed
  split at working
  · rename_i eapp atWork
    exact ⟨t, eapp, run, atWork, threads_confined run atWork⟩
  · cases working

end Threads

end TeepDevice.Broker.Keystone
