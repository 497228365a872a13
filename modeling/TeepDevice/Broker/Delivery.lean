import TeepDevice.Broker.Loop

/-! Whether a prepared Error reaches the TAM: the agent tells the broker of some
rejections by a result that ends the broker's loop. -/
namespace TeepDevice.Broker
open Tcbor Suit Teep Agent Transition

variable {p : Platform}

section Agent

/-- QCBOR can build the Error of the session in the buffer of the task. -/
def ErrorFits (p : Platform) (session : Session) : Prop :=
  ∃ n ∈ (p.qcbor.encode (errorOps session) session.taskBuffer.postData).2, n ≤ teepMaxMessageLen

instance (p : Platform) (session : Session) : Decidable (ErrorFits p session) :=
  inferInstanceAs (Decidable (∃ n ∈ (p.qcbor.encode (errorOps session)
    session.taskBuffer.postData).2, n ≤ teepMaxMessageLen))

/-- The URI of a POST ends inside of its field. -/
def UriEnds (p : Platform) (session : Session) : Prop :=
  0 ∈ (postTask p session).uri.take teepMaxUriLen

instance (p : Platform) (session : Session) : Decidable (UriEnds p session) :=
  inferInstanceAs (Decidable (0 ∈ (postTask p session).uri.take teepMaxUriLen))

theorem takeWhile_length_lt {bytes : Bytes} {n : Nat} (ends : 0 ∈ bytes.take n) (more : Bytes) :
    ((bytes ++ more).takeWhile (· ≠ 0)).length < n := by
  induction bytes generalizing n with
  | nil =>
    rw [List.take_nil] at ends
    exact absurd ends List.not_mem_nil
  | cons b rest ih =>
    cases n with
    | zero =>
      rw [List.take_zero] at ends
      exact absurd ends List.not_mem_nil
    | succ n =>
      rw [List.take_succ_cons] at ends
      rw [List.cons_append]
      by_cases zero : b = 0
      · rw [List.takeWhile_cons_of_neg (by simp [zero])]
        exact Nat.succ_pos n
      · rw [List.takeWhile_cons_of_pos (by simp [zero]), List.length_cons]
        have later : 0 ∈ rest.take n := (List.mem_cons.mp ends).resolve_left fun same =>
          zero same.symm
        exact Nat.succ_lt_succ (ih later)

theorem copyoutTask_fits (task : BrokerTask) (ends : 0 ∈ task.uri.take teepMaxUriLen)
    (small : task.postDataLen ≤ teepMaxMessageLen) :
    copyoutTask task teepMaxUriLen teepMaxMessageLen =
      .ok ⟨teeSuccess, some (task.command, (task.uri ++ task.postData).takeWhile (· ≠ 0) ++ [0],
        task.postData.take task.postDataLen)⟩ := by
  have zero : 0 ∈ task.uri ++ task.postData :=
    List.mem_append_left task.postData (List.mem_of_mem_take ends)
  have short := takeWhile_length_lt ends task.postData
  simp only [copyoutTask, taskString, if_pos zero]
  rw [if_neg (Nat.not_lt.mpr short), if_neg (Nat.not_lt.mpr small)]

/-- A task with an Error in it is copied out whole. -/
theorem copyout_error (ta : Ta) (fits : ErrorFits p ta.session) (ends : UriEnds p ta.session) :
    ∃ uri n, (p.qcbor.encode (errorOps ta.session) ta.session.taskBuffer.postData).2 = some n ∧
      copyoutTask (postMessage p ta .error (errorOps ta.session)).session.taskBuffer
          teepMaxUriLen teepMaxMessageLen =
        .ok ⟨teeSuccess, some (.httpPost, uri ++ [0],
          (p.qcbor.encode (errorOps ta.session) ta.session.taskBuffer.postData).1.take n)⟩ := by
  obtain ⟨n, encoded, small⟩ := fits
  rw [Option.mem_def] at encoded
  have length : (postMessage p ta .error (errorOps ta.session)).session.taskBuffer.postDataLen =
      n := by
    change (p.qcbor.encode (errorOps ta.session) ta.session.taskBuffer.postData).2.getD _ = n
    rw [encoded]
    rfl
  have copied := copyoutTask_fits (postMessage p ta .error
    (errorOps ta.session)).session.taskBuffer ends (by rw [length]; exact small)
  rw [length] at copied
  exact ⟨_, n, encoded, copied⟩

/-- A reply that leads to an Error is answered with success, if it parses. -/
theorem reply_error {ta ta' : Ta} {body : Bytes} {result : Nat}
    (busy : ta.session.onGoingTask = true) (post : ta.session.taskBuffer.command = .httpPost)
    (parses : body ≠ [] → ta.session.state ≠ .postingError → (parsed p ta body).isSome = true)
    (done : Agent.brokerTaskDone p ta body = .ok (ta', result))
    (error : ta'.session.state = .postingError) : result = teeSuccess := by
  obtain ⟨next, handled, rfl⟩ := brokerTaskDone_handled busy post done
  cases handleTamMessage_outcome handled with
  | ended => rfl
  | afterError => cases error
  | unparsed content live parse =>
    have some := parses content live
    rw [parse] at some
    cases some
  | refused => rfl
  | requested => rfl
  | notStored => rfl
  | updated => rfl

theorem download_result {ta ta' : Ta} {body : Bytes} {result : Nat}
    (busy : ta.session.onGoingTask = true) (get : ta.session.taskBuffer.command = .httpGet)
    (state : ta.session.state = .fetchComponent)
    (done : Agent.brokerTaskDone p ta body = .ok (ta', result)) :
    ta'.session.state = .runSuitRunner := by
  have fetching : ¬ ta.session.state ≠ .fetchComponent := fun other => other state
  simp only [Agent.brokerTaskDone, busy, get, Bool.not_true, Bool.false_eq_true, if_false,
    handleComponentDownload, if_neg fetching] at done
  cases done
  rfl

theorem brokerTaskDone_idle {ta ta' : Ta} {body : Bytes} {result : Nat}
    (busy : ta.session.onGoingTask = true) (open' : ta.session.taskBuffer.command ≠ .finish)
    (done : Agent.brokerTaskDone p ta body = .ok (ta', result)) :
    ta'.session.onGoingTask = false := by
  cases command : ta.session.taskBuffer.command with
  | finish => exact absurd command open'
  | httpPost =>
    obtain ⟨next, -, rfl⟩ := brokerTaskDone_handled busy command done
    rfl
  | httpGet =>
    simp only [Agent.brokerTaskDone, busy, command, Bool.not_true, Bool.false_eq_true,
      if_false] at done
    cases done
    rfl

theorem copyoutTask_cases {task : BrokerTask} {uriSize postDataSize : Nat} {response : Response}
    (copied : copyoutTask task uriSize postDataSize = .ok response) :
    response = ⟨teeErrorBadParameters, none⟩ ∨
      ∃ uri data, response = ⟨teeSuccess, some (task.command, uri ++ [0], data)⟩ := by
  unfold copyoutTask at copied
  split at copied
  · cases copied
  · split at copied
    · cases copied
      exact .inl rfl
    · split at copied
      · cases copied
        exact .inl rfl
      · cases copied
        exact .inr ⟨_, _, rfl⟩

theorem agentQuery_cases {fuel : Nat} {ta ta' : Ta} {result : Int} {task : Option Task}
    (done : agentQueryNextBrokerTask p fuel ta = .ok (ta', result, task)) :
    queryNextBrokerTask p fuel ta = .ok ta' ∧
      (task = none ∧ copyoutTask ta'.session.taskBuffer teepMaxUriLen teepMaxMessageLen =
          .ok ⟨teeErrorBadParameters, none⟩ ∨
        ∃ uri data, result = 0 ∧ task = some ⟨ta'.session.taskBuffer.command, uri, data⟩ ∧
          copyoutTask ta'.session.taskBuffer teepMaxUriLen teepMaxMessageLen =
            .ok ⟨teeSuccess, some (ta'.session.taskBuffer.command, uri, data)⟩) := by
  simp only [agentQueryNextBrokerTask, invokeCommand] at done
  cases query : queryNextBrokerTask p fuel ta with
  | error fault =>
    rw [query] at done
    cases done
  | ok next =>
    rw [query] at done
    dsimp only at done
    cases copied : copyoutTask next.session.taskBuffer teepMaxUriLen teepMaxMessageLen with
    | error fault =>
      rw [copied] at done
      cases done
    | ok response =>
      rw [copied] at done
      rcases copyoutTask_cases copied with rfl | ⟨uri, data, rfl⟩
      · cases done
        exact ⟨rfl, .inl ⟨rfl, copied⟩⟩
      · have last : ¬ (uri ++ [0]).getLast? ≠ some 0 := by
          rw [List.getLast?_concat]
          exact fun other => other rfl
        dsimp only at done
        rw [if_neg last] at done
        cases done
        exact ⟨rfl, .inr ⟨_, _, rfl, rfl, copied⟩⟩

/-- A query that comes to an Error hands it out, if it can be posted at all. -/
theorem query_error {fuel : Nat} {ta ta' : Ta} (idle : ta.session.onGoingTask = false)
    (query : queryNextBrokerTask p fuel ta = .ok ta')
    (error : ta'.session.state = .postingError)
    (postable : .error ∈ ta.session.state.mayPost →
      ErrorFits p ta.session ∧ UriEnds p ta.session) :
    ∃ uri data, copyoutTask ta'.session.taskBuffer teepMaxUriLen teepMaxMessageLen =
      .ok ⟨teeSuccess, some (.httpPost, uri, data)⟩ := by
  obtain ⟨state, runner, may, outcome⟩ := query_hands idle query
  cases outcome with
  | silent command quiet =>
    change state = .postingError at error
    rw [error] at quiet
    cases quiet
  | posted posts =>
    change state = .postingError at error
    subst error
    cases posts
    obtain ⟨fits, ends⟩ := postable (may .error (List.mem_singleton.mpr rfl))
    have fits' : ErrorFits p { ta.session with
      state := .postingError, suitRunner := runner } := fits
    obtain ⟨uri, n, -, copied⟩ := copyout_error { ta with session := { ta.session with
      state := .postingError, suitRunner := runner } } fits' ends
    exact ⟨_, _, copied⟩

end Agent

section System

/-- Errors can be posted: QCBOR builds them, their URI ends in its field, and
every reply to a POST parses as some TEEP message. -/
def Deliverable (p : Platform) (s : System) (body : Bytes) : Prop :=
  match s.position with
  | .querying => .error ∈ s.ta.session.state.mayPost →
    ErrorFits p s.ta.session ∧ UriEnds p s.ta.session
  | .requesting task => task.command = .httpPost → body ≠ [] →
    s.ta.session.state ≠ .postingError → (parsed p s.ta body).isSome = true
  | .exited _ => True

instance (p : Platform) : (s : System) → (body : Bytes) → Decidable (Deliverable p s body)
  | ⟨ta, .querying⟩, _ => inferInstanceAs (Decidable (.error ∈ ta.session.state.mayPost →
      ErrorFits p ta.session ∧ UriEnds p ta.session))
  | ⟨ta, .requesting task⟩, body => inferInstanceAs (Decidable (task.command = .httpPost →
      body ≠ [] → ta.session.state ≠ .postingError → (parsed p ta body).isSome = true))
  | ⟨_, .exited _⟩, _ => inferInstanceAs (Decidable True)

/-- How the position of the broker and the session of the agent go together. -/
structure Coupled (s : System) : Prop where
  task : TaskMatches s.ta
  idle : s.position = .querying → s.ta.session.onGoingTask = false
  busy : ∀ task, s.position = .requesting task → s.ta.session.onGoingTask = true ∧
    s.ta.session.taskBuffer.command = task.command ∧ task.command ≠ .finish
  ended : ∀ result, s.position = .exited result → s.ta.session.state ≠ .postingError

theorem Coupled.of_querying {ta : Ta} (idle : ta.session.onGoingTask = false) :
    Coupled ⟨ta, .querying⟩ := by
  refine ⟨.of_idle idle, fun _ => idle, ?_, ?_⟩
  · intro task position
    cases position
  · intro result position
    cases position

theorem Coupled.of_requesting {ta : Ta} {task : Task} (matching : TaskMatches ta)
    (busy : ta.session.onGoingTask = true) (command : ta.session.taskBuffer.command = task.command)
    (more : task.command ≠ .finish) : Coupled ⟨ta, .requesting task⟩ := by
  refine ⟨matching, ?_, ?_, ?_⟩
  · intro position
    cases position
  · intro asked position
    cases position
    exact ⟨busy, command, more⟩
  · intro result position
    cases position

theorem Coupled.of_exited {ta : Ta} {result : Int} (matching : TaskMatches ta)
    (ended : ta.session.state ≠ .postingError) : Coupled ⟨ta, .exited result⟩ := by
  refine ⟨matching, ?_, ?_, fun _ _ => ended⟩
  · intro position
    cases position
  · intro task position
    cases position

/-- Once a reply was handled, the loop goes on if an Error is to be posted. -/
theorem reply_coupled {fuel : Nat} {s s' : System} {body : Bytes} {task : Task}
    (coupled : Coupled s) (position : s.position = .requesting task)
    (deliverable : Deliverable p s body) (step : loopTeep p fuel s body = .ok s') :
    Coupled s' ∧ (s'.ta.session.state = .postingError → s'.position = .querying) := by
  obtain ⟨busy, command, open'⟩ := coupled.busy task position
  simp only [Deliverable, position] at deliverable
  simp only [loopTeep, position, brokerTaskDone, invokeCommand] at step
  cases done : Agent.brokerTaskDone p s.ta body with
  | error fault =>
    rw [done] at step
    cases step
  | ok pair =>
    obtain ⟨ta', result⟩ := pair
    rw [done] at step
    dsimp only at step
    have idle := brokerTaskDone_idle busy (command ▸ open') done
    have success (error : ta'.session.state = .postingError) : result = teeSuccess := by
      cases kind : task.command with
      | finish => exact absurd kind open'
      | httpPost =>
        exact reply_error busy (command.trans kind) (deliverable kind) done error
      | httpGet =>
        have get := command.trans kind
        have matching := coupled.task busy
        have state : s.ta.session.state = .fetchComponent := by
          rw [get] at matching
          cases state : s.ta.session.state with
          | fetchComponent => rfl
          | _ =>
            rw [state] at matching
            cases matching
        cases error.symm.trans (download_result busy get state done)
    split at step
    · rename_i negative
      cases step
      have elsewhere : ta'.session.state ≠ .postingError := by
        intro error
        rw [success error] at negative
        exact absurd negative (by decide)
      refine ⟨.of_exited (.of_idle idle) elsewhere, ?_⟩
      intro error
      exact absurd error elsewhere
    · cases step
      exact ⟨.of_querying idle, fun _ => rfl⟩

theorem query_coupled {fuel : Nat} {s s' : System} {body : Bytes} (coupled : Coupled s)
    (position : s.position = .querying) (deliverable : Deliverable p s body)
    (step : loopTeep p fuel s body = .ok s') : Coupled s' := by
  have idle := coupled.idle position
  simp only [Deliverable, position] at deliverable
  simp only [loopTeep, position] at step
  cases asked : agentQueryNextBrokerTask p fuel s.ta with
  | error fault =>
    rw [asked] at step
    cases step
  | ok triple =>
    obtain ⟨ta', result, task⟩ := triple
    obtain ⟨query, outcome⟩ := agentQuery_cases asked
    obtain ⟨state, runner, -, hands⟩ := query_hands idle query
    have busy : ta'.session.onGoingTask = true := by
      cases hands with
      | silent => rfl
      | posted => rfl
    have matching : TaskMatches ta' := by
      cases hands with
      | silent command quiet => exact fun _ => command
      | posted posts => exact fun _ => posts_task posts
    rw [asked] at step
    rcases outcome with ⟨rfl, failed⟩ | ⟨uri, data, rfl, rfl, copied⟩
    · cases step
      refine .of_exited matching ?_
      intro error
      obtain ⟨uri, data, copied⟩ := query_error idle query error deliverable
      cases failed.symm.trans copied
    · dsimp only at step
      rw [if_neg (by decide)] at step
      split at step
      · rename_i finish
        cases step
        refine .of_exited matching ?_
        intro error
        have task := matching busy
        rw [finish] at task
        change ta'.session.state = .postingError at error
        rw [error] at task
        cases task
      · rename_i open'
        cases step
        exact .of_requesting matching busy rfl open'

theorem step_coupled {s s' : System} {body : Bytes} (coupled : Coupled s)
    (step : Guarded (Deliverable p) (LoopStep p) s body s') : Coupled s' := by
  obtain ⟨deliverable, fuel, done⟩ := step
  cases position : s.position with
  | querying => exact query_coupled coupled position deliverable done
  | requesting task => exact (reply_coupled coupled position deliverable done).1
  | exited result =>
    simp only [loopTeep, position] at done
    cases done
    exact .of_exited coupled.task (coupled.ended result position)

theorem setAgentDevOption_idle {fuel option : Nat} {ta ta' : Ta} {value : Bytes} {result : Int}
    (idle : ta.session.onGoingTask = false)
    (done : setAgentDevOption p fuel ta option value = .ok (ta', result)) :
    ta'.session.onGoingTask = false := by
  simp only [setAgentDevOption, invokeCommand, List.getLast?_concat] at done
  rw [if_neg (fun other => other rfl)] at done
  have outcome := setDevOption_outcome (p := p) ta (.setDevOption option value) option
    ((value ++ [0]).takeWhile (· ≠ 0))
  generalize setDevOption p ta option _ = set at done outcome
  obtain ⟨next, code⟩ := set
  cases done
  cases outcome with
  | unchanged => exact idle
  | configured => exact idle

theorem start_coupled {memory : Session} {uri talist : Bytes} {fuel : Nat} {start : System}
    (started : System.start p fuel memory uri talist = .ok start) : Coupled start := by
  unfold System.start at started
  split at started
  · cases started
  · rename_i ta _ first
    split at started
    · cases started
    · rename_i ta' _ second
      cases started
      have idle := setAgentDevOption_idle (setAgentDevOption_idle rfl first) second
      exact .of_querying idle

/-- The request that follows an Error is the POST of it. -/
theorem loopTeep_error {s : System} {body : Bytes} (idle : s.ta.session.onGoingTask = false)
    (position : s.position = .querying) (error : s.ta.session.state = .postingError)
    (fits : ErrorFits p s.ta.session) (ends : UriEnds p s.ta.session) (fuel : Nat) :
    ∃ ta' uri n,
      (p.qcbor.encode (errorOps s.ta.session) s.ta.session.taskBuffer.postData).2 = some n ∧
      loopTeep p fuel s body = .ok ⟨ta', .requesting ⟨.httpPost, uri,
        (p.qcbor.encode (errorOps s.ta.session) s.ta.session.taskBuffer.postData).1.take n⟩⟩ := by
  obtain ⟨uri, n, encoded, copied⟩ := copyout_error s.ta fits ends
  have last : ¬ (uri ++ [0]).getLast? ≠ some 0 := by
    rw [List.getLast?_concat]
    exact fun other => other rfl
  refine ⟨postMessage p s.ta .error (errorOps s.ta.session), uri ++ [0], n, encoded, ?_⟩
  simp only [loopTeep, position, agentQueryNextBrokerTask, invokeCommand,
    query_postsError idle error fuel, copied, if_neg last]
  rfl

/-- In every run whose Errors can be posted and whose replies parse, an Error
that a reply leads to is the next request, and none is pending at the end. -/
theorem error_reaches_tam {memory : Session} {uri talist : Bytes} {fuel : Nat} {start s : System}
    {bodies : List Bytes} (started : System.start p fuel memory uri talist = .ok start)
    (run : Run (Guarded (Deliverable p) (LoopStep p)) start bodies s) :
    (∀ result, s.position = .exited result → s.ta.session.state ≠ .postingError) ∧
    (∀ task body s', s.position = .requesting task →
      Guarded (Deliverable p) (LoopStep p) s body s' → s'.ta.session.state = .postingError →
        s'.position = .querying) ∧
    (s.position = .querying → s.ta.session.state = .postingError →
      ∀ body, Deliverable p s body → ∀ fuel, ∃ ta' uri n,
        (p.qcbor.encode (errorOps s.ta.session) s.ta.session.taskBuffer.postData).2 = some n ∧
        loopTeep p fuel s body = .ok ⟨ta', .requesting ⟨.httpPost, uri,
          (p.qcbor.encode (errorOps s.ta.session)
            s.ta.session.taskBuffer.postData).1.take n⟩⟩) := by
  have coupled := run.invariant Coupled (fun _ _ _ coupled step => step_coupled coupled step)
    (start_coupled started)
  refine ⟨coupled.ended, ?_, ?_⟩
  · intro task body s' position step error
    obtain ⟨deliverable, fuel, done⟩ := step
    exact (reply_coupled coupled position deliverable done).2 error
  · intro position error body deliverable fuel
    have may : .error ∈ s.ta.session.state.mayPost := by
      rw [error]
      decide
    simp only [Deliverable, position] at deliverable
    obtain ⟨fits, ends⟩ := deliverable may
    exact loopTeep_error (coupled.idle position) position error fits ends fuel

/-- A loop around the sample platform that was answered with the given bodies. -/
def sampleLoop (ok : System → Bytes → Prop) [∀ s body, Decidable (ok s body)]
    (bodies : List Bytes) : Option System :=
  match System.start readmePlatform 0 blankMemory [0x61] [] with
  | .error _ => none
  | .ok start => exec (execLoop readmePlatform 0 ok) start bodies

theorem sampleLoop_run {ok : System → Bytes → Prop} [∀ s body, Decidable (ok s body)]
    {bodies : List Bytes} {s : System} (executed : sampleLoop ok bodies = some s) :
    ∃ start, System.start readmePlatform 0 blankMemory [0x61] [] = .ok start ∧
      Run (Guarded ok (LoopStep readmePlatform)) start bodies s := by
  unfold sampleLoop at executed
  split at executed
  · cases executed
  · rename_i start started
    exact ⟨start, started, .of_exec (fun _ _ _ => execLoop_guarded) executed⟩

/-- A TAM that answers with a Success is told about it. -/
theorem error_reaches_tam_success :
    ∃ s, sampleLoop (Deliverable readmePlatform) [[], [0x82, 0x05, 0xA0]] = some s ∧
      ∃ ta' uri, loopTeep readmePlatform 0 s [] =
        .ok ⟨ta', .requesting ⟨.httpPost, uri, [0x83, 0x06, 0xA0, 0x18, 0x2A]⟩⟩ := by
  have reached : (sampleLoop (Deliverable readmePlatform) [[], [0x82, 0x05, 0xA0]]).map
      (fun s => (s.position, s.ta.session.state, decide (Deliverable readmePlatform s []),
        (readmePlatform.qcbor.encode (errorOps s.ta.session) s.ta.session.taskBuffer.postData).2,
        (readmePlatform.qcbor.encode (errorOps s.ta.session)
          s.ta.session.taskBuffer.postData).1.take 5)) =
      some (.querying, .postingError, true, some 5, [0x83, 0x06, 0xA0, 0x18, 0x2A]) := by
    decide +kernel
  obtain ⟨s, executed, last⟩ := Option.map_eq_some_iff.mp reached
  simp only [Prod.mk.injEq, decide_eq_true_eq] at last
  obtain ⟨position, error, deliverable, length, bytes⟩ := last
  obtain ⟨start, started, run⟩ := sampleLoop_run executed
  obtain ⟨ta', uri, n, encoded, posted⟩ :=
    (error_reaches_tam started run).2.2 position error [] deliverable 0
  cases length.symm.trans encoded
  rw [bytes] at posted
  exact ⟨s, executed, ta', uri, posted⟩

theorem garbage_reply_ends_loop :
    ∃ start s, System.start readmePlatform 0 blankMemory [0x61] [] = .ok start ∧
      Run (LoopStep readmePlatform) start [[], [0xFF]] s ∧
      s.position = .exited (-1) ∧ s.ta.session.state = .postingError := by
  have reached : (sampleLoop (fun _ _ => True) [[], [0xFF]]).map
      (fun s => (s.position, s.ta.session.state)) = some (.exited (-1), .postingError) := by
    decide +kernel
  obtain ⟨s, executed, last⟩ := Option.map_eq_some_iff.mp reached
  obtain ⟨start, started, run⟩ := sampleLoop_run executed
  exact ⟨start, s, started, run.of_guarded, congrArg Prod.fst last, congrArg Prod.snd last⟩

end System

end TeepDevice.Broker
