import TeepDevice.Agent.Downloads
import TeepDevice.Broker.Transports

/-! The HTTP requests of a whole session. They are made in the order of the phases of
the agent: POSTs up to the Update, then the GETs, and one or two POSTs behind them. -/
namespace TeepDevice.Broker
open Tcbor Suit Teep Agent Transition

section Turns
variable {p : Platform}

/-- What a step of the loop is for the agent. -/
inductive Turned (p : Platform) (s : System) (body : Bytes) : System → Prop where
  | stays {result : Int} (position : s.position = .exited result) : Turned p s body s
  | left {ta : Ta} {result : Int} (position : s.position = .querying)
      (step : Step p s.ta (.queryNextBrokerTask teepMaxUriLen teepMaxMessageLen) ta) :
    Turned p s body ⟨ta, .exited result⟩
  | asked {ta : Ta} {task : Task} (position : s.position = .querying)
      (step : Step p s.ta (.queryNextBrokerTask teepMaxUriLen teepMaxMessageLen) ta)
      (busy : ta.session.onGoingTask = true)
      (handed : ta.session.taskBuffer.command = task.command) (more : task.command ≠ .finish) :
    Turned p s body ⟨ta, .requesting task⟩
  | replied {ta : Ta} {task : Task} {position : Position} (requesting : s.position = .requesting task)
      (step : Step p s.ta (.brokerTaskDone body) ta)
      (after : position = .querying ∨ position = .exited (-1)) : Turned p s body ⟨ta, position⟩

theorem loopStep_turned {s s' : System} {body : Bytes} (step : LoopStep p s body s') :
    Turned p s body s' := by
  obtain ⟨fuel, step⟩ := step
  obtain ⟨ta, position⟩ := s
  cases position with
  | exited result =>
    cases step
    exact .stays rfl
  | querying =>
    cases done : invokeCommand p fuel ta (.queryNextBrokerTask teepMaxUriLen teepMaxMessageLen) with
    | error fault =>
      simp only [loopTeep, agentQueryNextBrokerTask, done] at step
      cases step
    | ok outcome =>
      obtain ⟨ta', result, task⟩ := outcome
      cases task with
      | none =>
        rw [loopTeep_refused body done] at step
        cases step
        exact .left rfl ⟨fuel, _, done⟩
      | some handed =>
        obtain ⟨command, uri, data⟩ := handed
        obtain ⟨query, copied⟩ := invokeCommand_query done
        obtain ⟨-, string, rfl⟩ := copied_task copied
        rw [loopTeep_task body done] at step
        cases step
        split
        · exact .left rfl ⟨fuel, _, done⟩
        · rename_i more
          have same : ta'.session.taskBuffer.command = command := by
            rcases copyoutTask_cases copied with refused | ⟨uri', data', handed⟩
            · cases refused
            · have parts := Option.some.inj (congrArg Response.task handed)
              exact (congrArg Prod.fst parts).symm
          exact .asked rfl ⟨fuel, _, done⟩ (query_busy query) same more
  | requesting task =>
    cases done : invokeCommand p fuel ta (.brokerTaskDone body) with
    | error fault =>
      simp only [loopTeep, brokerTaskDone, done] at step
      cases step
    | ok outcome =>
      obtain ⟨ta', response⟩ := outcome
      rw [loopTeep_done task done] at step
      cases step
      apply Turned.replied rfl ⟨fuel, _, done⟩
      split
      · exact .inr rfl
      · exact .inl rfl

/-- The task the broker is at is the one the agent waits for. -/
structure Linked (s : System) : Prop where
  task : TaskMatches s.ta
  idle : s.position = .querying → s.ta.session.onGoingTask = false
  busy : ∀ task, s.position = .requesting task → s.ta.session.onGoingTask = true ∧
    s.ta.session.taskBuffer.command = task.command ∧ task.command ≠ .finish

theorem done_idle {ta ta' : Ta} {body : Bytes} (busy : ta.session.onGoingTask = true)
    (more : ta.session.taskBuffer.command ≠ .finish)
    (step : Step p ta (.brokerTaskDone body) ta') : ta'.session.onGoingTask = false := by
  obtain ⟨fuel, response, done⟩ := step
  simp only [invokeCommand] at done
  cases handled : Agent.brokerTaskDone p ta body with
  | error fault =>
    rw [handled] at done
    cases done
  | ok outcome =>
    rw [handled] at done
    cases done
    exact brokerTaskDone_idle busy more handled

theorem turned_linked {s s' : System} {body : Bytes} (linked : Linked s)
    (turned : Turned p s body s') : Linked s' := by
  cases turned with
  | stays position => exact linked
  | left position step =>
    refine ⟨step_taskMatches linked.task step, ?_, ?_⟩
    · intro position
      cases position
    · intro task position
      cases position
  | asked position step busy handed more =>
    refine ⟨step_taskMatches linked.task step, ?_, ?_⟩
    · intro position
      cases position
    · intro task position
      cases position
      exact ⟨busy, handed, more⟩
  | @replied ta task position requesting step after =>
    obtain ⟨busy, handed, more⟩ := linked.busy task requesting
    have idle := done_idle busy (handed ▸ more) step
    refine ⟨.of_idle idle, fun _ => idle, ?_⟩
    intro task' position'
    rcases after with rfl | rfl
    · cases position'
    · cases position'

end Turns

section Order
variable {p : Platform}

theorem phase_lt_error {state : AgentState} (task : state.task = some .httpPost)
    (live : state ≠ .postingError) : state.phase < AgentState.postingError.phase := by
  cases state with
  | postingInitialRequest => decide
  | postingQueryResponse => decide
  | postingSuccess => decide
  | postingError => exact absurd rfl live
  | init => cases task
  | initRunner => cases task
  | runSuitRunner => cases task
  | fetchComponent => cases task
  | finish => cases task

/-- What a reply makes of the state that its task was handed out in. -/
inductive Replied (before after : AgentState) : Prop where
  | failed (up : before.phase < after.phase) (late : 6 ≤ after.phase)
  | requested (state : before = .postingInitialRequest) (next : after = .postingQueryResponse)
  | again (state : before = .postingQueryResponse) (next : after = .postingQueryResponse)
  | updated (state : before = .postingQueryResponse) (next : after = .initRunner)
  | downloaded (state : before = .fetchComponent) (next : after = .runSuitRunner)

theorem step_replied {ta ta' : Ta} {body : Bytes} (matching : TaskMatches ta)
    (busy : ta.session.onGoingTask = true) (more : ta.session.taskBuffer.command ≠ .finish)
    (step : Step p ta (.brokerTaskDone body) ta') : Replied ta.session.state ta'.session.state := by
  have task := matching busy
  have idle := done_idle busy more step
  cases step_outcome step with
  | unchanged =>
    rw [busy] at idle
    cases idle
  | configured state =>
    rw [state] at task
    cases task
  | downloaded _ fetch =>
    rw [fetch] at task
    have state := task_fetch task
    have fetching : ¬ ta.session.state ≠ .fetchComponent := fun other => other state
    unfold handleComponentDownload
    rw [if_neg fetching]
    exact .downloaded state rfl
  | replied _ post outcome =>
    rw [post] at task
    have live := phase_le_error task
    cases outcome with
    | ended => exact .failed (Nat.lt_succ_of_le live) (Nat.le_succ 6)
    | afterError => exact .failed (Nat.lt_succ_of_le live) (Nat.le_succ 6)
    | unparsed _ state => exact .failed (phase_lt_error task state) (Nat.le_refl _)
    | refused _ state => exact .failed (phase_lt_error task state) (Nat.le_refl _)
    | requested _ _ _ state => exact .requested state rfl
    | notStored _ _ _ state => exact .again state state
    | updated _ _ _ _ _ state =>
      simp only [Ta.clearTask]
      split
      · exact .updated state rfl
      · rw [state]
        exact .failed (by decide) (Nat.le_refl _)

/-- A query does not get past a QueryRequest or an Update that has not come. -/
theorem query_waits {fuel n : Nat} {ta ta' : Ta} (low : 1 ≤ n) (high : n ≤ 2)
    (idle : ta.session.onGoingTask = false) (query : queryNextBrokerTask p fuel ta = .ok ta')
    (below : ta.session.state.phase ≤ n) : ta'.session.state.phase ≤ n := by
  apply query_rule (fun s => s.session.state.phase ≤ n) (fun s => s.session.state.phase ≤ n)
    _ _ below idle query
  · intro s next holds _ pass
    cases pass with
    | begins state => exact low
    | starts state started =>
      rw [state] at holds
      exact absurd (Nat.le_trans holds high) (by decide)
    | runs state ran =>
      rw [state] at holds
      exact absurd (Nat.le_trans holds high) (by decide)
  · intro s next holds _ pass
    obtain ⟨task, history, rfl⟩ := queryBody_leaves pass
    exact holds

theorem step_waits' {n uriSize postDataSize : Nat} {ta ta' : Ta} (low : 1 ≤ n) (high : n ≤ 2)
    (step : Step p ta (.queryNextBrokerTask uriSize postDataSize) ta')
    (below : ta.session.state.phase ≤ n) : ta'.session.state.phase ≤ n := by
  cases step_outcome step with
  | unchanged => exact below
  | configured => exact below
  | queried idle query => exact query_waits low high idle query below

section Lists
variable {methods : List Http.Method} {before gets after : Nat}

/-- POSTs up to the Update, GETs, and the POSTs of a Success and of an Error. -/
def sequence (before gets after : Nat) : List Http.Method :=
  List.replicate before .post ++ List.replicate gets .get ++ List.replicate after .post

theorem sequence_get (before gets : Nat) :
    sequence before gets 0 ++ [.get] = sequence before (gets + 1) 0 := by
  simp only [sequence, List.replicate_zero, List.append_nil]
  rw [List.append_assoc, ← List.replicate_succ']

theorem sequence_early (before : Nat) :
    sequence before 0 0 ++ [.post] = sequence (before + 1) 0 0 := by
  simp only [sequence, List.replicate_zero, List.append_nil]
  rw [← List.replicate_succ']

theorem sequence_late (before gets after : Nat) :
    sequence before gets after ++ [.post] = sequence before gets (after + 1) := by
  rw [sequence, List.append_assoc, ← List.replicate_succ']
  rfl

end Lists

/-- The loop with the requests that were answered. -/
structure Counted (p : Platform) (memory : Session) (s : Traced) (before gets after : Nat) :
    Prop where
  linked : Linked s.system
  methods : s.trace.map (fun e => e.method) = sequence before gets after
  early : s.system.ta.session.state.phase ≤ 3 → gets = 0
  late : after = 0 ∨ after + 5 ≤ s.system.ta.session.state.phase
  asked : 2 ≤ s.system.ta.session.state.phase → s.system.ta.session.state.phase ≤ 5 → 1 ≤ before
  answered : 3 ≤ s.system.ta.session.state.phase → s.system.ta.session.state.phase ≤ 5 →
    2 ≤ before
  fetched : 0 < gets → 2 ≤ before
  logged : ∃ commands log,
    Run (LoggedStep p) (Ta.start memory, []) commands (s.system.ta, log) ∧ log.length = gets

theorem Counted.last {memory : Session} {s : Traced} {before gets after : Nat}
    (counted : Counted p memory s before gets after) : after ≤ 2 := by
  have finish : s.system.ta.session.state.phase ≤ 7 := phase_le_finish _
  rcases counted.late with none | some
  · omega
  · omega

/-- Asking for a task makes no request. -/
theorem Counted.query {memory : Session} {ta : Ta} {position : Position} {s : Traced}
    {before gets after : Nat} (counted : Counted p memory s before gets after)
    (linked : Linked ⟨ta, position⟩)
    (step : Step p s.system.ta (.queryNextBrokerTask teepMaxUriLen teepMaxMessageLen) ta) :
    Counted p memory ⟨⟨ta, position⟩, s.trace⟩ before gets after := by
  have up : s.system.ta.session.state.phase ≤ ta.session.state.phase :=
    (step_advances counted.linked.task step).phase
  have asks (waits : s.system.ta.session.state.phase ≤ 1) : ta.session.state.phase ≤ 1 :=
    step_waits' (Nat.le_refl 1) (by decide) step waits
  have answers (waits : s.system.ta.session.state.phase ≤ 2) : ta.session.state.phase ≤ 2 :=
    step_waits' (by decide) (Nat.le_refl 2) step waits
  refine ⟨linked, counted.methods, ?_, ?_, ?_, ?_, counted.fetched, ?_⟩
  · exact fun below => counted.early (Nat.le_trans up below)
  · exact counted.late.imp_right fun le => Nat.le_trans le up
  · intro (above : 2 ≤ ta.session.state.phase) (below : ta.session.state.phase ≤ 5)
    apply counted.asked
    · omega
    · omega
  · intro (above : 3 ≤ ta.session.state.phase) (below : ta.session.state.phase ≤ 5)
    apply counted.answered
    · omega
    · omega
  · obtain ⟨commands, log, run, length⟩ := counted.logged
    have noted : (ta, log).2 = log ++ completed s.system.ta
        (.queryNextBrokerTask teepMaxUriLen teepMaxMessageLen) := (List.append_nil log).symm
    exact ⟨_, log, run.snoc ⟨step, noted⟩, length⟩

section Replies
variable {memory : Session} {ta : Ta} {task : Task} {body : Bytes} {position : Position}
  {s : Traced} {before gets after : Nat} (counted : Counted p memory s before gets after)
  (linked : Linked ⟨ta, position⟩) (step : Step p s.system.ta (.brokerTaskDone body) ta)
  (busy : s.system.ta.session.onGoingTask = true)
  (handed : s.system.ta.session.taskBuffer.command = task.command)

include counted step busy handed in
theorem Counted.logs :
    ∃ commands log, Run (LoggedStep p) (Ta.start memory, []) commands (ta, log) ∧
      log.length = gets + if task.command = .httpGet then 1 else 0 := by
  obtain ⟨commands, log, run, length⟩ := counted.logged
  refine ⟨_, _, run.snoc ⟨step, rfl⟩, ?_⟩
  rw [List.length_append, length]
  simp only [completed, busy, handed, true_and]
  split
  · rfl
  · rfl

include counted linked step busy handed in
/-- A GET is made for a component, behind the POSTs of the QueryResponse. -/
theorem Counted.get (get : task.command = .httpGet) :
    Counted p memory ⟨⟨ta, position⟩, s.trace ++ [exchangeOf task (some body)]⟩ before (gets + 1)
      after := by
  have current := counted.linked.task busy
  rw [handed, get] at current
  have state := task_fetch current
  have more : task.command ≠ .finish := by
    rw [get]
    exact nofun
  have replied := step_replied counted.linked.task busy (handed ▸ more) step
  have phase : s.system.ta.session.state.phase = 4 := by
    rw [state]
    rfl
  have none : after = 0 := counted.late.resolve_right (by omega)
  have two : 2 ≤ before := counted.answered (by omega) (by omega)
  have up : s.system.ta.session.state.phase ≤ ta.session.state.phase := by
    cases replied with
    | failed up late => exact Nat.le_of_lt up
    | requested state' => rw [state] at state'; cases state'
    | again state' => rw [state] at state'; cases state'
    | updated state' => rw [state] at state'; cases state'
    | downloaded _ next => rw [state, next]; decide
  subst none
  refine ⟨linked, ?_, ?_, .inl rfl, fun _ _ => Nat.le_trans (by decide) two, fun _ _ => two,
    fun _ => two, ?_⟩
  · have method : (exchangeOf task (some body)).method = .get := by
      simp only [exchangeOf, get]
    rw [List.map_append, counted.methods, List.map_singleton, method, sequence_get]
  · intro (below : ta.session.state.phase ≤ 3)
    omega
  · have logs := counted.logs step busy handed
    rw [if_pos get] at logs
    exact logs

theorem post_method {task : Task} (post : task.command = .httpPost) (reply : Option Bytes) :
    (exchangeOf task reply).method = .post := by
  simp only [exchangeOf, post]

include counted linked step busy handed in
/-- A POST is made before all GETs or behind them. -/
theorem Counted.post (post : task.command = .httpPost) :
    ∃ before' after', Counted p memory
      ⟨⟨ta, position⟩, s.trace ++ [exchangeOf task (some body)]⟩ before' gets after' := by
  have current := counted.linked.task busy
  rw [handed, post] at current
  have more : task.command ≠ .finish := by
    rw [post]
    exact nofun
  have replied := step_replied counted.linked.task busy (handed ▸ more) step
  have logs := counted.logs step busy handed
  have notGet : ¬ task.command = .httpGet := by
    rw [post]
    exact nofun
  rw [if_neg notGet, Nat.add_zero] at logs
  by_cases early : s.system.ta.session.state.phase ≤ 3
  · have noGet := counted.early early
    have none : after = 0 := counted.late.resolve_right (by omega)
    subst none noGet
    refine ⟨before + 1, 0, linked, ?_, fun _ => rfl, .inl rfl, fun _ _ => Nat.succ_pos before, ?_,
      nofun, logs⟩
    · rw [List.map_append, counted.methods, List.map_singleton, post_method post, sequence_early]
    · intro (above : 3 ≤ ta.session.state.phase) (below : ta.session.state.phase ≤ 5)
      have asked : 1 ≤ before := by
        cases replied with
        | failed up late => omega
        | requested state next => rw [next] at above; exact absurd above (by decide)
        | again state next => rw [next] at above; exact absurd above (by decide)
        | updated state next => exact counted.asked (by rw [state]; decide) (by rw [state]; decide)
        | downloaded state next => rw [state] at current; cases current
      exact Nat.succ_le_succ asked
  · have up : s.system.ta.session.state.phase < ta.session.state.phase ∧
        6 ≤ ta.session.state.phase := by
      cases replied with
      | failed up late => exact ⟨up, late⟩
      | requested state next => rw [state] at early; exact absurd (by decide) early
      | again state next => rw [state] at early; exact absurd (by decide) early
      | updated state next => rw [state] at early; exact absurd (by decide) early
      | downloaded state next => rw [state] at current; cases current
    refine ⟨before, after + 1, linked, ?_, ?_, ?_, ?_, ?_, counted.fetched, logs⟩
    · rw [List.map_append, counted.methods, List.map_singleton, post_method post, sequence_late]
    · intro (below : ta.session.state.phase ≤ 3)
      omega
    · right
      change after + 1 + 5 ≤ ta.session.state.phase
      rcases counted.late with none | some
      · omega
      · omega
    · intro _ (below : ta.session.state.phase ≤ 5)
      omega
    · intro _ (below : ta.session.state.phase ≤ 5)
      omega

end Replies

theorem step_counted {memory : Session} {s s' : Traced} {body : Bytes} {before gets after : Nat}
    (counted : Counted p memory s before gets after) (step : TracedStep p s body s') :
    ∃ before' gets' after', Counted p memory s' before' gets' after' := by
  obtain ⟨taken, trace⟩ := step
  obtain ⟨system', trace'⟩ := s'
  have turned := loopStep_turned taken
  have linked := turned_linked counted.linked turned
  cases turned with
  | stays position =>
    simp only [position] at trace
    subst trace
    exact ⟨before, gets, after, counted⟩
  | left position asked =>
    simp only [position] at trace
    subst trace
    exact ⟨before, gets, after, counted.query linked asked⟩
  | asked position asked busy handed more =>
    simp only [position] at trace
    subst trace
    exact ⟨before, gets, after, counted.query linked asked⟩
  | @replied ta task position requesting replied ended =>
    simp only [requesting] at trace
    subst trace
    obtain ⟨busy, handed, more⟩ := counted.linked.busy task requesting
    cases command : task.command with
    | finish => exact absurd command more
    | httpGet => exact ⟨before, gets + 1, after, counted.get linked replied busy handed command⟩
    | httpPost =>
      obtain ⟨before', after', posted⟩ := counted.post linked replied busy handed command
      exact ⟨before', gets, after', posted⟩

theorem option_step {fuel option : Nat} {ta ta' : Ta} {value : Bytes} {result : Int}
    (done : setAgentDevOption p fuel ta option value = .ok (ta', result)) :
    Step p ta (.setDevOption option (value ++ [0])) ta' := by
  unfold setAgentDevOption at done
  split at done
  · cases done
  · rename_i sent
    cases done
    exact ⟨fuel, _, sent⟩

theorem option_state {option : Nat} {ta ta' : Ta} {value : Bytes}
    (step : Step p ta (.setDevOption option value) ta') :
    ta'.session.state = ta.session.state := by
  cases step_outcome step with
  | unchanged => rfl
  | configured => rfl

theorem start_counted {memory : Session} {uri talist : Bytes} {fuel : Nat} {start : System}
    (started : System.start p fuel memory uri talist = .ok start) :
    Counted p memory ⟨start, []⟩ 0 0 0 := by
  have coupled := start_coupled started
  unfold System.start at started
  split at started
  · cases started
  · rename_i ta _ first
    split at started
    · cases started
    · rename_i ta' _ second
      cases started
      have one := option_step first
      have two := option_step second
      have state : ta'.session.state = .init :=
        (option_state two).trans ((option_state one).trans rfl)
      have phase : ta'.session.state.phase = 0 := by
        rw [state]
        rfl
      have run : Run (LoggedStep p) (Ta.start memory, [])
          [.setDevOption 0 (uri ++ [0]), .setDevOption 1 (talist ++ [0])] (ta', []) := by
        refine @Run.snoc _ _ _ _ (ta, []) _ [Command.setDevOption 0 (uri ++ [0])] _ ?_ ?_
        · exact .snoc (.nil _) ⟨one, rfl⟩
        · exact ⟨two, rfl⟩
      refine ⟨⟨coupled.task, coupled.idle, coupled.busy⟩, rfl, fun _ => rfl, .inl rfl, ?_, ?_, nofun,
        _, [], run, rfl⟩
      · intro (above : 2 ≤ ta'.session.state.phase)
        omega
      · intro (above : 3 ≤ ta'.session.state.phase)
        omega

theorem run_counted {memory : Session} {uri talist : Bytes} {fuel : Nat} {start : System}
    {bodies : List Bytes} {s : Traced}
    (started : System.start p fuel memory uri talist = .ok start)
    (run : Run (TracedStep p) ⟨start, []⟩ bodies s) :
    ∃ before gets after, Counted p memory s before gets after := by
  apply run.invariant (fun s => ∃ before gets after, Counted p memory s before gets after)
  · rintro s body s' ⟨before, gets, after, counted⟩ step
    exact step_counted counted step
  · exact ⟨0, 0, 0, start_counted started⟩

/-- No more components are downloaded than the manifest fetches. -/
theorem downloads_bounded {memory : Session} {commands : List Command} {ta : Ta}
    {log : List (Bytes × Bytes)}
    (run : Run (LoggedStep p) (Ta.start memory, []) commands (ta, log)) :
    log.length + (if ta.session.state = .fetchComponent then 1 else 0) ≤
      (remotes (fetchesOf p ta.session.suitContext)).length := by
  obtain ⟨-, progress⟩ := run_progress run
  cases progress with
  | unstarted state stores empty =>
    have other : ta.session.state ≠ .fetchComponent := by
      intro here
      rcases state with early | late
      · rw [here] at early
        exact absurd early (by decide)
      · rw [here] at late
        exact absurd late (by decide)
    have none : log = [] := empty
    rw [none, if_neg other]
    exact Nat.zero_le _
  | carrying traced carrying =>
    obtain ⟨rest, noted⟩ := carrying.follows.noted
    have whole : (remotes (fetchesOf p ta.session.suitContext)).length =
        (remotes traced.effects.user.2).length + (remotes rest).length := by
      rw [← noted, remotes_append, List.length_append]
      rfl
    cases carrying.landing with
    | settled running settled =>
      have count : (remotes traced.effects.user.2).length = log.length :=
        settled.count.trans (List.length_map _)
      have other : ¬ ta.session.state = .fetchComponent := by
        intro here
        cases running.symm.trans (carrying.waits.mpr here)
      rw [if_neg other]
      omega
    | @pending before uri suspended noted _ settled =>
      have count : (remotes before).length = log.length := settled.count.trans (List.length_map _)
      rw [noted, remotes_append, List.length_append] at whole
      rw [if_pos (carrying.waits.mp suspended)]
      have one : (remotes [⟨traced.effects.user.1.fetchComponentPath.filename,
        .remote uri⟩]).length = 1 := rfl
      omega

end Order

section Sessions
variable {p : Platform} {fuel : Nat} {w : World} {invoke : Transport} {memory : Session}

/-- The requests of a broker, also the one whose reply the agent has not seen. -/
structure Made (p : Platform) (s : Host × Ta) (before gets after : Nat) : Prop where
  methods : s.1.trace.map (fun e => e.method) = sequence before gets after
  last : after ≤ 2
  fetched : 0 < gets → 2 ≤ before
  bounded : gets ≤ (remotes (fetchesOf p s.2.session.suitContext)).length

theorem Counted.made {s : Traced} {before gets after : Nat}
    (counted : Counted p memory s before gets after) {place : Place} {queries : Nat} :
    Made p (⟨place, queries, s.trace⟩, s.system.ta) before gets after := by
  obtain ⟨commands, log, run, length⟩ := counted.logged
  have bounded := downloads_bounded run
  have enough : gets ≤ (remotes (fetchesOf p s.system.ta.session.suitContext)).length := by
    omega
  exact ⟨counted.methods, counted.last, counted.fetched, enough⟩

/-- A request that was made and that the loop still waits for. -/
theorem Counted.pending {s : Traced} {before gets after : Nat}
    (counted : Counted p memory s before gets after) {task : Task}
    (requesting : s.system.position = .requesting task) (reply : Option Bytes) {place : Place}
    {queries : Nat} :
    ∃ before' gets' after', Made p
      (⟨place, queries, s.trace ++ [exchangeOf task reply]⟩, s.system.ta) before' gets' after' := by
  obtain ⟨commands, log, run, length⟩ := counted.logged
  have bounded := downloads_bounded run
  obtain ⟨busy, handed, more⟩ := counted.linked.busy task requesting
  have current := counted.linked.task busy
  rw [handed] at current
  cases command : task.command with
  | finish => exact absurd command more
  | httpGet =>
    rw [command] at current
    have state := task_fetch current
    have phase : s.system.ta.session.state.phase = 4 := by
      rw [state]
      rfl
    have none : after = 0 := counted.late.resolve_right (by omega)
    have two : 2 ≤ before := counted.answered (by omega) (by omega)
    have method : (exchangeOf task reply).method = .get := by
      simp only [exchangeOf, command]
    rw [if_pos state, length] at bounded
    refine ⟨before, gets + 1, 0, ?_, Nat.zero_le 2, fun _ => two, bounded⟩
    rw [List.map_append, counted.methods, List.map_singleton, method, none, sequence_get]
  | httpPost =>
    rw [command] at current
    have live := phase_le_error current
    have live' : s.system.ta.session.state.phase ≤ 6 := live
    have method := post_method command reply
    have enough : gets ≤ (remotes (fetchesOf p s.system.ta.session.suitContext)).length := by
      omega
    by_cases early : s.system.ta.session.state.phase ≤ 3
    · have noGet := counted.early early
      have none : after = 0 := counted.late.resolve_right (by omega)
      refine ⟨before + 1, 0, 0, ?_, Nat.zero_le 2, nofun, Nat.zero_le _⟩
      rw [List.map_append, counted.methods, List.map_singleton, method, none, noGet,
        sequence_early]
    · refine ⟨before, gets, after + 1, ?_, ?_, counted.fetched, enough⟩
      · rw [List.map_append, counted.methods, List.map_singleton, method, sequence_late]
      · rcases counted.late with none | some
        · omega
        · omega

theorem started_made {s : Host × Ta} (started : Started p fuel w memory s) :
    ∃ before gets after, Made p s before gets after := by
  cases started with
  | uri => exact ⟨0, 0, 0, rfl, Nat.zero_le 2, nofun, Nat.zero_le _⟩
  | talist set => exact ⟨0, 0, 0, rfl, Nat.zero_le 2, nofun, Nat.zero_le _⟩
  | @looping host start bodies s begun run at_ =>
    obtain ⟨before, gets, after, counted⟩ := run_counted begun run
    obtain ⟨⟨ta, position⟩, trace⟩ := s
    cases at_ with
    | querying => exact ⟨before, gets, after, counted.made⟩
    | reporting task body => exact counted.pending rfl (some body)
    | failed task left => exact counted.pending rfl none
    | left left => exact ⟨before, gets, after, counted.made⟩

/-- How many calls a broker has made of the TA at a place, for its requests. -/
def Place.calls : Place → Nat → Nat
  | .settingUri, _ => 0
  | .settingTaList, _ => 1
  | .querying, n => 2 * n + 2
  | .reporting _, n => 2 * n + 1
  | .closing _, n => 2 * n + 3
  | .closed _, n => 2 * n + 4

theorem request_paced (host : Host) (method : Http.Method) (task : RawTask) :
    2 * host.trace.length + 3 ≤
      (host.request w method task).place.calls (host.request w method task).trace.length := by
  unfold Host.request
  dsimp only
  split
  · simp only [Place.calls, List.length_append, List.length_singleton]
    omega
  · simp only [Place.calls, List.length_append, List.length_singleton]
    omega

theorem dispatch_paced (host : Host) (task : RawTask) :
    2 * host.trace.length + 3 ≤
      (host.dispatch w task).place.calls (host.dispatch w task).trace.length := by
  unfold Host.dispatch
  split
  · exact Nat.le_refl _
  · split
    · exact request_paced host .post task
    · split
      · exact request_paced host .get task
      · exact Nat.le_refl _

theorem queried_paced (host : Host) (result : Nat) (op : Operation) :
    2 * host.trace.length + 3 ≤
      (host.queried w result op).place.calls (host.queried w result op).trace.length := by
  unfold Host.queried
  dsimp only
  split
  · split
    · exact Nat.le_refl _
    · exact dispatch_paced { host with queries := host.queries + 1 } _
  · split
    · exact Nat.le_refl _
    · exact dispatch_paced { host with queries := host.queries + 1 } _

theorem took_paced {host : Host} {commandId : Nat} {sent : Operation}
    (next : host.next w = .inl (.invoke commandId sent)) (result : Nat) (op : Operation) :
    host.place.calls host.trace.length + 1 ≤
      (host.took w result op).place.calls (host.took w result op).trace.length := by
  obtain ⟨place, queries, trace⟩ := host
  cases place with
  | settingUri => exact Nat.le_refl _
  | settingTaList => exact Nat.succ_le_succ (Nat.succ_le_succ (Nat.zero_le _))
  | querying => exact queried_paced ⟨.querying, queries, trace⟩ result op
  | reporting body =>
    simp only [Host.took]
    split
    · exact Nat.le_succ _
    · exact Nat.le_refl _
  | closing result => cases next
  | closed result => cases next

theorem pass_paced {s s' : Host × Ta} (pass : mainBody w invoke s = .inl s') :
    s.1.place.calls s.1.trace.length + 1 ≤ s'.1.place.calls s'.1.trace.length := by
  unfold mainBody at pass
  split at pass
  · cases pass
  · rename_i next
    cases pass
    obtain ⟨⟨place, queries, trace⟩, ta⟩ := s
    cases place with
    | closing result => exact Nat.le_refl _
    | settingUri => cases next
    | settingTaList => cases next
    | querying => cases next
    | reporting body => cases next
    | closed result => cases next
  · rename_i next
    split at pass
    · cases pass
    · cases pass
      exact took_paced next _ _

theorem run_paced {passes : List Unit} {s s' : Host × Ta} (run : Run (Pass w invoke) s passes s') :
    s.1.place.calls s.1.trace.length + passes.length ≤ s'.1.place.calls s'.1.trace.length := by
  induction run with
  | nil => exact Nat.le_refl _
  | snoc _ last ih =>
    have pace := pass_paced last
    rw [List.length_append, List.length_singleton]
    omega

/-- A session over an exact transport makes some POSTs, then GETs, of which there are no
more than the manifest has remote fetches, and then at most two POSTs; the GETs come
after two POSTs at least. It calls the TA at most twice for each request, and four
times. -/
theorem broker_exchanges (exact : Exact p fuel invoke) (encodes : Encodes p.qcbor)
    (array : memory.taskBuffer.postData.length = teepMaxMessageLen) {passes : List Unit}
    {s : Host × Ta} (run : Run (Pass w invoke) (Host.start, Ta.start memory) passes s) :
    (∃ before gets after, Made p s before gets after) ∧
      passes.length ≤ 2 * s.1.trace.length + 4 := by
  refine ⟨started_made (run_started exact encodes array run), ?_⟩
  have pace := run_paced run
  have most : s.1.place.calls s.1.trace.length ≤ 2 * s.1.trace.length + 4 := by
    cases s.1.place with
    | settingUri => exact Nat.zero_le _
    | settingTaList => exact Nat.succ_le_succ (Nat.zero_le _)
    | querying => exact Nat.add_le_add_left (by decide) _
    | reporting body => exact Nat.add_le_add_left (by decide) _
    | closing result => exact Nat.add_le_add_left (by decide) _
    | closed result => exact Nat.le_refl _
  have none : Host.start.place.calls Host.start.trace.length = 0 := rfl
  rw [none, Nat.zero_add] at pace
  exact Nat.le_trans pace most

theorem broker_exchanges_readme :
    ∃ s, Run (Pass readmeWorld (Pc.teecInvokeCommand (fun _ => true) readmePlatform 20))
        (Host.start, Ta.start blankMemory) (List.replicate 12 ()) s ∧
      s.1.trace.map (fun e => e.method) = sequence 2 1 1 ∧
      ∃ before gets after, Made readmePlatform s before gets after := by
  obtain ⟨s, run, methods⟩ := readmeRun
  exact ⟨s, run, methods, (broker_exchanges (Pc.teecInvokeCommand_exact readmePlatform 20
    fun _ _ => rfl) referenceQcbor_encodes (by decide +kernel) run).1⟩

end Sessions

end TeepDevice.Broker
