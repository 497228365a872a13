import TeepDevice.Agent.Fetches
import TeepDevice.Agent.Phases
import TeepDevice.Agent.Storage

/-! Downloads over whole runs: each one is stored once, under the name of the
fetch that its GET was issued for, and nothing else is. -/
namespace TeepDevice.Agent
open Suit Teep Transition

variable {p : Platform}

/-- The GET that a command completes: the URI in its task and the result. -/
def completed (ta : Ta) : Command → List (Bytes × Bytes)
  | .brokerTaskDone buffer =>
    if ta.session.onGoingTask = true ∧ ta.session.taskBuffer.command = .httpGet then
      [(ta.session.taskBuffer.uri, buffer)]
    else []
  | _ => []

/-- A step with the GETs completed so far noted beside. -/
def LoggedStep (p : Platform) (s : Ta × List (Bytes × Bytes)) (command : Command)
    (s' : Ta × List (Bytes × Bytes)) : Prop :=
  Step p s.1 command s'.1 ∧ s'.2 = s.2 ++ completed s.1 command

/-- A session with a runner, seen beside the same runner with its fetches noted. -/
structure Carrying (p : Platform) (ta : Ta) (log : List (Bytes × Bytes))
    (traced : Runner (AgentUser × List Fetch) Unit) : Prop where
  runner : traced.map Prod.fst = ta.session.suitRunner
  follows : Follows p ta.session.suitContext (traced.map Prod.snd)
  landing : Landing log traced.effects
  error : traced.hasError = true → traced.effects.suspended = false
  late : AgentState.runSuitRunner.phase ≤ ta.session.state.phase
  waits : traced.effects.suspended = true ↔ ta.session.state = .fetchComponent
  all : AgentState.postingSuccess.phase ≤ ta.session.state.phase →
    traced.effects.user.2 = fetchesOf p ta.session.suitContext
  ok : ta.session.state = .postingSuccess →
    ∃ meaning, planResult p ta.session.suitContext = .ok meaning
  task : ta.session.onGoingTask = true → ta.session.state = .fetchComponent →
    ta.session.taskBuffer.uri =
      taskUri (ta.session.suitRunner.effects.user.fetchUri.getD [])

/-- No runner was started, or one with its fetches so far. -/
inductive Progress (p : Platform) (ta : Ta) (log : List (Bytes × Bytes)) : Prop where
  | unstarted (state : ta.session.state.phase < AgentState.runSuitRunner.phase ∨
        AgentState.postingError.phase ≤ ta.session.state.phase)
      (stores : ta.stores = []) (empty : log = [])
  | carrying (traced : Runner (AgentUser × List Fetch) Unit) (carrying : Carrying p ta log traced)

section Steps
variable {log : List (Bytes × Bytes)}

/-- The session goes on behind its runner. -/
theorem Carrying.beyond {ta ta' : Ta} {traced : Runner (AgentUser × List Fetch) Unit}
    (carrying : Carrying p ta log traced) (runner : ta'.session.suitRunner = ta.session.suitRunner)
    (context : ta'.session.suitContext = ta.session.suitContext)
    (before : AgentState.postingSuccess.phase ≤ ta.session.state.phase)
    (after : AgentState.postingError.phase ≤ ta'.session.state.phase) :
    Carrying p ta' log traced := by
  have after' : AgentState.postingSuccess.phase ≤ ta'.session.state.phase :=
    Nat.le_trans (by decide) after
  have other {state : AgentState} (beyond : AgentState.postingSuccess.phase ≤ state.phase) :
      state ≠ .fetchComponent := by
    rintro rfl
    exact absurd beyond (by decide)
  have running : ¬ traced.effects.suspended = true := fun suspended =>
    other before (carrying.waits.mp suspended)
  constructor
  · rw [runner]
    exact carrying.runner
  · rw [context]
    exact carrying.follows
  · exact carrying.landing
  · exact carrying.error
  · exact Nat.le_trans (by decide) after
  · exact ⟨fun suspended => absurd suspended running, fun state => absurd state (other after')⟩
  · intro _
    rw [context]
    exact carrying.all before
  · intro success
    rw [success] at after
    exact absurd after (by decide)
  · exact fun _ state => absurd state (other after')

theorem starts_progress {ta : Ta} {runner : Runner AgentUser Unit}
    (progress : Progress p ta log) (state : ta.session.state = .initRunner)
    (started : suitRunnerInit p.wild ta.session.suitContext .install
      ta.session.suitRunner.effects.user = some runner) :
    Progress p { ta with session := { ta.session with
      state := .runSuitRunner, suitRunner := runner } } log := by
  cases progress with
  | carrying traced carrying =>
    have late := carrying.late
    rw [state] at late
    exact absurd late (by decide)
  | unstarted _ stores empty =>
    subst empty
    have noted := suitRunnerInit_map (R := Unit) (f := Prod.fst) p.wild ta.session.suitContext
      .install (ta.session.suitRunner.effects.user, ([] : List Fetch))
    rw [started] at noted
    obtain ⟨traced, begun, same⟩ := Option.map_eq_some_iff.mp noted.symm
    have planned := suitRunnerInit_map (R := Unit) (f := Prod.snd) p.wild ta.session.suitContext
      .install (ta.session.suitRunner.effects.user, ([] : List Fetch))
    rw [begun] at planned
    obtain ⟨manifest, pc, stack, -, rfl⟩ := suitRunnerInit_started begun
    refine .carrying _ ⟨same, suitRunnerInit_follows planned, ?_, fun _ => rfl, Nat.le_refl _, ?_,
      ?_, nofun, ?_⟩
    · refine .settled rfl ⟨?_, rfl⟩
      exact congrArg (List.map Stored.content) stores
    · exact ⟨nofun, nofun⟩
    · intro beyond
      simp [AgentState.phase] at beyond
    · exact fun _ => nofun

theorem stateAfterRun_success {runner : Runner AgentUser Unit}
    (success : stateAfterRun runner = .postingSuccess) : suitRunnerFinished runner = true := by
  unfold stateAfterRun at success
  split at success
  · assumption
  · split at success
    · cases success
    · cases success

theorem runs_progress {ta : Ta} {fuel : Nat} {runner : Runner AgentUser Unit}
    (progress : Progress p ta log) (idle : ta.session.onGoingTask = false)
    (state : ta.session.state = .runSuitRunner)
    (ran : suitRunnerRun (suitCallbacks p.beyond p.installTa) p.frames fuel
      ta.session.suitRunner = some runner) :
    Progress p { ta with session := { ta.session with
      state := stateAfterRun runner, suitRunner := runner } } log := by
  cases progress with
  | unstarted early =>
    rw [state] at early
    exact absurd early (by decide)
  | carrying traced carrying =>
    have noted := suitRunnerRun_map (tracedCallbacks_fst p.beyond p.installTa) p.frames fuel traced
    rw [carrying.runner, ran] at noted
    obtain ⟨after, ran', rfl⟩ := Option.map_eq_some_iff.mp noted.symm
    have planned := suitRunnerRun_map (tracedCallbacks_snd p.beyond p.installTa) p.frames fuel
      traced
    rw [ran'] at planned
    obtain ⟨follows, rest⟩ := carrying.follows.run planned
    obtain ⟨landing, error⟩ := suitRunnerRun_lands ran' carrying.landing carrying.error
    have waits : after.effects.suspended = true ↔
        stateAfterRun (after.map Prod.fst) = .fetchComponent := by
      unfold stateAfterRun suitRunnerFinished suitRunnerSuspended Runner.map Effects.map
      cases failed : after.hasError with
      | true => simp [error failed]
      | false => cases suspended : after.effects.suspended <;> simp
    refine .carrying after ⟨rfl, follows, landing, error, ?_, waits, ?_, ?_, ?_⟩
    · rcases stateAfterRun_cases (after.map Prod.fst) with last | last | last
      · simp [last, AgentState.phase]
      · simp [last, AgentState.phase]
      · simp [last, AgentState.phase]
    · intro beyond
      have running : after.effects.suspended = false := by
        apply Bool.eq_false_iff.mpr
        intro suspended
        dsimp only at beyond
        rw [waits.mp suspended] at beyond
        exact absurd beyond (by decide)
      exact follows.complete rest (by simp [suitRunnerSuspended, Runner.map, Effects.map, running])
    · intro success
      have finished : suitRunnerFinished (after.map Prod.snd) = true :=
        stateAfterRun_success success
      obtain ⟨meaning, ok, -⟩ := follows.ok rest finished
      exact ⟨meaning, ok⟩
    · intro busy
      cases idle.symm.trans busy

theorem pass_progress {fuel : Nat} {ta next : Ta} (progress : Progress p ta log)
    (idle : ta.session.onGoingTask = false) (pass : PassOutcome p fuel ta next) :
    Progress p next log := by
  cases pass with
  | begins state =>
    cases progress with
    | unstarted _ stores empty =>
      exact .unstarted (.inl (by simp [Ta.setState, AgentState.phase])) stores empty
    | carrying traced carrying =>
      have late := carrying.late
      rw [state] at late
      exact absurd late (by decide)
  | starts state started => exact starts_progress progress state started
  | runs state ran => exact runs_progress progress idle state ran

/-- The task of a GET has the URI that was fetched. -/
theorem queryBody_get {fuel : Nat} {ta next : Ta} (state : ta.session.state = .fetchComponent)
    (pass : queryBody p fuel ta = .inr (.ok next)) :
    next.session.taskBuffer.uri =
      taskUri (ta.session.suitRunner.effects.user.fetchUri.getD []) := by
  simp only [queryBody, state] at pass
  split at pass
  · cases pass
  · cases pass
    rfl

theorem hands_progress {fuel : Nat} {ta next : Ta} (progress : Progress p ta log)
    (pass : queryBody p fuel ta = .inr (.ok next)) : Progress p next log := by
  have uri := fun state => queryBody_get (p := p) state pass
  obtain ⟨task, history, rfl⟩ := queryBody_leaves pass
  cases progress with
  | unstarted state stores empty => exact .unstarted state stores empty
  | carrying traced carrying =>
    exact .carrying traced ⟨carrying.runner, carrying.follows, carrying.landing, carrying.error,
      carrying.late, carrying.waits, carrying.all, carrying.ok, fun _ => uri⟩

theorem query_progress {fuel : Nat} {ta ta' : Ta} (progress : Progress p ta log)
    (idle : ta.session.onGoingTask = false)
    (query : queryNextBrokerTask p fuel ta = .ok ta') : Progress p ta' log := by
  refine query_rule (Progress p · log) (Progress p · log) ?_ ?_ progress idle query
  · intro s next progress idle pass
    exact pass_progress progress idle pass
  · intro s next progress _ pass
    exact hands_progress progress pass

/-- A reply to a message leaves the runner alone. -/
theorem tamOutcome_suitRunner {ta next : Ta} {buffer : Bytes} {result : Nat}
    (outcome : TamOutcome p ta buffer next result) :
    next.session.suitRunner = ta.session.suitRunner := by
  cases outcome <;> rfl

theorem reply_progress {ta next : Ta} {buffer : Bytes} {result : Nat}
    (progress : Progress p ta log) (task : ta.session.state.task = some .httpPost)
    (outcome : TamOutcome p ta buffer next result) : Progress p next.clearTask log := by
  have runner := tamOutcome_suitRunner outcome
  cases progress with
  | unstarted _ stores empty =>
    have none : next.clearTask.stores = [] := by
      simpa only [Ta.stores, Ta.clearTask, runner] using stores
    refine .unstarted ?_ none empty
    cases outcome with
    | ended | afterError | unparsed | refused => exact .inr (by simp [Ta.clearTask, Ta.setState,
        teepError, AgentState.phase])
    | requested => exact .inl (by simp [Ta.clearTask, AgentState.phase])
    | notStored _ _ _ state =>
      exact .inl (by simp [Ta.clearTask, received_state, state, AgentState.phase])
    | updated =>
      simp only [Ta.clearTask]
      split
      · exact .inl (by decide)
      · exact .inr (by decide)
  | carrying traced carrying =>
    have late := carrying.late
    -- the posting states from here on are those behind the runner
    have before : AgentState.postingSuccess.phase ≤ ta.session.state.phase := by
      cases state : ta.session.state with
      | postingSuccess | postingError | finish => decide
      | runSuitRunner | fetchComponent =>
        rw [state] at task
        cases task
      | _ =>
        rw [state] at late
        exact absurd late (by decide)
    have early {state : AgentState} (here : ta.session.state = state)
        (below : state.phase < AgentState.postingSuccess.phase) : False := by
      rw [here] at before
      omega
    cases outcome with
    | ended | afterError | unparsed | refused =>
      exact .carrying traced (carrying.beyond rfl rfl before (by simp [Ta.clearTask, Ta.setState,
        teepError, AgentState.phase]))
    | requested _ _ _ state => exact (early state (by decide)).elim
    | notStored _ _ _ state => exact (early state (by decide)).elim
    | updated _ _ _ _ _ state => exact (early state (by decide)).elim

/-- The runner goes on with the download stored for the pending fetch. -/
theorem download_landing {traced : Runner (AgentUser × List Fetch) Unit}
    (landing : Landing log traced.effects) (suspended : traced.effects.suspended = true)
    (image : Bytes) :
    Landing (log ++ [(taskUri (traced.effects.user.1.fetchUri.getD []), image)])
      { traced.effects with
        suspended := false
        onResume := none
        user := ((storeComponent p.installTa traced.effects.user.1
          traced.effects.user.1.fetchComponentPath image).2, traced.effects.user.2) } := by
  cases landing with
  | settled running =>
    rw [running] at suspended
    cases suspended
  | @pending before uri _ noted fetch settled =>
    refine .settled rfl ?_
    rw [fetch, noted]
    exact settled.remote _ image uri _

theorem download_progress {ta : Ta} (buffer : Bytes) (progress : Progress p ta log)
    (busy : ta.session.onGoingTask = true) (state : ta.session.state = .fetchComponent) :
    Progress p (handleComponentDownload p ta buffer).1.clearTask
      (log ++ [(ta.session.taskBuffer.uri, buffer)]) := by
  have expected : ¬ ta.session.state ≠ .fetchComponent := fun other => other state
  rw [handleComponentDownload, if_neg expected]
  cases progress with
  | unstarted early =>
    rw [state] at early
    exact absurd early (by decide)
  | carrying traced carrying =>
    have suspended := carrying.waits.mpr state
    have landing := download_landing (p := p) carrying.landing suspended buffer
    have fine : traced.hasError = false := by
      apply Bool.eq_false_iff.mpr
      intro failed
      cases suspended.symm.trans (carrying.error failed)
    have uri := carrying.task busy state
    obtain ⟨stored, same⟩ : ∃ stored : Runner (AgentUser × List Fetch) Unit, stored =
        { traced with effects := { traced.effects with
            user := ((storeComponent p.installTa traced.effects.user.1
              traced.effects.user.1.fetchComponentPath buffer).2, traced.effects.user.2) } } :=
      ⟨_, rfl⟩
    have resumed : suitRunnerResume (tracedCallbacks p.beyond p.installTa) stored =
        { stored with
          effects := { stored.effects with suspended := false, onResume := none } } := by
      have still : suitRunnerSuspended stored = true := by
        simp [same, suitRunnerSuspended, fine, suspended]
      rcases suitRunnerResume_cases (tracedCallbacks p.beyond p.installTa) still with
        on | ⟨r, r', -, next, -⟩
      · exact on
      · cases next
    have runner := suitRunnerResume_map (tracedCallbacks_fst p.beyond p.installTa) stored
    have planned := suitRunnerResume_map (tracedCallbacks_snd p.beyond p.installTa) stored
    have untouched : stored.map Prod.snd = traced.map Prod.snd := by
      rw [same]
      rfl
    have follows := carrying.follows.resume
    rw [← untouched, planned] at follows
    rw [uri, ← carrying.runner]
    rw [resumed] at follows runner
    refine .carrying _ ⟨?_, follows, ?_, ?_, ?_, ?_, ?_, ?_, ?_⟩
    · rw [← runner, same]
      rfl
    · rw [same]
      exact landing
    · exact fun _ => rfl
    · exact Nat.le_refl _
    · simp [Ta.clearTask]
    · intro beyond
      simp [Ta.clearTask, AgentState.phase] at beyond
    · simp [Ta.clearTask]
    · simp [Ta.clearTask]

/-- A result for a GET is handled as a download. -/
theorem step_completes {ta ta' : Ta} {buffer : Bytes} (busy : ta.session.onGoingTask = true)
    (get : ta.session.taskBuffer.command = .httpGet)
    (step : Step p ta (.brokerTaskDone buffer) ta') :
    ta' = (handleComponentDownload p ta buffer).1.clearTask := by
  obtain ⟨fuel, response, done⟩ := step
  simp only [invokeCommand, brokerTaskDone, busy, get, Bool.not_true, Bool.false_eq_true,
    if_false] at done
  cases done
  rfl

theorem step_progress {ta ta' : Ta} {command : Command} (matching : TaskMatches ta)
    (progress : Progress p ta log) (step : Step p ta command ta') :
    Progress p ta' (log ++ completed ta command) := by
  by_cases get : ∃ buffer, command = .brokerTaskDone buffer ∧ ta.session.onGoingTask = true ∧
      ta.session.taskBuffer.command = .httpGet
  · obtain ⟨buffer, rfl, busy, get⟩ := get
    have task := matching busy
    rw [get] at task
    have one : completed ta (.brokerTaskDone buffer) = [(ta.session.taskBuffer.uri, buffer)] :=
      if_pos ⟨busy, get⟩
    rw [step_completes busy get step, one]
    exact download_progress buffer progress busy (task_fetch task)
  · have none : completed ta command = [] := by
      cases command with
      | brokerTaskDone buffer => exact if_neg fun both => get ⟨buffer, rfl, both⟩
      | _ => rfl
    rw [none, List.append_nil]
    cases step_outcome step with
    | unchanged => exact progress
    | configured state =>
      cases progress with
      | unstarted early stores empty => exact .unstarted early stores empty
      | carrying traced carrying =>
        have late := carrying.late
        rw [state] at late
        exact absurd late (by decide)
    | replied busy post outcome =>
      have task := matching busy
      rw [post] at task
      exact reply_progress progress task outcome
    | @downloaded buffer busy fetch => exact absurd ⟨buffer, rfl, busy, fetch⟩ get
    | queried idle query => exact query_progress progress idle query

theorem run_progress {memory : Session} {commands : List Command}
    {s : Ta × List (Bytes × Bytes)} (run : Run (LoggedStep p) (Ta.start memory, []) commands s) :
    TaskMatches s.1 ∧ Progress p s.1 s.2 := by
  refine run.invariant (fun s => TaskMatches s.1 ∧ Progress p s.1 s.2) ?_ ?_
  · rintro s command s' ⟨matching, progress⟩ ⟨step, noted⟩
    refine ⟨step_taskMatches matching step, ?_⟩
    rw [noted]
    exact step_progress matching progress step
  · have early : AgentState.init.phase < AgentState.runSuitRunner.phase := by decide
    exact ⟨.of_idle rfl, .unstarted (.inl early) rfl rfl⟩

end Steps

/-- The fetches that were executed: all of the manifest's on success, and a first
part of them before. The stores are theirs, in this order; the last one waits for
its download exactly in `AGENT_FETCH_COMPONENT`. -/
structure Delivered (p : Platform) (ta : Ta) (log : List (Bytes × Bytes))
    (executed : List Fetch) : Prop where
  part : executed <+: fetchesOf p ta.session.suitContext
  all : ta.session.state = .postingSuccess → executed = fetchesOf p ta.session.suitContext
  stored : ta.stores.map Stored.content = landed executed (log.map Prod.snd)
  uris : ((remotes executed).take log.length).map taskUri = log.map Prod.fst
  count : (remotes executed).length =
    log.length + if ta.session.state = .fetchComponent then 1 else 0
  pending : ta.session.state = .fetchComponent →
    ∃ before filename uri, executed = before ++ [⟨filename, .remote uri⟩] ∧
      (ta.session.onGoingTask = true → ta.session.taskBuffer.uri = taskUri uri)

theorem downloads_land_once {memory : Session} {commands : List Command} {ta : Ta}
    {log : List (Bytes × Bytes)}
    (run : Run (LoggedStep p) (Ta.start memory, []) commands (ta, log)) :
    ∃ executed, Delivered p ta log executed := by
  obtain ⟨-, progress⟩ := run_progress run
  cases progress with
  | unstarted state stores empty =>
    replace empty : log = [] := empty
    subst empty
    have other : ta.session.state ≠ .fetchComponent ∧ ta.session.state ≠ .postingSuccess := by
      constructor
      · intro here
        simp [here, AgentState.phase] at state
      · intro here
        simp [here, AgentState.phase] at state
    refine ⟨[], List.nil_prefix, fun here => absurd here other.2, ?_, rfl, ?_,
      fun here => absurd here other.1⟩
    · exact congrArg (List.map Stored.content) stores
    · simp [other.1, remotes]
  | carrying traced carrying =>
    have noted := carrying.follows.noted
    have stores : ta.stores = traced.effects.user.1.stores := by
      rw [Ta.stores, ← carrying.runner]
      rfl
    refine ⟨traced.effects.user.2, noted, ?_, ?_, ?_, ?_, ?_⟩
    · intro success
      exact carrying.all (by simp [success])
    · rw [stores]
      cases carrying.landing with
      | settled _ settled => exact settled.stored
      | pending _ noted _ settled =>
        rw [noted]
        exact settled.waiting _ _
    · cases carrying.landing with
      | settled _ settled =>
        rw [List.take_of_length_le (by simpa using settled.count.le)]
        exact settled.uris
      | @pending before _ _ noted _ settled =>
        have count : log.length = (remotes before).length := by simpa using settled.count.symm
        rw [noted, remotes_append, count, List.take_left]
        exact settled.uris
    · cases carrying.landing with
      | settled running settled =>
        have other : ¬ ta.session.state = .fetchComponent := by
          intro here
          cases running.symm.trans (carrying.waits.mpr here)
        simpa [other] using settled.count
      | pending suspended noted _ settled =>
        have count := settled.count
        rw [noted, if_pos (carrying.waits.mp suspended)]
        simpa using count
    · intro here
      cases carrying.landing with
      | settled running =>
        cases running.symm.trans (carrying.waits.mpr here)
      | pending _ noted fetch =>
        refine ⟨_, _, _, noted, fun busy => ?_⟩
        have uri := carrying.task busy here
        rw [← carrying.runner] at uri
        simpa [Runner.map, Effects.map, fetch] using uri

/-- Steps with the log, executed. -/
def execLogged (p : Platform) (fuel : Nat) (s : Ta × List (Bytes × Bytes)) (command : Command) :
    Option (Ta × List (Bytes × Bytes)) :=
  (execStep p fuel (fun _ _ => True) s.1 command).map fun ta => (ta, s.2 ++ completed s.1 command)

theorem execLogged_step {fuel : Nat} {s s' : Ta × List (Bytes × Bytes)} {command : Command}
    (executed : execLogged p fuel s command = some s') : LoggedStep p s command s' := by
  obtain ⟨ta, step, rfl⟩ := Option.map_eq_some_iff.mp executed
  exact ⟨(execStep_guarded step).2, rfl⟩

/-- The session of the README: one component, with what came for it. -/
theorem downloads_land_once_readme :
    ∃ ta log, Run (LoggedStep readmePlatform) (Ta.start blankMemory, []) readmeSession (ta, log) ∧
      ta.session.state = .postingSuccess ∧ log.map Prod.snd = [[0x7F, 0x45, 0x4C, 0x46]] ∧
      ∃ executed, Delivered readmePlatform ta log executed := by
  have reached : (exec (execLogged readmePlatform 20) (Ta.start blankMemory, []) readmeSession).map
      (fun s => (s.1.session.state, s.2.map Prod.snd)) =
        some (.postingSuccess, [[0x7F, 0x45, 0x4C, 0x46]]) := by decide +kernel
  obtain ⟨⟨ta, log⟩, executed, last⟩ := Option.map_eq_some_iff.mp reached
  have run := Run.of_exec (fun _ _ _ => execLogged_step) executed
  exact ⟨ta, log, run, congrArg Prod.fst last, congrArg Prod.snd last, downloads_land_once run⟩

end TeepDevice.Agent
