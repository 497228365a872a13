import TeepDevice.Agent.Started
import TeepDevice.Suit.Control

/-! The loop of `query_next_broker_task` ends. The agent does nothing to its
SUIT runner but start it, run it, resume it and write to the memory behind
`user`, so what holds of every runner after `suit_runner_init` holds of it. -/
namespace TeepDevice.Agent
open Tcbor Suit Teep Transition

variable {p : Platform}

/-- A runner that was started on a manifest, and what may have happened since. -/
def Launched (p : Platform) (runner : Runner AgentUser Unit) : Prop :=
  ∃ context user start, suitRunnerInit p.wild context .install user = some start ∧
    Relation.ReflTransGen (Moves (suitCallbacks p.beyond p.installTa) p.frames) start runner

theorem Launched.move {runner after : Runner AgentUser Unit} (launched : Launched p runner)
    (moves : Relation.ReflTransGen (Moves (suitCallbacks p.beyond p.installTa) p.frames) runner
      after) : Launched p after := by
  obtain ⟨context, user, start, started, before⟩ := launched
  exact ⟨context, user, start, started, before.trans moves⟩

/-- A launched runner that is run comes back. -/
theorem Launched.returns {runner : Runner AgentUser Unit} (launched : Launched p runner) :
    ∃ fuel after, suitRunnerRun (suitCallbacks p.beyond p.installTa) p.frames fuel runner =
      some after := by
  obtain ⟨context, user, start, started, moves⟩ := launched
  obtain ⟨manifest, -, -, root, -⟩ := suitRunnerInit_started started
  obtain ⟨first, bound, begun, stops⟩ := runner_stops (suitCallbacks p.beyond p.installTa)
    p.frames p.wild context .install user root
  cases started.symm.trans begun
  exact (stops runner moves).1

/-- The session's runner is launched whenever a query or a download can use it. -/
def Underway (p : Platform) (ta : Ta) : Prop :=
  ta.session.state = .runSuitRunner ∨ ta.session.state = .fetchComponent →
    Launched p ta.session.suitRunner

theorem Underway.of_state {ta : Ta} (run : ta.session.state ≠ .runSuitRunner)
    (fetch : ta.session.state ≠ .fetchComponent) : Underway p ta := by
  rintro (state | state)
  · exact absurd state run
  · exact absurd state fetch

theorem pass_underway {fuel : Nat} {ta next : Ta} (underway : Underway p ta)
    (pass : PassOutcome p fuel ta next) : Underway p next := by
  cases pass with
  | begins => exact .of_state AgentState.noConfusion AgentState.noConfusion
  | starts state started => exact fun _ => ⟨_, _, _, started, .refl⟩
  | runs state ran => exact fun _ => (underway (.inl state)).move (suitRunnerRun_moves ran)

theorem hands_underway {ta next : Ta} (underway : Underway p ta)
    (hands : TaskOutcome p ta next) : Underway p next := by
  cases hands with
  | silent => exact underway
  | posted => exact underway

theorem tamOutcome_underway {ta next : Ta} {buffer : Bytes} {result : Nat}
    (outcome : TamOutcome p ta buffer next result) : Underway p next.clearTask := by
  cases outcome with
  | ended => exact .of_state AgentState.noConfusion AgentState.noConfusion
  | afterError => exact .of_state AgentState.noConfusion AgentState.noConfusion
  | unparsed => exact .of_state AgentState.noConfusion AgentState.noConfusion
  | refused => exact .of_state AgentState.noConfusion AgentState.noConfusion
  | requested => exact .of_state AgentState.noConfusion AgentState.noConfusion
  | notStored content parse type state =>
    have kept : ta.session.state = .postingQueryResponse := state
    refine .of_state ?_ ?_
    · simp [Ta.clearTask, received_state, kept]
    · simp [Ta.clearTask, received_state, kept]
  | @updated m =>
    refine .of_state ?_ ?_
    · simp only [Ta.clearTask]
      split
      · exact AgentState.noConfusion
      · exact AgentState.noConfusion
    · simp only [Ta.clearTask]
      split
      · exact AgentState.noConfusion
      · exact AgentState.noConfusion

/-- A download writes to the agent's memory and resumes the runner. -/
theorem download_underway {ta : Ta} (underway : Underway p ta) (buffer : Bytes) :
    Underway p (handleComponentDownload p ta buffer).1.clearTask := by
  unfold handleComponentDownload
  split
  · exact .of_state AgentState.noConfusion AgentState.noConfusion
  · rename_i state
    replace state : ta.session.state = .fetchComponent := Decidable.not_not.mp state
    have launched := underway (.inr state)
    exact fun _ => launched.move ((Relation.ReflTransGen.single (.user _ _)).tail (.resume _))

theorem step_underway {ta ta' : Ta} {command : Command} (underway : Underway p ta)
    (step : Step p ta command ta') : Underway p ta' := by
  cases step_outcome step with
  | unchanged => exact underway
  | configured state =>
    refine .of_state ?_ ?_
    · simp [state]
    · simp [state]
  | replied busy post outcome => exact tamOutcome_underway outcome
  | downloaded => exact download_underway underway _
  | @queried fuel _ _ _ idle query =>
    refine query_rule (Underway p) (Underway p) ?_ ?_ underway idle query
    · intro s next underway _ pass
      exact pass_underway underway pass
    · intro s next underway _ pass
      exact hands_underway underway (queryBody_hands pass)

theorem run_underway {memory : Session} {commands : List Command} {ta : Ta}
    (run : Run (Step p) (Ta.start memory) commands ta) : Underway p ta :=
  run.invariant (Underway p) (fun _ _ _ underway step => step_underway underway step)
    (.of_state AgentState.noConfusion AgentState.noConfusion)

section Ends

/-- The fetch of a URI that its field in the task cannot hold; the copy of
`query_next_broker_task` has no bound, and what it does then is undefined. -/
def FetchesTooLong (ta : Ta) : Prop :=
  ta.session.state = .fetchComponent ∧
    teepMaxUriLen < (ta.session.suitRunner.effects.user.fetchUri.getD []).length

/-- The loop of a query ends, and it ends with a task. The one pass that the C
code does not define is a last one, too. -/
def EndsWithTask (p : Platform) (fuel : Nat) (ta : Ta) : Prop :=
  (∃ ta', queryNextBrokerTask p fuel ta = .ok ta' ∧ ta'.session.onGoingTask = true) ∨
    ∃ last, Relation.ReflTransGen (PassOutcome p fuel) ta last ∧ FetchesTooLong last ∧
      queryNextBrokerTask p fuel ta = .error .uriOverflow

variable {fuel : Nat} {ta : Ta}

/-- A pass that goes on leaves the rest of the query to the next one. -/
theorem query_pass {next : Ta} (idle : ta.session.onGoingTask = false)
    (pass : queryBody p fuel ta = .inl next) :
    queryNextBrokerTask p fuel ta = queryNextBrokerTask p fuel next := by
  obtain ⟨state, runner, rfl⟩ := pass_same (queryBody_goes pass)
  have notBusy : ¬ ta.session.onGoingTask = true := by
    rw [idle]
    exact Bool.false_ne_true
  unfold queryNextBrokerTask
  rw [if_neg notBusy, if_neg notBusy, Loop.eval_unfold, pass]

theorem EndsWithTask.of_pass {next : Ta} (ends : EndsWithTask p fuel next)
    (idle : ta.session.onGoingTask = false) (pass : queryBody p fuel ta = .inl next) :
    EndsWithTask p fuel ta := by
  rcases ends with ⟨ta', query, busy⟩ | ⟨last, passes, long, query⟩
  · exact .inl ⟨ta', (query_pass idle pass).trans query, busy⟩
  · exact .inr ⟨last, .head (queryBody_goes pass) passes, long, (query_pass idle pass).trans query⟩

/-- A state that is no pass away from its task hands it out. -/
theorem queryBody_last (fuel : Nat) (last : ta.session.state.passes = 0) :
    (∃ next, queryBody p fuel ta = .inr (.ok next) ∧ next.session.onGoingTask = true) ∨
      (queryBody p fuel ta = .inr (.error .uriOverflow) ∧ FetchesTooLong ta) := by
  cases state : ta.session.state with
  | init => rw [state] at last; cases last
  | initRunner => rw [state] at last; cases last
  | runSuitRunner => rw [state] at last; cases last
  | fetchComponent =>
    simp only [queryBody, state]
    split
    · rename_i long
      exact .inr ⟨rfl, state, long⟩
    · exact .inl ⟨_, rfl, rfl⟩
  | _ =>
    simp only [queryBody, state]
    exact .inl ⟨_, rfl, rfl⟩

theorem EndsWithTask.of_last (fuel : Nat) (last : ta.session.state.passes = 0) :
    EndsWithTask p fuel ta := by
  cases busy : ta.session.onGoingTask with
  | true => exact .inl ⟨ta, if_pos busy, busy⟩
  | false =>
    have notBusy : ¬ ta.session.onGoingTask = true := by
      rw [busy]
      exact Bool.false_ne_true
    unfold EndsWithTask queryNextBrokerTask
    rw [if_neg notBusy, Loop.eval_unfold]
    rcases queryBody_last (p := p) fuel last with ⟨next, pass, handed⟩ | ⟨pass, long⟩
    · rw [pass]
      exact .inl ⟨next, rfl, handed⟩
    · rw [pass]
      exact .inr ⟨ta, .refl, long, rfl⟩

theorem stateAfterRun_passes (runner : Runner AgentUser Unit) :
    (stateAfterRun runner).passes = 0 := by
  rcases stateAfterRun_cases runner with last | last | last
  · rw [last]
    rfl
  · rw [last]
    rfl
  · rw [last]
    rfl

/-- From a runner whose run returns, the query is one pass away from its end. -/
theorem EndsWithTask.of_run {runner : Runner AgentUser Unit}
    (idle : ta.session.onGoingTask = false) (state : ta.session.state = .runSuitRunner)
    (ran : suitRunnerRun (suitCallbacks p.beyond p.installTa) p.frames fuel
      ta.session.suitRunner = some runner) : EndsWithTask p fuel ta := by
  cases pass : queryBody p fuel ta with
  | inl next =>
    refine EndsWithTask.of_pass (.of_last fuel ?_) idle pass
    cases queryBody_goes pass with
    | begins begun => rw [state] at begun; cases begun
    | starts begun => rw [state] at begun; cases begun
    | runs => exact stateAfterRun_passes _
  | inr result =>
    simp only [queryBody, state, ran] at pass
    split at pass
    · cases pass
    · split at pass
      · cases pass
      · cases pass

/-- Every query of a reachable session ends, unless it starts a runner on no
manifest at all. -/
theorem query_ends (underway : Underway p ta)
    (nonempty : ta.session.state = .initRunner → ta.session.suitContext.nManifest ≠ 0) :
    ∃ fuel, ∀ more, fuel ≤ more → EndsWithTask p more ta := by
  cases busy : ta.session.onGoingTask with
  | true => exact ⟨0, fun more _ => .inl ⟨ta, if_pos busy, busy⟩⟩
  | false =>
    cases state : ta.session.state with
    | init =>
      refine ⟨0, fun more _ => ?_⟩
      have pass : queryBody p more ta = .inl (ta.setState .postingInitialRequest) := by
        simp only [queryBody, state]
      have rest : EndsWithTask p more (ta.setState .postingInitialRequest) := .of_last more rfl
      exact rest.of_pass busy pass
    | runSuitRunner =>
      obtain ⟨fuel, after, ran⟩ := (underway (.inl state)).returns
      exact ⟨fuel, fun more le => .of_run busy state (suitRunnerRun_mono _ _ le ran)⟩
    | initRunner =>
      have root : suitContextGetRootManifest ta.session.suitContext =
          some (ta.session.suitContext.manifests 0) := if_neg (nonempty state)
      obtain ⟨start, bound, started, stops⟩ := runner_stops
        (suitCallbacks p.beyond p.installTa) p.frames p.wild ta.session.suitContext .install
        ta.session.suitRunner.effects.user root
      obtain ⟨⟨fuel, after, ran⟩, -⟩ := stops start .refl
      let launched : Ta :=
        { ta with session := { ta.session with state := .runSuitRunner, suitRunner := start } }
      refine ⟨fuel, fun more le => ?_⟩
      have pass : queryBody p more ta = .inl launched := by
        simp only [queryBody, state, started]
        rfl
      have rest : EndsWithTask p more launched :=
        .of_run busy rfl (suitRunnerRun_mono _ _ le ran)
      exact rest.of_pass busy pass
    | _ => exact ⟨0, fun more _ => .of_last more (by rw [state]; rfl)⟩

end Ends

/-- The runner always stops, however it is run, resumed and suspended, it makes
boundedly many handler calls in all, and so every query of the agent ends. -/
theorem runner_always_stops {U R : Type} (cb : Callbacks U R) (frames : Frames)
    (wild : Digest → Range) (context : SuitContext) (sequence : CommandSequence) (user : U)
    (nonempty : context.nManifest ≠ 0) (p : Platform) {memory : Session} {commands : List Command}
    {ta : Ta} (run : Run (Step p) (Ta.start memory) commands ta)
    (started : ta.session.state = .initRunner → ta.session.suitContext.nManifest ≠ 0) :
    (∃ start bound, suitRunnerInit wild context sequence user = some start ∧
      ∀ runner, Relation.ReflTransGen (Moves cb frames) start runner →
        (∃ fuel after, suitRunnerRun cb frames fuel runner = some after) ∧
          runner.effects.calls.length ≤ bound) ∧
      ∃ fuel, ∀ more, fuel ≤ more → EndsWithTask p more ta := by
  have root : suitContextGetRootManifest context = some (context.manifests 0) := if_neg nonempty
  exact ⟨runner_stops cb frames wild context sequence user root,
    query_ends (run_underway run) started⟩

theorem runner_always_stops_readme :
    ∃ ta, Run (Step readmePlatform) (Ta.start blankMemory) readmeCommands ta ∧
      ta.session.state = .initRunner ∧
      ∃ fuel, ∀ more, fuel ≤ more → EndsWithTask readmePlatform more ta := by
  have reached : (exec (execStep readmePlatform 0 fun _ _ => True) (Ta.start blankMemory)
      readmeCommands).map (fun ta => (ta.session.state, ta.session.suitContext.nManifest)) =
        some (.initRunner, 1) := by decide +kernel
  obtain ⟨ta, executed, last⟩ := Option.map_eq_some_iff.mp reached
  obtain ⟨state, count⟩ := Prod.mk.inj last
  have run := (exec_run executed).of_guarded
  have nonempty : ta.session.suitContext.nManifest ≠ 0 := by
    rw [count]
    exact Nat.one_ne_zero
  exact ⟨ta, run, state, (runner_always_stops suspendingCallbacks ⟨0, 1, 2⟩ (fun _ => none)
    (contextOf fetchingEnvelope) .install () (by decide) readmePlatform run fun _ => nonempty).2⟩

end TeepDevice.Agent
