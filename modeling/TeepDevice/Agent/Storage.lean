import TeepDevice.Agent.Authenticated
import TeepDevice.Suit.Naturality

/-! Components that the platform's storage refuses. The answers of storage are
kept in the history alone: with the answers overwritten, every run is a run on
storage that never fails. -/
namespace TeepDevice.Agent
open Tcbor Suit Teep Transition

/-- The platform with storage that never fails. -/
def reliable (p : Platform) : Platform := { p with installTa := fun _ _ _ => true }

/-- The same history with every store successful. -/
def trust (user : AgentUser) : AgentUser :=
  { user with stores := user.stores.map fun stored => { stored with ok := true } }

def trusting (ta : Ta) : Ta :=
  { ta with session := { ta.session with suitRunner := ta.session.suitRunner.map trust } }

def Ta.stores (ta : Ta) : List Stored := ta.session.suitRunner.effects.user.stores

variable {p : Platform}

@[simp] theorem trusting_state (ta : Ta) : (trusting ta).session.state = ta.session.state := rfl

@[simp] theorem trusting_onGoingTask (ta : Ta) :
    (trusting ta).session.onGoingTask = ta.session.onGoingTask := rfl

@[simp] theorem trusting_taskBuffer (ta : Ta) :
    (trusting ta).session.taskBuffer = ta.session.taskBuffer := rfl

@[simp] theorem trusting_suitContext (ta : Ta) :
    (trusting ta).session.suitContext = ta.session.suitContext := rfl

@[simp] theorem trusting_suitRunner (ta : Ta) :
    (trusting ta).session.suitRunner = ta.session.suitRunner.map trust := rfl

@[simp] theorem trusting_suitManifests (ta : Ta) :
    (trusting ta).suitManifests = ta.suitManifests := rfl

@[simp] theorem trusting_allocations (ta : Ta) : (trusting ta).allocations = ta.allocations := rfl

theorem storeComponent_trust (installTa : InstallTa) (user : AgentUser) (path : ComponentPath)
    (image : Bytes) :
    (storeComponent (fun _ _ _ => true) (trust user) path image).2 =
      trust (storeComponent installTa user path image).2 := by
  simp [storeComponent, trust]

theorem suitCallbacks_trust (beyond : Beyond) (installTa : InstallTa) :
    MapsTo trust (suitCallbacks beyond installTa) (suitCallbacks beyond fun _ _ _ => true) := by
  constructor
  · intro user object body
    simp only [suitCallbacks, store]
    cases object with
    | component index component =>
      dsimp only
      split
      · rfl
      · rw [storeComponent_trust installTa]
        rfl
    | dependency index => rfl
  · intro user object uri
    simp only [suitCallbacks, fetchAndStore]
    cases object with
    | component index component =>
      have same : (trust user).fetchComponentPath = user.fetchComponentPath := rfl
      dsimp only
      rw [same]
      split
      · rfl
      · rfl
    | dependency index => rfl
  · intro r
    rfl

section Commands

theorem setDevOption_trust (ta : Ta) (option : Nat) (value : Bytes) :
    setDevOption (reliable p) (trusting ta) option value =
      Prod.map trusting id (setDevOption p ta option value) := by
  unfold setDevOption
  rw [trusting_state]
  split
  · rfl
  · split
    · split
      · rfl
      · rfl
    · split
      · split
        · rfl
        · split
          · rfl
          · rfl
      · rfl

theorem storeSuitEnvelope_trust (ta : Ta) (index : Nat) (envelope : Bytes) :
    storeSuitEnvelope (reliable p) (trusting ta) index envelope =
      (storeSuitEnvelope p ta index envelope).map (Prod.map id trusting) := by
  have crypto : (reliable p).crypto = p.crypto := rfl
  have malloc : (reliable p).malloc = p.malloc := rfl
  unfold storeSuitEnvelope
  rw [crypto]
  split
  · split
    · unfold storeBstr
      dsimp only
      rw [malloc, trusting_suitManifests, trusting_allocations]
      split
      · rfl
      · split
        · rfl
        · rfl
    · rfl
  · rfl

theorem storeSuitEnvelopes_trust (index : Nat) (envelopes : List Bytes) (ta : Ta) :
    storeSuitEnvelopes (reliable p) index envelopes (trusting ta) =
      (storeSuitEnvelopes p index envelopes ta).map (Prod.map id trusting) := by
  induction envelopes generalizing index ta with
  | nil => rfl
  | cons envelope rest ih =>
    simp only [storeSuitEnvelopes, storeSuitEnvelope_trust]
    generalize storeSuitEnvelope p ta index envelope = first
    rcases first with fault | ⟨_ | _, next⟩
    · rfl
    · rfl
    · exact ih (index + 1) next

theorem handleQueryRequest_trust (ta : Ta) (m : Message) :
    handleQueryRequest (reliable p) (trusting ta) m = (handleQueryRequest p ta m).map trusting := by
  have malloc : (reliable p).malloc = p.malloc := rfl
  unfold handleQueryRequest
  rw [trusting_state, malloc, trusting_allocations]
  split
  · rfl
  · dsimp only
    split
    · rfl
    · split
      · rfl
      · rfl

theorem handleUpdate_trust (ta : Ta) (m : Message) :
    handleUpdate (reliable p) (trusting ta) m = (handleUpdate p ta m).map trusting := by
  unfold handleUpdate
  rw [trusting_state]
  split
  · rfl
  · dsimp only
    rw [storeSuitEnvelopes_trust]
    generalize storeSuitEnvelopes p 0 (m.manifestList.getD []) ta = first
    rcases first with fault | ⟨_ | _, next⟩
    · rfl
    · rfl
    · simp only [Except.map, Prod.map_apply, id_eq, trusting_suitManifests, trusting_suitContext]
      generalize addStoredEnvelopes next.suitManifests _ next.session.suitContext = second
      rcases second with fault | ⟨_ | _, context⟩
      · rfl
      · rfl
      · rfl

theorem handleTamMessage_trust (ta : Ta) (buffer : Bytes) :
    handleTamMessage (reliable p) (trusting ta) buffer =
      (handleTamMessage p ta buffer).map (Prod.map trusting id) := by
  have qcbor : (reliable p).qcbor = p.qcbor := rfl
  have malloc : (reliable p).malloc = p.malloc := rfl
  unfold handleTamMessage
  rw [trusting_state, qcbor, malloc, trusting_allocations]
  split
  · rfl
  split
  · rfl
  generalize parseTeepMessage p.qcbor p.malloc ta.allocations buffer = parse
  obtain ⟨_ | m, allocations⟩ := parse
  · rfl
  · have next :
      ({ (trusting ta).record (.received (some m)) with allocations := allocations } : Ta) =
        trusting { ta.record (.received (some m)) with allocations := allocations } := rfl
    dsimp only
    rw [next]
    generalize ({ ta.record (.received (some m)) with allocations := allocations } : Ta) = ta
    cases m.type with
    | queryResponse => rfl
    | success => rfl
    | error => rfl
    | queryRequest =>
      dsimp only
      rw [handleQueryRequest_trust]
      cases handleQueryRequest p ta m with
      | error fault => rfl
      | ok ta => rfl
    | update =>
      dsimp only
      rw [handleUpdate_trust]
      cases handleUpdate p ta m with
      | error fault => rfl
      | ok ta => rfl

theorem handleComponentDownload_trust (ta : Ta) (buffer : Bytes) :
    handleComponentDownload (reliable p) (trusting ta) buffer =
      Prod.map trusting id (handleComponentDownload p ta buffer) := by
  unfold handleComponentDownload
  rw [trusting_state]
  split
  · rfl
  · have stored := storeComponent_trust p.installTa ta.session.suitRunner.effects.user
      ta.session.suitRunner.effects.user.fetchComponentPath buffer
    have resumed := suitRunnerResume_map (suitCallbacks_trust p.beyond p.installTa)
      { ta.session.suitRunner with effects := { ta.session.suitRunner.effects with
          user := (storeComponent p.installTa ta.session.suitRunner.effects.user
            ta.session.suitRunner.effects.user.fetchComponentPath buffer).2 } }
    simp only [Runner.map, Effects.map] at resumed
    rw [← stored] at resumed
    exact congrArg (fun runner => (({ trusting ta with session := { (trusting ta).session with
      state := .runSuitRunner, suitRunner := runner } } : Ta), teeSuccess)) resumed

theorem brokerTaskDone_trust (ta : Ta) (buffer : Bytes) :
    brokerTaskDone (reliable p) (trusting ta) buffer =
      (brokerTaskDone p ta buffer).map (Prod.map trusting id) := by
  unfold brokerTaskDone
  rw [trusting_onGoingTask, trusting_taskBuffer]
  split
  · rfl
  · split
    · rfl
    · rw [handleTamMessage_trust]
      cases handleTamMessage p ta buffer with
      | error fault => rfl
      | ok result => rfl
    · rw [handleComponentDownload_trust]
      rfl

theorem queryBody_trust (fuel : Nat) (ta : Ta) :
    queryBody (reliable p) fuel (trusting ta) =
      Sum.map trusting (Except.map trusting) (queryBody p fuel ta) := by
  have wild : (reliable p).wild = p.wild := rfl
  have frames : (reliable p).frames = p.frames := rfl
  have beyond : (reliable p).beyond = p.beyond := rfl
  have installTa : (reliable p).installTa = fun _ _ _ => true := rfl
  unfold queryBody
  rw [trusting_state]
  split
  · rfl
  · rfl
  · rfl
  · rfl
  · rfl
  · have init := suitRunnerInit_map (R := Unit) (f := trust) p.wild ta.session.suitContext .install
      ta.session.suitRunner.effects.user
    have user : (trusting ta).session.suitRunner.effects.user =
      trust ta.session.suitRunner.effects.user := rfl
    rw [wild, trusting_suitContext, user, init]
    cases suitRunnerInit p.wild ta.session.suitContext .install
      ta.session.suitRunner.effects.user with
    | none => rfl
    | some runner => rfl
  · have ran := suitRunnerRun_map (suitCallbacks_trust p.beyond p.installTa) p.frames fuel
      ta.session.suitRunner
    rw [beyond, installTa, frames, trusting_suitRunner, ran]
    cases suitRunnerRun (suitCallbacks p.beyond p.installTa) p.frames fuel
      ta.session.suitRunner with
    | none => rfl
    | some runner =>
      have finished : suitRunnerFinished (runner.map trust) = suitRunnerFinished runner := rfl
      have suspended : suitRunnerSuspended (runner.map trust) = suitRunnerSuspended runner := rfl
      simp only [Option.map_some]
      rw [finished, suspended]
      split
      · rfl
      · split
        · rfl
        · rfl
  · have uri : (trusting ta).session.suitRunner.effects.user.fetchUri =
      ta.session.suitRunner.effects.user.fetchUri := rfl
    rw [uri]
    dsimp only
    split
    · rfl
    · rfl
  · rfl

theorem queryNextBrokerTask_trust (fuel : Nat) (ta : Ta) :
    queryNextBrokerTask (reliable p) fuel (trusting ta) =
      (queryNextBrokerTask p fuel ta).map trusting := by
  unfold queryNextBrokerTask
  rw [trusting_onGoingTask]
  split
  · rfl
  · have ran := Loop.iter_map (queryBody_trust (p := p) fuel) (ta.session.state.passes + 1) ta
    have original := Loop.eval_iter (queryBody_decreasing p fuel) ta
    rw [original] at ran
    have copied := Loop.eval_iter (queryBody_decreasing (reliable p) fuel) (trusting ta)
    exact Loop.iter_unique copied ran

/-- The history of stores decides nothing: a command does the same on storage
that never fails. -/
theorem invokeCommand_trust (fuel : Nat) (ta : Ta) (command : Command) :
    invokeCommand (reliable p) fuel (trusting ta) command =
      (invokeCommand p fuel ta command).map (Prod.map trusting id) := by
  cases command with
  | setDevOption option value =>
    simp only [invokeCommand]
    split
    · rfl
    · split
      · rfl
      · rw [setDevOption_trust]
        rfl
  | brokerTaskDone buffer =>
    simp only [invokeCommand]
    rw [brokerTaskDone_trust]
    cases brokerTaskDone p ta buffer with
    | error fault => rfl
    | ok result => rfl
  | queryNextBrokerTask uriSize postDataSize =>
    simp only [invokeCommand]
    rw [queryNextBrokerTask_trust]
    cases queryNextBrokerTask p fuel ta with
    | error fault => rfl
    | ok next =>
      simp only [Except.map, trusting_taskBuffer]
      cases copyoutTask next.session.taskBuffer uriSize postDataSize with
      | error fault => rfl
      | ok response => rfl
  | other id => rfl

theorem step_trust {ta ta' : Ta} {command : Command} (step : Step p ta command ta') :
    Step (reliable p) (trusting ta) command (trusting ta') := by
  obtain ⟨fuel, response, done⟩ := step
  have same := invokeCommand_trust (p := p) fuel ta command
  rw [done] at same
  exact ⟨fuel, response, same⟩

theorem start_trust (memory : Session) : trusting (Ta.start memory) = Ta.start memory := rfl

theorem run_trust {memory : Session} {commands : List Command} {ta : Ta}
    (run : Run (Step p) (Ta.start memory) commands ta) :
    Run (Step (reliable p)) (Ta.start memory) commands (trusting ta) := by
  have copied := run.map trusting (fun _ _ _ step => step_trust step)
  rwa [start_trust] at copied

end Commands

/-- States a session is in before its runner was started. -/
def AgentState.beforeRunner : AgentState → Bool
  | .init | .postingInitialRequest | .postingQueryResponse | .initRunner => true
  | _ => false

/-- Nothing is stored before an Update was accepted and the runner started. -/
def StoresNothingEarly (ta : Ta) : Prop :=
  ta.session.state.beforeRunner = true → ta.stores = []

theorem StoresNothingEarly.of_later {ta : Ta} (later : ta.session.state.beforeRunner = false) :
    StoresNothingEarly ta := by
  intro early
  rw [later] at early
  cases early

theorem query_storesNothingEarly {fuel : Nat} {ta ta' : Ta} (nothing : StoresNothingEarly ta)
    (idle : ta.session.onGoingTask = false) (query : queryNextBrokerTask p fuel ta = .ok ta') :
    StoresNothingEarly ta' := by
  refine query_rule StoresNothingEarly StoresNothingEarly ?_ ?_ nothing idle query
  · intro s next holds _ pass
    cases pass with
    | begins state =>
      intro _
      apply holds
      rw [state]
      rfl
    | starts state started => exact .of_later rfl
    | @runs runner state ran =>
      rcases stateAfterRun_cases runner with last | last | last
      · exact .of_later (by rw [last]; rfl)
      · exact .of_later (by rw [last]; rfl)
      · exact .of_later (by rw [last]; rfl)
  · intro s next holds _ pass
    obtain ⟨task, history, rfl⟩ := queryBody_leaves pass
    exact holds

theorem step_storesNothingEarly {ta ta' : Ta} {command : Command}
    (nothing : StoresNothingEarly ta) (step : Step p ta command ta') : StoresNothingEarly ta' := by
  cases step_outcome step with
  | unchanged => exact nothing
  | configured => exact nothing
  | queried idle query => exact query_storesNothingEarly nothing idle query
  | downloaded busy fetch =>
    unfold handleComponentDownload
    split
    · exact .of_later rfl
    · exact .of_later rfl
  | replied busy post outcome =>
    have early (before : ta.session.state.beforeRunner = true) : ta.stores = [] := nothing before
    cases outcome with
    | ended => exact .of_later rfl
    | afterError => exact .of_later rfl
    | unparsed => exact .of_later rfl
    | refused => exact .of_later rfl
    | requested content parse type state => exact fun _ => early (by rw [state]; rfl)
    | notStored => exact nothing
    | updated slots allocations content parse type state storable =>
      exact fun _ => early (by rw [state]; rfl)

/-- The session reports Success only if every store since the Update succeeded;
after one that failed, the runner is left for an Error alone. -/
structure SuccessMeansStored (ta : Ta) : Prop where
  success : ta.session.state = .postingSuccess → ∀ stored ∈ ta.stores, stored.ok = true
  failure : ∀ stored ∈ ta.stores, stored.ok = false →
    ta.session.state = .runSuitRunner ∨ ta.session.state = .fetchComponent ∨
      ta.session.state = .postingError ∨ ta.session.state = .finish

/-- Components are stored under the runner and after it only. -/
theorem StoresNothingEarly.later {ta : Ta} (nothing : StoresNothingEarly ta) {stored : Stored}
    (member : stored ∈ ta.stores) (other : ta.session.state ≠ .postingSuccess) :
    ta.session.state = .runSuitRunner ∨ ta.session.state = .fetchComponent ∨
      ta.session.state = .postingError ∨ ta.session.state = .finish := by
  have late : ta.session.state.beforeRunner = false := by
    cases before : ta.session.state.beforeRunner with
    | false => rfl
    | true =>
      rw [nothing before] at member
      cases member
  cases state : ta.session.state with
  | runSuitRunner => exact .inl rfl
  | fetchComponent => exact .inr (.inl rfl)
  | postingError => exact .inr (.inr (.inl rfl))
  | finish => exact .inr (.inr (.inr rfl))
  | postingSuccess => exact absurd state other
  | init | postingInitialRequest | postingQueryResponse | initRunner =>
    rw [state] at late
    cases late

end TeepDevice.Agent
