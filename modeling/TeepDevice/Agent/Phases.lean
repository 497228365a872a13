import TeepDevice.Agent.Authenticated

/-! The phases of a session. Over every run they go up, the outstanding task fits
the state, and the one Error is the last message. -/
namespace TeepDevice.Agent
open Suit Teep Transition

variable {p : Platform}

/-- The order in which a session goes through its states. -/
def AgentState.phase : AgentState → Nat
  | .init => 0
  | .postingInitialRequest => 1
  | .postingQueryResponse => 2
  | .initRunner => 3
  | .runSuitRunner | .fetchComponent => 4
  | .postingSuccess => 5
  | .postingError => 6
  | .finish => 7

theorem phase_le_finish (state : AgentState) : state.phase ≤ AgentState.finish.phase := by
  cases state <;> decide

theorem phase_le_error {state : AgentState} (task : state.task = some .httpPost) :
    state.phase ≤ AgentState.postingError.phase := by
  cases state with
  | finish => cases task
  | _ => decide

theorem phase_init {state : AgentState} (first : state.phase = 0) : state = .init := by
  cases state with
  | init => rfl
  | _ => cases first

section Advancing

/-- The phase does not go down, and beyond the first one the options stay. -/
structure Advances (ta ta' : Ta) : Prop where
  phase : ta.session.state.phase ≤ ta'.session.state.phase
  options : ta.session.state ≠ .init →
    ta'.session.tamUri = ta.session.tamUri ∧ ta'.session.requests = ta.session.requests

theorem Advances.refl (ta : Ta) : Advances ta ta := by
  constructor
  · omega
  · exact fun _ => ⟨rfl, rfl⟩

theorem Advances.trans {ta ta' ta'' : Ta} (first : Advances ta ta') (second : Advances ta' ta'') :
    Advances ta ta'' := by
  constructor
  · have := first.phase
    have := second.phase
    omega
  · intro left
    have left' : ta'.session.state ≠ .init := by
      intro state
      have below := first.phase
      rw [state] at below
      exact left (phase_init (Nat.le_zero.mp below))
    obtain ⟨uri, requests⟩ := first.options left
    obtain ⟨uri', requests'⟩ := second.options left'
    exact ⟨uri'.trans uri, requests'.trans requests⟩

theorem pass_advances {fuel : Nat} {ta next : Ta} (pass : PassOutcome p fuel ta next) :
    Advances ta next := by
  have options : next.session.tamUri = ta.session.tamUri ∧
      next.session.requests = ta.session.requests := by
    obtain ⟨state, runner, rfl⟩ := pass_same pass
    exact ⟨rfl, rfl⟩
  refine ⟨?_, fun _ => options⟩
  cases pass with
  | begins state => simp [state, Ta.setState, AgentState.phase]
  | starts state => simp [state, AgentState.phase]
  | @runs runner state =>
    rw [state]
    rcases stateAfterRun_cases runner with last | last | last
    · simp [last, AgentState.phase]
    · simp [last, AgentState.phase]
    · simp [last, AgentState.phase]

theorem taskOutcome_advances {ta next : Ta} (outcome : TaskOutcome p ta next) :
    Advances ta next := by
  cases outcome with
  | silent => exact ⟨Nat.le_refl _, fun _ => ⟨rfl, rfl⟩⟩
  | posted => exact ⟨Nat.le_refl _, fun _ => ⟨rfl, rfl⟩⟩

theorem query_advances {fuel : Nat} {ta ta' : Ta} (idle : ta.session.onGoingTask = false)
    (query : queryNextBrokerTask p fuel ta = .ok ta') : Advances ta ta' := by
  refine query_rule (Advances ta) (Advances ta) ?_ ?_ (.refl ta) idle query
  · intro s next advances _ pass
    exact advances.trans (pass_advances pass)
  · intro s next advances _ pass
    exact advances.trans (taskOutcome_advances (queryBody_hands pass))

theorem reply_advances {ta next : Ta} {buffer : Bytes} {result : Nat}
    (task : ta.session.state.task = some .httpPost)
    (outcome : TamOutcome p ta buffer next result) : Advances ta next := by
  have below := phase_le_error task
  cases outcome with
  | ended => exact ⟨phase_le_finish _, fun _ => ⟨rfl, rfl⟩⟩
  | afterError => exact ⟨phase_le_finish _, fun _ => ⟨rfl, rfl⟩⟩
  | unparsed => exact ⟨below, fun _ => ⟨rfl, rfl⟩⟩
  | refused => exact ⟨below, fun _ => ⟨rfl, rfl⟩⟩
  | requested _ _ _ state =>
    refine ⟨?_, fun _ => ⟨rfl, rfl⟩⟩
    simp [state, AgentState.phase]
  | notStored => exact ⟨Nat.le_refl _, fun _ => ⟨rfl, rfl⟩⟩
  | updated slots allocations content parse type state =>
    refine ⟨?_, fun _ => ⟨rfl, rfl⟩⟩
    rw [state]
    dsimp only
    split
    · decide
    · decide

theorem download_advances {ta : Ta} (buffer : Bytes) (state : ta.session.state = .fetchComponent) :
    Advances ta (handleComponentDownload p ta buffer).1 := by
  have expected : ¬ ta.session.state ≠ .fetchComponent := fun other => other state
  rw [handleComponentDownload, if_neg expected]
  refine ⟨?_, fun _ => ⟨rfl, rfl⟩⟩
  simp [state, AgentState.phase]

theorem task_fetch {state : AgentState} (task : state.task = some .httpGet) :
    state = .fetchComponent := by
  cases state with
  | fetchComponent => rfl
  | _ => cases task

theorem task_finish {state : AgentState} (task : state.task = some .finish) :
    state = .finish := by
  cases state with
  | finish => rfl
  | _ => cases task

theorem step_advances {ta ta' : Ta} {command : Command} (matching : TaskMatches ta)
    (step : Step p ta command ta') : Advances ta ta' := by
  cases step_outcome step with
  | unchanged => exact .refl ta
  | configured state =>
    refine ⟨Nat.le_refl _, fun left => ?_⟩
    exact absurd state left
  | replied busy post outcome =>
    have task := matching busy
    rw [post] at task
    obtain ⟨phase, options⟩ := reply_advances task outcome
    exact ⟨phase, options⟩
  | downloaded busy fetch =>
    have task := matching busy
    rw [fetch] at task
    obtain ⟨phase, options⟩ := download_advances (p := p) _ (task_fetch task)
    exact ⟨phase, options⟩
  | queried idle query => exact query_advances idle query

end Advancing

section Suspending

/-- A session that waits for a download has a suspended runner. -/
def Suspended (ta : Ta) : Prop :=
  ta.session.state = .fetchComponent → suitRunnerSuspended ta.session.suitRunner = true

theorem Suspended.of_other {ta : Ta} (other : ta.session.state ≠ .fetchComponent) :
    Suspended ta := fun state => absurd state other

theorem pass_suspended {fuel : Nat} {ta next : Ta} (pass : PassOutcome p fuel ta next) :
    Suspended next := by
  cases pass with
  | begins => exact .of_other nofun
  | starts => exact .of_other nofun
  | @runs runner =>
    intro state
    replace state : stateAfterRun runner = .fetchComponent := state
    unfold stateAfterRun at state
    split at state
    · cases state
    · split at state
      · assumption
      · cases state

theorem query_suspended {fuel : Nat} {ta ta' : Ta} (suspended : Suspended ta)
    (idle : ta.session.onGoingTask = false)
    (query : queryNextBrokerTask p fuel ta = .ok ta') : Suspended ta' := by
  refine query_rule Suspended Suspended ?_ ?_ suspended idle query
  · intro s next _ _ pass
    exact pass_suspended pass
  · intro s next suspended _ pass
    obtain ⟨task, history, rfl⟩ := queryBody_leaves pass
    exact suspended

theorem reply_suspended {ta next : Ta} {buffer : Bytes} {result : Nat}
    (outcome : TamOutcome p ta buffer next result) : Suspended next := by
  cases outcome with
  | notStored _ _ _ state =>
    apply Suspended.of_other
    simp [received_state, state]
  | updated =>
    apply Suspended.of_other
    dsimp only
    split
    · nofun
    · nofun
  | _ => exact .of_other nofun

theorem step_suspended {ta ta' : Ta} {command : Command} (suspended : Suspended ta)
    (step : Step p ta command ta') : Suspended ta' := by
  cases step_outcome step with
  | unchanged => exact suspended
  | configured => exact suspended
  | replied _ _ outcome =>
    have next := reply_suspended outcome
    exact next
  | downloaded =>
    apply Suspended.of_other
    unfold handleComponentDownload
    split
    · nofun
    · nofun
  | queried idle query => exact query_suspended suspended idle query

end Suspending

section Errors

def isError : Event → Bool
  | .posted .error _ _ => true
  | _ => false

/-- How many Errors were posted. -/
def errors (history : List Event) : Nat := history.countP isError

@[simp] theorem errors_received (history : List Event) (message : Option Message) :
    errors (history ++ [.received message]) = errors history := by
  simp [errors, isError]

theorem errors_posted (history : List Event) (type : MessageType) (ops : List EncodeOp)
    (length : Option Nat) :
    errors (history ++ [.posted type ops length]) =
      errors history + if type = .error then 1 else 0 := by
  cases type with
  | error => simp [errors, isError]
  | _ => simp [errors, isError]

/-- An Error is outstanding, or was answered and ended the session. -/
def Ending (ta : Ta) : Prop :=
  ta.session.state = .finish ∨
    (ta.session.state = .postingError ∧ ta.session.onGoingTask = true)

/-- No Error was posted, or one, which the session ends with. -/
def OneError (ta : Ta) : Prop :=
  errors ta.history = 0 ∨ (errors ta.history = 1 ∧ Ending ta)

theorem OneError.none_of {ta : Ta} (one : OneError ta) (other : ¬ Ending ta) :
    errors ta.history = 0 := by
  rcases one with none | ⟨-, ending⟩
  · exact none
  · exact absurd ending other

theorem pass_oneError {fuel : Nat} {ta next : Ta} (one : OneError ta)
    (pass : PassOutcome p fuel ta next) : OneError next := by
  have before : ¬ Ending ta := by
    cases pass with
    | begins state => simp [Ending, state]
    | starts state => simp [Ending, state]
    | runs state => simp [Ending, state]
  have none := one.none_of before
  obtain ⟨state, runner, rfl⟩ := pass_same pass
  exact .inl none

theorem taskOutcome_oneError {ta next : Ta} (one : OneError ta)
    (idle : ta.session.onGoingTask = false) (outcome : TaskOutcome p ta next) :
    OneError next := by
  cases outcome with
  | silent =>
    rcases one with none | ⟨count, finish | ⟨-, busy⟩⟩
    · exact .inl none
    · exact .inr ⟨count, .inl finish⟩
    · rw [idle] at busy
      cases busy
  | @posted type posts =>
    have before : ¬ Ending ta := by
      rintro (finish | ⟨-, busy⟩)
      · rw [finish] at posts
        cases posts
      · rw [idle] at busy
        cases busy
    have count := errors_posted ta.history type (messageOps ta.session type)
      (p.qcbor.encode (messageOps ta.session type) ta.session.taskBuffer.postData).2
    rw [one.none_of before] at count
    by_cases error : type = .error
    · subst error
      have state : ta.session.state = .postingError := by
        cases state : ta.session.state with
        | postingError => rfl
        | _ =>
          rw [state] at posts
          cases posts
      exact .inr ⟨count, .inr ⟨state, rfl⟩⟩
    · rw [if_neg error] at count
      exact .inl count

theorem query_oneError {fuel : Nat} {ta ta' : Ta} (one : OneError ta)
    (idle : ta.session.onGoingTask = false)
    (query : queryNextBrokerTask p fuel ta = .ok ta') : OneError ta' := by
  refine query_rule OneError OneError ?_ ?_ one idle query
  · intro s next one _ pass
    exact pass_oneError one pass
  · intro s next one idle pass
    exact taskOutcome_oneError one idle (queryBody_hands pass)

/-- The reply to an Error ends the session; before, none was posted. -/
theorem reply_oneError {ta next : Ta} {buffer : Bytes} {result : Nat} (one : OneError ta)
    (task : ta.session.state.task = some .httpPost)
    (outcome : TamOutcome p ta buffer next result) : OneError next.clearTask := by
  have ended {ta' : Ta} (history : ta'.history = ta.history)
      (state : ta'.session.state = .finish) : OneError ta' := by
    unfold OneError
    rw [history]
    rcases one with none | ⟨count, -⟩
    · exact .inl none
    · exact .inr ⟨count, .inl state⟩
  have quiet (live : ta.session.state ≠ .postingError) : errors ta.history = 0 := by
    apply one.none_of
    rintro (finish | ⟨error, -⟩)
    · rw [finish] at task
      cases task
    · exact live error
  have kept {message : Option Message} (live : ta.session.state ≠ .postingError)
      (history : next.history = ta.history ++ [.received message]) : OneError next.clearTask := by
    refine .inl ?_
    rw [Ta.clearTask, history, errors_received]
    exact quiet live
  cases outcome with
  | ended => exact ended rfl rfl
  | afterError => exact ended rfl rfl
  | unparsed content live parse => exact kept live (received_history parse)
  | refused content live parse => exact kept live (received_history parse)
  | requested content parse type state =>
    exact kept (by simp [state]) (received_history parse)
  | notStored content parse type state =>
    exact kept (by simp [state]) (received_history parse)
  | updated slots allocations content parse type state =>
    exact kept (by simp [state]) (received_history parse)

theorem step_oneError {ta ta' : Ta} {command : Command} (matching : TaskMatches ta)
    (one : OneError ta) (step : Step p ta command ta') : OneError ta' := by
  cases step_outcome step with
  | unchanged => exact one
  | configured => exact one
  | replied busy post outcome =>
    have task := matching busy
    rw [post] at task
    exact reply_oneError one task outcome
  | @downloaded buffer busy fetch =>
    have task := matching busy
    rw [fetch] at task
    have state := task_fetch task
    have none := one.none_of (by simp [Ending, state])
    have expected : ¬ ta.session.state ≠ .fetchComponent := fun other => other state
    rw [handleComponentDownload, if_neg expected]
    exact .inl none
  | queried idle query => exact query_oneError one idle query

end Errors

section Again

/-- With a task at hand, only a result for it can change anything, and the task
that ends the session has none. -/
theorem step_busy {ta ta' : Ta} {command : Command} (matching : TaskMatches ta)
    (busy : ta.session.onGoingTask = true)
    (fruitless : ∀ buffer, command = .brokerTaskDone buffer →
      ta.session.taskBuffer.command = .finish)
    (step : Step p ta command ta') : ta' = ta := by
  cases step_outcome step with
  | unchanged => rfl
  | configured state =>
    have task := matching busy
    rw [state] at task
    cases task
  | replied _ post =>
    rw [fruitless _ rfl] at post
    cases post
  | downloaded _ fetch =>
    rw [fruitless _ rfl] at fetch
    cases fetch
  | queried idle =>
    rw [busy] at idle
    cases idle

theorem step_waits {ta ta' : Ta} {command : Command} (matching : TaskMatches ta)
    (busy : ta.session.onGoingTask = true) (waits : ∀ buffer, command ≠ .brokerTaskDone buffer)
    (step : Step p ta command ta') : ta' = ta :=
  step_busy matching busy (fun buffer same => absurd same (waits buffer)) step

theorem step_finished {ta ta' : Ta} {command : Command} (matching : TaskMatches ta)
    (busy : ta.session.onGoingTask = true) (finish : ta.session.taskBuffer.command = .finish)
    (step : Step p ta command ta') : ta' = ta :=
  step_busy matching busy (fun _ _ => finish) step

theorem run_waits {ta ta' : Ta} {commands : List Command} (matching : TaskMatches ta)
    (busy : ta.session.onGoingTask = true)
    (waits : ∀ buffer, Command.brokerTaskDone buffer ∉ commands)
    (run : Run (Step p) ta commands ta') : ta' = ta := by
  induction run with
  | nil => rfl
  | snoc before last ih =>
    obtain rfl := ih fun buffer member => waits buffer (List.mem_append_left _ member)
    refine step_waits matching busy (fun buffer same => waits buffer ?_) last
    simp [same]

theorem run_finished {ta ta' : Ta} {commands : List Command} (matching : TaskMatches ta)
    (busy : ta.session.onGoingTask = true) (finish : ta.session.taskBuffer.command = .finish)
    (run : Run (Step p) ta commands ta') : ta' = ta := by
  induction run with
  | nil => rfl
  | snoc before last ih =>
    obtain rfl := ih
    exact step_finished matching busy finish last

theorem query_again {fuel uriSize postDataSize : Nat} {ta ta' : Ta} {response : Response}
    (queried : invokeCommand p fuel ta (.queryNextBrokerTask uriSize postDataSize) =
      .ok (ta', response)) :
    ta'.session.onGoingTask = true ∧
      ∀ fuel', invokeCommand p fuel' ta' (.queryNextBrokerTask uriSize postDataSize) =
        .ok (ta', response) := by
  obtain ⟨query, copied⟩ := invokeCommand_query queried
  have busy := query_busy query
  refine ⟨busy, fun fuel' => ?_⟩
  have same : queryNextBrokerTask p fuel' ta' = .ok ta' := if_pos busy
  simp only [invokeCommand, same, copied]

end Again

/-- Between two states of a session, the second one reached from the first. -/
structure SessionPhases (p : Platform) (ta ta' : Ta) : Prop where
  forward : ta.session.state.phase ≤ ta'.session.state.phase
  post : ta.session.onGoingTask = true → ta.session.taskBuffer.command = .httpPost →
    ta.session.state = .postingInitialRequest ∨ ta.session.state = .postingQueryResponse ∨
      ta.session.state = .postingSuccess ∨ ta.session.state = .postingError
  get : ta.session.onGoingTask = true → ta.session.taskBuffer.command = .httpGet →
    ta.session.state = .fetchComponent ∧ suitRunnerSuspended ta.session.suitRunner = true ∧
      ∀ buffer, (handleComponentDownload p ta buffer).2 ≠ teeErrorBadState
  finish : ta.session.onGoingTask = true → ta.session.taskBuffer.command = .finish →
    ta.session.state = .finish ∧ ta' = ta
  again : ∀ fuel uriSize postDataSize queried response,
    invokeCommand p fuel ta (.queryNextBrokerTask uriSize postDataSize) =
      .ok (queried, response) →
    ∀ commands later fuel', (∀ buffer, Command.brokerTaskDone buffer ∉ commands) →
      Run (Step p) queried commands later →
      invokeCommand p fuel' later (.queryNextBrokerTask uriSize postDataSize) =
        .ok (queried, response)
  options : ta.session.state ≠ .init →
    ta'.session.tamUri = ta.session.tamUri ∧ ta'.session.requests = ta.session.requests
  oneError : errors ta.history ≤ 1

theorem session_phases {memory : Session} {commands more : List Command} {ta ta' : Ta}
    (run : Run (Step p) (Ta.start memory) commands ta) (rest : Run (Step p) ta more ta') :
    SessionPhases p ta ta' := by
  have matching := run_taskMatches run
  have suspended := run.invariant Suspended (fun _ _ _ suspended step =>
    step_suspended suspended step) (.of_other nofun)
  have one := run.invariant (fun ta => TaskMatches ta ∧ OneError ta)
    (fun _ _ _ holds step => ⟨step_taskMatches holds.1 step, step_oneError holds.1 holds.2 step⟩)
    ⟨.of_idle rfl, .inl rfl⟩
  have advances := rest.invariant (fun ta' => TaskMatches ta' ∧ Advances ta ta')
    (fun _ _ _ holds step => ⟨step_taskMatches holds.1 step,
      holds.2.trans (step_advances holds.1 step)⟩) ⟨matching, .refl ta⟩
  constructor
  · exact advances.2.phase
  · intro busy post
    have task := matching busy
    rw [post] at task
    cases state : ta.session.state with
    | postingInitialRequest | postingQueryResponse | postingSuccess | postingError => simp
    | _ =>
      rw [state] at task
      cases task
  · intro busy get
    have task := matching busy
    rw [get] at task
    have state := task_fetch task
    refine ⟨state, suspended state, fun buffer => ?_⟩
    have expected : ¬ ta.session.state ≠ .fetchComponent := fun other => other state
    rw [handleComponentDownload, if_neg expected]
    simp
  · intro busy finish
    have task := matching busy
    rw [finish] at task
    exact ⟨task_finish task, run_finished matching busy finish rest⟩
  · intro fuel uriSize postDataSize queried response first commands later fuel' waits between
    have step : Step p ta (.queryNextBrokerTask uriSize postDataSize) queried :=
      ⟨fuel, response, first⟩
    obtain ⟨busy, again⟩ := query_again first
    obtain rfl := run_waits (step_taskMatches matching step) busy waits between
    exact again fuel'
  · exact advances.2.options
  · rcases one.2 with none | ⟨count, -⟩
    · omega
    · omega

theorem session_phases_readme :
    ∃ ta ta', Run (Step readmePlatform) (Ta.start blankMemory) (readmeCommands ++ [query]) ta ∧
      Run (Step readmePlatform) ta [.brokerTaskDone [0x7F, 0x45, 0x4C, 0x46], query] ta' ∧
      ta.session.state = .fetchComponent ∧ ta'.session.state = .postingSuccess ∧
      SessionPhases readmePlatform ta ta' := by
  have reached : ((exec (execStep readmePlatform 20 fun _ _ => True) (Ta.start blankMemory)
      (readmeCommands ++ [query])).bind fun ta =>
        (exec (execStep readmePlatform 20 fun _ _ => True) ta
          [.brokerTaskDone [0x7F, 0x45, 0x4C, 0x46], query]).map fun ta' =>
            (ta.session.state, ta'.session.state)) = some (.fetchComponent, .postingSuccess) := by
    decide +kernel
  obtain ⟨ta, first, rest⟩ := Option.bind_eq_some_iff.mp reached
  obtain ⟨ta', second, states⟩ := Option.map_eq_some_iff.mp rest
  have run := (exec_run first).of_guarded
  have run' := (exec_run second).of_guarded
  exact ⟨ta, ta', run, run', congrArg Prod.fst states, congrArg Prod.snd states,
    session_phases run run'⟩

end TeepDevice.Agent
