import TeepDevice.Agent.Stopping
import TeepDevice.Memory
import TeepDevice.Suit.LocalUri

/-! The URI of a fetch on its way into the task of a GET. `directive_fetch` takes
a text of any length, the runner is suspended, and the next pass of the query
copies the text into a field of 512 bytes without a look at the length. -/
namespace TeepDevice.Agent
open Tcbor Suit Teep Transition

/-- The SUIT runner of a query, each time its loop comes around. -/
inductive QueryReaches (p : Platform) (ta : Ta) : Runner AgentUser Unit → Prop where
  | resumes (state : ta.session.state = .runSuitRunner)
      (fine : ta.session.suitRunner.hasError = false) : QueryReaches p ta ta.session.suitRunner
  | starts {start : Runner AgentUser Unit} (state : ta.session.state = .initRunner)
      (started : suitRunnerInit p.wild ta.session.suitContext .install
        ta.session.suitRunner.effects.user = some start) : QueryReaches p ta start
  | goes {before after : Runner AgentUser Unit} (reaches : QueryReaches p ta before)
      (step : runBody (suitCallbacks p.beyond p.installTa) p.frames before = .inl after) :
    QueryReaches p ta after

/-- A URI that is not looked up in the envelope. -/
def Remote (uri : Bytes) : Prop := uri ≠ [] ∧ uri.head? ≠ some 0x23

/-- The session when the runner was suspended. -/
def fetching (ta : Ta) (runner : Runner AgentUser Unit) : Ta :=
  { ta with session := { ta.session with state := .fetchComponent, suitRunner := runner } }

/-- The task has the URI and its terminator in the field, the copy stays inside
of the field, and nothing but the task has changed. -/
structure GetTask (uri : Bytes) (before after : Ta) : Prop where
  field : Memory.write (List.replicate teepMaxUriLen 0) 0 uri = some after.session.taskBuffer.uri
  ended : uri ++ [0] <+: after.session.taskBuffer.uri
  rest : after = before.setTask { before.session.taskBuffer with
    command := .httpGet, uri := after.session.taskBuffer.uri, postDataLen := 0 }

/-- What the query has to come to. -/
def GetTaskRight (uri : Bytes) (before : Ta) (result : Except Fault Ta) : Prop :=
  ∃ after, result = .ok after ∧
    (after.session.state = .postingError ∨ GetTask uri before after)

variable {p : Platform}

section Fetching
variable {before after : Runner AgentUser Unit} {object : Object} {uri : Bytes}

/-- A component that is accepted suspends the runner with the URI. -/
theorem fetchAndStore_suspends {beyond : Beyond} {user : AgentUser}
    {fx fx' : Effects AgentUser Unit}
    (done : applyReply (fetchAndStore beyond user object uri) fx = (true, fx')) :
    fx'.suspended = true ∧ fx'.user.fetchUri = some uri := by
  cases object with
  | dependency index => cases done
  | component index component =>
    simp only [fetchAndStore] at done
    split at done
    · cases done
    · cases done
      exact ⟨rfl, rfl⟩

/-- A fetch of a remote URI that does not fail suspends the runner with the URI. -/
theorem fetch_suspends
    (step : runBody (suitCallbacks p.beyond p.installTa) p.frames before = .inl after)
    (fetch : ExecutesFetch before after object uri) (remote : Remote uri) :
    after.hasError = false ∧ after.effects.suspended = true ∧
      after.effects.user.fetchUri = some uri := by
  have fine := (runBody_goes step).2
  obtain ⟨call, ok, done, error⟩ := fetch.handled (.inl step)
  rw [fine] at error
  refine ⟨fine, ?_⟩
  have accepted : ok = true := by
    cases ok with
    | true => rfl
    | false => rw [Bool.not_false, Bool.or_true] at error; cases error
  subst accepted
  cases uri with
  | nil => exact absurd rfl remote.1
  | cons c uri =>
    have other : c ≠ 0x23 := fun same => remote.2 (congrArg some same)
    simp only [fetchText, if_neg other] at done
    have replied : applyReply (fetchAndStore p.beyond before.effects.user object (c :: uri)) _ =
        (true, after.effects) := done
    exact fetchAndStore_suspends replied

end Fetching

section Queries
variable {ta : Ta} {runner after : Runner AgentUser Unit}

/-- The loop that comes to a runner goes on from it. -/
theorem QueryReaches.iter (reaches : QueryReaches p ta runner) :
    ∃ start passes, start.hasError = false ∧
      (ta.session.state = .runSuitRunner ∧ start = ta.session.suitRunner ∨
        ta.session.state = .initRunner ∧ suitRunnerInit p.wild ta.session.suitContext .install
          ta.session.suitRunner.effects.user = some start) ∧
      ∀ n, Loop.iter (runBody (suitCallbacks p.beyond p.installTa) p.frames) (n + passes) start =
        Loop.iter (runBody (suitCallbacks p.beyond p.installTa) p.frames) n runner := by
  induction reaches with
  | resumes state fine =>
    exact ⟨_, 0, fine, .inl ⟨state, rfl⟩, fun _ => rfl⟩
  | @starts start state started =>
    have fine : start.hasError = false := by
      obtain ⟨-, -, -, -, rfl⟩ := suitRunnerInit_started started
      rfl
    exact ⟨start, 0, fine, .inr ⟨state, started⟩, fun _ => rfl⟩
  | goes reaches step ih =>
    obtain ⟨start, passes, fine, from_, rest⟩ := ih
    refine ⟨start, passes + 1, fine, from_, fun n => ?_⟩
    rw [Nat.add_comm passes, ← Nat.add_assoc, rest, Loop.iter, step]

/-- A query whose loop comes to a suspended runner comes to the fetch. -/
theorem query_fetching (idle : ta.session.onGoingTask = false) (reaches : QueryReaches p ta runner)
    (fine : runner.hasError = false) (suspended : runner.effects.suspended = true) :
    ∃ fuel, ∀ more, fuel ≤ more →
      queryNextBrokerTask p more ta = queryNextBrokerTask p more (fetching ta runner) := by
  obtain ⟨start, passes, good, from_, rest⟩ := reaches.iter
  have leaves : runBody (suitCallbacks p.beyond p.installTa) p.frames runner = .inr runner := by
    rw [runBody, if_pos suspended]
  have ran : suitRunnerRun (suitCallbacks p.beyond p.installTa) p.frames (1 + passes) start =
      some runner := by
    rw [suitRunnerRun, if_neg (by rw [good]; exact Bool.false_ne_true), rest, Loop.iter, leaves]
  have next : stateAfterRun runner = .fetchComponent := by
    simp [stateAfterRun, suitRunnerFinished, suitRunnerSuspended, fine, suspended]
  refine ⟨1 + passes, fun more le => ?_⟩
  have ran := suitRunnerRun_mono _ _ le ran
  -- the pass that runs the runner, in the state it is started in
  have last (s : Ta) (same : fetching s runner = fetching ta runner)
      (state : s.session.state = .runSuitRunner) (from_ : s.session.suitRunner = start) :
      queryBody p more s = .inl (fetching ta runner) := by
    rw [← same]
    simp only [queryBody, state, from_, ran, suitRunnerFinished, suitRunnerSuspended, fine,
      suspended, Bool.not_false, Bool.not_true, Bool.and_false, Bool.and_true, if_true,
      Bool.false_eq_true, if_false]
    rfl
  rcases from_ with ⟨state, rfl⟩ | ⟨state, started⟩
  · exact query_pass idle (last ta rfl state rfl)
  · let launched : Ta :=
      { ta with session := { ta.session with state := .runSuitRunner, suitRunner := start } }
    have first : queryBody p more ta = .inl launched := by
      simp only [queryBody, state, started]
      rfl
    rw [query_pass idle first]
    exact query_pass idle (last launched rfl rfl rfl)

/-- The copy leaves room for the terminator, fills the field, or overruns it. -/
theorem copy_right_iff {uri : Bytes} (state : ta.session.state = .fetchComponent)
    (idle : ta.session.onGoingTask = false)
    (waits : ta.session.suitRunner.effects.user.fetchUri = some uri) (fuel : Nat) :
    GetTaskRight uri ta (queryNextBrokerTask p fuel ta) ↔ uri.length < teepMaxUriLen := by
  have notBusy : ¬ ta.session.onGoingTask = true := by
    rw [idle]
    exact Bool.false_ne_true
  rw [queryNextBrokerTask, if_neg notBusy, Loop.eval_unfold]
  simp only [queryBody, state, waits, Option.getD_some]
  by_cases long : teepMaxUriLen < uri.length
  · simp only [if_pos long]
    constructor
    · rintro ⟨after, failed, -⟩
      cases failed
    · intro short
      omega
  · have written : Memory.write (List.replicate teepMaxUriLen 0) 0 uri =
        some (uri ++ List.replicate (teepMaxUriLen - uri.length) 0) := by
      rw [Memory.write_front (by rw [List.length_replicate]; omega), List.drop_replicate]
    simp only [if_neg long]
    constructor
    · rintro ⟨after, handed, right⟩
      cases handed
      rcases right with error | task
      · rw [Ta.setTask] at error
        cases state.symm.trans error
      · have ended := (List.prefix_append_right_inj uri).mp task.ended
        have one := ended.length_le
        rw [List.length_singleton, List.length_replicate] at one
        omega
    · intro short
      refine ⟨_, rfl, .inr ⟨written, (List.prefix_append_right_inj uri).mpr ?_, rfl⟩⟩
      obtain ⟨more, missing⟩ : ∃ more, teepMaxUriLen - uri.length = more + 1 :=
        ⟨teepMaxUriLen - uri.length - 1, by omega⟩
      simp only [missing, List.replicate_succ]
      exact ⟨_, rfl⟩

end Queries

/-- When a query's runner accepts the fetch of a remote URI, the query ends with
an Error or with the right task exactly when the URI is shorter than the field. -/
theorem getTask_right_iff {ta : Ta} {before after : Runner AgentUser Unit} {object : Object}
    {uri : Bytes} (idle : ta.session.onGoingTask = false) (reaches : QueryReaches p ta before)
    (step : runBody (suitCallbacks p.beyond p.installTa) p.frames before = .inl after)
    (fetch : ExecutesFetch before after object uri) (remote : Remote uri) :
    ∃ fuel, ∀ more, fuel ≤ more →
      (GetTaskRight uri (fetching ta after) (queryNextBrokerTask p more ta) ↔
        uri.length < teepMaxUriLen) := by
  obtain ⟨fine, suspended, waits⟩ := fetch_suspends step fetch remote
  obtain ⟨fuel, comes⟩ := query_fetching idle (.goes reaches step) fine suspended
  refine ⟨fuel, fun more le => ?_⟩
  rw [comes more le]
  exact @copy_right_iff p (fetching ta after) uri rfl idle waits more

/-- The runner of a query after some passes of its loop. -/
def runnerAt (p : Platform) (ta : Ta) : Nat → Option (Runner AgentUser Unit)
  | 0 => suitRunnerInit p.wild ta.session.suitContext .install ta.session.suitRunner.effects.user
  | passes + 1 => (runnerAt p ta passes).bind fun runner =>
      (runBody (suitCallbacks p.beyond p.installTa) p.frames runner).getLeft?

theorem runnerAt_reaches {ta : Ta} (state : ta.session.state = .initRunner) {passes : Nat}
    {runner : Runner AgentUser Unit} (ran : runnerAt p ta passes = some runner) :
    QueryReaches p ta runner := by
  induction passes generalizing runner with
  | zero => exact .starts state ran
  | succ passes ih =>
    obtain ⟨before, here, step⟩ := Option.bind_eq_some_iff.mp ran
    exact .goes (ih here) (Sum.getLeft?_eq_some_iff.mp step)

/-- The fetch that a pass of the loop makes: the object and the URI. -/
def fetchAt (p : Platform) (ta : Ta) (passes : Nat) : Option (Object × Bytes) :=
  (runnerAt p ta passes).bind fun before => (runnerAt p ta (passes + 1)).bind fun after =>
    match after.effects.calls.getLast? with
    | none => none
    | some call =>
      if after.effects.calls = before.effects.calls ++ [call] ∧
          call.command = Command.directiveFetch then
        (suitRunnerGetParameter before.effects.bindings call.target parameterUri).bind
          fun uriCbor => (readTstr (toplevel (some uriCbor))).1.map fun uri => (call.object, uri)
      else none

theorem fetchAt_executes {ta : Ta} (state : ta.session.state = .initRunner) {passes : Nat}
    {object : Object} {uri : Bytes} (found : fetchAt p ta passes = some (object, uri)) :
    ∃ before after, QueryReaches p ta before ∧
      runBody (suitCallbacks p.beyond p.installTa) p.frames before = .inl after ∧
      ExecutesFetch before after object uri := by
  obtain ⟨before, here, found⟩ := Option.bind_eq_some_iff.mp found
  obtain ⟨after, there, found⟩ := Option.bind_eq_some_iff.mp found
  obtain ⟨before', same, step⟩ := Option.bind_eq_some_iff.mp there
  cases here.symm.trans same
  refine ⟨before, after, runnerAt_reaches state here, Sum.getLeft?_eq_some_iff.mp step, ?_⟩
  split at found
  · cases found
  · rename_i call last
    split at found
    · rename_i made
      obtain ⟨uriCbor, parameter, found⟩ := Option.bind_eq_some_iff.mp found
      obtain ⟨text, read, pair⟩ := Option.map_eq_some_iff.mp found
      cases pair
      obtain ⟨target, object, command, param⟩ := call
      obtain ⟨history, rfl⟩ := made
      exact ⟨target, param, uriCbor, history, parameter, read⟩
    · cases found

/-- The session of README.md up to an Update. -/
def updateCommands (update : Bytes) : List Command :=
  [query, .brokerTaskDone readmeQueryRequest, query, .brokerTaskDone update]

/-- A session whose first query after the Update fetches the URI. -/
def Fetches (update : Bytes) (object : Object) (uri : Bytes) (ta : Ta)
    (before after : Runner AgentUser Unit) : Prop :=
  Run (Step readmePlatform) (Ta.start blankMemory) (updateCommands update) ta ∧
    ta.session.onGoingTask = false ∧ QueryReaches readmePlatform ta before ∧
    runBody (suitCallbacks readmePlatform.beyond readmePlatform.installTa) readmePlatform.frames
      before = .inl after ∧ ExecutesFetch before after object uri

theorem update_fetches {update uri : Bytes} {object : Object}
    (reached : (exec (execStep readmePlatform 0 fun _ _ => True) (Ta.start blankMemory)
      (updateCommands update)).map (fun ta =>
        (ta.session.state, ta.session.onGoingTask, fetchAt readmePlatform ta 13)) =
          some (.initRunner, false, some (object, uri))) :
    ∃ ta before after, Fetches update object uri ta before after := by
  obtain ⟨ta, executed, last⟩ := Option.map_eq_some_iff.mp reached
  obtain ⟨state, idle, found⟩ : ta.session.state = .initRunner ∧
      ta.session.onGoingTask = false ∧ fetchAt readmePlatform ta 13 = some (object, uri) := by
    simpa only [Prod.mk.injEq] using last
  obtain ⟨before, after, reaches, step, fetch⟩ := fetchAt_executes state found
  exact ⟨ta, before, after, (exec_run executed).of_guarded, idle, reaches, step, fetch⟩

/-- The URI and the component of README.md. -/
def readmeUri : Bytes := slice readmeUpdate 283 348

def readmeComponent : Object := .component 0 ⟨some (slice readmeUpdate 143 185)⟩

theorem getTask_right_readme :
    ∃ ta before after, Fetches readmeUpdate readmeComponent readmeUri ta before after ∧
      ∃ fuel, ∀ more, fuel ≤ more →
        (GetTaskRight readmeUri (fetching ta after) (queryNextBrokerTask readmePlatform more ta) ↔
          readmeUri.length < teepMaxUriLen) := by
  obtain ⟨ta, before, after, fetches⟩ :=
    @update_fetches readmeUpdate readmeUri readmeComponent (by decide +kernel)
  obtain ⟨run, idle, reaches, step, fetch⟩ := fetches
  exact ⟨ta, before, after, ⟨run, idle, reaches, step, fetch⟩,
    getTask_right_iff idle reaches step fetch (by unfold Remote; decide +kernel)⟩

/-- A URI that fills the field, and the Update of README.md with it. -/
def fillingUri : Bytes := List.replicate teepMaxUriLen 0x61

def fillingUpdate : Bytes :=
  readmeUpdate.take 5 ++ [0x59, 0x03, 0x1F] ++ slice readmeUpdate 8 129 ++
    [0x03, 0x59, 0x02, 0xA2] ++ slice readmeUpdate 132 274 ++
    [0x09, 0x59, 0x02, 0x0B, 0x86, 0x13, 0xA1, 0x15, 0x79, 0x02, 0x00] ++
    fillingUri ++ readmeUpdate.drop 348

theorem filling_uri_not_ended :
    ∃ ta before after, Fetches fillingUpdate readmeComponent fillingUri ta before after ∧
      Remote fillingUri ∧ ∃ fuel, ∀ more, fuel ≤ more →
        ¬ GetTaskRight fillingUri (fetching ta after)
          (queryNextBrokerTask readmePlatform more ta) := by
  obtain ⟨ta, before, after, fetches⟩ :=
    @update_fetches fillingUpdate fillingUri readmeComponent (by decide +kernel)
  have remote : Remote fillingUri := by
    unfold Remote
    decide +kernel
  refine ⟨ta, before, after, fetches, remote, ?_⟩
  obtain ⟨-, idle, reaches, step, fetch⟩ := fetches
  obtain ⟨fine, suspended, waits⟩ := fetch_suspends step fetch remote
  obtain ⟨fuel, comes⟩ := query_fetching idle (.goes reaches step) fine suspended
  refine ⟨fuel, fun more le => ?_⟩
  rw [comes more le, @copy_right_iff readmePlatform (fetching ta after) _ rfl idle waits more]
  decide +kernel

end TeepDevice.Agent
