import TeepDevice.Agent.Session
import TeepDevice.Suit.Naturality
import TeepDevice.Suit.Outcome

/-! The fetches of a manifest in the order in which it executes them, and the
stores that they come to when each remote one gets its download. -/
namespace TeepDevice.Agent
open Tcbor Suit

inductive Source where
  | member (image : Bytes)
  | remote (uri : Bytes)
  deriving DecidableEq, Repr

/-- A fetch that was executed, with the name that its component is stored under. -/
structure Fetch where
  filename : Bytes
  source : Source
  deriving DecidableEq, Repr

/-- Callbacks that note the fetches and store nothing. -/
def planCallbacks (beyond : Beyond) : Callbacks (List Fetch) Unit where
  store plan target body :=
    match target with
    | .component _ component =>
      match parseComponentId beyond component ⟨[], []⟩ with
      | (false, _) => ⟨false, plan, none⟩
      | (true, path) => ⟨true, plan ++ [⟨path.filename, .member (body.getD [])⟩], none⟩
    | .dependency _ => ⟨true, plan, none⟩
  fetchAndStore plan target uri :=
    match target with
    | .component _ component =>
      match parseComponentId beyond component ⟨[], []⟩ with
      | (false, _) => ⟨false, plan, none⟩
      | (true, path) => ⟨true, plan ++ [⟨path.filename, .remote uri⟩], some ()⟩
    | .dependency _ => ⟨false, plan, none⟩
  onResume _ := none

/-- The agent's callbacks with the fetches noted beside. -/
def tracedCallbacks (beyond : Beyond) (installTa : InstallTa) :
    Callbacks (AgentUser × List Fetch) Unit where
  store user target body :=
    let reply := store beyond installTa user.1 target body
    ⟨reply.ok, (reply.user, ((planCallbacks beyond).store user.2 target body).user), reply.suspend⟩
  fetchAndStore user target uri :=
    let reply := fetchAndStore beyond user.1 target uri
    ⟨reply.ok, (reply.user, ((planCallbacks beyond).fetchAndStore user.2 target uri).user),
      reply.suspend⟩
  onResume _ := none

/-- What `parse_component_id` is given to write to makes no difference. -/
theorem parseComponentId_dst (beyond : Beyond) (component : Component) (dst dst' : ComponentPath) :
    (∃ path path', parseComponentId beyond component dst = (false, path) ∧
      parseComponentId beyond component dst' = (false, path')) ∨
    ∃ path, parseComponentId beyond component dst = (true, path) ∧
      parseComponentId beyond component dst' = (true, path) := by
  unfold parseComponentId
  repeat' split
  all_goals
    first
    | exact .inl ⟨_, _, rfl, rfl⟩
    | skip
  -- only the closing of the array is left
  cases (close _ _).1 with
  | true => exact .inr ⟨_, rfl, rfl⟩
  | false => exact .inl ⟨_, _, rfl, rfl⟩

theorem tracedCallbacks_fst (beyond : Beyond) (installTa : InstallTa) :
    MapsTo Prod.fst (tracedCallbacks beyond installTa) (suitCallbacks beyond installTa) :=
  ⟨fun _ _ _ => rfl, fun _ _ _ => rfl, fun _ => rfl⟩

theorem tracedCallbacks_snd (beyond : Beyond) (installTa : InstallTa) :
    MapsTo Prod.snd (tracedCallbacks beyond installTa) (planCallbacks beyond) := by
  constructor
  · intro user object body
    cases object with
    | component index component =>
      rcases parseComponentId_dst beyond component ⟨[], []⟩ ⟨[], []⟩ with
        ⟨path, -, parse, -⟩ | ⟨path, parse, -⟩
      · simp [tracedCallbacks, planCallbacks, store, parse, Reply.map]
      · simp [tracedCallbacks, planCallbacks, store, parse, Reply.map]
    | dependency index => rfl
  · intro user object uri
    cases object with
    | component index component =>
      rcases parseComponentId_dst beyond component ⟨[], []⟩ user.1.fetchComponentPath with
        ⟨path, path', parse, parse'⟩ | ⟨path, parse, parse'⟩
      · simp [tracedCallbacks, planCallbacks, fetchAndStore, parse, parse', Reply.map]
      · simp [tracedCallbacks, planCallbacks, fetchAndStore, parse, parse', Reply.map]
    | dependency index => rfl
  · exact fun _ => rfl

section Landed

/-- The URIs of the remote fetches. -/
def remotes (fetches : List Fetch) : List Bytes :=
  fetches.filterMap fun fetch =>
    match fetch.source with
    | .member _ => none
    | .remote uri => some uri

/-- What is stored under which name, when the remote fetches get these downloads
one after the other. The first one without a download holds up the rest. -/
def landed : List Fetch → List Bytes → List (Bytes × Bytes)
  | [], _ => []
  | ⟨filename, .member image⟩ :: rest, downloads => (filename, image) :: landed rest downloads
  | ⟨filename, .remote _⟩ :: rest, image :: downloads => (filename, image) :: landed rest downloads
  | ⟨_, .remote _⟩ :: _, [] => []

@[simp] theorem remotes_append (fetches more : List Fetch) :
    remotes (fetches ++ more) = remotes fetches ++ remotes more := List.filterMap_append

@[simp] theorem remotes_member (filename image : Bytes) :
    remotes [⟨filename, .member image⟩] = [] := rfl

@[simp] theorem remotes_remote (filename uri : Bytes) :
    remotes [⟨filename, .remote uri⟩] = [uri] := rfl

theorem landed_append {fetches : List Fetch} {downloads : List Bytes}
    (count : (remotes fetches).length = downloads.length) (more : List Fetch)
    (later : List Bytes) :
    landed (fetches ++ more) (downloads ++ later) =
      landed fetches downloads ++ landed more later := by
  induction fetches generalizing downloads with
  | nil =>
    obtain rfl : downloads = [] := List.length_eq_zero_iff.mp count.symm
    rfl
  | cons fetch rest ih =>
    obtain ⟨filename, source⟩ := fetch
    cases source with
    | member image => simp [landed, ih count]
    | remote uri =>
      cases downloads with
      | nil => cases count
      | cons image downloads =>
        have fewer : (remotes rest).length = downloads.length := by
          simpa [remotes] using count
        simp [landed, ih fewer]

/-- The URI of a fetch in the array of a task. -/
def taskUri (uri : Bytes) : Bytes := uri ++ List.replicate (teepMaxUriLen - uri.length) 0

def Stored.content (stored : Stored) : Bytes × Bytes := (stored.filename, stored.image)

/-- All of these fetches are stored, the remote ones with what the GETs of the
log, each under the URI of its fetch, were completed with. -/
structure Settled (stores : List Stored) (fetches : List Fetch) (log : List (Bytes × Bytes)) :
    Prop where
  stored : stores.map Stored.content = landed fetches (log.map Prod.snd)
  uris : (remotes fetches).map taskUri = log.map Prod.fst

variable {stores : List Stored} {fetches : List Fetch} {log : List (Bytes × Bytes)}

theorem Settled.count (settled : Settled stores fetches log) :
    (remotes fetches).length = (log.map Prod.snd).length := by
  simpa using congrArg List.length settled.uris

theorem Settled.member (settled : Settled stores fetches log) (filename image : Bytes) (ok : Bool) :
    Settled (stores ++ [⟨filename, image, ok⟩]) (fetches ++ [⟨filename, .member image⟩]) log := by
  constructor
  · have last := landed_append settled.count [⟨filename, .member image⟩] []
    rw [List.append_nil] at last
    rw [List.map_append, settled.stored, last]
    rfl
  · simpa using settled.uris

theorem Settled.remote (settled : Settled stores fetches log) (filename image uri : Bytes)
    (ok : Bool) :
    Settled (stores ++ [⟨filename, image, ok⟩]) (fetches ++ [⟨filename, .remote uri⟩])
      (log ++ [(taskUri uri, image)]) := by
  constructor
  · rw [List.map_append, List.map_append, settled.stored, List.map_singleton,
      landed_append settled.count]
    rfl
  · simpa using settled.uris

/-- The last fetch waits for its download. -/
theorem Settled.waiting (settled : Settled stores fetches log) (filename uri : Bytes) :
    stores.map Stored.content =
      landed (fetches ++ [⟨filename, .remote uri⟩]) (log.map Prod.snd) := by
  have last := landed_append settled.count [⟨filename, .remote uri⟩] []
  rw [List.append_nil] at last
  rw [settled.stored, last]
  simp [landed]

end Landed

section Running
variable {beyond : Beyond} {installTa : InstallTa} {log : List (Bytes × Bytes)}

/-- All fetches so far are settled, but for the one a suspended runner waits for. -/
inductive Landing (log : List (Bytes × Bytes)) (fx : Effects (AgentUser × List Fetch) Unit) :
    Prop where
  | settled (running : fx.suspended = false) (settled : Settled fx.user.1.stores fx.user.2 log)
  | pending {before : List Fetch} {uri : Bytes} (suspended : fx.suspended = true)
      (noted : fx.user.2 = before ++ [⟨fx.user.1.fetchComponentPath.filename, .remote uri⟩])
      (fetch : fx.user.1.fetchUri = some uri) (settled : Settled fx.user.1.stores before log)

/-- What a handler leaves; it does not suspend the runner and fail. -/
def Lands (log : List (Bytes × Bytes)) (result : Bool × Effects (AgentUser × List Fetch) Unit) :
    Prop :=
  Landing log result.2 ∧ (result.1 = false → result.2.suspended = false)

variable {fx : Effects (AgentUser × List Fetch) Unit} (running : fx.suspended = false)
  (settled : Settled fx.user.1.stores fx.user.2 log)
include running settled

/-- A handler that leaves the memory behind `user` alone. -/
theorem Lands.of_same {result : Bool × Effects (AgentUser × List Fetch) Unit}
    (user : result.2.user = fx.user) (suspended : result.2.suspended = fx.suspended) :
    Lands log result := by
  have running' : result.2.suspended = false := suspended.trans running
  refine ⟨.settled running' ?_, fun _ => running'⟩
  rw [user]
  exact settled

theorem store_lands (object : Object) (body : Range) :
    Lands log (applyReply ((tracedCallbacks beyond installTa).store fx.user object body) fx) := by
  cases object with
  | dependency index => exact .of_same running settled rfl rfl
  | component index component =>
    rcases parse : parseComponentId beyond component ⟨[], []⟩ with ⟨_ | _, path⟩
    · simp only [tracedCallbacks, planCallbacks, store, parse, applyReply]
      exact .of_same running settled rfl rfl
    · simp only [tracedCallbacks, planCallbacks, store, parse, applyReply, storeComponent]
      exact ⟨.settled running (settled.member _ _ _), fun _ => running⟩

theorem fetchAndStore_lands (object : Object) (uri : Bytes) :
    Lands log
      (applyReply ((tracedCallbacks beyond installTa).fetchAndStore fx.user object uri) fx) := by
  cases object with
  | dependency index => exact .of_same running settled rfl rfl
  | component index component =>
    rcases parseComponentId_dst beyond component fx.user.1.fetchComponentPath ⟨[], []⟩ with
      ⟨path, path', parse, parse'⟩ | ⟨path, parse, parse'⟩
    · simp only [tracedCallbacks, planCallbacks, fetchAndStore, parse, parse', applyReply]
      exact ⟨.settled running settled, fun _ => running⟩
    · simp only [tracedCallbacks, planCallbacks, fetchAndStore, parse, parse', applyReply]
      exact ⟨.pending rfl rfl rfl settled, fun running => by cases running⟩

theorem directiveFetch_lands (manifest : Manifest) (target : Nat) (object : Object)
    (command : Nat) (param : Bytes) :
    Lands log (directiveFetch (tracedCallbacks beyond installTa) manifest target object command
      param fx) := by
  have same : Lands log (false, fx) := .of_same running settled rfl rfl
  unfold directiveFetch
  repeat' split
  all_goals
    first
    | exact same
    | exact store_lands running settled _ _
    | exact fetchAndStore_lands running settled _ _

omit running settled in
theorem directiveSetParameters_keeps {U R : Type} (manifest : Manifest) (target : Nat)
    (object : Object) (command : Nat) (param : Bytes) (fx : Effects U R) :
    ∃ bindings, (directiveSetParameters manifest target object command param fx).2 =
      { fx with bindings := bindings } := by
  unfold directiveSetParameters
  dsimp only
  split
  · exact ⟨_, rfl⟩
  · split
    · exact ⟨_, rfl⟩
    · exact ⟨_, rfl⟩

theorem call_lands {command : Nat} {handler : Handler (AgentUser × List Fetch) Unit}
    (found : findHandler (tracedCallbacks beyond installTa) command false = some handler)
    (manifest : Manifest) (target : Nat) (object : Object) (param : Bytes) :
    Lands log (callHandler handler manifest target object command param fx) := by
  obtain ⟨h, member, -, rfl⟩ := findHandler_mem found
  have parameters : Lands log (callHandler directiveSetParameters manifest target object command
      param fx) := by
    obtain ⟨bindings, same⟩ := directiveSetParameters_keeps manifest target object command param
      { fx with calls := fx.calls ++ [⟨target, object, command, param⟩] }
    apply Lands.of_same running settled
    · simp [callHandler, same]
    · simp [callHandler, same]
  simp only [commandHandlers, List.mem_cons, List.not_mem_nil, or_false] at member
  rcases member with rfl | rfl | rfl | rfl | rfl | rfl | rfl
  · exact .of_same running settled rfl rfl
  · exact .of_same running settled rfl rfl
  · exact .of_same running settled rfl rfl
  · exact parameters
  · exact parameters
  · exact .of_same running settled rfl rfl
  · exact directiveFetch_lands (by exact running) (by exact settled) manifest target object command
      param

omit running settled in
theorem suitRunnerRun_lands {frames : Frames} {fuel : Nat}
    {before after : Runner (AgentUser × List Fetch) Unit}
    (ran : suitRunnerRun (tracedCallbacks beyond installTa) frames fuel before = some after)
    (landing : Landing log before.effects)
    (error : before.hasError = true → before.effects.suspended = false) :
    Landing log after.effects ∧ (after.hasError = true → after.effects.suspended = false) := by
  refine suitRunnerRun_rule (fun error fx => Landing log fx ∧ (error = true →
    fx.suspended = false)) ?_ ?_ ran ⟨landing, error⟩
  · intro fx fx' command handler manifest target object param ok running found call holds
    cases holds.1 with
    | settled _ settled =>
      have lands := call_lands running settled found manifest target object param
      rw [call] at lands
      exact ⟨lands.1, by simpa using lands.2⟩
    | pending suspended =>
      rw [running] at suspended
      cases suspended
  · exact fun fx running holds => ⟨holds.1, fun _ => running⟩

end Running

section Following
variable {p : Platform}

/-- The fetches noted when a manifest was interpreted, to its end or its failure. -/
def planOf : Except (Effects (List Fetch) Unit) (Meaning (List Fetch) Unit) → List Fetch
  | .error fx => fx.user
  | .ok meaning => meaning.effects.user

/-- What the install sequence of the root manifest comes to. Where no sequence
can be opened the runner has nothing to execute. -/
def planResult (p : Platform) (context : SuitContext) :
    Except (Effects (List Fetch) Unit) (Meaning (List Fetch) Unit) :=
  match (suitContextGetRootManifest context).bind fun manifest =>
      (openSequences p.wild .install manifest).map fun pair => (manifest, pair) with
  | none => .ok ⟨.components cborTrue, ⟨[], false, none, [], []⟩⟩
  | some (manifest, common, target) =>
    interpret (planCallbacks p.beyond) p.frames manifest common target []

/-- The fetches that this sequence executes. -/
def fetchesOf (p : Platform) (context : SuitContext) : List Fetch := planOf (planResult p context)

/-- A runner on the way to this result. -/
def Follows (p : Platform) (context : SuitContext) (runner : Runner (List Fetch) Unit) : Prop :=
  ∃ manifest, Simulates (planCallbacks p.beyond) p.frames manifest (planResult p context) runner

theorem suitRunnerInit_follows {context : SuitContext} {runner : Runner (List Fetch) Unit}
    (started : suitRunnerInit p.wild context .install [] = some runner) :
    Follows p context runner := by
  unfold Follows planResult
  cases root : suitContextGetRootManifest context with
  | none =>
    simp only [suitRunnerInit, root] at started
    cases started
  | some manifest =>
    refine ⟨manifest, ?_⟩
    dsimp only [Option.bind_some]
    cases opened : openSequences p.wild .install manifest with
    | none =>
      rw [suitRunnerInit_unopened root opened] at started
      cases started
      exact .exit (.components cborTrue) ⟨rfl, ⟨rfl, rfl⟩, fun _ => rfl⟩ rfl rfl rfl
    | some pair =>
      obtain ⟨common, target⟩ := pair
      rw [suitRunnerInit_opened root opened] at started
      cases started
      exact started_simulates common target

variable {context : SuitContext}

theorem Follows.run {fuel : Nat} {before after : Runner (List Fetch) Unit}
    (follows : Follows p context before)
    (ran : suitRunnerRun (planCallbacks p.beyond) p.frames fuel before = some after) :
    Follows p context after ∧ AtRest after := by
  obtain ⟨manifest, sim⟩ := follows
  obtain ⟨sim', rest⟩ := suitRunnerRun_simulates sim ran
  exact ⟨⟨manifest, sim'⟩, rest⟩

theorem Follows.resume {runner : Runner (List Fetch) Unit} (follows : Follows p context runner) :
    Follows p context (suitRunnerResume (planCallbacks p.beyond) runner) := by
  obtain ⟨manifest, sim⟩ := follows
  exact ⟨manifest, suitRunnerResume_simulates sim⟩

/-- A finished runner executed the whole sequence. -/
theorem Follows.ok {runner : Runner (List Fetch) Unit} (follows : Follows p context runner)
    (rest : AtRest runner) (finished : suitRunnerFinished runner = true) :
    ∃ meaning, planResult p context = .ok meaning ∧ meaning.effects.user = runner.effects.user := by
  obtain ⟨manifest, sim⟩ := follows
  obtain ⟨meaning, ok, effects⟩ := (outcome_of_rest sim rest).1 finished
  refine ⟨meaning, ok, ?_⟩
  rw [effects]
  rfl

/-- A runner that came to rest and waits for nothing has noted all of them. -/
theorem Follows.complete {runner : Runner (List Fetch) Unit} (follows : Follows p context runner)
    (rest : AtRest runner) (ended : suitRunnerSuspended runner = false) :
    runner.effects.user = fetchesOf p context := by
  unfold fetchesOf
  cases error : runner.hasError with
  | true =>
    obtain ⟨manifest, sim⟩ := follows
    rw [(outcome_of_rest sim rest).2 error]
    rfl
  | false =>
    have running : runner.effects.suspended = false := by
      simpa [suitRunnerSuspended, error] using ended
    obtain ⟨meaning, ok, noted⟩ := follows.ok rest (by simp [suitRunnerFinished, error, running])
    rw [ok]
    exact noted.symm

theorem planCallbacks_hooksEnd (beyond : Beyond) : HooksEnd (planCallbacks beyond) := by
  constructor
  intro r
  constructor
  intro r' next
  cases next

theorem applyReply_user {U R : Type} (reply : Reply U R) (fx : Effects U R) :
    (applyReply reply fx).2.user = reply.user := by
  unfold applyReply
  split
  · rfl
  · rfl

theorem planCallbacks_notes (beyond : Beyond) (plan : List Fetch) (target : Object) :
    (∀ body, plan <+: ((planCallbacks beyond).store plan target body).user) ∧
      ∀ uri, plan <+: ((planCallbacks beyond).fetchAndStore plan target uri).user := by
  cases target with
  | dependency index => exact ⟨fun _ => List.prefix_refl _, fun _ => List.prefix_refl _⟩
  | component index component =>
    rcases parse : parseComponentId beyond component ⟨[], []⟩ with ⟨_ | _, path⟩
    · simp [planCallbacks, parse]
    · simp [planCallbacks, parse]

theorem directiveFetch_notes (beyond : Beyond) (manifest : Manifest) (target : Nat)
    (object : Object) (command : Nat) (param : Bytes) (fx : Effects (List Fetch) Unit) :
    fx.user <+: (directiveFetch (planCallbacks beyond) manifest target object command param
      fx).2.user := by
  obtain ⟨stores, fetches⟩ := planCallbacks_notes beyond fx.user object
  unfold directiveFetch
  repeat' split
  all_goals
    first
    | exact List.prefix_refl _
    | exact applyReply_user _ fx ▸ stores _
    | exact applyReply_user _ fx ▸ fetches _

/-- Nothing that was noted is taken back. -/
theorem touches_notes {beyond : Beyond} {fx fx' : Effects (List Fetch) Unit}
    (touches : Touches (planCallbacks beyond) fx fx') : fx.user <+: fx'.user := by
  rcases touches with rfl | ⟨command, handler, manifest, target, object, param, found, rfl⟩
  · exact List.prefix_refl _
  · obtain ⟨h, member, -, rfl⟩ := findHandler_mem found
    have parameters : fx.user <+: (callHandler directiveSetParameters manifest target object command
        param fx).2.user := by
      obtain ⟨bindings, same⟩ := directiveSetParameters_keeps manifest target object command param
        { fx with calls := fx.calls ++ [⟨target, object, command, param⟩] }
      simp [callHandler, same]
    simp only [commandHandlers, List.mem_cons, List.not_mem_nil, or_false] at member
    rcases member with rfl | rfl | rfl | rfl | rfl | rfl | rfl
    · exact List.prefix_refl _
    · exact List.prefix_refl _
    · exact List.prefix_refl _
    · exact parameters
    · exact parameters
    · exact List.prefix_refl _
    · exact directiveFetch_notes beyond manifest target object command param
        { fx with calls := fx.calls ++ [⟨target, object, command, param⟩] }

theorem turns_notes {frames : Frames} {beyond : Beyond} {before after : Runner (List Fetch) Unit}
    (turns : Turns (planCallbacks beyond) frames before after) :
    before.effects.user <+: after.effects.user := by
  induction turns with
  | refl => exact List.prefix_refl _
  | @tail between after _ turn ih =>
    refine ih.trans ?_
    cases turn with
    | run ran =>
      exact passes_effects (fun fx => between.effects.user <+: fx.user)
        (fun _ _ touches before => before.trans (touches_notes touches))
        (fun _ _ _ before => before) (suitRunnerRun_passes ran) (List.prefix_refl _)
    | resume =>
      obtain ⟨suspended, onResume, same⟩ :=
        suitRunnerResume_effects (planCallbacks beyond) between
      simp [same]

/-- What is noted so far is a first part of the fetches. -/
theorem Follows.noted {runner : Runner (List Fetch) Unit} (follows : Follows p context runner) :
    runner.effects.user <+: fetchesOf p context := by
  have hooks := planCallbacks_hooksEnd p.beyond
  -- a way on to the end, where all are noted
  have onward {runner : Runner (List Fetch) Unit} (follows : Follows p context runner)
      (fine : runner.hasError = false) (running : runner.effects.suspended = false) :
      runner.effects.user <+: fetchesOf p context := by
    obtain ⟨manifest, sim⟩ := follows
    obtain ⟨last, ⟨before, fuel, turns, ran⟩, ended⟩ := turns_end hooks sim fine running
    obtain ⟨sim', rest⟩ := comesToRest_simulates sim ⟨before, fuel, turns, ran⟩
    have all := Follows.complete ⟨manifest, sim'⟩ rest ended
    rw [← all]
    exact turns_notes (turns.tail (.run ran))
  cases error : runner.hasError with
  | true =>
    have all := follows.complete (.inl error) (by simp [suitRunnerSuspended, error])
    simp [all]
  | false =>
    cases suspended : runner.effects.suspended with
    | false => exact onward follows error suspended
    | true =>
      have stopped : suitRunnerSuspended runner = true := by
        simp [suitRunnerSuspended, error, suspended]
      obtain ⟨fx, running, turns⟩ := resumes_end p.frames hooks stopped
      obtain ⟨manifest, sim⟩ := follows
      have resumed : Follows p context { runner with effects := fx } :=
        ⟨manifest, turns_simulate sim turns⟩
      exact (turns_notes turns).trans (onward resumed error running)

end Following

end TeepDevice.Agent
