import TeepDevice.Agent.Authenticated

/-! Tokens: a session keeps the token of the QueryRequest it accepted and puts it
into every message, whatever the token of the Update it reports on. -/
namespace TeepDevice.Agent
open Tcbor Suit Teep Transition

variable {p : Platform}

section Messages

theorem tokensOf_append (first second : List EncodeOp) :
    tokensOf (first ++ second) = tokensOf first ++ tokensOf second :=
  List.filterMap_append

theorem tokensOf_addToken (enc : MessageEncoder) (token : Option Bytes) :
    tokensOf (addToken enc token) = tokensOf enc ++ token.toList := by
  cases token with
  | none => exact (List.append_nil _).symm
  | some token => exact tokensOf_append enc _

/-- The lists of a QueryResponse hold no token. -/
theorem tokensOf_foldl {requests : List ManifestRequest} {use : ManifestRequest → Bool}
    {put : MessageEncoder → Bytes → MessageEncoder}
    (silent : ∀ enc ta, tokensOf (put enc ta) = tokensOf enc) (enc : MessageEncoder) :
    tokensOf (requests.foldl (fun enc m => if use m then put enc m.id else enc) enc) =
      tokensOf enc := by
  induction requests generalizing enc with
  | nil => rfl
  | cons m rest ih =>
    rw [List.foldl_cons, ih]
    split
    · exact silent enc m.id
    · rfl

theorem tokensOf_silent {more : List EncodeOp} (none : tokensOf more = [])
    (enc : MessageEncoder) : tokensOf (enc ++ more) = tokensOf enc := by
  rw [tokensOf_append, none, List.append_nil]

/-- Every message carries the token of the session and no other. -/
theorem tokensOf_messageOps (session : Session) (type : MessageType) :
    tokensOf (messageOps session type) = session.token.toList := by
  have header (type : MessageType) :
      tokensOf (addToken (openOptions (addHeader messageEncoderInit type)) session.token) =
        session.token.toList := by
    rw [tokensOf_addToken]
    rfl
  have response : tokensOf (queryResponseOps session) = session.token.toList := by
    unfold queryResponseOps messageEncoderFinish closeOptions
    rw [tokensOf_silent rfl, tokensOf_silent rfl]
    dsimp only
    split
    · exact header _
    · split
      · unfold closeUnneededTcList closeRequestedTcList closeTcList openUnneededTcList
          openRequestedTcList openTcList
        rw [tokensOf_silent rfl, tokensOf_foldl, tokensOf_silent rfl, tokensOf_silent rfl,
          tokensOf_foldl, tokensOf_silent rfl, tokensOf_silent rfl, tokensOf_foldl,
          tokensOf_silent rfl]
        · exact header _
        · exact fun enc ta => tokensOf_silent rfl enc
        · exact fun enc ta => tokensOf_silent rfl enc
        · exact fun enc ta => tokensOf_silent rfl enc
      · exact header _
  have success : tokensOf (successOps session) = session.token.toList := by
    unfold successOps messageEncoderFinish closeOptions
    rw [tokensOf_silent rfl, tokensOf_silent rfl]
    exact header _
  have error : tokensOf (errorOps session) = session.token.toList := by
    unfold errorOps messageEncoderFinish addErrCode closeOptions
    rw [tokensOf_silent rfl, tokensOf_silent rfl, tokensOf_silent rfl]
    exact header _
  cases type with
  | queryResponse => exact response
  | success => exact success
  | queryRequest => exact error
  | update => exact error
  | error => exact error

end Messages

section Histories

/-- The last reply that was parsed, with what it parsed as. -/
def lastReceived : List Event → Option (Option Message) :=
  latest fun event =>
    match event with
    | .received message => some message
    | .posted _ _ _ => none

/-- The last QueryRequest. -/
def lastRequest : List Event → Option Message :=
  latest fun event =>
    match event with
    | .received (some m) => if m.type = .queryRequest then some m else none
    | _ => none

/-- The message was built and has exactly this token. -/
def Carries (token : Option Bytes) (ops : List EncodeOp) (length : Option Nat) : Prop :=
  length.isSome = true ∧ tokensOf ops = token.toList

/-- A QueryResponse answers the last QueryRequest. A Success reports on the last
reply, an Update; an Error reports on it if it was one. -/
def Correlated (before : List Event) : Event → Prop
  | .received _ => True
  | .posted .queryResponse ops length =>
    ∃ request, lastRequest before = some request ∧ Carries request.token ops length
  | .posted .success ops length =>
    ∃ m, lastReceived before = some (some m) ∧ m.type = .update ∧ Carries m.token ops length
  | .posted _ ops length =>
    ∀ m, lastReceived before = some (some m) → m.type = .update → Carries m.token ops length

@[simp] theorem lastReceived_received (history : List Event) (message : Option Message) :
    lastReceived (history ++ [.received message]) = some message := by
  rw [lastReceived, latest_concat]
  rfl

@[simp] theorem lastReceived_posted (history : List Event) (type : MessageType)
    (ops : List EncodeOp) (length : Option Nat) :
    lastReceived (history ++ [.posted type ops length]) = lastReceived history := by
  rw [lastReceived, latest_concat]
  rfl

theorem lastRequest_request (history : List Event) {m : Message} (type : m.type = .queryRequest) :
    lastRequest (history ++ [.received (some m)]) = some m := by
  rw [lastRequest, latest_concat]
  simp only [type, if_true, Option.some_or]

theorem lastRequest_update (history : List Event) {m : Message} (type : m.type = .update) :
    lastRequest (history ++ [.received (some m)]) = lastRequest history := by
  rw [lastRequest, latest_concat]
  simp only [type, reduceCtorEq, if_false, Option.none_or]

@[simp] theorem lastRequest_posted (history : List Event) (type : MessageType)
    (ops : List EncodeOp) (length : Option Nat) :
    lastRequest (history ++ [.posted type ops length]) = lastRequest history := by
  rw [lastRequest, latest_concat]
  rfl

end Histories

section Runs

/-- States in which the last reply is the Update being carried out. -/
def AgentState.reports : AgentState → Bool
  | .initRunner | .runSuitRunner | .fetchComponent | .postingSuccess => true
  | _ => false

/-- The message can be built in the buffer of the task. -/
def Fits (p : Platform) (session : Session) (type : MessageType) : Prop :=
  (p.qcbor.encode (messageOps session type) session.taskBuffer.postData).2.isSome = true

instance (p : Platform) (session : Session) (type : MessageType) :
    Decidable (Fits p session type) := inferInstanceAs (Decidable (_ = true))

/-- Replies and queries after which no message can have a wrong token: an empty
token is kept as it came, an Update that is refused or stored has the token of
the session, and messages can be built. -/
def TokensAgree (p : Platform) (ta : Ta) : Command → Prop
  | .brokerTaskDone buffer =>
    ta.session.onGoingTask = true → ta.session.taskBuffer.command = .httpPost → buffer ≠ [] →
      ta.session.state ≠ .postingError → ∀ m ∈ parsed p ta buffer,
        (m.type = .queryRequest → ta.session.state = .postingInitialRequest →
          m.token.getD [] = [] →
            (p.malloc (received p ta buffer).allocations 0 = true ↔ m.token.isSome = true)) ∧
        (m.type = .update →
          (ta.session.state = .postingQueryResponse → EnvelopesStorable p 0
            (received p ta buffer).allocations (m.manifestList.getD [])) →
          m.token = ta.session.token)
  | .queryNextBrokerTask _ _ =>
    ta.session.onGoingTask = false → ∀ type ∈ ta.session.state.mayPost, Fits p ta.session type
  | _ => True

instance (p : Platform) (ta : Ta) : (command : Command) → Decidable (TokensAgree p ta command)
  | .setDevOption _ _ => inferInstanceAs (Decidable True)
  | .brokerTaskDone buffer => inferInstanceAs (Decidable (ta.session.onGoingTask = true →
      ta.session.taskBuffer.command = .httpPost → buffer ≠ [] →
      ta.session.state ≠ .postingError → ∀ m ∈ parsed p ta buffer,
        (m.type = .queryRequest → ta.session.state = .postingInitialRequest →
          m.token.getD [] = [] →
            (p.malloc (received p ta buffer).allocations 0 = true ↔ m.token.isSome = true)) ∧
        (m.type = .update →
          (ta.session.state = .postingQueryResponse → EnvelopesStorable p 0
            (received p ta buffer).allocations (m.manifestList.getD [])) →
          m.token = ta.session.token)))
  | .queryNextBrokerTask _ _ => inferInstanceAs (Decidable (ta.session.onGoingTask = false →
      ∀ type ∈ ta.session.state.mayPost, Fits p ta.session type))
  | .other _ => inferInstanceAs (Decidable True)

/-- The token of the session is the one the next message has to carry. -/
structure Correlating (ta : Ta) : Prop where
  request : ta.session.state = .postingQueryResponse →
    ∃ request, lastRequest ta.history = some request ∧ ta.session.token = request.token
  update : ta.session.state.reports = true →
    ∃ m, lastReceived ta.history = some (some m) ∧ m.type = .update ∧ ta.session.token = m.token
  error : ta.session.state = .postingError →
    ∀ m, lastReceived ta.history = some (some m) → m.type = .update → ta.session.token = m.token
  posted : Recorded Correlated ta.history

/-- The states that promise nothing about the token. -/
theorem Correlating.of_quiet {ta : Ta} (posted : Recorded Correlated ta.history)
    (quiet : ta.session.state.posts = none) (silent : ta.session.state.reports = false) :
    Correlating ta := by
  refine ⟨?_, ?_, ?_, posted⟩
  · intro state
    rw [state] at quiet
    cases quiet
  · intro reports
    rw [silent] at reports
    cases reports
  · intro state
    rw [state] at quiet
    cases quiet

/-- The state that carries out an Update changes to another one. -/
theorem Correlating.of_update {ta ta' : Ta} (correlating : Correlating ta)
    (reports : ta.session.state.reports = true) (history : ta'.history = ta.history)
    (token : ta'.session.token = ta.session.token)
    (state : ta'.session.state ≠ .postingQueryResponse) : Correlating ta' := by
  have update := correlating.update reports
  refine ⟨fun response => absurd response state, ?_, ?_, ?_⟩
  · intro _
    rw [history, token]
    exact update
  · intro _ m last type
    obtain ⟨m', last', -, same⟩ := update
    rw [history, last'] at last
    cases last
    rw [token, same]
  · rw [history]
    exact correlating.posted

theorem pass_correlating {fuel : Nat} {ta next : Ta} (correlating : Correlating ta)
    (pass : PassOutcome p fuel ta next) : Correlating next := by
  cases pass with
  | begins => exact .of_quiet correlating.posted rfl rfl
  | starts state => exact correlating.of_update (by rw [state]; rfl) rfl rfl nofun
  | @runs runner state ran =>
    refine correlating.of_update (by rw [state]; rfl) rfl rfl ?_
    rcases stateAfterRun_cases runner with last | last | last
    · rw [last]
      nofun
    · rw [last]
      nofun
    · rw [last]
      nofun

/-- A message built from a correlating session is correlated. -/
theorem post_correlating {ta : Ta} {type : MessageType} (correlating : Correlating ta)
    (posts : ta.session.state.posts = some type) (fits : Fits p ta.session type) :
    Correlating (postMessage p ta type (messageOps ta.session type)) := by
  have carries (token : Option Bytes) (same : ta.session.token = token) :
      Carries token (messageOps ta.session type)
        (p.qcbor.encode (messageOps ta.session type) ta.session.taskBuffer.postData).2 :=
    ⟨fits, same ▸ tokensOf_messageOps ta.session type⟩
  have last : Correlated ta.history (.posted type (messageOps ta.session type)
      (p.qcbor.encode (messageOps ta.session type) ta.session.taskBuffer.postData).2) := by
    cases state : ta.session.state with
    | postingQueryResponse =>
      rw [state] at posts
      cases posts
      obtain ⟨request, here, same⟩ := correlating.request state
      exact ⟨request, here, carries _ same⟩
    | postingSuccess =>
      rw [state] at posts
      cases posts
      obtain ⟨m, here, update, same⟩ := correlating.update (by rw [state]; rfl)
      exact ⟨m, here, update, carries _ same⟩
    | postingError =>
      rw [state] at posts
      cases posts
      intro m here update
      exact carries _ (correlating.error state m here update)
    | _ =>
      rw [state] at posts
      cases posts
  refine ⟨?_, ?_, ?_, correlating.posted.concat last⟩
  · intro state
    obtain ⟨request, here, same⟩ := correlating.request state
    exact ⟨request, (lastRequest_posted _ _ _ _).trans here, same⟩
  · intro reports
    obtain ⟨m, here, update, same⟩ := correlating.update reports
    exact ⟨m, (lastReceived_posted _ _ _ _).trans here, update, same⟩
  · intro state m here
    exact correlating.error state m ((lastReceived_posted _ _ _ _).symm.trans here)

theorem query_correlating {fuel : Nat} {ta ta' : Ta} (correlating : Correlating ta)
    (idle : ta.session.onGoingTask = false)
    (fits : ∀ type ∈ ta.session.state.mayPost, Fits p ta.session type)
    (query : queryNextBrokerTask p fuel ta = .ok ta') : Correlating ta' := by
  refine query_rule
    (fun s => Correlating s ∧ ∀ type ∈ s.session.state.mayPost, Fits p s.session type)
    Correlating ?_ ?_ ⟨correlating, fits⟩ idle query
  · rintro s next ⟨correlating, fits⟩ _ pass
    refine ⟨pass_correlating correlating pass, ?_⟩
    intro type member
    have fine := fits type (pass_mayPost pass type member)
    obtain ⟨state, runner, rfl⟩ := pass_same pass
    cases type with
    | _ => exact fine
  · rintro s next ⟨correlating, fits⟩ _ pass
    cases queryBody_hands pass with
    | silent =>
      exact ⟨correlating.request, correlating.update, correlating.error, correlating.posted⟩
    | posted posts => exact post_correlating correlating posts (fits _ (posts_mayPost posts))

/-- What is rejected is reported on, and an Update among it has the token. -/
theorem rejected_correlating {ta next : Ta} {message : Option Message}
    (correlating : Correlating ta) (history : next.history = ta.history ++ [.received message])
    (state : next.session.state = .postingError)
    (agrees : ∀ m, message = some m → m.type = .update → next.session.token = m.token) :
    Correlating next := by
  refine ⟨?_, ?_, ?_, ?_⟩
  · intro response
    rw [state] at response
    cases response
  · intro reports
    rw [state] at reports
    cases reports
  · intro _ m last type
    rw [history, lastReceived_received] at last
    exact agrees m (Option.some.inj last) type
  · rw [history]
    exact correlating.posted.concat trivial

theorem requested_correlating {ta next : Ta} {m : Message} (correlating : Correlating ta)
    (history : next.history = ta.history ++ [.received (some m)]) (type : m.type = .queryRequest)
    (state : next.session.state = .postingQueryResponse) (token : next.session.token = m.token) :
    Correlating next := by
  refine ⟨?_, ?_, ?_, ?_⟩
  · intro _
    rw [history]
    exact ⟨m, lastRequest_request _ type, token⟩
  · intro reports
    rw [state] at reports
    cases reports
  · intro error
    rw [state] at error
    cases error
  · rw [history]
    exact correlating.posted.concat trivial

theorem updated_correlating {ta next : Ta} {m : Message} (correlating : Correlating ta)
    (history : next.history = ta.history ++ [.received (some m)]) (type : m.type = .update)
    (state : next.session.state = .initRunner ∨ next.session.state = .postingError)
    (token : next.session.token = m.token) : Correlating next := by
  have last : lastReceived next.history = some (some m) := by
    rw [history, lastReceived_received]
  refine ⟨?_, fun _ => ⟨m, last, type, token⟩, ?_, ?_⟩
  · intro response
    rw [response] at state
    rcases state with other | other
    · cases other
    · cases other
  · intro _ m' last' _
    rw [last] at last'
    cases last'
    exact token
  · rw [history]
    exact correlating.posted.concat trivial

/-- The token is kept as it came. -/
theorem copy_token {m : Message} {copy : Option Bytes} {allocated empty : Bool}
    (copied : copy = if allocated then some (m.token.getD []) else none)
    (whole : copy = none → m.token.getD [] = [])
    (same : m.token.getD [] = [] → allocated = empty)
    (kept : m.token.getD [] = [] → (empty = true ↔ m.token.isSome = true)) : copy = m.token := by
  cases token : m.token with
  | none =>
    rw [token] at copied same kept
    have fails : empty ≠ true := fun success => by
      have some := (kept rfl).mp success
      cases some
    rw [copied, if_neg (by rw [same rfl]; exact fails)]
  | some t =>
    rw [token] at copied whole same kept
    cases t with
    | nil =>
      rw [copied, if_pos (by rw [same rfl]; exact (kept rfl).mpr rfl)]
      rfl
    | cons b t =>
      cases copy with
      | none => cases whole rfl
      | some bytes =>
        split at copied
        · exact copied
        · cases copied

theorem reply_correlating {ta next : Ta} {buffer : Bytes} {result : Nat}
    (correlating : Correlating ta) (agree : TokensAgree p ta (.brokerTaskDone buffer))
    (busy : ta.session.onGoingTask = true) (post : ta.session.taskBuffer.command = .httpPost)
    (outcome : TamOutcome p ta buffer next result) : Correlating next.clearTask := by
  cases outcome with
  | ended => exact .of_quiet correlating.posted rfl rfl
  | afterError => exact .of_quiet correlating.posted rfl rfl
  | unparsed content live parse =>
    refine rejected_correlating correlating (received_history parse) rfl ?_
    intro m same
    cases same
  | @refused m content live parse refused =>
    refine rejected_correlating correlating (received_history parse) rfl ?_
    intro m' same type
    cases same
    refine ((agree busy post content live m parse).2 type ?_).symm
    intro state
    rw [Refused, type] at refused
    exact absurd state refused
  | @requested m copy content parse type state copied whole =>
    refine requested_correlating correlating (received_history parse) type rfl ?_
    have live : ta.session.state ≠ .postingError := by
      rw [state]
      decide
    have kept := (agree busy post content live m parse).1 type state
    refine copy_token copied whole ?_ kept
    intro empty
    rw [empty]
    rfl
  | @notStored m slots allocations content parse type state fails =>
    obtain ⟨request, here, same⟩ := correlating.request state
    have history := received_history parse
    refine ⟨fun _ => ⟨request, ?_, same⟩, ?_, ?_, ?_⟩
    · exact (congrArg lastRequest history).trans ((lastRequest_update _ type).trans here)
    · intro reports
      change ta.session.state.reports = true at reports
      rw [state] at reports
      cases reports
    · intro error
      change ta.session.state = .postingError at error
      rw [state] at error
      cases error
    · change Recorded Correlated (received p ta buffer).history
      rw [history]
      exact correlating.posted.concat trivial
  | @updated m slots allocations content parse type state storable =>
    have live : ta.session.state ≠ .postingError := by
      rw [state]
      decide
    have token := (agree busy post content live m parse).2 type fun _ => storable
    refine updated_correlating correlating (received_history parse) type ?_ token.symm
    dsimp only [Ta.clearTask]
    split
    · exact .inl rfl
    · exact .inr rfl

theorem step_correlating {ta ta' : Ta} {command : Command}
    (correlating : TaskMatches ta ∧ Correlating ta)
    (step : Guarded (TokensAgree p) (Step p) ta command ta') :
    TaskMatches ta' ∧ Correlating ta' := by
  obtain ⟨matching, correlating⟩ := correlating
  obtain ⟨agree, step⟩ := step
  refine ⟨step_taskMatches matching step, ?_⟩
  cases step_outcome step with
  | unchanged => exact correlating
  | configured =>
    exact ⟨correlating.request, correlating.update, correlating.error, correlating.posted⟩
  | replied busy post outcome => exact reply_correlating correlating agree busy post outcome
  | downloaded busy fetch =>
    have task := matching busy
    have state : ta.session.state = .fetchComponent := by
      rw [fetch] at task
      cases state : ta.session.state with
      | fetchComponent => rfl
      | _ =>
        rw [state] at task
        cases task
    unfold handleComponentDownload
    rw [if_neg (by rw [state]; nofun)]
    exact correlating.of_update (by rw [state]; rfl) rfl rfl nofun
  | queried idle query => exact query_correlating correlating idle (agree idle) query

/-- In every run whose replies and queries meet the condition, every message the
agent posts carries the token of the message it answers or reports on. -/
theorem posted_tokens_correlate {memory : Session} {commands : List Command} {ta : Ta}
    (run : Run (Guarded (TokensAgree p) (Step p)) (Ta.start memory) commands ta) :
    Recorded Correlated ta.history := by
  have initial : TaskMatches (Ta.start memory) ∧ Correlating (Ta.start memory) :=
    ⟨.of_idle rfl, .of_quiet (.nil Correlated) rfl rfl⟩
  have holds := run.invariant (fun ta => TaskMatches ta ∧ Correlating ta)
    (fun _ _ _ correlating step => step_correlating correlating step) initial
  exact holds.2.posted

/-- The session of the README with an Update that repeats the token of the
QueryRequest; the token is outside of what is signed. -/
def matchingSession : List Command :=
  [query, .brokerTaskDone readmeQueryRequest, query,
    .brokerTaskDone (readmeUpdate.take 359 ++ List.replicate 8 0x77), query,
    .brokerTaskDone [0x7F, 0x45, 0x4C, 0x46], query]

theorem posted_tokens_correlate_matching :
    ∃ ta, exec (execStep readmePlatform 20 (TokensAgree readmePlatform)) (Ta.start blankMemory)
        matchingSession = some ta ∧
      ta.session.state = .postingSuccess ∧ ta.history.length = 4 ∧
      Recorded Correlated ta.history := by
  have reached : (exec (execStep readmePlatform 20 (TokensAgree readmePlatform))
      (Ta.start blankMemory) matchingSession).map
        (fun ta => (ta.session.state, ta.history.length)) = some (.postingSuccess, 4) := by
    decide +kernel
  obtain ⟨ta, executed, last⟩ := Option.map_eq_some_iff.mp reached
  exact ⟨ta, executed, congrArg Prod.fst last, congrArg Prod.snd last,
    posted_tokens_correlate (exec_run executed)⟩

theorem readme_success_has_wrong_token :
    ∃ ta, Run (Step readmePlatform) (Ta.start blankMemory) readmeSession ta ∧
      ¬ Recorded Correlated ta.history := by
  have reached : (exec (execStep readmePlatform 20 fun _ _ => True) (Ta.start blankMemory)
      readmeSession).map (fun ta => (ta.history[3]?,
        (lastReceived (ta.history.take 3)).map (Option.map Message.token))) =
      some (some (.posted .success [.openArray, .addInt64 5, .openMap,
          .addBytesToMapN OptionKey.token [0x77, 0x77, 0x77, 0x77, 0x77, 0x77, 0x77, 0x77],
          .closeMap, .closeArray] (some 13)),
        some (some (some [0xAB, 0xA1, 0xA2, 0xA3, 0xA4, 0xA5, 0xA6, 0xA7]))) := by
    decide +kernel
  obtain ⟨ta, executed, last⟩ := Option.map_eq_some_iff.mp reached
  refine ⟨ta, (exec_run executed).of_guarded, ?_⟩
  intro recorded
  obtain ⟨m, here, -, -, tokens⟩ := recorded 3 _ (congrArg Prod.fst last)
  have token : some (some m.token) =
      some (some (some [0xAB, 0xA1, 0xA2, 0xA3, 0xA4, 0xA5, 0xA6, 0xA7])) := by
    have found := congrArg Prod.snd last
    dsimp only at found
    rwa [here] at found
  rw [Option.some.inj (Option.some.inj token)] at tokens
  exact absurd tokens (by decide)

end Runs

end TeepDevice.Agent
