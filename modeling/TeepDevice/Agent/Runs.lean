import Mathlib.Data.List.Induction
import TeepDevice.Agent.Session
import TeepDevice.Transition

/-! What one command can do to a TA instance, said once for each operation, and
the runs that are made of commands. -/
namespace TeepDevice.Agent
open Tcbor Suit Teep Transition

/-- One command that returns, with enough fuel for the SUIT runner. -/
def Step (p : Platform) (ta : Ta) (command : Command) (ta' : Ta) : Prop :=
  ∃ fuel response, invokeCommand p fuel ta command = .ok (ta', response)

/-- A command executed under a condition. -/
def execStep (p : Platform) (fuel : Nat) (ok : Ta → Command → Prop)
    [∀ ta command, Decidable (ok ta command)] (ta : Ta) (command : Command) : Option Ta :=
  if ok ta command then
    match invokeCommand p fuel ta command with
    | .error _ => none
    | .ok (ta', _) => some ta'
  else none

variable {p : Platform}

theorem execStep_guarded {fuel : Nat} {ok : Ta → Command → Prop}
    [∀ ta command, Decidable (ok ta command)] {ta ta' : Ta} {command : Command}
    (executed : execStep p fuel ok ta command = some ta') :
    Guarded ok (Step p) ta command ta' := by
  unfold execStep at executed
  split at executed
  · rename_i condition
    split at executed
    · cases executed
    · rename_i response done
      cases executed
      exact ⟨condition, fuel, response, done⟩
  · cases executed

theorem exec_run {fuel : Nat} {ok : Ta → Command → Prop}
    [∀ ta command, Decidable (ok ta command)] {ta ta' : Ta} {commands : List Command}
    (executed : exec (execStep p fuel ok) ta commands = some ta') :
    Run (Guarded ok (Step p)) ta commands ta' :=
  .of_exec (fun _ _ _ => execStep_guarded) executed

section Update

/-- Whether all envelopes of an Update can be stored: there is a slot for each,
each is authentic, and each allocation succeeds. -/
def EnvelopesStorable (p : Platform) : Nat → Nat → List Bytes → Prop
  | _, _, [] => True
  | index, allocations, envelope :: rest =>
    (index < 2 ∧ suitAuthenticateEnvelope p.crypto envelope tcSingerPubkey = true ∧
      p.malloc allocations envelope.length = true) ∧
      EnvelopesStorable p (index + 1) (allocations + 1) rest

instance decidableEnvelopesStorable (p : Platform) :
    (index allocations : Nat) → (envelopes : List Bytes) →
      Decidable (EnvelopesStorable p index allocations envelopes)
  | _, _, [] => inferInstanceAs (Decidable True)
  | index, allocations, envelope :: rest =>
    have := decidableEnvelopesStorable p (index + 1) (allocations + 1) rest
    inferInstanceAs (Decidable ((index < 2 ∧
      suitAuthenticateEnvelope p.crypto envelope tcSingerPubkey = true ∧
        p.malloc allocations envelope.length = true) ∧
      EnvelopesStorable p (index + 1) (allocations + 1) rest))

theorem envelopesStorable_authentic {index allocations : Nat} {envelopes : List Bytes}
    (storable : EnvelopesStorable p index allocations envelopes) :
    (∀ e ∈ envelopes, suitAuthenticateEnvelope p.crypto e tcSingerPubkey = true) ∧
      (envelopes = [] ∨ index + envelopes.length ≤ 2) := by
  induction envelopes generalizing index allocations with
  | nil => exact ⟨fun _ member => absurd member List.not_mem_nil, .inl rfl⟩
  | cons envelope rest ih =>
    obtain ⟨⟨below, authentic, -⟩, others⟩ := storable
    obtain ⟨all, room⟩ := ih others
    refine ⟨fun e member => ?_, .inr ?_⟩
    · rcases List.mem_cons.mp member with rfl | member
      · exact authentic
      · exact all e member
    · rcases room with rfl | room
      · simpa using Nat.le_of_lt_succ below
      · simp only [List.length_cons]
        omega

/-- What storing one envelope does: only the slot and the allocations change. -/
theorem storeSuitEnvelope_spec {ta ta' : Ta} {index : Nat} {envelope : Bytes} {stored : Bool}
    (done : storeSuitEnvelope p ta index envelope = .ok (stored, ta')) :
    ∃ slots allocations,
      ta' = { ta with suitManifests := slots, allocations := allocations } ∧
      (∀ j, j ≠ index → slots j = ta.suitManifests j) ∧
      (stored = true → slots index = .stored envelope ∧ allocations = ta.allocations + 1) ∧
      (stored = true ↔ index < 2 ∧
        suitAuthenticateEnvelope p.crypto envelope tcSingerPubkey = true ∧
        p.malloc ta.allocations envelope.length = true) := by
  unfold storeSuitEnvelope at done
  split at done
  · rename_i below
    split at done
    · rename_i authentic
      unfold storeBstr at done
      split at done
      · cases done
      · split at done
        · rename_i allocated
          cases done
          exact ⟨_, _, rfl, fun j other => if_neg other, fun _ => ⟨if_pos rfl, rfl⟩,
            fun _ => ⟨below, authentic, allocated⟩, fun _ => rfl⟩
        · rename_i failed
          cases done
          exact ⟨_, _, rfl, fun j other => if_neg other, nofun,
            nofun, fun all => absurd all.2.2 failed⟩
    · rename_i rejected
      cases done
      exact ⟨_, _, rfl, fun _ _ => rfl, nofun, nofun,
        fun all => absurd all.2.1 rejected⟩
  · rename_i outside
    cases done
    exact ⟨_, _, rfl, fun _ _ => rfl, nofun, nofun,
      fun all => absurd all.1 outside⟩

/-- The first loop: it succeeds exactly when all envelopes can be stored, and
then they are in the slots in order. -/
theorem storeSuitEnvelopes_spec {index : Nat} {envelopes : List Bytes} {ta ta' : Ta}
    {stored : Bool} (done : storeSuitEnvelopes p index envelopes ta = .ok (stored, ta')) :
    ∃ slots allocations,
      ta' = { ta with suitManifests := slots, allocations := allocations } ∧
      (∀ j, j < index → slots j = ta.suitManifests j) ∧
      (stored = true → ∀ k e, envelopes[k]? = some e → slots (index + k) = .stored e) ∧
      (stored = true ↔ EnvelopesStorable p index ta.allocations envelopes) := by
  induction envelopes generalizing index ta with
  | nil =>
    simp only [storeSuitEnvelopes] at done
    cases done
    exact ⟨_, _, rfl, fun _ _ => rfl, fun _ k e here => by simp at here, fun _ => trivial,
      fun _ => rfl⟩
  | cons envelope rest ih =>
    simp only [storeSuitEnvelopes] at done
    split at done
    · cases done
    · rename_i failed
      cases done
      obtain ⟨slots, allocations, rfl, others, -, result⟩ := storeSuitEnvelope_spec failed
      exact ⟨slots, allocations, rfl, fun j below => others j (Nat.ne_of_lt below),
        nofun, nofun, fun all => result.mpr all.1⟩
    · rename_i next first
      obtain ⟨slots, allocations, rfl, others, here, result⟩ := storeSuitEnvelope_spec first
      obtain ⟨slots', allocations', rfl, before, inside, whole⟩ := ih done
      obtain ⟨slot, count⟩ := here rfl
      refine ⟨slots', allocations', rfl, ?_, ?_, ?_⟩
      · intro j below
        exact (before j (Nat.lt_succ_of_lt below)).trans (others j (Nat.ne_of_lt below))
      · intro good k e at_k
        cases k with
        | zero =>
          cases Option.some.inj at_k
          exact (before index (Nat.lt_succ_self index)).trans slot
        | succ k =>
          rw [show index + (k + 1) = index + 1 + k by omega]
          exact inside good k e (by simpa using at_k)
      · rw [whole]
        dsimp only
        rw [count]
        exact ⟨fun all => ⟨result.mp rfl, all⟩, fun all => all.2⟩

/-- Adding envelopes one after the other, up to the first that is refused. -/
def addInOrder : List Bytes → SuitContext → Bool × SuitContext
  | [], context => (true, context)
  | envelope :: rest, context =>
    match suitContextAddEnvelope context (some envelope) with
    | (false, context) => (false, context)
    | (true, context) => addInOrder rest context

/-- The second loop adds the stored envelopes, the last one first. -/
theorem addStoredEnvelopes_eq {slots : Nat → Slot} {envelopes : List Bytes}
    (stored : ∀ k e, envelopes[k]? = some e → slots k = .stored e) (context : SuitContext) :
    addStoredEnvelopes slots envelopes.length context =
      .ok (addInOrder envelopes.reverse context) := by
  induction envelopes using List.reverseRecOn generalizing context with
  | nil => rfl
  | append_singleton envelopes last ih =>
    have slot : slots envelopes.length = .stored last := stored envelopes.length last (by simp)
    have earlier : ∀ k e, envelopes[k]? = some e → slots k = .stored e := by
      intro k e here
      have below := (List.getElem?_eq_some_iff.mp here).1
      exact stored k e (by rw [List.getElem?_append_left below]; exact here)
    simp only [List.length_append, List.length_singleton, addStoredEnvelopes, slot,
      List.reverse_append, List.reverse_singleton, List.singleton_append, addInOrder]
    rcases suitContextAddEnvelope context (some last) with ⟨_ | _, context⟩
    · rfl
    · exact ih earlier context

end Update

section Replies

/-- The agent's state once a reply was given to the parser. -/
def received (p : Platform) (ta : Ta) (buffer : Bytes) : Ta :=
  { ta.record (.received (parseTeepMessage p.qcbor p.malloc ta.allocations buffer).1) with
    allocations := (parseTeepMessage p.qcbor p.malloc ta.allocations buffer).2 }

/-- The message a reply parses as. -/
def parsed (p : Platform) (ta : Ta) (buffer : Bytes) : Option Message :=
  (parseTeepMessage p.qcbor p.malloc ta.allocations buffer).1

/-- Message types that the state does not allow. -/
def Refused (state : AgentState) (m : Message) : Prop :=
  match m.type with
  | .queryRequest => state ≠ .postingInitialRequest
  | .update => state ≠ .postingQueryResponse
  | _ => True

/-- Everything `handle_tam_message` can do when it returns. -/
inductive TamOutcome (p : Platform) (ta : Ta) (buffer : Bytes) : Ta → Nat → Prop where
  | ended (empty : buffer = []) : TamOutcome p ta buffer (ta.setState .finish) teeSuccess
  | afterError (content : buffer ≠ []) (state : ta.session.state = .postingError) :
    TamOutcome p ta buffer (ta.setState .finish) teeErrorBadFormat
  | unparsed (content : buffer ≠ []) (live : ta.session.state ≠ .postingError)
      (parse : parsed p ta buffer = none) :
    TamOutcome p ta buffer (teepError (received p ta buffer)) teeErrorBadFormat
  | refused {m : Message} (content : buffer ≠ []) (live : ta.session.state ≠ .postingError)
      (parse : parsed p ta buffer = some m) (refused : Refused ta.session.state m) :
    TamOutcome p ta buffer (teepError (received p ta buffer)) teeSuccess
  | requested {m : Message} {copy : Option Bytes} (content : buffer ≠ [])
      (parse : parsed p ta buffer = some m) (type : m.type = .queryRequest)
      (state : ta.session.state = .postingInitialRequest)
      (copied : copy = if p.malloc (received p ta buffer).allocations (m.token.getD []).length
        then some (m.token.getD []) else none)
      (whole : copy = none → m.token.getD [] = []) :
    TamOutcome p ta buffer
      { received p ta buffer with
        session := { ta.session with
          state := .postingQueryResponse
          token := copy
          dataItemRequested := m.dataItemRequested }
        allocations := (received p ta buffer).allocations + 1 } teeSuccess
  | notStored {m : Message} {slots : Nat → Slot} {allocations : Nat} (content : buffer ≠ [])
      (parse : parsed p ta buffer = some m) (type : m.type = .update)
      (state : ta.session.state = .postingQueryResponse)
      (fails : ¬ EnvelopesStorable p 0 (received p ta buffer).allocations
        (m.manifestList.getD [])) :
    TamOutcome p ta buffer
      { received p ta buffer with suitManifests := slots, allocations := allocations } teeSuccess
  | updated {m : Message} (slots : Nat → Slot) (allocations : Nat) (content : buffer ≠ [])
      (parse : parsed p ta buffer = some m) (type : m.type = .update)
      (state : ta.session.state = .postingQueryResponse)
      (storable : EnvelopesStorable p 0 (received p ta buffer).allocations
        (m.manifestList.getD [])) :
    TamOutcome p ta buffer
      { received p ta buffer with
        session := { ta.session with
          state := if (addInOrder (m.manifestList.getD []).reverse ta.session.suitContext).1
            then .initRunner else .postingError
          suitContext :=
            (addInOrder (m.manifestList.getD []).reverse ta.session.suitContext).2 }
        suitManifests := slots
        allocations := allocations } teeSuccess

theorem received_state (ta : Ta) (buffer : Bytes) : (received p ta buffer).session = ta.session :=
  rfl

theorem received_history {ta : Ta} {buffer : Bytes} {message : Option Message}
    (parse : parsed p ta buffer = message) :
    (received p ta buffer).history = ta.history ++ [.received message] := by
  rw [← parse]
  rfl

theorem handleQueryRequest_outcome {ta ta' : Ta} {buffer : Bytes} {m : Message}
    (content : buffer ≠ []) (live : ta.session.state ≠ .postingError)
    (parse : parsed p ta buffer = some m) (type : m.type = .queryRequest)
    (handled : handleQueryRequest p (received p ta buffer) m = .ok ta') :
    TamOutcome p ta buffer ta' teeSuccess := by
  unfold handleQueryRequest at handled
  split at handled
  · rename_i state
    cases handled
    exact .refused content live parse (by
      simp only [Refused, type]
      exact state)
  · rename_i state
    replace state : ta.session.state = .postingInitialRequest := Decidable.not_not.mp state
    dsimp only at handled
    split at handled
    · rename_i allocated
      cases handled
      exact .requested content parse type state (by rw [if_pos allocated]) nofun
    · rename_i failed
      split at handled
      · rename_i empty
        cases handled
        exact .requested content parse type state (by rw [if_neg failed]) fun _ => empty
      · cases handled

/-- Once the envelopes are stored, the context takes them in reverse order. -/
theorem handleUpdate_added {ta ta' : Ta} {m : Message}
    (state : ta.session.state = .postingQueryResponse)
    (stored : storeSuitEnvelopes p 0 (m.manifestList.getD []) ta = .ok (true, ta')) :
    handleUpdate p ta m = .ok { ta' with session := { ta'.session with
      state := if (addInOrder (m.manifestList.getD []).reverse ta'.session.suitContext).1
        then .initRunner else .postingError
      suitContext :=
        (addInOrder (m.manifestList.getD []).reverse ta'.session.suitContext).2 } } := by
  obtain ⟨slots, allocations, rfl, -, inside, -⟩ := storeSuitEnvelopes_spec stored
  have slot : ∀ k e, (m.manifestList.getD [])[k]? = some e → slots k = .stored e := by
    intro k e here
    have found := inside rfl k e here
    rwa [Nat.zero_add] at found
  unfold handleUpdate
  rw [if_neg (fun other => other state)]
  dsimp only
  rw [stored]
  dsimp only
  rw [addStoredEnvelopes_eq slot]
  rcases addInOrder (m.manifestList.getD []).reverse ta.session.suitContext with ⟨_ | _, context⟩
  · rfl
  · rfl

theorem handleUpdate_outcome {ta ta' : Ta} {buffer : Bytes} {m : Message}
    (content : buffer ≠ []) (live : ta.session.state ≠ .postingError)
    (parse : parsed p ta buffer = some m) (type : m.type = .update)
    (handled : handleUpdate p (received p ta buffer) m = .ok ta') :
    TamOutcome p ta buffer ta' teeSuccess := by
  by_cases state : ta.session.state = .postingQueryResponse
  · cases stored : storeSuitEnvelopes p 0 (m.manifestList.getD []) (received p ta buffer) with
    | error fault =>
      simp only [handleUpdate, received_state, state, stored, ne_eq, not_true, if_false] at handled
      cases handled
    | ok pair =>
      obtain ⟨good, next⟩ := pair
      have waiting : (received p ta buffer).session.state = .postingQueryResponse := state
      cases good with
      | false =>
        simp only [handleUpdate, waiting, stored, ne_eq, not_true, if_false] at handled
        cases handled
        obtain ⟨slots, allocations, rfl, -, -, result⟩ := storeSuitEnvelopes_spec stored
        exact .notStored content parse type state fun all => by cases result.mpr all
      | true =>
        rw [handleUpdate_added waiting stored] at handled
        cases handled
        obtain ⟨slots, allocations, rfl, -, -, result⟩ := storeSuitEnvelopes_spec stored
        exact .updated slots allocations content parse type state (result.mp rfl)
  · rw [handleUpdate, received_state, if_pos state] at handled
    cases handled
    refine .refused content live parse ?_
    simp only [Refused, type]
    exact state

/-- What is done with a reply that parses, by its type. -/
def handleParsed (p : Platform) (ta : Ta) (m : Message) : Except Fault Ta :=
  match m.type with
  | .queryResponse | .success | .error => .ok (teepError ta)
  | .queryRequest => handleQueryRequest p ta m
  | .update => handleUpdate p ta m

theorem handleTamMessage_unparsed {ta : Ta} {buffer : Bytes} (content : buffer ≠ [])
    (live : ta.session.state ≠ .postingError) (parse : parsed p ta buffer = none) :
    handleTamMessage p ta buffer = .ok (teepError (received p ta buffer), teeErrorBadFormat) := by
  unfold parsed at parse
  unfold handleTamMessage received
  rw [if_neg content, if_neg live]
  generalize parseTeepMessage p.qcbor p.malloc ta.allocations buffer = result at parse ⊢
  obtain ⟨message, allocations⟩ := result
  cases parse
  rfl

theorem handleTamMessage_parsed {ta : Ta} {buffer : Bytes} {m : Message} (content : buffer ≠ [])
    (live : ta.session.state ≠ .postingError) (parse : parsed p ta buffer = some m) :
    handleTamMessage p ta buffer =
      (handleParsed p (received p ta buffer) m).map fun ta => (ta, teeSuccess) := by
  unfold parsed at parse
  unfold handleTamMessage received
  rw [if_neg content, if_neg live]
  generalize parseTeepMessage p.qcbor p.malloc ta.allocations buffer = result at parse ⊢
  obtain ⟨message, allocations⟩ := result
  cases parse
  unfold handleParsed
  dsimp only
  generalize ({ ta.record (.received (some m)) with allocations := allocations } : Ta) = ta
  cases m.type with
  | queryResponse => rfl
  | success => rfl
  | error => rfl
  | queryRequest =>
    dsimp only
    cases handleQueryRequest p ta m with
    | error fault => rfl
    | ok ta => rfl
  | update =>
    dsimp only
    cases handleUpdate p ta m with
    | error fault => rfl
    | ok ta => rfl

theorem handleParsed_refused {ta : Ta} {m : Message} (refused : Refused ta.session.state m) :
    handleParsed p ta m = .ok (teepError ta) := by
  unfold Refused at refused
  unfold handleParsed
  cases type : m.type with
  | queryRequest =>
    rw [type] at refused
    simp only [handleQueryRequest]
    exact if_pos refused
  | update =>
    rw [type] at refused
    simp only [handleUpdate]
    exact if_pos refused
  | _ => rfl

theorem handleTamMessage_outcome {ta ta' : Ta} {buffer : Bytes} {result : Nat}
    (done : handleTamMessage p ta buffer = .ok (ta', result)) :
    TamOutcome p ta buffer ta' result := by
  by_cases content : buffer = []
  · rw [handleTamMessage, if_pos content] at done
    cases done
    exact .ended content
  by_cases live : ta.session.state = .postingError
  · rw [handleTamMessage, if_neg content, if_pos live] at done
    cases done
    exact .afterError content live
  cases parse : parsed p ta buffer with
  | none =>
    rw [handleTamMessage_unparsed content live parse] at done
    cases done
    exact .unparsed content live parse
  | some m =>
    rw [handleTamMessage_parsed content live parse] at done
    cases handled : handleParsed p (received p ta buffer) m with
    | error fault =>
      rw [handled] at done
      cases done
    | ok next =>
      rw [handled] at done
      cases done
      by_cases refused : Refused ta.session.state m
      · have error : handleParsed p (received p ta buffer) m =
          .ok (teepError (received p ta buffer)) := handleParsed_refused refused
        cases handled.symm.trans error
        exact .refused content live parse refused
      · unfold handleParsed at handled
        unfold Refused at refused
        cases type : m.type with
        | queryRequest =>
          rw [type] at handled
          exact handleQueryRequest_outcome content live parse type handled
        | update =>
          rw [type] at handled
          exact handleUpdate_outcome content live parse type handled
        | _ =>
          rw [type] at refused
          exact absurd trivial refused

end Replies

section Queries

/-- The state a run of the SUIT runner leads to. -/
def stateAfterRun (runner : Runner AgentUser Unit) : AgentState :=
  if suitRunnerFinished runner then .postingSuccess
  else if suitRunnerSuspended runner then .fetchComponent
  else .postingError

theorem stateAfterRun_cases (runner : Runner AgentUser Unit) :
    stateAfterRun runner = .postingSuccess ∨ stateAfterRun runner = .fetchComponent ∨
      stateAfterRun runner = .postingError := by
  unfold stateAfterRun
  split
  · exact .inl rfl
  · split
    · exact .inr (.inl rfl)
    · exact .inr (.inr rfl)

/-- The passes of `query_next_broker_task` that go on. -/
inductive PassOutcome (p : Platform) (fuel : Nat) (ta : Ta) : Ta → Prop where
  | begins (state : ta.session.state = .init) :
    PassOutcome p fuel ta (ta.setState .postingInitialRequest)
  | starts {runner : Runner AgentUser Unit} (state : ta.session.state = .initRunner)
      (started : suitRunnerInit p.wild ta.session.suitContext .install
        ta.session.suitRunner.effects.user = some runner) :
    PassOutcome p fuel ta
      { ta with session := { ta.session with state := .runSuitRunner, suitRunner := runner } }
  | runs {runner : Runner AgentUser Unit} (state : ta.session.state = .runSuitRunner)
      (ran : suitRunnerRun (suitCallbacks p.beyond p.installTa) p.frames fuel
        ta.session.suitRunner = some runner) :
    PassOutcome p fuel ta
      { ta with session := { ta.session with
          state := stateAfterRun runner, suitRunner := runner } }

theorem queryBody_goes {fuel : Nat} {ta next : Ta} (pass : queryBody p fuel ta = .inl next) :
    PassOutcome p fuel ta next := by
  unfold queryBody at pass
  split at pass
  · rename_i state
    cases pass
    exact .begins state
  · cases pass
  · cases pass
  · cases pass
  · cases pass
  · rename_i state
    split at pass
    · cases pass
    · rename_i started
      cases pass
      exact .starts state started
  · rename_i state
    split at pass
    · cases pass
    · rename_i runner ran
      have whole := PassOutcome.runs state ran
      unfold stateAfterRun at whole
      dsimp only at pass
      split at pass
      · rename_i finished
        cases pass
        rwa [if_pos finished] at whole
      · rename_i unfinished
        rw [if_neg unfinished] at whole
        split at pass
        · rename_i suspended
          cases pass
          rwa [if_pos suspended] at whole
        · rename_i failed
          cases pass
          rwa [if_neg failed] at whole
  · dsimp only at pass
    split at pass
    · cases pass
    · cases pass
  · cases pass

/-- The message a session posts under a type. -/
def messageOps (session : Session) : MessageType → List EncodeOp
  | .queryResponse => queryResponseOps session
  | .success => successOps session
  | _ => errorOps session

/-- The type of the message that is posted in a state. -/
def AgentState.posts : AgentState → Option MessageType
  | .postingQueryResponse => some .queryResponse
  | .postingSuccess => some .success
  | .postingError => some .error
  | _ => none

/-- The task that goes with a state. -/
def AgentState.task : AgentState → Option BrokerCommand
  | .postingInitialRequest | .postingQueryResponse | .postingSuccess | .postingError =>
    some .httpPost
  | .fetchComponent => some .httpGet
  | .finish => some .finish
  | _ => none

/-- The messages that a query in this state can come to. -/
def AgentState.mayPost : AgentState → List MessageType
  | .postingQueryResponse => [.queryResponse]
  | .postingSuccess => [.success]
  | .postingError => [.error]
  | .initRunner | .runSuitRunner => [.success, .error]
  | _ => []

theorem posts_mayPost {state : AgentState} {type : MessageType} (posts : state.posts = some type) :
    type ∈ state.mayPost := by
  cases state with
  | postingQueryResponse =>
    cases posts
    decide
  | postingSuccess =>
    cases posts
    decide
  | postingError =>
    cases posts
    decide
  | _ => cases posts

/-- The passes of `query_next_broker_task` that hand out a task. -/
inductive TaskOutcome (p : Platform) (ta : Ta) : Ta → Prop where
  | silent {task : BrokerTask} (command : ta.session.state.task = some task.command)
      (quiet : ta.session.state.posts = none) : TaskOutcome p ta (ta.setTask task)
  | posted {type : MessageType} (state : ta.session.state.posts = some type) :
    TaskOutcome p ta (postMessage p ta type (messageOps ta.session type))

/-- The same passes with the task that each state hands out. -/
inductive HandsOut (p : Platform) (ta : Ta) : Ta → Prop where
  | initial (state : ta.session.state = .postingInitialRequest) :
    HandsOut p ta (ta.setTask { postTask p ta.session with postDataLen := 0 })
  | posted {type : MessageType} (state : ta.session.state.posts = some type) :
    HandsOut p ta (postMessage p ta type (messageOps ta.session type))
  | fetch {uri : Bytes} (state : ta.session.state = .fetchComponent)
      (waits : uri = ta.session.suitRunner.effects.user.fetchUri.getD [])
      (fits : uri.length ≤ teepMaxUriLen) :
    HandsOut p ta (ta.setTask { ta.session.taskBuffer with
      command := .httpGet
      uri := uri ++ List.replicate (teepMaxUriLen - uri.length) 0
      postDataLen := 0 })
  | finish (state : ta.session.state = .finish) :
    HandsOut p ta (ta.setTask { ta.session.taskBuffer with
      command := .finish
      uri := ta.session.taskBuffer.uri.set 0 0
      postDataLen := 0 })

theorem queryBody_handsOut {fuel : Nat} {ta next : Ta}
    (pass : queryBody p fuel ta = .inr (.ok next)) : HandsOut p ta next := by
  unfold queryBody at pass
  split at pass
  · cases pass
  · rename_i state
    cases pass
    exact .initial state
  · rename_i state
    cases pass
    exact .posted (by rw [state]; rfl)
  · rename_i state
    cases pass
    exact .posted (by rw [state]; rfl)
  · rename_i state
    cases pass
    exact .posted (by rw [state]; rfl)
  · split at pass
    · cases pass
    · cases pass
  · split at pass
    · cases pass
    · dsimp only at pass
      split at pass
      · cases pass
      · split at pass
        · cases pass
        · cases pass
  · rename_i state
    dsimp only at pass
    split at pass
    · cases pass
    · rename_i fits
      cases pass
      exact .fetch state rfl (Nat.not_lt.mp fits)
  · rename_i state
    cases pass
    exact .finish state

theorem queryBody_hands {fuel : Nat} {ta next : Ta}
    (pass : queryBody p fuel ta = .inr (.ok next)) : TaskOutcome p ta next := by
  cases queryBody_handsOut pass with
  | posted state => exact .posted state
  | initial state | fetch state | finish state =>
    exact .silent (by rw [state]; rfl) (by rw [state]; rfl)

/-- A pass that hands out a task changes the task and the history only. -/
theorem queryBody_leaves {fuel : Nat} {ta next : Ta}
    (pass : queryBody p fuel ta = .inr (.ok next)) :
    ∃ task history, next = { ta with
      session := { ta.session with onGoingTask := true, taskBuffer := task }
      history := history } := by
  cases queryBody_hands pass with
  | silent command => exact ⟨_, _, rfl⟩
  | posted state => exact ⟨_, _, rfl⟩

/-- What the passes keep and the last one establishes holds after a query. -/
theorem queryNextBrokerTask_rule {fuel : Nat} (inv : Ta → Prop) (post : Except Fault Ta → Prop)
    (goes : ∀ ta next, inv ta → queryBody p fuel ta = .inl next → inv next)
    (leaves : ∀ ta result, inv ta → queryBody p fuel ta = .inr result → post result)
    {ta : Ta} (initial : inv ta) (idle : ta.session.onGoingTask = false) :
    post (queryNextBrokerTask p fuel ta) := by
  have notBusy : ¬ ta.session.onGoingTask = true := by
    rw [idle]
    exact Bool.false_ne_true
  unfold queryNextBrokerTask
  rw [if_neg notBusy]
  exact Loop.iter_invariant inv post goes leaves initial
    (Loop.eval_iter (queryBody_decreasing p fuel) ta)

end Queries

/-- A pass changes only the state and the runner. -/
theorem pass_same {fuel : Nat} {ta next : Ta} (pass : PassOutcome p fuel ta next) :
    ∃ state runner,
      next = { ta with session := { ta.session with state := state, suitRunner := runner } } := by
  cases pass with
  | begins => exact ⟨_, _, rfl⟩
  | starts => exact ⟨_, _, rfl⟩
  | runs => exact ⟨_, _, rfl⟩

/-- What each pass keeps while no task is out, and the pass that hands one out
establishes, holds after a query that ends well. -/
theorem query_rule {fuel : Nat} (inv post : Ta → Prop)
    (goes : ∀ s next, inv s → s.session.onGoingTask = false → PassOutcome p fuel s next → inv next)
    (hands : ∀ s next, inv s → s.session.onGoingTask = false →
      queryBody p fuel s = .inr (.ok next) → post next)
    {ta ta' : Ta} (initial : inv ta) (idle : ta.session.onGoingTask = false)
    (query : queryNextBrokerTask p fuel ta = .ok ta') : post ta' := by
  have moves (s next : Ta) (holds : inv s ∧ s.session.onGoingTask = false)
      (pass : queryBody p fuel s = .inl next) :
      inv next ∧ next.session.onGoingTask = false := by
    have outcome := queryBody_goes pass
    refine ⟨goes s next holds.1 holds.2 outcome, ?_⟩
    obtain ⟨state, runner, rfl⟩ := pass_same outcome
    exact holds.2
  have leaves (s : Ta) (result : Except Fault Ta)
      (holds : inv s ∧ s.session.onGoingTask = false)
      (pass : queryBody p fuel s = .inr result) : ∀ ta', result = .ok ta' → post ta' := by
    intro ta' same
    rw [same] at pass
    exact hands s ta' holds.1 holds.2 pass
  exact queryNextBrokerTask_rule _ _ moves leaves ⟨initial, idle⟩ idle ta' query

theorem pass_mayPost {fuel : Nat} {ta next : Ta} (pass : PassOutcome p fuel ta next) :
    ∀ type ∈ next.session.state.mayPost, type ∈ ta.session.state.mayPost := by
  cases pass with
  | begins => exact fun _ member => absurd member List.not_mem_nil
  | starts state =>
    rw [state]
    exact fun _ member => member
  | @runs runner state ran =>
    rw [state]
    dsimp only
    rcases stateAfterRun_cases runner with last | last | last
    · rw [last]
      decide
    · rw [last]
      decide
    · rw [last]
      decide

/-- A query goes through passes that change the state and the runner, and then
hands out the task of the state it reached. -/
theorem query_hands {fuel : Nat} {ta ta' : Ta} (idle : ta.session.onGoingTask = false)
    (query : queryNextBrokerTask p fuel ta = .ok ta') :
    ∃ state runner,
      (∀ type ∈ state.mayPost, type ∈ ta.session.state.mayPost) ∧
      TaskOutcome p { ta with session := { ta.session with state := state, suitRunner := runner } }
        ta' := by
  refine query_rule
    (fun s => ∃ state runner, (∀ type ∈ state.mayPost, type ∈ ta.session.state.mayPost) ∧
      s = { ta with session := { ta.session with state := state, suitRunner := runner } })
    (fun ta' => ∃ state runner, (∀ type ∈ state.mayPost, type ∈ ta.session.state.mayPost) ∧
      TaskOutcome p { ta with session := { ta.session with state := state, suitRunner := runner } }
        ta')
    ?_ ?_ ⟨_, _, fun _ member => member, rfl⟩ idle query
  · rintro _ next ⟨state, runner, may, rfl⟩ _ pass
    have less := pass_mayPost pass
    obtain ⟨state', runner', rfl⟩ := pass_same pass
    exact ⟨state', runner', fun type member => may type (less type member), rfl⟩
  · rintro _ next ⟨state, runner, may, rfl⟩ _ pass
    exact ⟨state, runner, may, queryBody_hands pass⟩

theorem query_busy {fuel : Nat} {ta ta' : Ta} (query : queryNextBrokerTask p fuel ta = .ok ta') :
    ta'.session.onGoingTask = true := by
  cases idle : ta.session.onGoingTask with
  | true =>
    rw [queryNextBrokerTask, if_pos idle] at query
    cases query
    exact idle
  | false =>
    obtain ⟨state, runner, -, outcome⟩ := query_hands idle query
    cases outcome with
    | silent => rfl
    | posted => rfl

/-- A session in `AGENT_POSTING_ERROR` hands out its Error next. -/
theorem query_postsError {ta : Ta} (idle : ta.session.onGoingTask = false)
    (state : ta.session.state = .postingError) (fuel : Nat) :
    queryNextBrokerTask p fuel ta = .ok (postMessage p ta .error (errorOps ta.session)) := by
  have notBusy : ¬ ta.session.onGoingTask = true := by
    rw [idle]
    exact Bool.false_ne_true
  rw [queryNextBrokerTask, if_neg notBusy, Loop.eval_unfold]
  simp only [queryBody, state]

/-- More fuel changes no result. -/
theorem queryNextBrokerTask_fuel {n m : Nat} (le : n ≤ m) {ta ta' : Ta}
    (queried : queryNextBrokerTask p n ta = .ok ta') : queryNextBrokerTask p m ta = .ok ta' := by
  have same (s : Ta) : queryBody p m s = queryBody p n s ∨
      ∃ r, queryBody p n s = .inr r ∧ ¬ ∃ ta, r = .ok ta := by
    by_cases state : s.session.state = .runSuitRunner
    · cases ran : suitRunnerRun (suitCallbacks p.beyond p.installTa) p.frames n
        s.session.suitRunner with
      | none =>
        have failed : ¬ ∃ ta, (.error .outOfFuel : Except Fault Ta) = .ok ta := by
          rintro ⟨ta, same⟩
          cases same
        refine .inr ⟨.error .outOfFuel, ?_, failed⟩
        simp only [queryBody, state, ran]
      | some runner =>
        have more := suitRunnerRun_mono _ _ le ran
        refine .inl ?_
        simp only [queryBody, state, ran, more]
    · refine .inl ?_
      cases other : s.session.state with
      | runSuitRunner => exact absurd other state
      | _ => simp only [queryBody, other]
  unfold queryNextBrokerTask at queried ⊢
  split at queried
  · rename_i busy
    rw [if_pos busy]
    exact queried
  · rename_i idle
    rw [if_neg idle]
    have ran := Loop.eval_iter (queryBody_decreasing p n) ta
    rw [queried] at ran
    have again := Loop.iter_replace (fun r => ∃ ta, r = .ok ta) same ran ⟨ta', rfl⟩
    exact Loop.iter_unique (Loop.eval_iter (queryBody_decreasing p m) ta) again

theorem invokeCommand_fuel {n m : Nat} (le : n ≤ m) {ta : Ta} {command : Command}
    {result : Ta × Response} (done : invokeCommand p n ta command = .ok result) :
    invokeCommand p m ta command = .ok result := by
  cases command with
  | setDevOption option value => exact done
  | brokerTaskDone buffer => exact done
  | queryNextBrokerTask uriSize postDataSize =>
    simp only [invokeCommand] at done ⊢
    cases query : queryNextBrokerTask p n ta with
    | error fault =>
      rw [query] at done
      cases done
    | ok next =>
      rw [query] at done
      rw [queryNextBrokerTask_fuel le query]
      exact done
  | other id => exact done

theorem step_deterministic (ta : Ta) (command : Command) (left right : Ta)
    (step : Step p ta command left) (step' : Step p ta command right) : left = right := by
  obtain ⟨n, response, done⟩ := step
  obtain ⟨m, response', done'⟩ := step'
  have first := invokeCommand_fuel (Nat.le_max_left n m) done
  have second := invokeCommand_fuel (Nat.le_max_right n m) done'
  cases first.symm.trans second
  rfl

section Invocations
variable {fuel : Nat} {ta ta' : Ta} {response : Response}

/-- An option is set to the string in the buffer, if there is one. -/
theorem invokeCommand_option {option : Nat} {value : Bytes}
    (done : invokeCommand p fuel ta (.setDevOption option value) = .ok (ta', response)) :
    ta' = ta ∧ response = ⟨teeErrorBadParameters, none⟩ ∨
      ∃ result, setDevOption p ta option (value.takeWhile (· ≠ 0)) = (ta', result) ∧
        response = ⟨result, none⟩ := by
  simp only [invokeCommand] at done
  split at done
  · cases done
  · split at done
    · cases done
      exact .inl ⟨rfl, rfl⟩
    · cases done
      exact .inr ⟨_, rfl, rfl⟩

theorem invokeCommand_done {buffer : Bytes}
    (done : invokeCommand p fuel ta (.brokerTaskDone buffer) = .ok (ta', response)) :
    ∃ result, brokerTaskDone p ta buffer = .ok (ta', result) := by
  simp only [invokeCommand] at done
  split at done
  · cases done
  · rename_i handled
    cases done
    exact ⟨_, handled⟩

/-- A task that is handed out is copied from the session. -/
theorem invokeCommand_query {uriSize postDataSize : Nat}
    (queried : invokeCommand p fuel ta (.queryNextBrokerTask uriSize postDataSize) =
      .ok (ta', response)) :
    queryNextBrokerTask p fuel ta = .ok ta' ∧
      copyoutTask ta'.session.taskBuffer uriSize postDataSize = .ok response := by
  simp only [invokeCommand] at queried
  split at queried
  · cases queried
  · rename_i query
    split at queried
    · cases queried
    · rename_i copied
      cases queried
      exact ⟨query, copied⟩

end Invocations

/-- Everything one command can do. -/
inductive StepOutcome (p : Platform) (ta : Ta) : Command → Ta → Prop where
  | unchanged (command : Command) : StepOutcome p ta command ta
  | configured {command : Command} {tamUri : Bytes} {requests : List ManifestRequest}
      (state : ta.session.state = .init) :
    StepOutcome p ta command
      { ta with session := { ta.session with tamUri := tamUri, requests := requests } }
  | replied {buffer : Bytes} {next : Ta} {result : Nat} (busy : ta.session.onGoingTask = true)
      (post : ta.session.taskBuffer.command = .httpPost)
      (outcome : TamOutcome p ta buffer next result) :
    StepOutcome p ta (.brokerTaskDone buffer) next.clearTask
  | downloaded {buffer : Bytes} (busy : ta.session.onGoingTask = true)
      (fetch : ta.session.taskBuffer.command = .httpGet) :
    StepOutcome p ta (.brokerTaskDone buffer) (handleComponentDownload p ta buffer).1.clearTask
  | queried {fuel uriSize postDataSize : Nat} {next : Ta}
      (idle : ta.session.onGoingTask = false)
      (query : queryNextBrokerTask p fuel ta = .ok next) :
    StepOutcome p ta (.queryNextBrokerTask uriSize postDataSize) next

theorem brokerTaskDone_post {ta : Ta} {buffer : Bytes} (busy : ta.session.onGoingTask = true)
    (post : ta.session.taskBuffer.command = .httpPost) :
    brokerTaskDone p ta buffer =
      (handleTamMessage p ta buffer).map (Prod.map Ta.clearTask id) := by
  simp only [brokerTaskDone, busy, post, Bool.not_true, Bool.false_eq_true, if_false]
  cases handleTamMessage p ta buffer with
  | error fault => rfl
  | ok result => rfl

theorem brokerTaskDone_handled {ta ta' : Ta} {buffer : Bytes} {result : Nat}
    (busy : ta.session.onGoingTask = true) (post : ta.session.taskBuffer.command = .httpPost)
    (done : brokerTaskDone p ta buffer = .ok (ta', result)) :
    ∃ next, handleTamMessage p ta buffer = .ok (next, result) ∧ ta' = next.clearTask := by
  rw [brokerTaskDone_post busy post] at done
  cases handled : handleTamMessage p ta buffer with
  | error fault =>
    rw [handled] at done
    cases done
  | ok pair =>
    obtain ⟨next, result'⟩ := pair
    rw [handled] at done
    cases done
    exact ⟨next, rfl, rfl⟩

theorem brokerTaskDone_outcome {ta ta' : Ta} {buffer : Bytes} {result : Nat}
    (done : brokerTaskDone p ta buffer = .ok (ta', result)) :
    StepOutcome p ta (.brokerTaskDone buffer) ta' := by
  unfold brokerTaskDone at done
  split at done
  · cases done
    exact .unchanged _
  · rename_i busy
    replace busy : ta.session.onGoingTask = true := by simpa using busy
    split at done
    · cases done
      exact .unchanged _
    · rename_i post
      split at done
      · cases done
      · rename_i handled
        cases done
        exact .replied busy post (handleTamMessage_outcome handled)
    · rename_i fetch
      cases done
      exact .downloaded busy fetch

theorem setDevOption_outcome (ta : Ta) (command : Command) (option : Nat) (value : Bytes) :
    StepOutcome p ta command (setDevOption p ta option value).1 := by
  unfold setDevOption
  split
  · exact .unchanged _
  · rename_i state
    replace state : ta.session.state = .init := Decidable.not_not.mp state
    split
    · split
      · exact .unchanged _
      · exact .configured state
    · split
      · split
        · exact .unchanged _
        · split
          · exact .unchanged _
          · exact .configured state
      · exact .unchanged _

theorem step_outcome {ta ta' : Ta} {command : Command} (step : Step p ta command ta') :
    StepOutcome p ta command ta' := by
  obtain ⟨fuel, response, done⟩ := step
  cases command with
  | setDevOption option value =>
    rcases invokeCommand_option done with ⟨rfl, -⟩ | ⟨result, set, -⟩
    · exact .unchanged _
    · have outcome := @setDevOption_outcome p ta (.setDevOption option value) option
        (value.takeWhile (· ≠ 0))
      rw [set] at outcome
      exact outcome
  | brokerTaskDone buffer =>
    obtain ⟨result, handled⟩ := invokeCommand_done done
    exact brokerTaskDone_outcome handled
  | queryNextBrokerTask uriSize postDataSize =>
    obtain ⟨query, -⟩ := invokeCommand_query done
    cases idle : ta.session.onGoingTask with
    | true =>
      unfold queryNextBrokerTask at query
      rw [if_pos idle] at query
      cases query
      exact .unchanged _
    | false => exact .queried idle query
  | other id =>
    simp only [invokeCommand] at done
    cases done
    exact .unchanged _

/-- An outstanding task is the one that goes with the state. -/
def TaskMatches (ta : Ta) : Prop :=
  ta.session.onGoingTask = true → ta.session.state.task = some ta.session.taskBuffer.command

theorem TaskMatches.of_idle {ta : Ta} (idle : ta.session.onGoingTask = false) :
    TaskMatches ta := by
  intro busy
  rw [idle] at busy
  cases busy

theorem posts_task {state : AgentState} {type : MessageType} (posts : state.posts = some type) :
    state.task = some .httpPost := by
  cases state with
  | postingQueryResponse => rfl
  | postingSuccess => rfl
  | postingError => rfl
  | _ => cases posts

theorem step_taskMatches {ta ta' : Ta} {command : Command} (matching : TaskMatches ta)
    (step : Step p ta command ta') : TaskMatches ta' := by
  cases step_outcome step with
  | unchanged => exact matching
  | configured => exact matching
  | replied => exact .of_idle rfl
  | downloaded => exact .of_idle rfl
  | @queried fuel _ _ _ idle query =>
    refine query_rule (fun _ => True) TaskMatches (fun _ _ _ _ _ => trivial) ?_ trivial idle query
    intro s next _ _ pass
    cases queryBody_hands pass with
    | silent command => exact fun _ => command
    | posted state => exact fun _ => posts_task state

theorem run_taskMatches {memory : Session} {commands : List Command} {ta : Ta}
    (run : Run (Step p) (Ta.start memory) commands ta) : TaskMatches ta :=
  run.invariant TaskMatches (fun _ _ _ matching step => step_taskMatches matching step)
    (.of_idle rfl)

end TeepDevice.Agent
