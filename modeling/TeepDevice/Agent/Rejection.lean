import TeepDevice.Agent.Started

/-! Replies the agent does not accept: each leads to a TEEP Error, except an
Update whose envelopes cannot be stored. -/
namespace TeepDevice.Agent
open Tcbor Suit Teep Transition

variable {p : Platform}

section Storing

theorem storeBstr_free {ta : Ta} {index : Nat} {buf : Bytes}
    (free : ta.suitManifests index ≠ .dangling)
    (allocated : p.malloc ta.allocations buf.length = true) :
    storeBstr p ta index buf = .ok (true, { ta with
      suitManifests := fun i => if i = index then .stored buf else ta.suitManifests i
      allocations := ta.allocations + 1 }) := by
  unfold storeBstr
  cases slot : ta.suitManifests index with
  | dangling => exact absurd slot free
  | null => simp only [allocated, if_true]
  | stored e => simp only [allocated, if_true]

/-- Envelopes that can be stored are, unless a slot was freed before. -/
theorem storeSuitEnvelopes_storable {index : Nat} {envelopes : List Bytes} {ta : Ta}
    (storable : EnvelopesStorable p index ta.allocations envelopes) :
    (∃ ta', storeSuitEnvelopes p index envelopes ta = .ok (true, ta')) ↔
      ∀ k < envelopes.length, ta.suitManifests (index + k) ≠ .dangling := by
  induction envelopes generalizing index ta with
  | nil =>
    constructor
    · intro _ k below
      exact absurd below (Nat.not_lt_zero k)
    · intro _
      exact ⟨ta, rfl⟩
  | cons envelope rest ih =>
    obtain ⟨⟨below, authentic, allocated⟩, others⟩ := storable
    simp only [storeSuitEnvelopes, storeSuitEnvelope, if_pos below, if_pos authentic,
      List.length_cons, Nat.forall_lt_succ_left, Nat.add_zero]
    by_cases slot : ta.suitManifests index = .dangling
    · constructor
      · rintro ⟨ta', done⟩
        simp only [storeBstr, slot] at done
        cases done
      · rintro ⟨first, -⟩
        exact absurd slot first
    · -- the slots after this one are as they were
      have later (k : Nat) : ¬ index + (k + 1) = index := by omega
      simp only [storeBstr_free slot allocated]
      rw [ih others]
      simp only [Nat.add_assoc, Nat.add_comm 1, later, if_false]
      constructor
      · intro fine
        exact ⟨slot, fine⟩
      · rintro ⟨-, fine⟩
        exact fine

/-- With room in the context, adding succeeds when every envelope parses. -/
theorem addInOrder_success {envelopes : List Bytes} {context : SuitContext} (blank : Blank context)
    (room : context.nManifest + envelopes.length ≤ manifestMax) :
    (addInOrder envelopes context).1 = true ↔ ∀ e ∈ envelopes, ∃ m, ParsedFrom e m := by
  induction envelopes generalizing context with
  | nil =>
    constructor
    · intro _ e member
      exact absurd member List.not_mem_nil
    · intro _
      rfl
  | cons envelope rest ih =>
    rw [List.length_cons] at room
    have notFull : context.nManifest ≠ manifestMax := by omega
    have zero := blank context.nManifest (Nat.le_refl _)
    simp only [addInOrder, suitContextAddEnvelope, if_neg notFull, zero, List.forall_mem_cons]
    rcases parse : suitEnvelopeGetManifest (some envelope) .zero with ⟨_ | _, m⟩
    · constructor
      · intro impossible
        cases impossible
      · rintro ⟨⟨m', parsed⟩, -⟩
        rw [ParsedFrom, parse] at parsed
        cases parsed
    · have blank' : Blank (pushManifest context m) := by
        intro i above
        rw [pushManifest_other context m (Nat.ne_of_gt above)]
        exact blank i (Nat.le_of_lt above)
      have room' : (pushManifest context m).nManifest + rest.length ≤ manifestMax := by
        rw [pushManifest_count]
        omega
      have more := ih blank' room'
      constructor
      · intro success
        exact ⟨⟨m, parse⟩, more.mp success⟩
      · rintro ⟨-, parsed⟩
        exact more.mpr parsed

end Storing

section Replies

/-- What `handle_tam_message` has to find to accept a reply. -/
def Accepts (p : Platform) (ta : Ta) (buffer : Bytes) : Prop :=
  ∃ m, parsed p ta buffer = some m ∧ ¬ Refused ta.session.state m ∧
    (m.type = .update →
      EnvelopesStorable p 0 (received p ta buffer).allocations (m.manifestList.getD []) ∧
        ∀ e ∈ m.manifestList.getD [], ∃ manifest, ParsedFrom e manifest)

/-- The reply leaves the session with an Error to post, which the next query
hands out. -/
def ReportsError (p : Platform) (ta : Ta) (buffer : Bytes) : Prop :=
  ∃ ta' result, brokerTaskDone p ta buffer = .ok (ta', result) ∧
    ta'.session.state = .postingError ∧
    ∀ fuel, ∃ next, queryNextBrokerTask p fuel ta' = .ok next ∧
      next.session.taskBuffer.command = .httpPost ∧
      next.history = ta'.history ++ [.posted .error (errorOps ta'.session)
        (p.qcbor.encode (errorOps ta'.session) ta'.session.taskBuffer.postData).2]

/-- A reply that is not accepted is reported, and none repeats the QueryResponse. -/
def RejectionReported (p : Platform) (ta : Ta) (buffer : Bytes) : Prop :=
  (¬ Accepts p ta buffer → ReportsError p ta buffer) ∧
    (ta.session.state = .postingQueryResponse → ∀ ta' result,
      brokerTaskDone p ta buffer = .ok (ta', result) →
        ta'.session.state ≠ .postingQueryResponse)

/-- The envelopes of an Update that the agent waits for can be stored, and
parse unless a slot they go to was freed by an earlier allocation that failed. -/
def UpdateStorable (p : Platform) (ta : Ta) (buffer : Bytes) : Prop :=
  ∀ m, parsed p ta buffer = some m → m.type = .update →
    ta.session.state = .postingQueryResponse →
      EnvelopesStorable p 0 (received p ta buffer).allocations (m.manifestList.getD []) ∧
        ((∀ e ∈ m.manifestList.getD [], ∃ manifest, ParsedFrom e manifest) ∨
          ∀ k < (m.manifestList.getD []).length, ta.suitManifests k ≠ .dangling)

variable {ta : Ta} {buffer : Bytes}

theorem reportsError_of_handled {next : Ta} {result : Nat}
    (busy : ta.session.onGoingTask = true) (post : ta.session.taskBuffer.command = .httpPost)
    (handled : handleTamMessage p ta buffer = .ok (next, result))
    (state : next.session.state = .postingError) : ReportsError p ta buffer := by
  refine ⟨next.clearTask, result, ?_, state, ?_⟩
  · rw [brokerTaskDone_post busy post, handled]
    rfl
  · intro fuel
    have idle : next.clearTask.session.onGoingTask = false := rfl
    have error : next.clearTask.session.state = .postingError := state
    exact ⟨_, query_postsError idle error fuel, rfl, rfl⟩

theorem handled_of_reportsError (busy : ta.session.onGoingTask = true)
    (post : ta.session.taskBuffer.command = .httpPost) (reports : ReportsError p ta buffer) :
    ∃ next result, handleTamMessage p ta buffer = .ok (next, result) ∧
      next.session.state = .postingError := by
  obtain ⟨ta', result, done, state, -⟩ := reports
  obtain ⟨next, handled, rfl⟩ := brokerTaskDone_handled busy post done
  exact ⟨next, result, handled, state⟩

/-- Where the condition fails, the code misses the report. -/
theorem updateStorable_of_reported (busy : ta.session.onGoingTask = true)
    (post : ta.session.taskBuffer.command = .httpPost) (content : buffer ≠ [])
    (reported : ¬ Accepts p ta buffer → ReportsError p ta buffer) : UpdateStorable p ta buffer := by
  intro m parse type state
  have live : ta.session.state ≠ .postingError := by
    rw [state]
    nofun
  by_cases accepts : Accepts p ta buffer
  · obtain ⟨m', parse', -, all⟩ := accepts
    cases parse.symm.trans parse'
    exact ⟨(all type).1, .inl (all type).2⟩
  obtain ⟨next, result, handled, error⟩ := handled_of_reportsError busy post (reported accepts)
  by_cases storable : EnvelopesStorable p 0 (received p ta buffer).allocations
      (m.manifestList.getD [])
  · refine ⟨storable, .inr ?_⟩
    have fine : ∃ ta', storeSuitEnvelopes p 0 (m.manifestList.getD []) (received p ta buffer) =
        .ok (true, ta') := by
      rw [handleTamMessage_parsed content live parse] at handled
      simp only [handleParsed, type, handleUpdate] at handled
      rw [if_neg (fun other => other state)] at handled
      cases first : storeSuitEnvelopes p 0 (m.manifestList.getD []) (received p ta buffer) with
      | error fault =>
        rw [first] at handled
        cases handled
      | ok pair =>
        obtain ⟨stored, ta'⟩ := pair
        obtain ⟨-, -, -, -, -, result⟩ := storeSuitEnvelopes_spec first
        cases result.mpr storable
        exact ⟨ta', rfl⟩
    intro k below
    have slot := (storeSuitEnvelopes_storable storable).mp fine k below
    rwa [Nat.zero_add] at slot
  · exfalso
    cases handleTamMessage_outcome handled with
    | ended empty => exact content empty
    | afterError _ dead => exact live dead
    | unparsed _ _ parse' => cases parse.symm.trans parse'
    | refused _ _ parse' refused =>
      cases parse.symm.trans parse'
      rw [Refused, type] at refused
      exact refused state
    | requested _ parse' type' =>
      cases parse.symm.trans parse'
      cases type.symm.trans type'
    | notStored => cases state.symm.trans error
    | updated _ _ _ parse' _ _ storable' =>
      cases parse.symm.trans parse'
      exact storable storable'

theorem reported_of_updateStorable (busy : ta.session.onGoingTask = true)
    (post : ta.session.taskBuffer.command = .httpPost) (live : ta.session.state ≠ .postingError)
    (content : buffer ≠ []) (only : OnlyAuthentic p ta) (condition : UpdateStorable p ta buffer)
    (rejects : ¬ Accepts p ta buffer) : ReportsError p ta buffer := by
  cases parse : parsed p ta buffer with
  | none =>
    exact reportsError_of_handled busy post (handleTamMessage_unparsed content live parse) rfl
  | some m =>
    have handled := handleTamMessage_parsed content live parse
    by_cases refused : Refused ta.session.state m
    · have error : handleParsed p (received p ta buffer) m =
        .ok (teepError (received p ta buffer)) := handleParsed_refused refused
      rw [error] at handled
      exact reportsError_of_handled busy post handled rfl
    · by_cases type : m.type = .update
      · have state : ta.session.state = .postingQueryResponse := by
          rw [Refused, type] at refused
          exact Decidable.not_not.mp refused
        obtain ⟨storable, parses⟩ := condition m parse type state
        have unparsed : ¬ ∀ e ∈ m.manifestList.getD [], ∃ manifest, ParsedFrom e manifest :=
          fun all => rejects ⟨m, parse, refused, fun _ => ⟨storable, all⟩⟩
        have free := parses.resolve_left unparsed
        obtain ⟨ta', stored⟩ := (storeSuitEnvelopes_storable storable).mpr (by
          intro k below
          rw [Nat.zero_add]
          exact free k below)
        have waiting : (received p ta buffer).session.state = .postingQueryResponse := state
        have fresh : ta.session.suitContext = suitContextInit := only.fresh (by rw [state]; rfl)
        have room := (envelopesStorable_authentic storable).2
        have fails : ¬ (addInOrder (m.manifestList.getD []).reverse
            ta.session.suitContext).1 = true := by
          rw [fresh, addInOrder_success suitContextInit_blank]
          · intro all
            exact unparsed fun e member => all e (List.mem_reverse.mpr member)
          · rw [List.length_reverse]
            rcases room with empty | few
            · rw [empty]
              decide
            · exact Nat.le_trans few (by decide)
        simp only [handleParsed, type] at handled
        rw [handleUpdate_added waiting stored] at handled
        refine reportsError_of_handled busy post handled ?_
        obtain ⟨slots, allocations, rfl, -⟩ := storeSuitEnvelopes_spec stored
        exact if_neg fails
      · exact absurd ⟨m, parse, refused, fun update => absurd update type⟩ rejects

theorem noRepeat_of_updateStorable (busy : ta.session.onGoingTask = true)
    (post : ta.session.taskBuffer.command = .httpPost)
    (condition : UpdateStorable p ta buffer) (state : ta.session.state = .postingQueryResponse)
    (ta' : Ta) (result : Nat) (done : brokerTaskDone p ta buffer = .ok (ta', result)) :
    ta'.session.state ≠ .postingQueryResponse := by
  obtain ⟨next, handled, rfl⟩ := brokerTaskDone_handled busy post done
  cases handleTamMessage_outcome handled with
  | ended => nofun
  | afterError => nofun
  | unparsed => nofun
  | refused => nofun
  | requested _ _ _ state' => cases state.symm.trans state'
  | notStored _ parse type _ fails => exact absurd (condition _ parse type state).1 fails
  | updated =>
    dsimp only [Ta.clearTask]
    split
    · nofun
    · nofun

/-- A rejected reply is reported exactly when it is not an Update whose
envelopes cannot be stored. -/
theorem rejection_reported_iff {memory : Session} {commands : List Command}
    (run : Run (Step p) (Ta.start memory) commands ta) (busy : ta.session.onGoingTask = true)
    (post : ta.session.taskBuffer.command = .httpPost) (live : ta.session.state ≠ .postingError)
    (content : buffer ≠ []) : RejectionReported p ta buffer ↔ UpdateStorable p ta buffer := by
  constructor
  · rintro ⟨reported, -⟩
    exact updateStorable_of_reported busy post content reported
  · intro condition
    have only := run_onlyAuthentic run
    exact ⟨reported_of_updateStorable busy post live content only condition,
      noRepeat_of_updateStorable busy post condition⟩

/-- Up to the QueryResponse of the README. -/
def awaitingUpdate : List Command := [query, .brokerTaskDone readmeQueryRequest, query]

theorem rejection_reported_iff_garbage :
    ∃ ta, Run (Step readmePlatform) (Ta.start blankMemory) awaitingUpdate ta ∧
      ta.session.state = .postingQueryResponse ∧ RejectionReported readmePlatform ta [0xFF] := by
  have reached : (exec (execStep readmePlatform 0 fun _ _ => True) (Ta.start blankMemory)
      awaitingUpdate).map (fun ta => (ta.session.state, ta.session.onGoingTask,
        ta.session.taskBuffer.command, parsed readmePlatform ta [0xFF])) =
      some (.postingQueryResponse, true, .httpPost, none) := by decide +kernel
  obtain ⟨ta, executed, last⟩ := Option.map_eq_some_iff.mp reached
  simp only [Prod.mk.injEq] at last
  obtain ⟨state, busy, post, unparsed⟩ := last
  have run := (exec_run executed).of_guarded
  have live : ta.session.state ≠ .postingError := by
    rw [state]
    nofun
  refine ⟨ta, run, state, (rejection_reported_iff run busy post live (by decide)).mpr ?_⟩
  intro m parse
  cases unparsed.symm.trans parse

/-- An Update with an envelope that is an empty byte string. -/
def emptyEnvelopeUpdate : Bytes := [0x82, 0x03, 0xA1, 0x0A, 0x81, 0x40]

theorem empty_envelope_not_reported :
    ∃ ta, Run (Step readmePlatform) (Ta.start blankMemory) awaitingUpdate ta ∧
      ta.session.onGoingTask = true ∧ ta.session.taskBuffer.command = .httpPost ∧
      ta.session.state = .postingQueryResponse ∧
      ¬ RejectionReported readmePlatform ta emptyEnvelopeUpdate := by
  have reached : (exec (execStep readmePlatform 0 fun _ _ => True) (Ta.start blankMemory)
      awaitingUpdate).map (fun ta => (ta.session.state, ta.session.onGoingTask,
        ta.session.taskBuffer.command, parsed readmePlatform ta emptyEnvelopeUpdate)) =
      some (.postingQueryResponse, true, .httpPost,
        some { Message.zero .update with manifestList := some [[]] }) := by decide +kernel
  obtain ⟨ta, executed, last⟩ := Option.map_eq_some_iff.mp reached
  simp only [Prod.mk.injEq] at last
  obtain ⟨state, busy, post, parse⟩ := last
  refine ⟨ta, (exec_run executed).of_guarded, busy, post, state, ?_⟩
  rintro ⟨reported, -⟩
  have storable := updateStorable_of_reported busy post (by decide) reported _ parse rfl state
  exact absurd storable.1.1.2.1 (by decide)

end Replies

end TeepDevice.Agent
