import TeepDevice.Agent.Runs

/-! The manifests in the context of a session: over every run they are parses of
authenticated envelopes, and the one Update that starts the runner fills it. -/
namespace TeepDevice.Agent
open Tcbor Suit Teep Transition

variable {p : Platform}

/-- The envelope passes `suit_authenticate_envelope` under the signer's key. -/
def Authentic (p : Platform) (envelope : Bytes) : Prop :=
  suitAuthenticateEnvelope p.crypto envelope tcSingerPubkey = true

def ParsedFrom (envelope : Bytes) (manifest : Manifest) : Prop :=
  suitEnvelopeGetManifest (some envelope) .zero = (true, manifest)

section Adding

/-- Slots that no manifest was parsed into yet. -/
def Blank (context : SuitContext) : Prop :=
  ∀ i, context.nManifest ≤ i → context.manifests i = .zero

theorem suitContextInit_blank : Blank suitContextInit := by
  intro i _
  rfl

/-- The context with one more manifest. -/
def pushManifest (context : SuitContext) (m : Manifest) : SuitContext :=
  ⟨context.nManifest + 1, (context.write context.nManifest m).manifests⟩

@[simp] theorem pushManifest_count (context : SuitContext) (m : Manifest) :
    (pushManifest context m).nManifest = context.nManifest + 1 := rfl

@[simp] theorem pushManifest_last (context : SuitContext) (m : Manifest) :
    (pushManifest context m).manifests context.nManifest = m := if_pos rfl

theorem pushManifest_other (context : SuitContext) (m : Manifest) {i : Nat}
    (other : i ≠ context.nManifest) :
    (pushManifest context m).manifests i = context.manifests i := if_neg other

/-- One envelope is refused, and no counted slot changes, or it is parsed into
the next slot. -/
theorem suitContextAddEnvelope_cases (context : SuitContext) (envelope : Range) :
    (∃ context', suitContextAddEnvelope context envelope = (false, context') ∧
      context'.nManifest = context.nManifest ∧
      ∀ i < context.nManifest, context'.manifests i = context.manifests i) ∨
    (∃ m, suitEnvelopeGetManifest envelope (context.manifests context.nManifest) = (true, m) ∧
      suitContextAddEnvelope context envelope = (true, pushManifest context m)) := by
  unfold suitContextAddEnvelope
  split
  · exact .inl ⟨context, rfl, rfl, fun _ _ => rfl⟩
  · split
    · rename_i m _
      exact .inl ⟨_, rfl, rfl, fun i below => if_neg (Nat.ne_of_lt below)⟩
    · rename_i m parsed
      exact .inr ⟨m, parsed, rfl⟩

/-- Adding parses a first part of the envelopes, all of them on success, into
the slots above those in use. -/
theorem addInOrder_spec (envelopes : List Bytes) (context : SuitContext) (blank : Blank context) :
    ∃ n ≤ envelopes.length,
      (addInOrder envelopes context).2.nManifest = context.nManifest + n ∧
      ((addInOrder envelopes context).1 = true → n = envelopes.length) ∧
      (∀ i < context.nManifest,
        (addInOrder envelopes context).2.manifests i = context.manifests i) ∧
      ∀ k < n, ∃ e, envelopes[k]? = some e ∧
        ParsedFrom e ((addInOrder envelopes context).2.manifests (context.nManifest + k)) := by
  induction envelopes generalizing context with
  | nil =>
    refine ⟨0, Nat.le_refl 0, rfl, fun _ => rfl, fun _ _ => rfl, ?_⟩
    intro k below
    exact absurd below (Nat.not_lt_zero k)
  | cons envelope rest ih =>
    rcases suitContextAddEnvelope_cases context (some envelope) with
      ⟨context', refused, count, same⟩ | ⟨m, parse, added⟩
    · simp only [addInOrder, refused]
      refine ⟨0, Nat.zero_le _, count, ?_, same, ?_⟩
      · intro success
        cases success
      intro k below
      exact absurd below (Nat.not_lt_zero k)
    · have blank' : Blank (pushManifest context m) := by
        intro i above
        rw [pushManifest_other context m (Nat.ne_of_gt above)]
        exact blank i (Nat.le_of_lt above)
      obtain ⟨n, within, count, whole, kept, parsed⟩ := ih _ blank'
      simp only [addInOrder, added]
      refine ⟨n + 1, Nat.succ_le_succ within, ?_, ?_, ?_, ?_⟩
      · rw [count, pushManifest_count]
        omega
      · intro success
        rw [whole success, List.length_cons]
      · intro i below
        rw [kept i (Nat.lt_succ_of_lt below)]
        exact pushManifest_other context m (Nat.ne_of_lt below)
      · intro k below
        cases k with
        | zero =>
          refine ⟨envelope, rfl, ?_⟩
          rw [blank context.nManifest (Nat.le_refl _)] at parse
          rw [Nat.add_zero, kept context.nManifest (Nat.lt_succ_self _), pushManifest_last]
          exact parse
        | succ k =>
          obtain ⟨e, here, from_e⟩ := parsed k (Nat.lt_of_succ_lt_succ below)
          rw [pushManifest_count] at from_e
          rw [show context.nManifest + (k + 1) = context.nManifest + 1 + k by omega]
          exact ⟨e, by simpa using here, from_e⟩

/-- The context holds the parses of exactly these envelopes, the last one of
the Update first, and all of them are authentic. -/
structure HoldsExactly (p : Platform) (envelopes : List Bytes) (context : SuitContext) : Prop where
  authentic : ∀ e ∈ envelopes, Authentic p e
  count : context.nManifest = envelopes.length
  parses : ∀ i e, envelopes.reverse[i]? = some e → ParsedFrom e (context.manifests i)

theorem HoldsExactly.root {envelopes : List Bytes} {context : SuitContext}
    (holds : HoldsExactly p envelopes context) {e : Bytes} (last : envelopes.getLast? = some e) :
    ∃ m, suitContextGetRootManifest context = some m ∧ ParsedFrom e m := by
  have nonempty : context.nManifest ≠ 0 := by
    intro none
    rw [holds.count, List.length_eq_zero_iff] at none
    rw [none] at last
    cases last
  have first : envelopes.reverse[0]? = some e := by
    rw [← List.head?_eq_getElem?, List.head?_reverse, last]
  refine ⟨context.manifests 0, ?_, holds.parses 0 e first⟩
  rw [suitContextGetRootManifest, if_neg nonempty]

theorem addInOrder_holds {envelopes : List Bytes} {allocations : Nat}
    (storable : EnvelopesStorable p 0 allocations envelopes)
    (success : (addInOrder envelopes.reverse suitContextInit).1 = true) :
    HoldsExactly p envelopes (addInOrder envelopes.reverse suitContextInit).2 := by
  obtain ⟨n, -, count, whole, -, parsed⟩ :=
    addInOrder_spec envelopes.reverse suitContextInit suitContextInit_blank
  have all := whole success
  rw [List.length_reverse] at all
  refine ⟨(envelopesStorable_authentic storable).1, ?_, ?_⟩
  · rw [count, all]
    exact Nat.zero_add _
  · intro i e here
    have below : i < n := by
      have inside := (List.getElem?_eq_some_iff.mp here).1
      rwa [List.length_reverse, ← all] at inside
    obtain ⟨e', here', from_e⟩ := parsed i below
    cases here.symm.trans here'
    have start : suitContextInit.nManifest + i = i := Nat.zero_add i
    rwa [start] at from_e

end Adding

section Context

/-- States a session is in before it accepts an Update. -/
def AgentState.beforeUpdate : AgentState → Bool
  | .init | .postingInitialRequest | .postingQueryResponse => true
  | _ => false

/-- Steps that leave the context alone: they neither go back to a state before
the Update nor start the runner. -/
structure KeepsContext (ta ta' : Ta) : Prop where
  same : ta'.session.suitContext = ta.session.suitContext
  before : ta'.session.state.beforeUpdate = true → ta.session.state.beforeUpdate = true
  starts : ta'.session.state = .initRunner → ta.session.state = .initRunner

/-- The step that hands the envelopes of an Update to the context. -/
structure AcceptsUpdate (p : Platform) (ta : Ta) (command : Command) (envelopes : List Bytes)
    (ta' : Ta) : Prop where
  update : ∃ buffer m, command = .brokerTaskDone buffer ∧ parsed p ta buffer = some m ∧
    m.type = .update ∧ m.manifestList.getD [] = envelopes
  posted : ta.session.onGoingTask = true ∧ ta.session.taskBuffer.command = .httpPost
  state : ta.session.state = .postingQueryResponse
  storable : ∃ allocations, EnvelopesStorable p 0 allocations envelopes
  context : ta'.session.suitContext =
    (addInOrder envelopes.reverse ta.session.suitContext).2
  next : ta'.session.state = if (addInOrder envelopes.reverse ta.session.suitContext).1
    then .initRunner else .postingError

theorem KeepsContext.refl (ta : Ta) : KeepsContext ta ta := ⟨rfl, id, id⟩

/-- A state after the Update that is not the start of the runner. -/
theorem KeepsContext.of_later {ta ta' : Ta}
    (same : ta'.session.suitContext = ta.session.suitContext)
    (later : ta'.session.state.beforeUpdate = false) (other : ta'.session.state ≠ .initRunner) :
    KeepsContext ta ta' := by
  refine ⟨same, ?_, ?_⟩
  · intro before
    rw [later] at before
    cases before
  · intro starts
    exact absurd starts other

theorem pass_keepsContext {fuel : Nat} {start ta next : Ta} (keeps : KeepsContext start ta)
    (pass : PassOutcome p fuel ta next) : KeepsContext start next := by
  cases pass with
  | begins state =>
    refine ⟨keeps.same, fun _ => keeps.before ?_, nofun⟩
    rw [state]
    rfl
  | starts state started => exact .of_later keeps.same rfl nofun
  | @runs runner state ran =>
    rcases stateAfterRun_cases runner with last | last | last
    · exact .of_later keeps.same (by rw [last]; rfl) (by rw [last]; nofun)
    · exact .of_later keeps.same (by rw [last]; rfl) (by rw [last]; nofun)
    · exact .of_later keeps.same (by rw [last]; rfl) (by rw [last]; nofun)

theorem query_keepsContext {fuel : Nat} {ta ta' : Ta} (idle : ta.session.onGoingTask = false)
    (query : queryNextBrokerTask p fuel ta = .ok ta') : KeepsContext ta ta' := by
  refine query_rule (KeepsContext ta) (KeepsContext ta) ?_ ?_ (.refl ta) idle query
  · intro s next keeps _ pass
    exact pass_keepsContext keeps pass
  · intro s next keeps _ pass
    obtain ⟨task, history, rfl⟩ := queryBody_leaves pass
    exact ⟨keeps.same, keeps.before, keeps.starts⟩

theorem download_keepsContext (ta : Ta) (buffer : Bytes) :
    KeepsContext ta (handleComponentDownload p ta buffer).1.clearTask := by
  unfold handleComponentDownload
  split
  · exact .of_later rfl rfl nofun
  · exact .of_later rfl rfl nofun

/-- What one command does to the context. -/
theorem step_context {ta ta' : Ta} {command : Command} (step : Step p ta command ta') :
    KeepsContext ta ta' ∨ ∃ envelopes, AcceptsUpdate p ta command envelopes ta' := by
  cases step_outcome step with
  | unchanged => exact .inl (.refl ta)
  | configured => exact .inl ⟨rfl, id, id⟩
  | downloaded busy fetch => exact .inl (download_keepsContext ta _)
  | queried idle query => exact .inl (query_keepsContext idle query)
  | replied busy post outcome =>
    cases outcome with
    | ended => exact .inl (.of_later rfl rfl nofun)
    | afterError => exact .inl (.of_later rfl rfl nofun)
    | unparsed => exact .inl (.of_later rfl rfl nofun)
    | refused => exact .inl (.of_later rfl rfl nofun)
    | requested content parse type state =>
      refine .inl ⟨rfl, fun _ => ?_, nofun⟩
      rw [state]
      rfl
    | notStored => exact .inl ⟨rfl, id, id⟩
    | updated slots allocations content parse type state storable =>
      refine .inr ⟨_, ⟨_, _, rfl, parse, type, rfl⟩, ⟨busy, post⟩, state, ⟨_, storable⟩, rfl, rfl⟩

/-- Before the Update the context is as it was created; whatever it holds was
parsed from an authentic envelope. -/
structure OnlyAuthentic (p : Platform) (ta : Ta) : Prop where
  fresh : ta.session.state.beforeUpdate = true → ta.session.suitContext = suitContextInit
  manifests : ∀ i < ta.session.suitContext.nManifest,
    ∃ e, Authentic p e ∧ ParsedFrom e (ta.session.suitContext.manifests i)

theorem step_onlyAuthentic {ta ta' : Ta} {command : Command} (only : OnlyAuthentic p ta)
    (step : Step p ta command ta') : OnlyAuthentic p ta' := by
  rcases step_context step with keeps | ⟨envelopes, accepts⟩
  · constructor
    · intro before
      rw [keeps.same]
      exact only.fresh (keeps.before before)
    · rw [keeps.same]
      exact only.manifests
  · have fresh : ta.session.suitContext = suitContextInit := by
      apply only.fresh
      rw [accepts.state]
      rfl
    have context := accepts.context
    rw [fresh] at context
    obtain ⟨n, within, count, -, -, parsed⟩ :=
      addInOrder_spec envelopes.reverse suitContextInit suitContextInit_blank
    rw [← context] at count parsed
    have total : ta'.session.suitContext.nManifest = n := count.trans (Nat.zero_add n)
    constructor
    · intro before
      rw [accepts.next] at before
      split at before
      · cases before
      · cases before
    · intro i below
      obtain ⟨e, here, from_e⟩ := parsed i (total ▸ below)
      obtain ⟨allocations, storable⟩ := accepts.storable
      have member : e ∈ envelopes := List.mem_reverse.mp (List.mem_of_getElem? here)
      refine ⟨e, (envelopesStorable_authentic storable).1 e member, ?_⟩
      have start : suitContextInit.nManifest + i = i := Nat.zero_add i
      rwa [start] at from_e

/-- The Update that starts the runner is the one the context holds. -/
theorem AcceptsUpdate.holds {ta ta' : Ta} {command : Command} {envelopes : List Bytes}
    (accepts : AcceptsUpdate p ta command envelopes ta') (only : OnlyAuthentic p ta)
    (starts : ta'.session.state = .initRunner) :
    HoldsExactly p envelopes ta'.session.suitContext := by
  obtain ⟨allocations, storable⟩ := accepts.storable
  have fresh : ta.session.suitContext = suitContextInit := by
    apply only.fresh
    rw [accepts.state]
    rfl
  have context := accepts.context
  have next := accepts.next
  rw [fresh] at context next
  have success : (addInOrder envelopes.reverse suitContextInit).1 = true := by
    by_contra failed
    rw [if_neg failed, starts] at next
    cases next
  rw [context]
  exact addInOrder_holds storable success

theorem run_onlyAuthentic {memory : Session} {commands : List Command} {ta : Ta}
    (run : Run (Step p) (Ta.start memory) commands ta) : OnlyAuthentic p ta := by
  apply run.invariant (OnlyAuthentic p) (fun _ _ _ only step => step_onlyAuthentic only step)
  constructor
  · intro _
    rfl
  · intro i below
    exact absurd below (Nat.not_lt_zero i)

/-- Authenticated-only manifests. -/
theorem manifests_authenticated {memory : Session} {commands : List Command} {ta : Ta}
    (run : Run (Step p) (Ta.start memory) commands ta) :
    (∀ i < ta.session.suitContext.nManifest,
      ∃ e, Authentic p e ∧ ParsedFrom e (ta.session.suitContext.manifests i)) ∧
    ∀ command ta', Step p ta command ta' → ta.session.state ≠ .initRunner →
      ta'.session.state = .initRunner →
        ∃ buffer m, command = .brokerTaskDone buffer ∧ parsed p ta buffer = some m ∧
          m.type = .update ∧ HoldsExactly p (m.manifestList.getD []) ta'.session.suitContext ∧
          ∀ e, (m.manifestList.getD []).getLast? = some e →
            ∃ root, suitContextGetRootManifest ta'.session.suitContext = some root ∧
              ParsedFrom e root := by
  have only := run_onlyAuthentic run
  refine ⟨only.manifests, ?_⟩
  intro command ta' step elsewhere starts
  rcases step_context step with keeps | ⟨envelopes, accepts⟩
  · exact absurd (keeps.starts starts) elsewhere
  · have holds := accepts.holds only starts
    obtain ⟨buffer, m, sent, parse, type, rfl⟩ := accepts.update
    exact ⟨buffer, m, sent, parse, type, holds, fun e last => holds.root last⟩

end Context

section Readme

/-- The Update of the session that README.md shows. -/
def readmeUpdate : Bytes :=
  [0x82, 0x03, 0xA2, 0x0A, 0x81, 0x59, 0x01, 0x5D, 0xD8, 0x6B, 0xA2, 0x02, 0x58, 0x73, 0x82, 0x58,
   0x24, 0x82, 0x2F, 0x58, 0x20, 0xE5, 0x2A, 0xE9, 0xE8, 0xAC, 0x01, 0x49, 0x41, 0x2E, 0x3C, 0xEB,
   0xE8, 0x8D, 0x6C, 0xB7, 0x27, 0xA9, 0xDE, 0xD6, 0x42, 0x24, 0x1A, 0xFD, 0x39, 0xD5, 0xED, 0x0E,
   0x51, 0xE8, 0x9A, 0x95, 0xBF, 0x58, 0x4A, 0xD2, 0x84, 0x43, 0xA1, 0x01, 0x26, 0xA0, 0xF6, 0x58,
   0x40, 0x97, 0xC2, 0xE8, 0x79, 0x81, 0xC5, 0x23, 0x6B, 0x63, 0xC5, 0xAF, 0x51, 0x41, 0x6C, 0x43,
   0xF6, 0x9D, 0xE8, 0x91, 0xD7, 0xEB, 0xAB, 0x73, 0x7A, 0x30, 0x52, 0xA7, 0x74, 0x02, 0x73, 0x01,
   0x0F, 0xB6, 0x70, 0xE2, 0x0B, 0x70, 0xD8, 0x3B, 0xCF, 0xC3, 0x31, 0x8A, 0x26, 0x39, 0xD0, 0x4D,
   0x1F, 0xCF, 0x4B, 0x77, 0x83, 0xF3, 0x24, 0x7F, 0x43, 0x2E, 0x9D, 0x77, 0x00, 0x37, 0x6B, 0xCC,
   0xE0, 0x03, 0x58, 0xE1, 0xA5, 0x01, 0x01, 0x02, 0x01, 0x03, 0x58, 0x86, 0xA2, 0x02, 0x81, 0x84,
   0x4B, 0x54, 0x45, 0x45, 0x50, 0x2D, 0x44, 0x65, 0x76, 0x69, 0x63, 0x65, 0x48, 0x53, 0x65, 0x63,
   0x75, 0x72, 0x65, 0x46, 0x53, 0x50, 0x8D, 0x82, 0x57, 0x3A, 0x92, 0x6D, 0x47, 0x54, 0x93, 0x53,
   0x32, 0xDC, 0x29, 0x99, 0x7F, 0x74, 0x42, 0x74, 0x61, 0x04, 0x58, 0x56, 0x86, 0x14, 0xA4, 0x01,
   0x50, 0xFA, 0x6B, 0x4A, 0x53, 0xD5, 0xAD, 0x5F, 0xDF, 0xBE, 0x9D, 0xE6, 0x63, 0xE4, 0xD4, 0x1F,
   0xFE, 0x02, 0x50, 0x14, 0x92, 0xAF, 0x14, 0x25, 0x69, 0x5E, 0x48, 0xBF, 0x42, 0x9B, 0x2D, 0x51,
   0xF2, 0xAB, 0x45, 0x03, 0x58, 0x24, 0x82, 0x2F, 0x58, 0x20, 0x00, 0x11, 0x22, 0x33, 0x44, 0x55,
   0x66, 0x77, 0x88, 0x99, 0xAA, 0xBB, 0xCC, 0xDD, 0xEE, 0xFF, 0x01, 0x23, 0x45, 0x67, 0x89, 0xAB,
   0xCD, 0xEF, 0xFE, 0xDC, 0xBA, 0x98, 0x76, 0x54, 0x32, 0x10, 0x0E, 0x19, 0x87, 0xD0, 0x01, 0x0F,
   0x02, 0x0F, 0x09, 0x58, 0x4B, 0x86, 0x13, 0xA1, 0x15, 0x78, 0x41, 0x68, 0x74, 0x74, 0x70, 0x3A,
   0x2F, 0x2F, 0x31, 0x32, 0x37, 0x2E, 0x30, 0x2E, 0x30, 0x2E, 0x31, 0x3A, 0x38, 0x38, 0x38, 0x38,
   0x2F, 0x54, 0x41, 0x73, 0x2F, 0x38, 0x64, 0x38, 0x32, 0x35, 0x37, 0x33, 0x61, 0x2D, 0x39, 0x32,
   0x36, 0x64, 0x2D, 0x34, 0x37, 0x35, 0x34, 0x2D, 0x39, 0x33, 0x35, 0x33, 0x2D, 0x33, 0x32, 0x64,
   0x63, 0x32, 0x39, 0x39, 0x39, 0x37, 0x66, 0x37, 0x34, 0x2E, 0x74, 0x61, 0x15, 0x02, 0x03, 0x0F,
   0x0A, 0x43, 0x82, 0x03, 0x0F, 0x14, 0x48, 0xAB, 0xA1, 0xA2, 0xA3, 0xA4, 0xA5, 0xA6, 0xA7]

/-- The QueryRequest in front of it. -/
def readmeQueryRequest : Bytes :=
  [0x83, 0x01, 0xA5, 0x01, 0x81, 0x01, 0x03, 0x81, 0x00, 0x04, 0x43, 0x01, 0x02, 0x05, 0x14, 0x48,
   0x77, 0x77, 0x77, 0x77, 0x77, 0x77, 0x77, 0x77, 0x15, 0x81, 0x00, 0x02]

/-- The digest that is signed in the envelope of the Update, and its signature. -/
def readmeDigest : Bytes := slice readmeUpdate 17 53

def readmeSign1 : Bytes := slice readmeUpdate 55 129

/-- A platform that answers as the real one does in that session. -/
def readmePlatform : Platform where
  qcbor := referenceQcbor
  crypto :=
    { verifyDetached := fun _ signature payload =>
        signature == readmeSign1 && payload == readmeDigest
      sha256 := fun _ => some (readmeDigest.drop 4) }
  malloc _ _ := true
  installTa _ _ _ := true
  beyond _ _ := 0
  wild _ := none
  frames := ⟨0, 1, 2⟩
  ownStrncpy := false

def blankMemory : Session where
  state := .finish
  tamUri := List.replicate teepMaxUriLen 0
  onGoingTask := false
  taskBuffer :=
    ⟨.finish, List.replicate teepMaxUriLen 0, List.replicate teepMaxMessageLen 0, 0⟩
  token := none
  requests := []
  dataItemRequested := 0
  suitContext := suitContextInit
  suitRunner := ⟨.install, none, none, ⟨.zero, .exit⟩, [], false,
    ⟨[], false, none, ⟨none, ⟨[], []⟩, []⟩, []⟩⟩

def query : Command := .queryNextBrokerTask teepMaxUriLen teepMaxMessageLen

/-- Up to the reply with the Update. -/
def readmeCommands : List Command :=
  [query, .brokerTaskDone readmeQueryRequest, query, .brokerTaskDone readmeUpdate]

/-- Up to the Success that follows the download of the component. -/
def readmeSession : List Command :=
  readmeCommands ++ [query, .brokerTaskDone [0x7F, 0x45, 0x4C, 0x46], query]

theorem manifests_authenticated_readme :
    ∃ ta, exec (execStep readmePlatform 0 fun _ _ => True) (Ta.start blankMemory) readmeCommands =
        some ta ∧
      ta.session.state = .initRunner ∧ ta.session.suitContext.nManifest = 1 ∧
      ∀ i < ta.session.suitContext.nManifest,
        ∃ e, Authentic readmePlatform e ∧ ParsedFrom e (ta.session.suitContext.manifests i) := by
  have reached : (exec (execStep readmePlatform 0 fun _ _ => True) (Ta.start blankMemory)
      readmeCommands).map (fun ta => (ta.session.state, ta.session.suitContext.nManifest)) =
        some (.initRunner, 1) := by decide +kernel
  obtain ⟨ta, executed, last⟩ := Option.map_eq_some_iff.mp reached
  have authenticated := manifests_authenticated (exec_run executed).of_guarded
  exact ⟨ta, executed, congrArg Prod.fst last, congrArg Prod.snd last, authenticated.1⟩

end Readme

end TeepDevice.Agent
