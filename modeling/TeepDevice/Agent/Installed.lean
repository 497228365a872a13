import TeepDevice.Agent.Downloads

/-! Two sessions whose envelopes have the same signed members. They install the
same images exactly when they are given the same: no digest is looked at. -/
namespace TeepDevice.Agent
open Tcbor Suit Teep Transition

section Related
variable {ε ε' α β γ α' β' : Type}

/-- What two computations return, if both do. -/
def BothOk (related : α → β → Prop) (first : Except ε α) (second : Except ε' β) : Prop :=
  ∀ a b, first = .ok a → second = .ok b → related a b

theorem BothOk.error {related : α → β → Prop} {e : ε} {second : Except ε' β} :
    BothOk related (.error e) second := by
  intro a b first
  cases first

theorem BothOk.pure {related : α → β → Prop} {a : α} {b : β} (here : related a b) :
    BothOk related (.ok a : Except ε α) (.ok b : Except ε' β) := by
  intro a b first second
  cases first
  cases second
  exact here

theorem BothOk.bind {related : α → β → Prop} {related' : α' → β' → Prop} {first : Except ε α}
    {second : Except ε' β} {f : α → Except ε α'} {g : β → Except ε' β'}
    (both : BothOk related first second)
    (next : ∀ a b, related a b → BothOk related' (f a) (g b)) :
    BothOk related' (first >>= f) (second >>= g) := by
  cases first with
  | error e => exact .error
  | ok a =>
    cases second with
    | error e =>
      intro a' b' _ never
      cases never
    | ok b => exact next a b (both a b rfl rfl)

theorem BothOk.foldlM {related : α → β → Prop} {f : α → γ → Except ε α} {g : β → γ → Except ε' β}
    (step : ∀ x a b, related a b → BothOk related (f a x) (g b x)) (xs : List γ) {a : α} {b : β}
    (start : related a b) : BothOk related (xs.foldlM f a) (xs.foldlM g b) := by
  induction xs generalizing a b with
  | nil => exact .pure start
  | cons x xs ih =>
    rw [List.foldlM_cons, List.foldlM_cons]
    exact (step x a b start).bind fun _ _ next => ih next

end Related

section Alike

/-- The same fetch, but for the image of a local one. -/
inductive SameFetch : Fetch → Fetch → Prop where
  | remote (filename uri : Bytes) : SameFetch ⟨filename, .remote uri⟩ ⟨filename, .remote uri⟩
  | member (filename image image' : Bytes) :
    SameFetch ⟨filename, .member image⟩ ⟨filename, .member image'⟩

/-- Shared state that differs in these images only. -/
structure Alike (fx fx' : Effects (List Fetch) Unit) : Prop where
  rest : fx' = { fx with user := fx'.user }
  fetches : List.Forall₂ SameFetch fx.user fx'.user

theorem Alike.refl (fx : Effects (List Fetch) Unit) : Alike fx fx := by
  refine ⟨rfl, List.forall₂_same.mpr ?_⟩
  rintro ⟨filename, source⟩ _
  cases source with
  | member image => exact .member filename image image
  | remote uri => exact .remote filename uri

variable {beyond : Beyond} {fx fx' : Effects (List Fetch) Unit}

theorem store_alike (alike : Alike fx fx') (object : Object) (body body' : Range) :
    Alike (applyReply ((planCallbacks beyond).store fx.user object body) fx).2
      (applyReply ((planCallbacks beyond).store fx'.user object body') fx').2 := by
  obtain ⟨rest, fetches⟩ := alike
  rw [rest]
  cases object with
  | dependency index => exact ⟨rfl, fetches⟩
  | component index component =>
    rcases parse : parseComponentId beyond component ⟨[], []⟩ with ⟨_ | _, path⟩
    · simp only [planCallbacks, parse, applyReply]
      exact ⟨rfl, fetches⟩
    · simp only [planCallbacks, parse, applyReply]
      exact ⟨rfl, List.rel_append fetches (.cons (.member _ _ _) .nil)⟩

theorem fetchAndStore_alike (alike : Alike fx fx') (object : Object) (uri : Bytes) :
    Alike (applyReply ((planCallbacks beyond).fetchAndStore fx.user object uri) fx).2
      (applyReply ((planCallbacks beyond).fetchAndStore fx'.user object uri) fx').2 := by
  obtain ⟨rest, fetches⟩ := alike
  rw [rest]
  cases object with
  | dependency index => exact ⟨rfl, fetches⟩
  | component index component =>
    rcases parse : parseComponentId beyond component ⟨[], []⟩ with ⟨_ | _, path⟩
    · simp only [planCallbacks, parse, applyReply]
      exact ⟨rfl, fetches⟩
    · simp only [planCallbacks, parse, applyReply]
      exact ⟨rfl, List.rel_append fetches (.cons (.remote _ _) .nil)⟩

/-- Two results of one handler, alike if the handler succeeded both times. -/
def AlikeResults (result result' : Bool × Effects (List Fetch) Unit) : Prop :=
  result.1 = true → result'.1 = true → Alike result.2 result'.2

theorem AlikeResults.of_alike {result result' : Bool × Effects (List Fetch) Unit}
    (alike : Alike result.2 result'.2) : AlikeResults result result' := fun _ _ => alike

variable (alike : Alike fx fx') (manifest : Manifest) (envelope : Range) (target : Nat)
  (object : Object) (command : Nat) (param : Bytes)
include alike

theorem directiveFetch_alike :
    AlikeResults (directiveFetch (planCallbacks beyond) manifest target object command param fx)
      (directiveFetch (planCallbacks beyond) { manifest with envelopeBstr := envelope } target
        object command param fx') := by
  have failed {fx fx' : Effects (List Fetch) Unit} : AlikeResults (false, fx) (false, fx') := nofun
  have bindings : fx'.bindings = fx.bindings := by rw [alike.rest]
  unfold directiveFetch
  rw [bindings]
  split
  · exact failed
  · split
    · exact failed
    · split
      · exact failed
      · exact failed
      · split
        · dsimp only
          rename_i c uri _ _ _
          cases suitEnvelopeGetFieldByName manifest.envelopeBstr (some (c :: uri)) with
          | none => nofun
          | some body =>
            cases suitEnvelopeGetFieldByName envelope (some (c :: uri)) with
            | none => nofun
            | some body' => exact .of_alike (store_alike alike object body body')
        · exact .of_alike (fetchAndStore_alike alike object _)

theorem directiveSetParameters_alike :
    AlikeResults (directiveSetParameters manifest target object command param fx)
      (directiveSetParameters { manifest with envelopeBstr := envelope } target object command param
        fx') := by
  obtain ⟨rest, fetches⟩ := alike
  have mapped := directiveSetParameters_map (R := Unit) (f := fun _ : List Fetch => fx'.user)
    manifest target object command param fx
  have same : fx.map (fun _ => fx'.user) = fx' := rest.symm
  rw [same] at mapped
  obtain ⟨bindings, set⟩ := directiveSetParameters_keeps manifest target object command param fx
  have unread : directiveSetParameters { manifest with envelopeBstr := envelope } target object
      command param fx' = directiveSetParameters manifest target object command param fx' := rfl
  apply AlikeResults.of_alike
  rw [unread, mapped]
  simp only [Prod.map, set]
  exact ⟨rfl, fetches⟩

theorem callHandler_alike {handler : Handler (List Fetch) Unit}
    (found : findHandler (planCallbacks beyond) command false = some handler) :
    AlikeResults (callHandler handler manifest target object command param fx)
      (callHandler handler { manifest with envelopeBstr := envelope } target object command param
        fx') := by
  have called : Alike { fx with calls := fx.calls ++ [⟨target, object, command, param⟩] }
      { fx' with calls := fx'.calls ++ [⟨target, object, command, param⟩] } := by
    obtain ⟨rest, fetches⟩ := alike
    rw [rest]
    exact ⟨rfl, fetches⟩
  obtain ⟨h, member, -, rfl⟩ := findHandler_mem found
  simp only [commandHandlers, List.mem_cons, List.not_mem_nil, or_false] at member
  rcases member with rfl | rfl | rfl | rfl | rfl | rfl | rfl
  · exact .of_alike called
  · exact .of_alike called
  · exact .of_alike called
  · exact directiveSetParameters_alike called manifest envelope target object command param
  · exact directiveSetParameters_alike called manifest envelope target object command param
  · exact .of_alike called
  · exact directiveFetch_alike called manifest envelope target object command param

end Alike

section Interpreted
variable {p : Platform} (manifest : Manifest) (envelope : Range)

structure AlikeMeanings (st st' : Meaning (List Fetch) Unit) : Prop where
  selecting : st'.selecting = st.selecting
  effects : Alike st.effects st'.effects

theorem Alike.settle {fx fx' : Effects (List Fetch) Unit} (alike : Alike fx fx') :
    Alike (settle fx) (settle fx') := by
  obtain ⟨rest, fetches⟩ := alike
  rw [rest]
  exact ⟨rfl, fetches⟩

theorem applyTo_alike {command : Nat} {handler : Handler (List Fetch) Unit}
    (found : findHandler (planCallbacks p.beyond) command false = some handler) (param : Bytes)
    (target : Target) (fx fx' : Effects (List Fetch) Unit) (alike : Alike fx fx') :
    BothOk Alike (applyTo manifest handler command param fx target)
      (applyTo { manifest with envelopeBstr := envelope } handler command param fx' target) := by
  cases target with
  | none => exact .error
  | some target =>
    obtain ⟨address, object⟩ := target
    have results := callHandler_alike alike manifest envelope address object command param found
    simp only [applyTo]
    generalize callHandler handler manifest address object command param fx = result at results ⊢
    generalize callHandler handler { manifest with envelopeBstr := envelope } address object
      command param fx' = result' at results ⊢
    obtain ⟨ok, after⟩ := result
    obtain ⟨ok', after'⟩ := result'
    cases ok with
    | false => exact .error
    | true =>
      cases ok' with
      | false =>
        intro a b _ never
        cases never
      | true => exact .pure (results rfl rfl).settle

theorem execCommand_alike (isCommon : Bool) (command : Nat) (param : Bytes)
    (st st' : Meaning (List Fetch) Unit) (alike : AlikeMeanings st st') :
    BothOk AlikeMeanings
      (execCommand (planCallbacks p.beyond) p.frames manifest isCommon command param st)
      (execCommand (planCallbacks p.beyond) p.frames { manifest with envelopeBstr := envelope }
        isCommon command param st') := by
  obtain ⟨selecting, effects⟩ := alike
  unfold execCommand
  split
  · exact .pure ⟨rfl, effects⟩
  · split
    · exact .pure ⟨rfl, effects⟩
    · cases found : findHandler (planCallbacks p.beyond) command isCommon with
      | none => exact .error
      | some handler =>
        have targets : selectedTargets p.frames { manifest with envelopeBstr := envelope }
            st'.selecting = selectedTargets p.frames manifest st.selecting := by
          rw [selecting]
          rfl
        dsimp only
        rw [targets]
        refine BothOk.bind (.foldlM (fun target fx fx' =>
          applyTo_alike manifest envelope (findHandler_target found) param target fx fx') _ effects)
          ?_
        exact fun fx fx' alike => .pure ⟨selecting, alike⟩

theorem interpret_alike (common target : Context) :
    BothOk AlikeMeanings
      (interpret (planCallbacks p.beyond) p.frames manifest common target [])
      (interpret (planCallbacks p.beyond) p.frames { manifest with envelopeBstr := envelope } common
        target []) := by
  have pairs (isCommon : Bool) (pair : Option (Nat × Bytes)) (st st' : Meaning (List Fetch) Unit)
      (alike : AlikeMeanings st st') : BothOk AlikeMeanings
        (execPair (planCallbacks p.beyond) p.frames manifest isCommon st pair)
        (execPair (planCallbacks p.beyond) p.frames { manifest with envelopeBstr := envelope }
          isCommon st' pair) := by
    cases pair with
    | none => exact .error
    | some pair => exact execCommand_alike manifest envelope isCommon pair.1 pair.2 st st' alike
  unfold interpret execSequences
  refine BothOk.bind (.foldlM (pairs true) _ ⟨rfl, .refl _⟩) ?_
  exact fun st st' alike => .foldlM (pairs false) _ alike

theorem planResult_alike {context context' : SuitContext}
    (root : suitContextGetRootManifest context = some manifest)
    (root' : suitContextGetRootManifest context' =
      some { manifest with envelopeBstr := envelope }) :
    BothOk AlikeMeanings (planResult p context) (planResult p context') := by
  have opens : openSequences p.wild .install { manifest with envelopeBstr := envelope } =
      openSequences p.wild .install manifest := rfl
  unfold planResult
  rw [root, root', Option.bind_some, Option.bind_some, opens]
  cases openSequences p.wild .install manifest with
  | none => exact .pure ⟨rfl, .refl _⟩
  | some pair => exact interpret_alike manifest envelope pair.1 pair.2

end Interpreted

section Images

/-- The images of the local fetches, found in the envelope. -/
def members (fetches : List Fetch) : List Bytes :=
  fetches.filterMap fun fetch =>
    match fetch.source with
    | .member image => some image
    | .remote _ => none

theorem landed_eq_iff {fetches fetches' : List Fetch} {downloads downloads' : List Bytes}
    (same : List.Forall₂ SameFetch fetches fetches')
    (count : (remotes fetches).length = downloads.length)
    (count' : (remotes fetches').length = downloads'.length) :
    landed fetches downloads = landed fetches' downloads' ↔
      downloads = downloads' ∧ members fetches = members fetches' := by
  induction same generalizing downloads downloads' with
  | nil =>
    have none : downloads = [] := List.length_eq_zero_iff.mp count.symm
    have none' : downloads' = [] := List.length_eq_zero_iff.mp count'.symm
    simp [none, none']
  | @cons fetch fetch' later later' head tail ih =>
    cases head with
    | member filename image image' =>
      have rest := ih count count'
      simp only [landed, List.cons.injEq, Prod.mk.injEq, true_and, rest, members,
        List.filterMap_cons]
      constructor
      · rintro ⟨here, same, later⟩
        exact ⟨same, here, later⟩
      · rintro ⟨same, here, later⟩
        exact ⟨here, same, later⟩
    | remote filename uri =>
      cases downloads with
      | nil => cases count
      | cons image downloads =>
        cases downloads' with
        | nil => cases count'
        | cons image' downloads' =>
          have fewer : (remotes later).length = downloads.length := by simpa [remotes] using count
          have fewer' : (remotes later').length = downloads'.length := by
            simpa [remotes] using count'
          simp only [landed, List.cons.injEq, Prod.mk.injEq, true_and, ih fewer fewer', members,
            List.filterMap_cons, and_assoc]

end Images

section TwoSessions
variable {p : Platform}

/-- Envelopes with the same authentication wrapper and the same manifest. -/
structure SignedAlike (envelope envelope' : Range) : Prop where
  wrapper : suitEnvelopeGetFieldByKey envelope Label.authenticationWrapper =
    suitEnvelopeGetFieldByKey envelope' Label.authenticationWrapper
  manifest : suitEnvelopeGetFieldByKey envelope Label.manifest =
    suitEnvelopeGetFieldByKey envelope' Label.manifest

theorem parsedFrom_alike {e e' : Bytes} {m m' : Manifest} (parse : ParsedFrom e m)
    (parse' : ParsedFrom e' m') (alike : SignedAlike m.envelopeBstr m'.envelopeBstr) :
    m' = { m with envelopeBstr := m'.envelopeBstr } := by
  unfold ParsedFrom suitEnvelopeGetManifest at parse parse'
  cases field : suitEnvelopeGetFieldByKey (some e) Label.manifest with
  | none =>
    rw [field] at parse
    cases parse
  | some bstr =>
    cases field' : suitEnvelopeGetFieldByKey (some e') Label.manifest with
    | none =>
      rw [field'] at parse'
      cases parse'
    | some bstr' =>
      simp only [field] at parse
      simp only [field'] at parse'
      rcases read : suitManifestParse bstr .zero with ⟨_ | _, m₀⟩
      · rw [read] at parse
        cases parse
      · rw [read] at parse
        cases parse
        rcases read' : suitManifestParse bstr' .zero with ⟨_ | _, m₁⟩
        · rw [read'] at parse'
          cases parse'
        · rw [read'] at parse'
          cases parse'
          have same := alike.manifest
          dsimp only at same
          rw [field, field'] at same
          cases same
          cases read.symm.trans read'
          rfl

theorem LoggedStep.run {memory : Session} {commands : List Command} {ta : Ta}
    {log : List (Bytes × Bytes)}
    (run : Run (LoggedStep p) (Ta.start memory, []) commands (ta, log)) :
    Run (Step p) (Ta.start memory) commands ta :=
  run.map Prod.fst fun _ _ _ step => step.1

theorem root_parsed {memory : Session} {commands : List Command} {ta : Ta} {m : Manifest}
    (run : Run (Step p) (Ta.start memory) commands ta)
    (root : suitContextGetRootManifest ta.session.suitContext = some m) :
    ∃ e, ParsedFrom e m := by
  unfold suitContextGetRootManifest at root
  split at root
  · cases root
  · rename_i some
    cases root
    obtain ⟨e, -, parse⟩ := (manifests_authenticated run).1 0 (Nat.pos_of_ne_zero some)
    exact ⟨e, parse⟩

/-- A session that reports Success stored all fetches of its manifest. -/
theorem success_settled {memory : Session} {commands : List Command} {ta : Ta}
    {log : List (Bytes × Bytes)}
    (run : Run (LoggedStep p) (Ta.start memory, []) commands (ta, log))
    (success : ta.session.state = .postingSuccess) :
    Settled ta.stores (fetchesOf p ta.session.suitContext) log ∧
      ∃ meaning, planResult p ta.session.suitContext = .ok meaning := by
  obtain ⟨-, progress⟩ := run_progress run
  cases progress with
  | unstarted state =>
    simp [success, AgentState.phase] at state
  | carrying traced carrying =>
    refine ⟨?_, carrying.ok success⟩
    have stores : ta.stores = traced.effects.user.1.stores := by
      rw [Ta.stores, ← carrying.runner]
      rfl
    have all := carrying.all (by simp [success])
    dsimp only at all
    rw [stores, ← all]
    cases carrying.landing with
    | settled _ settled => exact settled
    | pending suspended =>
      have other := carrying.waits.mp suspended
      dsimp only at other
      rw [success] at other
      cases other

/-- The session of the README with another image for its component. -/
def downloadSession (image : Bytes) : List Command :=
  readmeCommands ++ [query, .brokerTaskDone image, query]

/-- The platform of the README, with a digest that tells short images apart. -/
def digestPlatform : Platform :=
  { readmePlatform with
    crypto :=
      { readmePlatform.crypto with
        sha256 := fun bytes =>
          if bytes.length < 32 then some (bytes ++ List.replicate (32 - bytes.length) 0)
          else some (readmeDigest.drop 4) } }

/-- The value of IMAGE_DIGEST in the README's manifest: a digest for SHA-256. -/
def readmeImageDigest : Bytes :=
  [0x00, 0x11, 0x22, 0x33, 0x44, 0x55, 0x66, 0x77, 0x88, 0x99, 0xAA, 0xBB, 0xCC, 0xDD, 0xEE, 0xFF,
   0x01, 0x23, 0x45, 0x67, 0x89, 0xAB, 0xCD, 0xEF, 0xFE, 0xDC, 0xBA, 0x98, 0x76, 0x54, 0x32, 0x10]

/-- The commands that the runner executed: set the parameters, check vendor and
class, set the URI, fetch, check the image. -/
def readmeCalls : List Nat := [20, 1, 2, 19, 21, 3]

/-- What is looked at in a session with that Update. -/
structure Installation where
  state : AgentState
  calls : List Nat
  digest : Option Bytes
  envelope : Option Range
  images : List Bytes
  deriving DecidableEq, Repr

def installedBy (image : Bytes) : Option Installation :=
  (exec (execLogged digestPlatform 20) (Ta.start blankMemory, []) (downloadSession image)).map
    fun s => ⟨s.1.session.state, s.1.session.suitRunner.effects.calls.map Call.command,
      suitRunnerGetParameter s.1.session.suitRunner.effects.bindings 1 3,
      (suitContextGetRootManifest s.1.session.suitContext).map Manifest.envelopeBstr,
      s.1.stores.map Stored.image⟩

theorem installedBy_run {image : Bytes} {calls : List Nat} {digest : Option Bytes}
    {envelope : Range} {images : List Bytes}
    (installed : installedBy image =
      some ⟨.postingSuccess, calls, digest, some envelope, images⟩) :
    ∃ ta log m, Run (LoggedStep digestPlatform) (Ta.start blankMemory, []) (downloadSession image)
        (ta, log) ∧
      ta.session.state = .postingSuccess ∧
      suitContextGetRootManifest ta.session.suitContext = some m ∧ m.envelopeBstr = envelope ∧
      ta.session.suitRunner.effects.calls.map Call.command = calls ∧
      suitRunnerGetParameter ta.session.suitRunner.effects.bindings 1 3 = digest ∧
      ta.stores.map Stored.image = images := by
  obtain ⟨⟨ta, log⟩, executed, seen⟩ := Option.map_eq_some_iff.mp installed
  simp only [Installation.mk.injEq, Option.map_eq_some_iff] at seen
  obtain ⟨state, called, parameter, ⟨m, root, envelope⟩, stored⟩ := seen
  exact ⟨ta, log, m, Run.of_exec (fun _ _ _ => execLogged_step) executed, state, root, envelope,
    called, parameter, stored⟩

def readmeEnvelope : Bytes := slice readmeUpdate 8 357

end TwoSessions

end TeepDevice.Agent
