import TeepDevice.Suit.Outcome

/-! Which bytes the install sequence is taken from. A context's slots are reused
after rejected envelopes, and the union behind `install` is read without its
tags; these lemmas say what a slot still holds and what follows for the runner. -/
namespace TeepDevice.Suit
open Tcbor

section Reuse

/-- A field that was read: the tags say which arm of the union was written. -/
def Severable.WasRead (s : Severable) : Prop :=
  s.hasValue = true ∧
    ((s.severed = false ∧ ∃ body, s.arm = .body (some body)) ∨
      (s.severed = true ∧ ∃ d, s.arm = .digest d))

/-- The same fields parsed into two slots: both parses wrote `install`, or
neither did and the first slot still holds `left`. -/
def SameRead (left : SeverableArm) (m n : Manifest) : Prop :=
  m.commonBstr = n.commonBstr ∧
    ((m.install = n.install ∧ m.install.WasRead) ∨
      (m.install.hasValue = false ∧ n.install.hasValue = false ∧ m.install.arm = left))

def FieldAgrees (left : SeverableArm) (x y : Bool × Context × Manifest) : Prop :=
  x.1 = y.1 ∧ (x.1 = true → x.2.1 = y.2.1 ∧ SameRead left x.2.2 y.2.2)

variable {left : SeverableArm} {m n : Manifest}

theorem readDigest_independent (ctx : Context) (d d' : Digest) :
    (readDigest ctx d).1 = (readDigest ctx d').1 ∧
      ((readDigest ctx d).1 = true →
        (readDigest ctx d).2 = (readDigest ctx d').2 ∧ (readDigest ctx d).2.2.isSome) := by
  unfold readDigest
  split
  · exact ⟨rfl, fun h => by cases h⟩
  · split
    · exact ⟨rfl, fun h => by cases h⟩
    · split
      · exact ⟨rfl, fun h => by cases h⟩
      · split
        · exact ⟨rfl, fun h => by cases h⟩
        · exact ⟨rfl, fun _ => ⟨rfl, rfl⟩⟩

/-- A field that is read is read the same whatever was in the union before. -/
theorem readSevered_independent (map : Context) (a b : Severable) :
    (readSevered map a).1 = (readSevered map b).1 ∧
      ((readSevered map a).1 = true →
        (readSevered map a).2 = (readSevered map b).2 ∧ (readSevered map a).2.2.WasRead) := by
  unfold readSevered
  split
  · exact ⟨rfl, fun _ => ⟨rfl, rfl, .inl ⟨rfl, _, rfl⟩⟩⟩
  · rename_i ctx failed
    have same := readDigest_independent ctx a.arm.asDigest b.arm.asDigest
    generalize readDigest ctx a.arm.asDigest = x at same ⊢
    generalize readDigest ctx b.arm.asDigest = y at same ⊢
    obtain ⟨ok, place, written⟩ := x
    obtain ⟨ok', place', written'⟩ := y
    obtain ⟨rfl, equal⟩ := same
    cases ok with
    | false => cases written <;> cases written' <;> exact ⟨rfl, fun h => by cases h⟩
    | true =>
      obtain ⟨same, some⟩ := equal rfl
      cases same
      obtain ⟨d, rfl⟩ := Option.isSome_iff_exists.mp some
      exact ⟨rfl, fun _ => ⟨rfl, rfl, .inr ⟨rfl, d, rfl⟩⟩⟩

theorem bstrField_agrees (map : Context) {store store' : Bytes → Bool × Manifest}
    (same : ∀ b, (store b).1 = (store' b).1) (keeps : ∀ b, SameRead left (store b).2 (store' b).2) :
    FieldAgrees left (bstrField map m store) (bstrField map n store') := by
  unfold bstrField
  split
  · exact ⟨rfl, fun h => by cases h⟩
  · exact ⟨same _, fun _ => ⟨rfl, keeps _⟩⟩

theorem severedField_agrees (map : Context) (a b : Severable)
    {store store' : Severable → Manifest}
    (keeps : ∀ s, s.WasRead → SameRead left (store s) (store' s)) :
    FieldAgrees left (severedField map a store) (severedField map b store') := by
  have same := readSevered_independent map a b
  unfold severedField
  refine ⟨same.1, fun good => ?_⟩
  obtain ⟨equal, value⟩ := same.2 good
  have whole : readSevered map a = readSevered map b := Prod.ext same.1 equal
  rw [← whole]
  exact ⟨rfl, keeps _ value⟩

theorem skippedField_agrees (map : Context) (agree : SameRead left m n) :
    FieldAgrees left (skippedField map m) (skippedField map n) := by
  unfold skippedField
  exact ⟨rfl, fun _ => ⟨rfl, agree⟩⟩

theorem ite_related {α β : Type} {c : Prop} [Decidable c] {P : α → β → Prop} {a b : α} {a' b' : β}
    (yes : c → P a a') (no : ¬ c → P b b') : P (if c then a else b) (if c then a' else b') := by
  by_cases h : c
  · rw [if_pos h, if_pos h]
    exact yes h
  · rw [if_neg h, if_neg h]
    exact no h

theorem parseManifestField_agrees (key : Nat) (map : Context) (agree : SameRead left m n) :
    FieldAgrees left (parseManifestField key map m) (parseManifestField key map n) := by
  have other : ∀ {m' n' : Manifest}, m'.commonBstr = m.commonBstr → n'.commonBstr = n.commonBstr →
      m'.install = m.install → n'.install = n.install → SameRead left m' n' := by
    intro m' n' c c' i i'
    simp only [SameRead, c, c', i, i']
    exact agree
  unfold parseManifestField
  repeat' apply ite_related (P := FieldAgrees left) <;> intro
  · exact ⟨rfl, fun h => by cases h⟩
  · exact bstrField_agrees map (fun _ => rfl) fun _ => ⟨rfl, agree.2⟩
  · exact bstrField_agrees map (fun _ => rfl) fun _ => other rfl rfl rfl rfl
  · exact severedField_agrees map _ _ fun _ _ => other rfl rfl rfl rfl
  · exact severedField_agrees map _ _ fun _ _ => other rfl rfl rfl rfl
  · exact severedField_agrees map _ _ fun _ value => ⟨agree.1, .inl ⟨rfl, value⟩⟩
  · exact severedField_agrees map _ _ fun _ _ => other rfl rfl rfl rfl
  · exact severedField_agrees map _ _ fun _ _ => other rfl rfl rfl rfl
  · exact bstrField_agrees map (fun _ => rfl) fun _ => other rfl rfl rfl rfl
  · exact bstrField_agrees map (fun _ => rfl) fun _ => other rfl rfl rfl rfl
  · exact bstrField_agrees map (fun _ => rfl) fun _ => other rfl rfl rfl rfl
  · exact skippedField_agrees map agree

theorem FieldAgrees.related {left : SeverableArm} {x y : Bool × Context × Manifest}
    (field : FieldAgrees left x y) :
    Sum.LiftRel (fun st st' => st.1 = st'.1 ∧ SameRead left st.2 st'.2) (FieldAgrees left)
      (match x with
        | (true, map, m) => .inl (map, m)
        | (false, map, m) => .inr (false, map, m))
      (match y with
        | (true, map, m) => .inl (map, m)
        | (false, map, m) => .inr (false, map, m)) := by
  obtain ⟨ok, place, m'⟩ := x
  obtain ⟨ok', place', n'⟩ := y
  obtain ⟨rfl, keeps⟩ := field
  cases ok with
  | false => exact .inr ⟨rfl, fun h => by cases h⟩
  | true => exact .inl (keeps rfl)

theorem parseManifestBody_related (left : SeverableArm) (st st' : Context × Manifest)
    (agree : st.1 = st'.1 ∧ SameRead left st.2 st'.2) :
    Sum.LiftRel (fun st st' => st.1 = st'.1 ∧ SameRead left st.2 st'.2) (FieldAgrees left)
      (parseManifestBody st) (parseManifestBody st') := by
  obtain ⟨map, m⟩ := st
  obtain ⟨map', n⟩ := st'
  obtain ⟨rfl, agree⟩ := agree
  simp only [parseManifestBody]
  split
  · exact .inr ⟨rfl, fun _ => ⟨rfl, agree⟩⟩
  · split
    · exact .inr ⟨rfl, fun h => by cases h⟩
    · split
      · exact .inr ⟨rfl, fun h => by cases h⟩
      · split
        · exact (parseManifestField_agrees _ _ agree).related
        · exact (skippedField_agrees _ agree).related

theorem parseManifestFields_agrees (ctx map : Context) (agree : SameRead left m n) :
    (parseManifestFields ctx map m).1 = (parseManifestFields ctx map n).1 ∧
      ((parseManifestFields ctx map m).1 = true →
        SameRead left (parseManifestFields ctx map m).2 (parseManifestFields ctx map n).2) := by
  have related := Loop.eval_related parseManifestBody_decreasing parseManifestBody_decreasing _ _
    (parseManifestBody_related left) (map, m) (map, n) ⟨rfl, agree⟩
  unfold parseManifestFields
  generalize Loop.eval parseManifestBody _ parseManifestBody_decreasing (map, m) = x at related ⊢
  generalize Loop.eval parseManifestBody _ parseManifestBody_decreasing (map, n) = y at related ⊢
  obtain ⟨ok, place, m'⟩ := x
  obtain ⟨ok', place', n'⟩ := y
  obtain ⟨rfl, keeps⟩ := related
  cases ok with
  | false => exact ⟨rfl, fun h => by cases h⟩
  | true =>
    obtain ⟨rfl, agree'⟩ := keeps rfl
    dsimp only at agree' ⊢
    rw [agree'.1]
    exact ⟨rfl, fun _ => agree'⟩

/-- Whether a manifest parses does not depend on the slot. What an accepted one
reads as `install` does not either, unless it has none: then the union keeps
what an earlier parse left there. -/
theorem suitManifestParse_reuse (manifestBstr : Range) (ret ret' : Manifest) :
    (suitManifestParse manifestBstr ret).1 = (suitManifestParse manifestBstr ret').1 ∧
      ((suitManifestParse manifestBstr ret).1 = true →
        SameRead ret.install.arm (suitManifestParse manifestBstr ret).2
          (suitManifestParse manifestBstr ret').2) := by
  unfold suitManifestParse
  dsimp only
  split
  · exact ⟨rfl, fun h => by cases h⟩
  · split
    · exact ⟨rfl, fun h => by cases h⟩
    · split
      · exact ⟨rfl, fun h => by cases h⟩
      · split
        · exact ⟨rfl, fun h => by cases h⟩
        · exact parseManifestFields_agrees _ _ ⟨rfl, .inr ⟨rfl, rfl, rfl⟩⟩

theorem suitEnvelopeGetManifest_reuse (envelope : Range) (ret ret' : Manifest) :
    (suitEnvelopeGetManifest envelope ret).1 = (suitEnvelopeGetManifest envelope ret').1 ∧
      ((suitEnvelopeGetManifest envelope ret).1 = true →
        SameRead ret.install.arm (suitEnvelopeGetManifest envelope ret).2
          (suitEnvelopeGetManifest envelope ret').2) := by
  unfold suitEnvelopeGetManifest
  split
  · exact ⟨rfl, fun h => by cases h⟩
  · rename_i manifestBstr _
    have same := suitManifestParse_reuse manifestBstr ret ret'
    generalize suitManifestParse manifestBstr ret = x at same ⊢
    generalize suitManifestParse manifestBstr ret' = y at same ⊢
    obtain ⟨ok, m'⟩ := x
    obtain ⟨ok', n'⟩ := y
    obtain ⟨rfl, keeps⟩ := same
    cases ok with
    | false => exact ⟨rfl, fun h => by cases h⟩
    | true => exact ⟨rfl, fun _ => ⟨(keeps rfl).1, (keeps rfl).2⟩⟩

end Reuse

section Contexts

/-- The context after any calls of `suit_context_add_envelope`. -/
def addEnvelopes (context : SuitContext) (envelopes : List Range) : SuitContext :=
  envelopes.foldl (fun context envelope => (suitContextAddEnvelope context envelope).2) context

/-- Whether an envelope holds a manifest that parses. -/
def hasManifest (envelope : Range) : Bool := (suitEnvelopeGetManifest envelope .zero).1

/-- The `install` member an envelope carries, as a fresh slot takes it. -/
def ownInstall (envelope : Range) : Severable := (suitEnvelopeGetManifest envelope .zero).2.install

theorem suitContextAddEnvelope_rejected {context : SuitContext} {envelope : Range}
    (rejected : hasManifest envelope = false) :
    (suitContextAddEnvelope context envelope).2.nManifest = context.nManifest := by
  have same := (suitEnvelopeGetManifest_reuse envelope (context.manifests context.nManifest)
    .zero).1.trans rejected
  unfold suitContextAddEnvelope
  split
  · rfl
  · split
    · rfl
    · rename_i read
      rw [read] at same
      cases same

theorem addEnvelopes_rejected {context : SuitContext} {envelopes : List Range}
    (rejected : ∀ envelope ∈ envelopes, hasManifest envelope = false) :
    (addEnvelopes context envelopes).nManifest = context.nManifest := by
  induction envelopes generalizing context with
  | nil => rfl
  | cons envelope envelopes ih =>
    exact (ih fun e member => rejected e (List.mem_cons_of_mem _ member)).trans
      (suitContextAddEnvelope_rejected (rejected envelope List.mem_cons_self))

/-- Later envelopes go to later slots. -/
theorem addEnvelopes_root {context : SuitContext} (envelopes : List Range)
    (some : context.nManifest ≠ 0) :
    (addEnvelopes context envelopes).nManifest ≠ 0 ∧
      (addEnvelopes context envelopes).manifests 0 = context.manifests 0 := by
  induction envelopes generalizing context with
  | nil => exact ⟨some, rfl⟩
  | cons envelope envelopes ih =>
    have step : (suitContextAddEnvelope context envelope).2.nManifest ≠ 0 ∧
        (suitContextAddEnvelope context envelope).2.manifests 0 = context.manifests 0 := by
      unfold suitContextAddEnvelope
      split
      · exact ⟨some, rfl⟩
      · split
        · exact ⟨some, if_neg some.symm⟩
        · exact ⟨Nat.succ_ne_zero _, if_neg some.symm⟩
    obtain ⟨kept, same⟩ := ih step.1
    exact ⟨kept, same.trans step.2⟩

/-- The root manifest is the parse of the first envelope that has one, into
whatever the rejected ones before it left in the first slot. -/
theorem root_of_first {envelopes : List Range} {envelope : Range}
    (first : envelopes.find? hasManifest = some envelope) :
    suitContextGetRootManifest (addEnvelopes suitContextInit envelopes) =
      some (suitEnvelopeGetManifest envelope
        ((addEnvelopes suitContextInit
          (envelopes.takeWhile fun e => !hasManifest e)).manifests 0)).2 := by
  obtain ⟨accepted, rejected, later, rfl, before⟩ := List.find?_eq_some_iff_append.mp first
  have taken : (rejected ++ envelope :: later).takeWhile (fun e => !hasManifest e) = rejected := by
    rw [List.takeWhile_append_of_pos before]
    simp [accepted]
  rw [taken]
  have fresh : (addEnvelopes suitContextInit rejected).nManifest = 0 :=
    addEnvelopes_rejected fun e member => by simpa using before e member
  have read := (suitEnvelopeGetManifest_reuse envelope
    ((addEnvelopes suitContextInit rejected).manifests 0) .zero).1.trans accepted
  have split : addEnvelopes suitContextInit (rejected ++ envelope :: later) =
      addEnvelopes (suitContextAddEnvelope (addEnvelopes suitContextInit rejected) envelope).2
        later := by
    simp only [addEnvelopes, List.foldl_append, List.foldl_cons]
  rw [split]
  generalize addEnvelopes suitContextInit rejected = context at fresh read ⊢
  have added : (suitContextAddEnvelope context envelope).2.nManifest = 1 ∧
      (suitContextAddEnvelope context envelope).2.manifests 0 =
        (suitEnvelopeGetManifest envelope (context.manifests 0)).2 := by
    unfold suitContextAddEnvelope
    rw [if_neg (by rw [fresh]; decide), fresh]
    rcases whole : suitEnvelopeGetManifest envelope (context.manifests 0) with ⟨_ | _, m⟩
    · rw [whole] at read
      cases read
    · exact ⟨rfl, rfl⟩
  obtain ⟨some, root⟩ := addEnvelopes_root later (by rw [added.1]; decide)
  unfold suitContextGetRootManifest
  rw [if_neg some, root, added.2]

/-- The bytes `call_command_sequence` opens as the install sequence. -/
def installOpened (wild : Digest → Range) (manifest : Manifest) : Bytes :=
  (manifest.install.arm.readBody wild).getD emptyArray

theorem openSequences_install (wild : Digest → Range) (manifest : Manifest) :
    openSequences wild .install manifest =
      match readArray (toplevel (some (installOpened wild manifest))) with
      | (none, _) => none
      | (some target, _) =>
        match readArray (toplevel (some (manifest.common.commandSequence.getD emptyArray))) with
        | (none, _) => none
        | (some common, _) => some (common, target) := rfl

variable {U R : Type}

/-- What is to run for the root envelope: its own install string, nothing if it
has none, and for a severed one an error or the member the envelope holds. -/
def StartsOwnInstall (cb : Callbacks U R) (frames : Frames) (wild : Digest → Range)
    (envelopes : List Range) (envelope : Range) (user : U) : Prop :=
  ∃ manifest, suitContextGetRootManifest (addEnvelopes suitContextInit envelopes) = some manifest ∧
    match (ownInstall envelope).hasValue, (ownInstall envelope).severed with
    | false, _ => installOpened wild manifest = emptyArray
    | true, false => (ownInstall envelope).arm = .body (some (installOpened wild manifest))
    | true, true =>
      suitEnvelopeGetFieldByKey envelope Label.install = some (some (installOpened wild manifest)) ∨
        ∀ start runner,
          suitRunnerInit wild (addEnvelopes suitContextInit envelopes) .install user = some start →
          ComesToRest cb frames start runner → suitRunnerHasError runner = true

/-- What an earlier parse may leave in the slot without harm. -/
def Harmless (arm : SeverableArm) : Prop :=
  arm = .blank ∨ arm = .body none ∨ arm = .body (some emptyArray)

theorem harmless_iff (manifest : Manifest) :
    (∀ wild, installOpened wild manifest = emptyArray) ↔ Harmless manifest.install.arm := by
  unfold installOpened
  constructor
  · intro all
    cases arm : manifest.install.arm with
    | blank => exact .inl rfl
    | digest d =>
      have bad := all fun _ => some []
      rw [arm] at bad
      cases bad
    | body r =>
      have same := all fun _ => none
      rw [arm] at same
      cases r with
      | none => exact .inr (.inl rfl)
      | some b => exact .inr (.inr (congrArg (fun b => SeverableArm.body (some b)) same))
  · rintro (arm | arm | arm) wild
    · rw [arm]
      rfl
    · rw [arm]
      rfl
    · rw [arm]
      rfl

/-- How the root manifest's `install` relates to its envelope's. -/
theorem root_install {envelopes : List Range} {envelope : Range}
    (first : envelopes.find? hasManifest = some envelope) :
    ∃ manifest,
      suitContextGetRootManifest (addEnvelopes suitContextInit envelopes) = some manifest ∧
      ((manifest.install = ownInstall envelope ∧ (ownInstall envelope).WasRead) ∨
        ((ownInstall envelope).hasValue = false ∧
          manifest.install.arm = ((addEnvelopes suitContextInit
            (envelopes.takeWhile fun e => !hasManifest e)).manifests 0).install.arm)) := by
  refine ⟨_, root_of_first first, ?_⟩
  have same := suitEnvelopeGetManifest_reuse envelope ((addEnvelopes suitContextInit
    (envelopes.takeWhile fun e => !hasManifest e)).manifests 0) .zero
  have accepted : hasManifest envelope = true := List.find?_some first
  rcases (same.2 (same.1.trans accepted)).2 with ⟨equal, read⟩ | ⟨_, none, left⟩
  · rw [equal] at read
    exact .inl ⟨equal, read⟩
  · exact .inr ⟨none, left⟩

/-- A severed install is read through the wrong arm of the union: for some
contents of that memory nothing runs and the runner is finished. -/
theorem severed_misread (cb : Callbacks U R) (frames : Frames) {envelopes : List Range}
    {envelope : Range} (first : envelopes.find? hasManifest = some envelope)
    (value : (ownInstall envelope).hasValue = true) (severed : (ownInstall envelope).severed = true)
    (user : U) : ∃ wild, ¬ StartsOwnInstall cb frames wild envelopes envelope user := by
  obtain ⟨manifest, root, same⟩ := root_install first
  obtain ⟨d, digest⟩ : ∃ d, manifest.install.arm = .digest d := by
    rcases same with ⟨equal, -, ⟨body, -⟩ | ⟨-, d, arm⟩⟩ | ⟨none, -⟩
    · rw [severed] at body
      cases body
    · exact ⟨d, equal ▸ arm⟩
    · rw [value] at none
      cases none
  -- some byte string that is no array and is not the envelope's member either
  obtain ⟨b, notArray, notMember⟩ : ∃ b : Bytes, opensAsArray (some b) = false ∧
      suitEnvelopeGetFieldByKey envelope Label.install ≠ some (some b) := by
    by_cases member : suitEnvelopeGetFieldByKey envelope Label.install = some (some [])
    · exact ⟨[0], by decide, by rw [member]; decide⟩
    · exact ⟨[], by decide, member⟩
  refine ⟨fun _ => some b, fun holds => ?_⟩
  have opened : installOpened (fun _ => some b) manifest = b := by
    simp only [installOpened, digest, SeverableArm.readBody, Option.getD_some]
  have unopened : openSequences (fun _ => some b) .install manifest = none := by
    rw [openSequences_install, opened]
    simp only [opensAsArray, Option.getD_some] at notArray
    generalize readArray (toplevel (some b)) = read at notArray ⊢
    rcases read with ⟨_ | target, after⟩
    · rfl
    · cases notArray
  obtain ⟨manifest', root', holds⟩ := holds
  cases root.symm.trans root'
  rw [value, severed] at holds
  dsimp only at holds
  rcases holds with member | failed
  · exact notMember (opened ▸ member)
  · obtain ⟨start, runner, started, rest, finished⟩ :=
      unopened_finishes cb frames user root unopened
    have error := failed start runner started rest
    simp only [suitRunnerFinished, Bool.and_eq_true, Bool.not_eq_true'] at finished
    rw [suitRunnerHasError, finished.1] at error
    cases error

/-- The install member is a digest. -/
def severedEnvelope : Bytes :=
  [0xD8, 0x6B, 0xA1, 0x03, 0x4D, 0xA4, 0x01, 0x01, 0x02, 0x00, 0x03, 0x41, 0xA0, 0x09, 0x82, 0x02,
   0x41, 0x00]

/-- An install that sets a parameter, but no common: not a manifest. -/
def rejectedEnvelope : Bytes :=
  [0xD8, 0x6B, 0xA1, 0x03, 0x4B, 0xA3, 0x01, 0x01, 0x02, 0x00, 0x09, 0x44, 0x82, 0x13, 0xA0, 0x00]

/-- A manifest without an install. -/
def noInstallEnvelope : Bytes :=
  [0xD8, 0x6B, 0xA1, 0x03, 0x48, 0xA3, 0x01, 0x01, 0x02, 0x00, 0x03, 0x41, 0xA0]

end Contexts

end TeepDevice.Suit
