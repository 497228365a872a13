import TeepDevice.Suit.Fields
import TeepDevice.Suit.Naturality
import TeepDevice.Suit.Outcome
import TeepDevice.Suit.Parameters

/-! Local URIs: what `directive_fetch` makes of the search for an envelope field. -/
namespace TeepDevice.Suit
open Tcbor

section Fetch
variable {U R : Type}

/-- A pair of the envelope's map: a text key with this name over a byte string. -/
def HoldsMember (envelope name content : Bytes) : Prop :=
  ∃ pairs, IsEnvelope envelope pairs ∧
    ∃ p ∈ pairs, nameKey name p.1 = true ∧ bstrOf p.2 = some content

/-- Callbacks that note every call of `store` beside what they do. -/
def notingStores (cb : Callbacks U R) : Callbacks (U × List (Object × Range)) R where
  store user object body :=
    let reply := cb.store user.1 object body
    ⟨reply.ok, (reply.user, user.2 ++ [(object, body)]), reply.suspend⟩
  fetchAndStore user object uri :=
    let reply := cb.fetchAndStore user.1 object uri
    ⟨reply.ok, (reply.user, user.2), reply.suspend⟩
  onResume := cb.onResume

/-- They do the same as without the notes. -/
theorem notingStores_fst (cb : Callbacks U R) : MapsTo Prod.fst (notingStores cb) cb :=
  ⟨fun _ _ _ => rfl, fun _ _ _ => rfl, fun _ => rfl⟩

/-- The step made a call of `directive_fetch` on the object, with this URI. -/
def ExecutesFetch (before after : Runner U R) (object : Object) (uri : Bytes) : Prop :=
  ∃ target param uriCbor,
    after.effects.calls =
      before.effects.calls ++ [⟨target, object, Command.directiveFetch, param⟩] ∧
    suitRunnerGetParameter before.effects.bindings target parameterUri = some uriCbor ∧
    (readTstr (toplevel (some uriCbor))).1 = some uri

/-- What a fetch of a local URI has to do: store the member of that name, or
store nothing and fail where there is none. -/
def StoresMember (envelope name : Bytes) (object : Object)
    (before after : Runner (U × List (Object × Range)) R) : Prop :=
  (∃ content, HoldsMember envelope name content ∧
    after.effects.user.2 = before.effects.user.2 ++ [(object, some content)]) ∨
  ((¬ ∃ content, HoldsMember envelope name content) ∧
    after.effects.user.2 = before.effects.user.2 ∧ after.hasError = true)

/-- The search sees the name over byte strings only, and the last of them is that
of a pair; or it fails, and there is no such pair. -/
def MemberFound (envelope name : Bytes) : Prop :=
  (∃ entries content, EnvelopeEntries envelope entries ∧ AllBstr (nameKey name) entries ∧
    entryField (nameKey name) entries = some content ∧ HoldsMember envelope name content) ∨
  ((¬ ∃ entries, EnvelopeEntries envelope entries ∧ AllBstr (nameKey name) entries) ∧
    ¬ ∃ content, HoldsMember envelope name content)

theorem suitEnvelopeGetFieldByName_sound {bytes name : Bytes} {result : Range}
    (found : suitEnvelopeGetFieldByName (some bytes) (some name) = some result) :
    ∃ entries, EnvelopeEntries bytes entries ∧ AllBstr (nameKey name) entries ∧
      result = entryField (nameKey name) entries := by
  have sound := suitEnvelopeGetField_sound found
  rwa [wanted_name] at sound

theorem suitEnvelopeGetFieldByName_complete {bytes name : Bytes} {entries : List Pair}
    (short : bytes.length < 2 ^ 63) (envelope : EnvelopeEntries bytes entries)
    (all : AllBstr (nameKey name) entries) :
    suitEnvelopeGetFieldByName (some bytes) (some name) =
      some (entryField (nameKey name) entries) := by
  have complete := @suitEnvelopeGetField_complete true Label.delegation (some name) bytes entries
    short rfl envelope
  rw [wanted_name] at complete
  exact complete all

/-- A null range is read like an empty one. -/
theorem suitEnvelopeGetFieldByName_null (envelope : Range) (name : Range) :
    suitEnvelopeGetFieldByName envelope name =
      suitEnvelopeGetFieldByName (some (envelope.getD [])) name := rfl

theorem applyReply_user (reply : Reply U R) (fx : Effects U R) :
    (applyReply reply fx).2.user = reply.user := by
  unfold applyReply
  split
  · rfl
  · rfl

/-- What `directive_fetch` does once it has read the URI. -/
def fetchText (cb : Callbacks U R) (manifest : Manifest) (object : Object) (uri : Bytes)
    (fx : Effects U R) : Bool × Effects U R :=
  match uri with
  | [] => (false, fx)
  | c :: uri =>
    if c = 0x23 then
      match suitEnvelopeGetFieldByName manifest.envelopeBstr (some (c :: uri)) with
      | none => (false, fx)
      | some binary => applyReply (cb.store fx.user object binary) fx
    else applyReply (cb.fetchAndStore fx.user object (c :: uri)) fx

/-- The step did what `directive_fetch` does with this URI, and failed with it. -/
theorem ExecutesFetch.handled {cb : Callbacks U R} {frames : Frames} {before after : Runner U R}
    {object : Object} {uri : Bytes} (fetch : ExecutesFetch before after object uri)
    (step : runBody cb frames before = .inl after ∨ runBody cb frames before = .inr after) :
    ∃ call ok, fetchText cb before.programCounter.manifest object uri
        { before.effects with calls := before.effects.calls ++ [call] } = (ok, after.effects) ∧
      after.hasError = (before.hasError || !ok) := by
  obtain ⟨target, param, uriCbor, history, parameter, text⟩ := fetch
  cases runBody_calls step with
  | quiet same =>
    rw [same] at history
    simp at history
  | @called command handler target' object' param' ok found call error =>
    have grown := (callHandler_bindings found before.programCounter.manifest target' object' param'
      before.effects).1
    rw [call] at grown
    obtain ⟨rfl, rfl, rfl, rfl⟩ : target' = target ∧ object' = object ∧
        command = Command.directiveFetch ∧ param' = param := by
      have last := List.append_cancel_left (grown.symm.trans history)
      simpa using last
    have isFetch : findHandler cb Command.directiveFetch false = some (directiveFetch cb) := rfl
    cases found.symm.trans isFetch
    refine ⟨⟨target', object', Command.directiveFetch, param'⟩, ok, ?_, error⟩
    have parameter' : suitRunnerGetParameter ({ before.effects with
        calls := before.effects.calls ++ [⟨target', object', Command.directiveFetch, param'⟩] } :
          Effects U R).bindings target' parameterUri = some uriCbor := parameter
    rcases read : readTstr (toplevel (some uriCbor)) with ⟨value, rest⟩
    rw [read] at text
    dsimp only at text
    subst text
    rw [← call]
    simp only [callHandler, directiveFetch, parseRepPolicy, Bool.not_true, Bool.false_eq_true,
      if_false, parameter', read]
    cases uri with
    | nil => rfl
    | cons c uri => rfl

/-- A step that fetches a local URI stores what the search gives it, even when
that is nothing, and fails with the search. -/
theorem fetch_local {cb : Callbacks U R} {frames : Frames}
    {before after : Runner (U × List (Object × Range)) R} {object : Object} {uri : Bytes}
    (step : runBody (notingStores cb) frames before = .inl after ∨
      runBody (notingStores cb) frames before = .inr after)
    (fetch : ExecutesFetch before after object (0x23 :: uri)) :
    (suitEnvelopeGetFieldByName before.programCounter.manifest.envelopeBstr
          (some (0x23 :: uri)) = none ∧
        after.effects.user.2 = before.effects.user.2 ∧ after.hasError = true) ∨
      ∃ body, suitEnvelopeGetFieldByName before.programCounter.manifest.envelopeBstr
          (some (0x23 :: uri)) = some body ∧
        after.effects.user.2 = before.effects.user.2 ++ [(object, body)] := by
  obtain ⟨call, ok, done, error⟩ := fetch.handled step
  simp only [fetchText, if_true] at done
  cases search : suitEnvelopeGetFieldByName before.programCounter.manifest.envelopeBstr
      (some (0x23 :: uri)) with
  | none =>
    rw [search] at done
    obtain ⟨rfl, effects⟩ := Prod.mk.inj done
    refine .inl ⟨rfl, by rw [← effects], ?_⟩
    rw [error]
    exact Bool.or_true _
  | some body =>
    rw [search] at done
    refine .inr ⟨body, rfl, ?_⟩
    have effects := congrArg (fun result => result.2.user.2) done
    dsimp only at effects
    rw [← effects, applyReply_user]
    rfl

theorem storesMember_iff {cb : Callbacks U R} {frames : Frames}
    {before after : Runner (U × List (Object × Range)) R} {object : Object} {envelope uri : Bytes}
    (short : envelope.length < 2 ^ 63)
    (here : before.programCounter.manifest.envelopeBstr.getD [] = envelope)
    (step : runBody (notingStores cb) frames before = .inl after ∨
      runBody (notingStores cb) frames before = .inr after)
    (fetch : ExecutesFetch before after object (0x23 :: uri)) :
    StoresMember envelope (0x23 :: uri) object before after ↔
      MemberFound envelope (0x23 :: uri) := by
  have done := fetch_local step fetch
  rw [suitEnvelopeGetFieldByName_null, here] at done
  rcases done with ⟨search, stored, failed⟩ | ⟨body, search, stored⟩
  · have none : ¬ ∃ entries, EnvelopeEntries envelope entries ∧
        AllBstr (nameKey (0x23 :: uri)) entries := by
      rintro ⟨entries, isEnvelope, all⟩
      cases search.symm.trans (suitEnvelopeGetFieldByName_complete short isEnvelope all)
    constructor
    · rintro (⟨content, -, more⟩ | ⟨absent, -, -⟩)
      · rw [stored] at more
        simp at more
      · exact .inr ⟨none, absent⟩
    · rintro (⟨entries, -, isEnvelope, all, -⟩ | ⟨-, absent⟩)
      · exact absurd ⟨entries, isEnvelope, all⟩ none
      · exact .inr ⟨absent, stored, failed⟩
  · obtain ⟨entries, isEnvelope, all, rfl⟩ := suitEnvelopeGetFieldByName_sound search
    constructor
    · rintro (⟨content, holds, more⟩ | ⟨-, same, -⟩)
      · rw [stored] at more
        have value : entryField (nameKey (0x23 :: uri)) entries = some content := by
          have last := List.append_cancel_left more
          simpa using last
        exact .inl ⟨entries, content, isEnvelope, all, value, holds⟩
      · rw [stored] at same
        simp at same
    · rintro (⟨entries', content, isEnvelope', all', value, holds⟩ | ⟨none, -⟩)
      · have again := suitEnvelopeGetFieldByName_complete short isEnvelope' all'
        rw [search, value] at again
        rw [Option.some.inj again] at stored
        exact .inl ⟨content, holds, stored⟩
      · exact absurd ⟨entries, isEnvelope, all⟩ none

end Fetch

section Plain

/-- Pairs are read from bytes one way only when no key is the start of another. -/
theorem pairs_unique {isKey : Bytes → Prop} {pairs pairs' : List Pair} {t t' : Bytes}
    (prefixFree : ∀ x y s s', isKey x → isKey y → x ++ s = y ++ s' → x = y ∧ s = s')
    (items : ∀ p ∈ pairs, isKey p.1 ∧ Item p.2) (items' : ∀ p ∈ pairs', isKey p.1 ∧ Item p.2)
    (count : pairs.length = pairs'.length)
    (same : pairBytes pairs ++ t = pairBytes pairs' ++ t') : pairs = pairs' := by
  induction pairs generalizing pairs' with
  | nil => exact (List.eq_nil_of_length_eq_zero count.symm).symm
  | cons p pairs ih =>
    cases pairs' with
    | nil => cases count
    | cons p' pairs' =>
      obtain ⟨⟨isKey, isItem⟩, rest⟩ := List.forall_mem_cons.mp items
      obtain ⟨⟨isKey', isItem'⟩, rest'⟩ := List.forall_mem_cons.mp items'
      simp only [pairBytes_cons, List.append_assoc] at same
      obtain ⟨key, behind⟩ := prefixFree _ _ _ _ isKey isKey' same
      obtain ⟨value, last⟩ := isItem.unique isItem' behind
      rw [ih rest rest' (Nat.succ.inj count) last, Prod.ext key value]

/-- An envelope has its pairs only one way. -/
theorem isEnvelope_unique {bytes : Bytes} {pairs pairs' : List Pair}
    (left : IsEnvelope bytes pairs) (right : IsEnvelope bytes pairs') : pairs = pairs' := by
  obtain ⟨head, any, rest, read, -, -, ⟨mapHead, mapAny, t, readMap, -, count, items, rfl⟩, rfl⟩ :=
    left
  obtain ⟨head', any', rest', read', -, -,
    ⟨mapHead', mapAny', t', readMap', -, count', items', rfl⟩, same⟩ := right
  obtain ⟨rfl, same⟩ := read.unique read' same
  obtain ⟨rfl, same⟩ := readMap.unique readMap' same
  exact pairs_unique (fun _ _ _ _ left right => left.unique right) items items'
    (count.symm.trans count') same

/-- An envelope whose keys are single untagged heads, as integers and strings are. -/
def PlainEnvelope (bytes : Bytes) (pairs : List Pair) : Prop :=
  EnvelopeEntries bytes pairs ∧ ∀ p ∈ pairs, Item p.1

theorem PlainEnvelope.isEnvelope {bytes : Bytes} {pairs : List Pair}
    (plain : PlainEnvelope bytes pairs) : IsEnvelope bytes pairs := by
  obtain ⟨⟨head, any, head', any', trailing, read, tag, value, read', isMap, count, items, same⟩,
    keys⟩ := plain
  exact ⟨head, any, _, read, tag, value, ⟨head', any', trailing, read', isMap, count,
    fun p member => ⟨keys p member, (items p member).2⟩, rfl⟩, same⟩

variable {bytes name : Bytes} {pairs : List Pair}

theorem PlainEnvelope.holdsMember_iff (plain : PlainEnvelope bytes pairs) {content : Bytes} :
    HoldsMember bytes name content ↔
      ∃ p ∈ pairs, nameKey name p.1 = true ∧ bstrOf p.2 = some content := by
  constructor
  · rintro ⟨pairs', envelope, member⟩
    rwa [isEnvelope_unique plain.isEnvelope envelope]
  · exact fun member => ⟨pairs, plain.isEnvelope, member⟩

theorem envelopeEntries_unique {entries : List Pair} (left : EnvelopeEntries bytes pairs)
    (right : EnvelopeEntries bytes entries) : pairs = entries := by
  obtain ⟨head, any, mapHead, mapAny, t, read, -, -, readMap, -, count, items, rfl⟩ := left
  obtain ⟨head', any', mapHead', mapAny', t', read', -, -, readMap', -, count', items', same⟩ :=
    right
  obtain ⟨rfl, same⟩ := read.unique read' same
  obtain ⟨rfl, same⟩ := readMap.unique readMap' same
  have prefixFree (x y s s' : Bytes) (left : ∃ any, Head x any ∧ any.isTag = false)
      (right : ∃ any, Head y any ∧ any.isTag = false) (same : x ++ s = y ++ s') :
      x = y ∧ s = s' := by
    obtain ⟨any, read, -⟩ := left
    obtain ⟨any', read', -⟩ := right
    have rest := (read.unique read' same).2
    rw [rest] at same
    exact ⟨List.append_cancel_right same, rest⟩
  exact pairs_unique prefixFree items items' (count.symm.trans count') same

/-- On such an envelope the promise is kept for the names that are there, unless
some stand over a byte string and some over another item. -/
theorem PlainEnvelope.memberFound_iff (plain : PlainEnvelope bytes pairs) :
    MemberFound bytes name ↔ (∃ p ∈ pairs, nameKey name p.1 = true) ∧
      (AllBstr (nameKey name) pairs ∨
        ∀ p ∈ pairs, nameKey name p.1 = true → bstrOf p.2 = none) := by
  unfold MemberFound
  simp only [plain.holdsMember_iff]
  constructor
  · rintro (⟨entries, content, envelope, all, value, -⟩ | ⟨unseen, absent⟩)
    · cases envelopeEntries_unique plain.1 envelope
      obtain ⟨item, last, -⟩ := Option.bind_eq_some_iff.mp value
      obtain ⟨k, member, isKey⟩ := lastValue_mem last
      exact ⟨⟨(k, item), member, isKey⟩, .inl all⟩
    · have mixed : ¬ AllBstr (nameKey name) pairs := fun all => unseen ⟨pairs, plain.1, all⟩
      simp only [AllBstr, not_forall] at mixed
      obtain ⟨p, member, isKey, -⟩ := mixed
      refine ⟨⟨p, member, isKey⟩, .inr fun q member isKey => ?_⟩
      cases bstr : bstrOf q.2 with
      | none => rfl
      | some content => exact absurd ⟨content, q, member, isKey, bstr⟩ absent
  · rintro ⟨⟨p, member, isKey⟩, all | none⟩
    · cases last : lastValue (nameKey name) pairs with
      | none =>
        have unnamed := (lastValue_eq_none_iff).mp last p member
        rw [isKey] at unnamed
        cases unnamed
      | some item =>
        obtain ⟨k, member, isKey⟩ := lastValue_mem last
        obtain ⟨content, bstr⟩ := Option.isSome_iff_exists.mp (all _ member isKey)
        refine .inl ⟨pairs, content, plain.1, all, ?_, _, member, isKey, bstr⟩
        rw [entryField, last, Option.bind_some, bstr]
    · refine .inr ⟨?_, ?_⟩
      · rintro ⟨entries, envelope, all⟩
        cases envelopeEntries_unique plain.1 envelope
        have bstr := all p member isKey
        rw [none p member isKey] at bstr
        cases bstr
      · rintro ⟨content, q, member, isKey, bstr⟩
        rw [none q member isKey] at bstr
        cases bstr

end Plain

/-- A fetch of a local URI keeps its promise for exactly the names the search
finds. A name that no key has is not among them: the search succeeds with a null
range, which is stored. -/
theorem local_uri_promise_iff {U R : Type} {cb : Callbacks U R} {frames : Frames}
    {before after : Runner (U × List (Object × Range)) R} {object : Object} {envelope uri : Bytes}
    (short : envelope.length < 2 ^ 63)
    (here : before.programCounter.manifest.envelopeBstr.getD [] = envelope)
    (step : runBody (notingStores cb) frames before = .inl after ∨
      runBody (notingStores cb) frames before = .inr after)
    (fetch : ExecutesFetch before after object (0x23 :: uri)) :
    (StoresMember envelope (0x23 :: uri) object before after ↔
      MemberFound envelope (0x23 :: uri)) ∧
    ∀ pairs, PlainEnvelope envelope pairs →
      (MemberFound envelope (0x23 :: uri) ↔
        (∃ p ∈ pairs, nameKey (0x23 :: uri) p.1 = true) ∧
          (AllBstr (nameKey (0x23 :: uri)) pairs ∨
            ∀ p ∈ pairs, nameKey (0x23 :: uri) p.1 = true → bstrOf p.2 = none)) :=
  ⟨storesMember_iff short here step fetch, fun _ plain => plain.memberFound_iff⟩

section Examples

/-- The runner of an envelope's install sequence after some passes of its loop. -/
def runnerAfter (envelope : Bytes) : Nat → Option (Runner (Unit × List (Object × Range)) Unit)
  | 0 => suitRunnerInit (fun _ => none) (contextOf envelope) .install ((), [])
  | passes + 1 =>
    (runnerAfter envelope passes).bind fun runner =>
      (runBody (notingStores suspendingCallbacks) ⟨0, 1, 2⟩ runner).getLeft?

theorem runnerAfter_step {envelope : Bytes} {passes : Nat}
    {after : Runner (Unit × List (Object × Range)) Unit}
    (ran : runnerAfter envelope (passes + 1) = some after) :
    ∃ before, runnerAfter envelope passes = some before ∧
      runBody (notingStores suspendingCallbacks) ⟨0, 1, 2⟩ before = .inl after := by
  obtain ⟨before, here, step⟩ := Option.bind_eq_some_iff.mp ran
  exact ⟨before, here, Sum.getLeft?_eq_some_iff.mp step⟩

/-- One component; install sets the URI "#a" and fetches it. -/
def localManifest : Bytes :=
  [0xA4, 0x01, 0x01, 0x02, 0x00, 0x03, 0x49, 0xA2, 0x02, 0x81, 0x81, 0x41, 0x30, 0x04, 0x41, 0x80,
   0x09, 0x49, 0x84, 0x13, 0xA1, 0x15, 0x62, 0x23, 0x61, 0x15, 0x02]

/-- An envelope with this manifest only, and one with the member "#a" behind it. -/
def absentEnvelope : Bytes := [0xD8, 0x6B, 0xA1, 0x03, 0x58, 0x1B] ++ localManifest

def presentEnvelope : Bytes :=
  [0xD8, 0x6B, 0xA2, 0x03, 0x58, 0x1B] ++ localManifest ++ [0x62, 0x23, 0x61, 0x42, 0xAA, 0xBB]

def firstComponent : Object := .component 0 ⟨some [0x81, 0x41, 0x30]⟩

/-- What the examples show of a runner. -/
structure View where
  envelope : Range
  calls : List Call
  bindings : List Binder
  stores : List (Object × Range)
  hasError : Bool
  deriving DecidableEq

def view (runner : Runner (Unit × List (Object × Range)) Unit) : View :=
  ⟨runner.programCounter.manifest.envelopeBstr, runner.effects.calls, runner.effects.bindings,
    runner.effects.user.2, runner.hasError⟩

def settingCall : Call := ⟨1, firstComponent, 19, [0xA1, 0x15, 0x62, 0x23, 0x61]⟩
def fetchingCall : Call := ⟨1, firstComponent, 21, [0x02]⟩
def localBinder : Binder := ⟨1, 21, [0x62, 0x23, 0x61]⟩

/-- The fifth pass fetches "#a", which an earlier one has set. -/
theorem fifth_pass_fetches {envelope : Bytes} {stored : Range}
    (set : (runnerAfter envelope 4).map view =
      some ⟨some envelope, [settingCall], [localBinder], [], false⟩)
    (fetched : (runnerAfter envelope 5).map view =
      some ⟨some envelope, [settingCall, fetchingCall], [localBinder],
        [(firstComponent, stored)], false⟩) :
    ∃ before after, runnerAfter envelope 4 = some before ∧
      before.programCounter.manifest.envelopeBstr.getD [] = envelope ∧
      runBody (notingStores suspendingCallbacks) ⟨0, 1, 2⟩ before = .inl after ∧
      ExecutesFetch before after firstComponent [0x23, 0x61] ∧ before.effects.user.2 = [] ∧
      after.effects.user.2 = [(firstComponent, stored)] ∧ after.hasError = false := by
  obtain ⟨after, ran, last⟩ := Option.map_eq_some_iff.mp fetched
  obtain ⟨before, started, step⟩ := runnerAfter_step ran
  rw [started] at set
  have first := Option.some.inj set
  simp only [view, View.mk.injEq] at first last
  obtain ⟨here, calls, bindings, stores, -⟩ := first
  obtain ⟨-, calls', -, stores', fine⟩ := last
  refine ⟨before, after, started, by rw [here]; rfl, step, ?_, stores, stores', fine⟩
  refine ⟨1, [0x02], [0x62, 0x23, 0x61], ?_, ?_, by decide⟩
  · rw [calls, calls']
    rfl
  · rw [bindings]
    decide

/-- The envelope has no member "#a"; the fetch stores nothing over the component
and goes on without an error. -/
theorem absent_member_stored :
    ∃ before after, runnerAfter absentEnvelope 4 = some before ∧
      before.programCounter.manifest.envelopeBstr.getD [] = absentEnvelope ∧
      runBody (notingStores suspendingCallbacks) ⟨0, 1, 2⟩ before = .inl after ∧
      ExecutesFetch before after firstComponent [0x23, 0x61] ∧
      after.effects.user.2 = [(firstComponent, none)] ∧ after.hasError = false ∧
      ¬ StoresMember absentEnvelope [0x23, 0x61] firstComponent before after := by
  obtain ⟨before, after, started, here, step, fetch, stores, stores', fine⟩ :=
    @fifth_pass_fetches absentEnvelope none (by decide +kernel) (by decide +kernel)
  refine ⟨before, after, started, here, step, fetch, stores', fine, ?_⟩
  rintro (⟨content, -, same⟩ | ⟨-, same, -⟩)
  · rw [stores, stores'] at same
    simp at same
  · rw [stores, stores'] at same
    cases same

/-- `{3: manifest, "#a": h'AABB'}`. -/
theorem presentEnvelope_plain :
    PlainEnvelope presentEnvelope
      [([0x03], [0x58, 0x1B] ++ localManifest), ([0x62, 0x23, 0x61], [0x42, 0xAA, 0xBB])] := by
  constructor
  · refine ⟨[0xD8, 0x6B], ⟨0xD8, 107, []⟩, [0xA2], ⟨0xA2, 2, []⟩, [], by unfold Head; decide, rfl,
      rfl, by unfold Head; decide, rfl, rfl, ?_, rfl⟩
    simp only [EntryItems, List.forall_mem_cons]
    refine ⟨⟨⟨⟨0x03, 3, []⟩, by unfold Head; decide, rfl⟩, ?_⟩,
      ⟨⟨⟨0x62, 0, [0x23, 0x61]⟩, by unfold Head; decide, rfl⟩, ?_⟩, by simp⟩
    all_goals exact item_of_primitiveSkip (by decide +kernel)
  · simp only [List.forall_mem_cons]
    refine ⟨?_, ?_, by simp⟩
    all_goals exact item_of_primitiveSkip (by decide +kernel)

theorem local_uri_promise_iff_present :
    ∃ before after, runnerAfter presentEnvelope 4 = some before ∧
      runBody (notingStores suspendingCallbacks) ⟨0, 1, 2⟩ before = .inl after ∧
      StoresMember presentEnvelope [0x23, 0x61] firstComponent before after := by
  obtain ⟨before, after, started, here, step, fetch, -⟩ :=
    @fifth_pass_fetches presentEnvelope (some [0xAA, 0xBB]) (by decide +kernel) (by decide +kernel)
  obtain ⟨promise, plain⟩ := local_uri_promise_iff (by decide) here (.inl step) fetch
  refine ⟨before, after, started, step, promise.mpr ((plain _ presentEnvelope_plain).mpr ?_)⟩
  refine ⟨⟨_, List.mem_cons_of_mem _ List.mem_cons_self, by decide⟩, .inl ?_⟩
  simp only [AllBstr, List.forall_mem_cons]
  exact ⟨by decide, by decide, by simp⟩

end Examples

end TeepDevice.Suit
