import TeepDevice.Suit.CommonGrammar
import TeepDevice.Suit.Digest

/-! The grammar of manifests and that `suit_manifest_parse` accepts exactly it. -/
namespace TeepDevice.Suit
open Tcbor

def bstrFields : List (Nat × (Manifest → Range)) :=
  [(Label.common, Manifest.commonBstr), (Label.referenceUri, Manifest.referenceUri),
   (Label.validate, Manifest.validate), (Label.load, Manifest.load), (Label.run, Manifest.run)]

def severableFields : List (Nat × (Manifest → Severable)) :=
  [(Label.dependencyResolution, Manifest.dependencyResolution),
   (Label.payloadFetch, Manifest.payloadFetch), (Label.install, Manifest.install),
   (Label.text, Manifest.text), (Label.coswid, Manifest.coswid)]

/-- The rules for the pairs of a manifest. -/
structure ManifestPairs (version number : Pair) (later : List Pair) : Prop where
  version : labelKey Label.manifestVersion version.1 = true ∧ uintOf version.2 = some 1
  number : labelKey Label.manifestSequenceNumber number.1 = true ∧ ∃ n, uintOf number.2 = some n
  noRepeat : ∀ p ∈ later, labelKey Label.manifestVersion p.1 = false ∧
    labelKey Label.manifestSequenceNumber p.1 = false
  bstrs : ∀ p ∈ later, ∀ field ∈ bstrFields, labelKey field.1 p.1 = true →
    ∃ b, bstrOf p.2 = some b
  severables : ∀ p ∈ later, ∀ field ∈ severableFields, labelKey field.1 p.1 = true →
    ∃ s, SeverableItem p.2 s
  common : ∃ p ∈ later, labelKey Label.common p.1 = true
  commons : ∀ p ∈ later, ∀ b, labelKey Label.common p.1 = true → bstrOf p.2 = some b →
    ∃ pairs c, StartsWithMap b pairs ∧ CommonPairs pairs c

/-- What the parser leaves in its result: every field from the last pair of its
label, and null or without a value where there is none. -/
structure ManifestFields (bytes : Bytes) (number : Pair) (later : List Pair) (m : Manifest) :
    Prop where
  envelopeBstr : m.envelopeBstr = none
  binary : m.binary = some bytes
  version : m.version = 1
  sequenceNumber : uintOf number.2 = some m.sequenceNumber
  bstrs : ∀ field ∈ bstrFields,
    (∃ v b, lastValue (labelKey field.1) later = some v ∧ bstrOf v = some b ∧ field.2 m = some b) ∨
      (lastValue (labelKey field.1) later = none ∧ field.2 m = none)
  severables : ∀ field ∈ severableFields,
    (∃ v, lastValue (labelKey field.1) later = some v ∧ SeverableItem v (field.2 m)) ∨
      (lastValue (labelKey field.1) later = none ∧ (field.2 m).hasValue = false)
  common : ∀ b, m.commonBstr = some b →
    ∃ pairs, StartsWithMap b pairs ∧ CommonPairs pairs m.common

/-- The first `n` keys of the body, as far as the items before them can be read,
are no arrays, maps or tags. -/
def PlainKeys (n : Nat) (body : Bytes) : Prop :=
  ∀ k items rest any after, k < n → Sequence (2 * k) items → body = items ++ rest →
    primitiveReadAny rest = .ok (any, after) →
    any.isArray = false ∧ any.isMap = false ∧ any.isTag = false

/-- On a map that can be read it says this of the keys. -/
theorem plainKeys_of_pairs {pairs : List Pair} {trailing : Bytes} (items : PairItems pairs)
    (keys : ∀ p ∈ pairs, headIs Any.isArray p.1 = false ∧ headIs Any.isMap p.1 = false ∧
      headIs Any.isTag p.1 = false) : PlainKeys pairs.length (pairBytes pairs ++ trailing) := by
  intro k before rest any after below present same read
  have front : PairItems (pairs.take k) := fun p mem => items p (List.mem_of_mem_take mem)
  have taken : Sequence (2 * k) (pairBytes (pairs.take k)) := by
    have whole := pairBytes_sequence front
    rwa [List.length_take, Nat.min_eq_left (Nat.le_of_lt below)] at whole
  obtain ⟨p, later, split⟩ : ∃ p later, pairs.drop k = p :: later :=
    ⟨pairs[k], pairs.drop (k + 1), List.drop_eq_getElem_cons below⟩
  have member : p ∈ pairs := by
    apply List.mem_of_mem_drop (i := k)
    rw [split]
    exact List.mem_cons_self
  rw [← List.take_append_drop k pairs, pairBytes_append, split, List.append_assoc] at same
  obtain ⟨-, rfl⟩ := taken.unique present same
  obtain ⟨head, any', content, isHead, -, key⟩ := (item_iff).mp (items p member).1
  rw [pairBytes_cons, key] at read
  simp only [List.append_assoc] at read
  rw [isHead.append] at read
  obtain ⟨rfl, -⟩ := Prod.mk.inj (Except.ok.inj read)
  simpa [key, headIs_append isHead] using keys p member

/-- What a pair with an integer key does to the result. -/
def ValueStep (key : Nat) (v : Bytes) (m m' : Manifest) : Prop :=
  if key = Label.manifestVersion ∨ key = Label.manifestSequenceNumber then False
  else if key = Label.common then
    ∃ b, bstrOf v = some b ∧ (suitParseCommon (some b)).1 = true ∧
      m' = { m with commonBstr := some b, common := (suitParseCommon (some b)).2 }
  else if key = Label.referenceUri then
    ∃ b, bstrOf v = some b ∧ m' = { m with referenceUri := some b }
  else if key = Label.dependencyResolution then
    ∃ s, SeverableItem v s ∧ m' = { m with dependencyResolution := s }
  else if key = Label.payloadFetch then ∃ s, SeverableItem v s ∧ m' = { m with payloadFetch := s }
  else if key = Label.install then ∃ s, SeverableItem v s ∧ m' = { m with install := s }
  else if key = Label.text then ∃ s, SeverableItem v s ∧ m' = { m with text := s }
  else if key = Label.coswid then ∃ s, SeverableItem v s ∧ m' = { m with coswid := s }
  else if key = Label.validate then ∃ b, bstrOf v = some b ∧ m' = { m with validate := some b }
  else if key = Label.load then ∃ b, bstrOf v = some b ∧ m' = { m with load := some b }
  else if key = Label.run then ∃ b, bstrOf v = some b ∧ m' = { m with run := some b }
  else Item v ∧ m' = m

def PairStep (p : Pair) (m m' : Manifest) : Prop :=
  ∃ any, Head p.1 any ∧ any.children = 0 ∧
    ((any.isUint = true ∧ ValueStep any.value p.2 m m') ∨
      (any.isUint = false ∧ Item p.2 ∧ m' = m))

def PairSteps : List Pair → Manifest → Manifest → Prop
  | [], m, m' => m' = m
  | p :: pairs, m, m' => ∃ mid, PairStep p m mid ∧ PairSteps pairs mid m'

/-- A branch of the parser succeeds exactly where a value is there on which the
step goes from `m` to the manifest it leaves. -/
def Performs (map : Context) (n : Nat) (result : Bool × Context × Manifest)
    (step : Bytes → Manifest → Prop) : Prop :=
  ∀ map' m', result = (true, map', m') ↔ 0 < n ∧ ∃ v, map.r = v ++ map'.r ∧
    map' = map.advance map'.r ∧ step v m'

section Fields
variable {map : Context} {n : Nat} {m : Manifest}

theorem Performs.ite {c : Prop} [Decidable c] {a b : Bool × Context × Manifest}
    {s t : Bytes → Manifest → Prop} (positive : Performs map n a s)
    (negative : Performs map n b t) :
    Performs map n (if c then a else b) (fun v m' => if c then s v m' else t v m') := by
  by_cases h : c
  · simpa only [h, if_true] using positive
  · simpa only [h, if_false] using negative

theorem bstrField_performs {store : Bytes → Bool × Manifest} (left : Remaining map n) :
    Performs map n (bstrField map m store)
      (fun v m' => ∃ b, bstrOf v = some b ∧ (store b).1 = true ∧ m' = (store b).2) := by
  intro map' m'
  unfold bstrField
  constructor
  · intro h
    split at h
    · cases h
    · rename_i b next read
      obtain ⟨some, item, bstr, same, behind⟩ := (readBstr_bstrOf left).mp read
      obtain ⟨ok, rest⟩ := Prod.mk.inj h
      obtain ⟨rfl, rfl⟩ := Prod.mk.inj rest
      exact ⟨some, item, same, behind, b, bstr, ok, rfl⟩
  · rintro ⟨some, v, same, behind, b, bstr, ok, rfl⟩
    have read : readBstr map = (.some b, map') :=
      (readBstr_bstrOf left).mpr ⟨some, v, bstr, same, behind⟩
    simp only [read, ok]

theorem plainField_performs {store : Bytes → Manifest} (left : Remaining map n) :
    Performs map n (bstrField map m fun b => (true, store b))
      (fun v m' => ∃ b, bstrOf v = some b ∧ m' = store b) := by
  intro map' m'
  rw [bstrField_performs left]
  simp only [true_and]

theorem severedField_performs {field : Severable} {store : Severable → Manifest}
    (left : Remaining map n) (short : map.r.length < 2 ^ 63) :
    Performs map n (severedField map field store)
      (fun v m' => ∃ s, SeverableItem v s ∧ m' = store s) := by
  intro map' m'
  unfold severedField
  constructor
  · intro h
    split at h
    rename_i ok next s read
    obtain ⟨rfl, rest⟩ := Prod.mk.inj h
    obtain ⟨rfl, rfl⟩ := Prod.mk.inj rest
    obtain ⟨some, item, severable, same, behind⟩ := (readSevered_iff left short).mp read
    exact ⟨some, item, same, behind, s, severable, rfl⟩
  · rintro ⟨some, v, same, behind, s, severable, rfl⟩
    have read : readSevered map field = (true, map', s) :=
      (readSevered_iff left short).mpr ⟨some, v, severable, same, behind⟩
    simp only [read]

theorem skippedField_performs (left : Remaining map n) (short : map.r.length < 2 ^ 63) :
    Performs map n (skippedField map m) (fun v m' => Item v ∧ m' = m) := by
  intro map' m'
  unfold skippedField
  constructor
  · intro h
    split at h
    rename_i ok next passed
    obtain ⟨rfl, rest⟩ := Prod.mk.inj h
    obtain ⟨rfl, rfl⟩ := Prod.mk.inj rest
    obtain ⟨some, item, isItem, same, behind⟩ := (skip_one_iff left short).mp passed
    exact ⟨some, item, same, behind, isItem, rfl⟩
  · rintro ⟨some, v, same, behind, isItem, rfl⟩
    have passed : skip map 1 = (true, map') :=
      (skip_one_iff left short).mpr ⟨some, v, isItem, same, behind⟩
    simp only [passed]

theorem parseManifestField_performs {key : Nat} (left : Remaining map n)
    (short : map.r.length < 2 ^ 63) :
    Performs map n (parseManifestField key map m) (fun v m' => ValueStep key v m m') := by
  unfold parseManifestField ValueStep
  apply Performs.ite
  · intro map' m'
    simp
  apply Performs.ite (bstrField_performs left)
  apply Performs.ite (plainField_performs left)
  apply Performs.ite (severedField_performs left short)
  apply Performs.ite (severedField_performs left short)
  apply Performs.ite (severedField_performs left short)
  apply Performs.ite (severedField_performs left short)
  apply Performs.ite (severedField_performs left short)
  apply Performs.ite (plainField_performs left)
  apply Performs.ite (plainField_performs left)
  apply Performs.ite (plainField_performs left)
  exact skippedField_performs left short

end Fields

section Loop

theorem isTag_of_children {any : Any} (alone : any.children = 0) : any.isTag = false := by
  cases tag : any.isTag with
  | false => rfl
  | true => simp [Any.children, tag] at alone

theorem children_of_plain {any : Any}
    (plain : any.isArray = false ∧ any.isMap = false ∧ any.isTag = false) : any.children = 0 := by
  simp [Any.children, plain.1, plain.2.1, plain.2.2]

theorem of_ite {c a b r : Prop} [Decidable c] (h : if c then a else b) (positive : c → a → r)
    (negative : ¬ c → b → r) : r := by
  by_cases is : c
  · exact positive is (by simpa only [is, if_true] using h)
  · exact negative is (by simpa only [is, if_false] using h)

/-- The same by cases on the key. -/
inductive ValueCase (key : Nat) (v : Bytes) (m : Manifest) : Manifest → Prop where
  | common {b : Bytes} {c : Common} (is : key = Label.common) (bstr : bstrOf v = some b)
      (parsed : suitParseCommon (some b) = (true, c)) :
      ValueCase key v m { m with commonBstr := some b, common := c }
  | referenceUri {b : Bytes} (is : key = Label.referenceUri) (bstr : bstrOf v = some b) :
      ValueCase key v m { m with referenceUri := some b }
  | dependencyResolution {s : Severable} (is : key = Label.dependencyResolution)
      (severable : SeverableItem v s) : ValueCase key v m { m with dependencyResolution := s }
  | payloadFetch {s : Severable} (is : key = Label.payloadFetch) (severable : SeverableItem v s) :
      ValueCase key v m { m with payloadFetch := s }
  | install {s : Severable} (is : key = Label.install) (severable : SeverableItem v s) :
      ValueCase key v m { m with install := s }
  | text {s : Severable} (is : key = Label.text) (severable : SeverableItem v s) :
      ValueCase key v m { m with text := s }
  | coswid {s : Severable} (is : key = Label.coswid) (severable : SeverableItem v s) :
      ValueCase key v m { m with coswid := s }
  | validate {b : Bytes} (is : key = Label.validate) (bstr : bstrOf v = some b) :
      ValueCase key v m { m with validate := some b }
  | load {b : Bytes} (is : key = Label.load) (bstr : bstrOf v = some b) :
      ValueCase key v m { m with load := some b }
  | run {b : Bytes} (is : key = Label.run) (bstr : bstrOf v = some b) :
      ValueCase key v m { m with run := some b }
  | unknown (isnt : key ∉ [Label.manifestVersion, Label.manifestSequenceNumber] ++
        bstrFields.map Prod.fst ++ severableFields.map Prod.fst) (item : Item v) :
      ValueCase key v m m

theorem ValueStep.cases {key : Nat} {v : Bytes} {m m' : Manifest} (step : ValueStep key v m m') :
    ValueCase key v m m' := by
  refine of_ite step (fun _ h => h.elim) fun first step => ?_
  refine of_ite step ?_ fun common step => ?_
  · rintro is ⟨b, bstr, ok, rfl⟩
    exact .common is bstr (Prod.ext ok rfl)
  refine of_ite step ?_ fun referenceUri step => ?_
  · rintro is ⟨b, bstr, rfl⟩
    exact .referenceUri is bstr
  refine of_ite step ?_ fun dependencyResolution step => ?_
  · rintro is ⟨s, severable, rfl⟩
    exact .dependencyResolution is severable
  refine of_ite step ?_ fun payloadFetch step => ?_
  · rintro is ⟨s, severable, rfl⟩
    exact .payloadFetch is severable
  refine of_ite step ?_ fun install step => ?_
  · rintro is ⟨s, severable, rfl⟩
    exact .install is severable
  refine of_ite step ?_ fun text step => ?_
  · rintro is ⟨s, severable, rfl⟩
    exact .text is severable
  refine of_ite step ?_ fun coswid step => ?_
  · rintro is ⟨s, severable, rfl⟩
    exact .coswid is severable
  refine of_ite step ?_ fun validate step => ?_
  · rintro is ⟨b, bstr, rfl⟩
    exact .validate is bstr
  refine of_ite step ?_ fun load step => ?_
  · rintro is ⟨b, bstr, rfl⟩
    exact .load is bstr
  refine of_ite step ?_ fun run step => ?_
  · rintro is ⟨b, bstr, rfl⟩
    exact .run is bstr
  obtain ⟨item, rfl⟩ := step
  refine .unknown ?_ item
  rw [not_or] at first
  simp only [bstrFields, severableFields, List.map_cons, List.map_nil, List.cons_append,
    List.nil_append, List.mem_cons, List.not_mem_nil, or_false, not_or]
  exact ⟨first.1, first.2, common, referenceUri, validate, load, run, dependencyResolution,
    payloadFetch, install, text, coswid⟩

theorem ValueStep.item {key : Nat} {v : Bytes} {m m' : Manifest} (step : ValueStep key v m m') :
    Item v := by
  cases step.cases with
  | unknown _ item => exact item
  | common _ bstr _ | referenceUri _ bstr | validate _ bstr | load _ bstr | run _ bstr =>
    exact bstrOf_item bstr
  | dependencyResolution _ severable | payloadFetch _ severable | install _ severable
  | text _ severable | coswid _ severable => exact severable.item

theorem PairStep.items {p : Pair} {m m' : Manifest} (step : PairStep p m m') :
    Item p.1 ∧ Item p.2 := by
  obtain ⟨any, read, alone, ⟨-, value⟩ | ⟨-, item, -⟩⟩ := step
  · exact ⟨read.item alone, value.item⟩
  · exact ⟨read.item alone, item⟩

theorem PlainKeys.head {n : Nat} {body rest : Bytes} {any : Any} (plain : PlainKeys (n + 1) body)
    (read : primitiveReadAny body = .ok (any, rest)) : any.children = 0 :=
  children_of_plain (plain 0 [] body any rest (Nat.succ_pos n) ((sequence_zero).mpr rfl) rfl read)

theorem PlainKeys.tail {n : Nat} {k v rest : Bytes} (plain : PlainKeys (n + 1) (k ++ (v ++ rest)))
    (key : Item k) (value : Item v) : PlainKeys n rest := by
  intro j items rest' any after below present same read
  have two := ((sequence_one).mpr key).append ((sequence_one).mpr value)
  have more : Sequence (2 * (j + 1)) (k ++ v ++ items) := by
    rw [Nat.mul_add, Nat.add_comm]
    exact two.append present
  exact plain (j + 1) (k ++ v ++ items) rest' any after (by omega) more
    (by rw [same]; simp only [List.append_assoc]) read

theorem parseManifestBody_inl {map map' : Context} {n : Nat} {m m' : Manifest}
    (left : Remaining map (n + 2)) (short : map.r.length < 2 ^ 63)
    (alone : ∀ any rest, primitiveReadAny map.r = .ok (any, rest) → any.children = 0)
    (h : parseManifestBody (map, m) = .inl (map', m')) :
    ∃ k v, map.r = k ++ (v ++ map'.r) ∧ PairStep (k, v) m m' ∧ Remaining map' n := by
  have left' : Remaining map (n + 1 + 1) := left
  simp only [parseManifestBody, left'.notEnd, Bool.false_eq_true, if_false] at h
  split at h
  · cases h
  rename_i any next readKey
  obtain ⟨-, head, read, same, behind⟩ := (readAny_iff left').mp readKey
  have single := alone any next.r (readAny_some readKey).2.1
  split at h
  · cases h
  rename_i tag
  simp only [tag] at behind
  have left₁ : Remaining next (n + 1) := by
    rw [behind]
    exact left'.advance next.r
  have short₁ : next.r.length < 2 ^ 63 := by
    rw [same, List.length_append] at short
    omega
  split at h
  · rename_i uint
    split at h
    · rename_i after kept field
      cases h
      obtain ⟨-, v, same₁, behind₁, step⟩ := (parseManifestField_performs left₁ short₁ _ _).mp field
      refine ⟨head, v, by rw [same, same₁], ⟨any, read, single, .inl ⟨uint, step⟩⟩, ?_⟩
      rw [behind₁]
      exact left₁.advance _
    · cases h
  · rename_i uint
    split at h
    · rename_i after kept field
      cases h
      obtain ⟨-, v, same₁, behind₁, item, rfl⟩ := (skippedField_performs left₁ short₁ _ _).mp field
      refine ⟨head, v, by rw [same, same₁],
        ⟨any, read, single, .inr ⟨by simpa using uint, item, rfl⟩⟩, ?_⟩
      rw [behind₁]
      exact left₁.advance _
    · cases h

theorem parseManifestBody_of_step {map : Context} {n : Nat} {m m' : Manifest} {p : Pair}
    {rest : Bytes} (left : Remaining map (n + 2)) (short : map.r.length < 2 ^ 63)
    (step : PairStep p m m') (starts : map.r = p.1 ++ (p.2 ++ rest)) :
    ∃ map', parseManifestBody (map, m) = .inl (map', m') ∧ map'.r = rest ∧ Remaining map' n := by
  have left' : Remaining map (n + 1 + 1) := left
  obtain ⟨any, read, alone, outcome⟩ := step
  have untagged := isTag_of_children alone
  have readKey : readAny map = (some any, map.advance (p.2 ++ rest)) :=
    (readAny_iff left').mpr ⟨Nat.succ_pos _, p.1, read, starts, by simp [untagged]⟩
  have left₁ := left'.advance (p.2 ++ rest)
  have short₁ : (map.advance (p.2 ++ rest)).r.length < 2 ^ 63 := by
    rw [starts, List.length_append] at short
    rw [Context.advance_r]
    omega
  refine ⟨(map.advance (p.2 ++ rest)).advance rest, ?_, rfl, left₁.advance rest⟩
  rcases outcome with ⟨uint, value⟩ | ⟨uint, item, rfl⟩
  · have field := (parseManifestField_performs left₁ short₁
      ((map.advance (p.2 ++ rest)).advance rest) m').mpr ⟨Nat.succ_pos n, p.2, rfl, rfl, value⟩
    simp only [parseManifestBody, left'.notEnd, Bool.false_eq_true, if_false, readKey, untagged,
      uint, if_true, field]
  · have field := (skippedField_performs left₁ short₁
      ((map.advance (p.2 ++ rest)).advance rest) m').mpr ⟨Nat.succ_pos n, p.2, rfl, rfl, item, rfl⟩
    simp only [parseManifestBody, left'.notEnd, Bool.false_eq_true, if_false, readKey, untagged,
      uint, field]

theorem parseManifest_sound {n : Nat} {map map' : Context} {m m' : Manifest}
    (left : Remaining map (2 * n)) (short : map.r.length < 2 ^ 63) (plain : PlainKeys n map.r)
    (h : Loop.eval parseManifestBody _ parseManifestBody_decreasing (map, m) = (true, map', m')) :
    ∃ pairs, pairs.length = n ∧ PairItems pairs ∧ PairSteps pairs m m' ∧
      map.r = pairBytes pairs ++ map'.r ∧ Remaining map' 0 := by
  induction n generalizing map m with
  | zero =>
    have ended := left.isEndOfContext_iff.mpr rfl
    rw [Loop.eval_unfold] at h
    simp only [parseManifestBody, ended, if_true] at h
    cases h
    exact ⟨[], rfl, by simp [PairItems], rfl, rfl, left⟩
  | succ n ih =>
    have left' : Remaining map (2 * n + 1 + 1) := left
    rw [Loop.eval_unfold] at h
    cases pass : parseManifestBody (map, m) with
    | inr out =>
      simp only [pass] at h
      simp only [parseManifestBody, left'.notEnd, Bool.false_eq_true, if_false] at pass
      repeat' split at pass
      all_goals cases pass
      all_goals cases h
    | inl next =>
      obtain ⟨next, mid⟩ := next
      simp only [pass] at h
      obtain ⟨k, v, same, step, left₁⟩ :=
        parseManifestBody_inl left' short (fun any rest => plain.head) pass
      have short₁ : next.r.length < 2 ^ 63 := by
        rw [same, List.length_append, List.length_append] at short
        omega
      obtain ⟨isKey, isValue⟩ := step.items
      obtain ⟨pairs, count, items, steps, body, ended⟩ :=
        ih left₁ short₁ ((same ▸ plain).tail isKey isValue) h
      refine ⟨(k, v) :: pairs, by simp [count], ?_, ⟨mid, step, steps⟩, ?_, ended⟩
      · intro p mem
        rcases List.mem_cons.mp mem with rfl | mem
        · exact ⟨isKey, isValue⟩
        · exact items p mem
      · rw [same, body]
        simp

theorem parseManifest_complete {pairs : List Pair} {map : Context} {m m' : Manifest}
    {trailing : Bytes} (left : Remaining map (2 * pairs.length)) (short : map.r.length < 2 ^ 63)
    (steps : PairSteps pairs m m') (starts : map.r = pairBytes pairs ++ trailing) :
    ∃ map', Loop.eval parseManifestBody _ parseManifestBody_decreasing (map, m) =
      (true, map', m') ∧ Remaining map' 0 := by
  induction pairs generalizing map m with
  | nil =>
    have ended := left.isEndOfContext_iff.mpr rfl
    obtain rfl : m' = m := steps
    refine ⟨map, ?_, left⟩
    rw [Loop.eval_unfold]
    simp only [parseManifestBody, ended, if_true]
  | cons p pairs ih =>
    obtain ⟨mid, step, steps⟩ := steps
    rw [pairBytes_cons, List.append_assoc, List.append_assoc] at starts
    obtain ⟨next, pass, ends, left₁⟩ := parseManifestBody_of_step left short step starts
    have short₁ : next.r.length < 2 ^ 63 := by
      rw [starts, List.length_append, List.length_append] at short
      rw [ends]
      omega
    obtain ⟨map', loop, ended⟩ := ih left₁ short₁ steps ends
    refine ⟨map', ?_, ended⟩
    rw [Loop.eval_unfold]
    simp only [pass, loop]

end Loop

section Stored
variable {key : Nat} {v : Bytes} {m m' : Manifest}

theorem ValueStep.bstrs (step : ValueStep key v m m') : ∀ field ∈ bstrFields,
    (key = field.1 → ∃ b, bstrOf v = some b ∧ field.2 m' = some b) ∧
      (key ≠ field.1 → field.2 m' = field.2 m) := by
  simp only [bstrFields, List.forall_mem_cons, List.not_mem_nil, false_implies, implies_true,
    and_true, Label.common, Label.referenceUri, Label.validate, Label.load, Label.run]
  cases step.cases with
  | common is bstr _ | referenceUri is bstr | validate is bstr | load is bstr | run is bstr =>
    simp [is, bstr, Label.common, Label.referenceUri, Label.validate, Label.load, Label.run]
  | dependencyResolution is _ | payloadFetch is _ | install is _ | text is _ | coswid is _ =>
    simp [is, Label.dependencyResolution, Label.payloadFetch, Label.install, Label.text,
      Label.coswid]
  | unknown isnt _ =>
    simp only [bstrFields, severableFields, List.map_cons, List.map_nil, List.cons_append,
      List.nil_append, List.mem_cons, List.not_mem_nil, or_false, not_or] at isnt
    simp [isnt]

theorem ValueStep.severables (step : ValueStep key v m m') : ∀ field ∈ severableFields,
    (key = field.1 → SeverableItem v (field.2 m')) ∧
      (key ≠ field.1 → field.2 m' = field.2 m) := by
  simp only [severableFields, List.forall_mem_cons, List.not_mem_nil, false_implies, implies_true,
    and_true, Label.dependencyResolution, Label.payloadFetch, Label.install, Label.text,
    Label.coswid]
  cases step.cases with
  | common is _ _ | referenceUri is _ | validate is _ | load is _ | run is _ =>
    simp [is, Label.common, Label.referenceUri, Label.validate, Label.load, Label.run]
  | dependencyResolution is severable | payloadFetch is severable | install is severable
  | text is severable | coswid is severable =>
    simp [is, severable, Label.dependencyResolution, Label.payloadFetch, Label.install, Label.text,
      Label.coswid]
  | unknown isnt _ =>
    simp only [bstrFields, severableFields, List.map_cons, List.map_nil, List.cons_append,
      List.nil_append, List.mem_cons, List.not_mem_nil, or_false, not_or] at isnt
    simp [isnt]

theorem ValueStep.common (step : ValueStep key v m m') :
    (key = Label.common → ∃ b, bstrOf v = some b ∧ m'.commonBstr = some b ∧
      suitParseCommon (some b) = (true, m'.common)) ∧
    (key ≠ Label.common → m'.commonBstr = m.commonBstr ∧ m'.common = m.common) := by
  simp only [Label.common]
  cases step.cases with
  | common is bstr parsed =>
    exact ⟨fun _ => ⟨_, bstr, rfl, parsed⟩, fun other => absurd is other⟩
  | referenceUri is _ | validate is _ | load is _ | run is _
  | dependencyResolution is _ | payloadFetch is _ | install is _ | text is _ | coswid is _ =>
    simp [is, Label.referenceUri, Label.validate, Label.load, Label.run,
      Label.dependencyResolution, Label.payloadFetch, Label.install, Label.text, Label.coswid]
  | unknown isnt _ =>
    refine ⟨fun is => ?_, fun _ => ⟨rfl, rfl⟩⟩
    subst is
    exact absurd isnt (by decide)

/-- The members that no pair changes. -/
theorem ValueStep.kept (step : ValueStep key v m m') :
    (key ≠ Label.manifestVersion ∧ key ≠ Label.manifestSequenceNumber) ∧
      m'.envelopeBstr = m.envelopeBstr ∧ m'.binary = m.binary ∧ m'.version = m.version ∧
      m'.sequenceNumber = m.sequenceNumber := by
  simp only [Label.manifestVersion, Label.manifestSequenceNumber]
  cases step.cases with
  | common is _ _ | referenceUri is _ | validate is _ | load is _ | run is _
  | dependencyResolution is _ | payloadFetch is _ | install is _ | text is _ | coswid is _ =>
    simp [is, Label.common, Label.referenceUri, Label.validate, Label.load, Label.run,
      Label.dependencyResolution, Label.payloadFetch, Label.install, Label.text, Label.coswid]
  | unknown isnt _ =>
    simp only [List.cons_append, List.mem_cons, not_or] at isnt
    exact ⟨⟨isnt.1, isnt.2.1⟩, rfl, rfl, rfl, rfl⟩

theorem ValueCase.step (case : ValueCase key v m m') : ValueStep key v m m' := by
  unfold ValueStep
  cases case with
  | common is bstr parsed =>
    subst is
    rw [if_neg (by decide), if_pos rfl]
    exact ⟨_, bstr, congrArg Prod.fst parsed, by rw [parsed]⟩
  | referenceUri is bstr | validate is bstr | load is bstr | run is bstr =>
    subst is
    repeat rw [if_neg (by decide)]
    rw [if_pos rfl]
    exact ⟨_, bstr, rfl⟩
  | dependencyResolution is severable | payloadFetch is severable | install is severable
  | text is severable | coswid is severable =>
    subst is
    repeat rw [if_neg (by decide)]
    rw [if_pos rfl]
    exact ⟨_, severable, rfl⟩
  | unknown isnt item =>
    simp only [bstrFields, severableFields, List.map_cons, List.map_nil, List.cons_append,
      List.nil_append, List.mem_cons, List.not_mem_nil, or_false, not_or] at isnt
    simp only [isnt, or_self, if_false]
    exact ⟨item, trivial⟩

theorem valueStep_exists (item : Item v)
    (first : key ≠ Label.manifestVersion ∧ key ≠ Label.manifestSequenceNumber)
    (bstrs : ∀ field ∈ bstrFields, key = field.1 → ∃ b, bstrOf v = some b)
    (severables : ∀ field ∈ severableFields, key = field.1 → ∃ s, SeverableItem v s)
    (common : ∀ b, key = Label.common → bstrOf v = some b →
      ∃ c, suitParseCommon (some b) = (true, c)) : ∃ m', ValueStep key v m m' := by
  by_cases known : key ∈ bstrFields.map Prod.fst
  · obtain ⟨field, mem, is⟩ := List.mem_map.mp known
    obtain ⟨b, bstr⟩ := bstrs field mem is.symm
    simp only [bstrFields, List.map_cons, List.map_nil, List.mem_cons, List.not_mem_nil,
      or_false] at known
    rcases known with is | is | is | is | is
    · obtain ⟨c, parsed⟩ := common b is bstr
      exact ⟨_, (ValueCase.common is bstr parsed).step⟩
    · exact ⟨_, (ValueCase.referenceUri is bstr).step⟩
    · exact ⟨_, (ValueCase.validate is bstr).step⟩
    · exact ⟨_, (ValueCase.load is bstr).step⟩
    · exact ⟨_, (ValueCase.run is bstr).step⟩
  by_cases severed : key ∈ severableFields.map Prod.fst
  · obtain ⟨field, mem, is⟩ := List.mem_map.mp severed
    obtain ⟨s, severable⟩ := severables field mem is.symm
    simp only [severableFields, List.map_cons, List.map_nil, List.mem_cons, List.not_mem_nil,
      or_false] at severed
    rcases severed with is | is | is | is | is
    · exact ⟨_, (ValueCase.dependencyResolution is severable).step⟩
    · exact ⟨_, (ValueCase.payloadFetch is severable).step⟩
    · exact ⟨_, (ValueCase.install is severable).step⟩
    · exact ⟨_, (ValueCase.text is severable).step⟩
    · exact ⟨_, (ValueCase.coswid is severable).step⟩
  refine ⟨m, (ValueCase.unknown ?_ item).step⟩
  simp only [List.mem_append, List.mem_cons, List.not_mem_nil, or_false, not_or]
  exact ⟨⟨first, known⟩, severed⟩

end Stored

section Runs
variable {p : Pair} {pairs : List Pair} {m m' : Manifest}

theorem PairStep.at {α : Type} (get : Manifest → α) (label : Nat) (new : Bytes → α → Prop)
    (values : ∀ key v m m', ValueStep key v m m' →
      (key = label → new v (get m')) ∧ (key ≠ label → get m' = get m))
    (step : PairStep p m m') :
    (labelKey label p.1 = true → new p.2 (get m')) ∧
      (labelKey label p.1 = false → get m' = get m) := by
  obtain ⟨any, read, -, ⟨uint, value⟩ | ⟨uint, -, rfl⟩⟩ := step
  · rw [labelKey_head read, uint, Bool.true_and, beq_iff_eq, beq_eq_false_iff_ne]
    exact values _ _ _ _ value
  · rw [labelKey_head read, uint, Bool.false_and]
    constructor
    · intro h
      cases h
    · intro _
      rfl

/-- A field after all pairs: from the last pair of its label, or as it was. -/
theorem PairSteps.last {α : Type} (get : Manifest → α) (label : Nat) (new : Bytes → α → Prop)
    (values : ∀ key v m m', ValueStep key v m m' →
      (key = label → new v (get m')) ∧ (key ≠ label → get m' = get m))
    (steps : PairSteps pairs m m') :
    (∃ v, lastValue (labelKey label) pairs = some v ∧ new v (get m')) ∨
      (lastValue (labelKey label) pairs = none ∧ get m' = get m) := by
  induction pairs generalizing m with
  | nil =>
    obtain rfl : m' = m := steps
    exact .inr ⟨rfl, rfl⟩
  | cons p pairs ih =>
    obtain ⟨mid, step, steps⟩ := steps
    have here := step.at get label new values
    simp only [lastValue]
    rcases ih steps with ⟨v, last, stored⟩ | ⟨absent, kept⟩
    · exact .inl ⟨v, by simp [last], stored⟩
    · cases isKey : labelKey label p.1 with
      | true => exact .inl ⟨p.2, by simp [absent], kept ▸ here.1 isKey⟩
      | false => exact .inr ⟨by simp [absent], kept.trans (here.2 isKey)⟩

theorem PairStep.bstrs (step : PairStep p m m') {field : Nat × (Manifest → Range)}
    (isField : field ∈ bstrFields) :
    (labelKey field.1 p.1 = true → ∃ b, bstrOf p.2 = some b ∧ field.2 m' = some b) ∧
      (labelKey field.1 p.1 = false → field.2 m' = field.2 m) :=
  step.at field.2 field.1 (fun v r => ∃ b, bstrOf v = some b ∧ r = some b)
    fun _ _ _ _ value => value.bstrs field isField

theorem PairStep.severables (step : PairStep p m m') {field : Nat × (Manifest → Severable)}
    (isField : field ∈ severableFields) :
    (labelKey field.1 p.1 = true → SeverableItem p.2 (field.2 m')) ∧
      (labelKey field.1 p.1 = false → field.2 m' = field.2 m) :=
  step.at field.2 field.1 SeverableItem fun _ _ _ _ value => value.severables field isField

theorem PairSteps.bstrs (steps : PairSteps pairs m m') {field : Nat × (Manifest → Range)}
    (isField : field ∈ bstrFields) :
    (∃ v, lastValue (labelKey field.1) pairs = some v ∧
        ∃ b, bstrOf v = some b ∧ field.2 m' = some b) ∨
      (lastValue (labelKey field.1) pairs = none ∧ field.2 m' = field.2 m) :=
  steps.last field.2 field.1 (fun v r => ∃ b, bstrOf v = some b ∧ r = some b)
    fun _ _ _ _ value => value.bstrs field isField

theorem PairSteps.severables (steps : PairSteps pairs m m') {field : Nat × (Manifest → Severable)}
    (isField : field ∈ severableFields) :
    (∃ v, lastValue (labelKey field.1) pairs = some v ∧ SeverableItem v (field.2 m')) ∨
      (lastValue (labelKey field.1) pairs = none ∧ field.2 m' = field.2 m) :=
  steps.last field.2 field.1 SeverableItem fun _ _ _ _ value => value.severables field isField

theorem PairSteps.common (steps : PairSteps pairs m m') :
    (∃ v, lastValue (labelKey Label.common) pairs = some v ∧ ∃ b, bstrOf v = some b ∧
        m'.commonBstr = some b ∧ suitParseCommon (some b) = (true, m'.common)) ∨
      (lastValue (labelKey Label.common) pairs = none ∧ m'.commonBstr = m.commonBstr) := by
  rcases steps.last (fun m => (m.commonBstr, m.common)) Label.common
    (fun v r => ∃ b, bstrOf v = some b ∧ r.1 = some b ∧ suitParseCommon (some b) = (true, r.2))
    (fun _ _ _ _ value => ⟨value.common.1, fun other =>
      Prod.ext (value.common.2 other).1 (value.common.2 other).2⟩) with stored | ⟨absent, kept⟩
  · exact .inl stored
  · exact .inr ⟨absent, congrArg Prod.fst kept⟩

theorem PairSteps.mem (steps : PairSteps pairs m m') (member : p ∈ pairs) :
    ∃ before after, PairStep p before after := by
  induction pairs generalizing m with
  | nil => cases member
  | cons q pairs ih =>
    obtain ⟨mid, step, steps⟩ := steps
    rcases List.mem_cons.mp member with rfl | later
    · exact ⟨m, mid, step⟩
    · exact ih steps later

theorem PairSteps.kept (steps : PairSteps pairs m m') :
    m'.envelopeBstr = m.envelopeBstr ∧ m'.binary = m.binary ∧ m'.version = m.version ∧
      m'.sequenceNumber = m.sequenceNumber := by
  induction pairs generalizing m with
  | nil =>
    obtain rfl : m' = m := steps
    exact ⟨rfl, rfl, rfl, rfl⟩
  | cons p pairs ih =>
    obtain ⟨mid, ⟨any, -, -, outcome⟩, steps⟩ := steps
    have here : mid.envelopeBstr = m.envelopeBstr ∧ mid.binary = m.binary ∧
        mid.version = m.version ∧ mid.sequenceNumber = m.sequenceNumber := by
      rcases outcome with ⟨-, value⟩ | ⟨-, -, rfl⟩
      · exact value.kept.2
      · exact ⟨rfl, rfl, rfl, rfl⟩
    obtain ⟨one, two, three, four⟩ := ih steps
    exact ⟨one.trans here.1, two.trans here.2.1, three.trans here.2.2.1, four.trans here.2.2.2⟩

theorem pairSteps_exists (each : ∀ p ∈ pairs, ∀ m, ∃ m', PairStep p m m') (m : Manifest) :
    ∃ m', PairSteps pairs m m' := by
  induction pairs generalizing m with
  | nil => exact ⟨m, rfl⟩
  | cons p pairs ih =>
    obtain ⟨mid, step⟩ := each p List.mem_cons_self m
    obtain ⟨m', steps⟩ := ih (fun q mem => each q (List.mem_cons_of_mem p mem)) mid
    exact ⟨m', mid, step, steps⟩

theorem PlainKeys.heads {trailing : Bytes}
    (plain : PlainKeys pairs.length (pairBytes pairs ++ trailing)) (items : PairItems pairs) :
    ∀ p ∈ pairs, ∃ any, Head p.1 any ∧ any.children = 0 := by
  induction pairs with
  | nil => simp
  | cons q pairs ih =>
    rw [pairBytes_cons, List.append_assoc, List.append_assoc] at plain
    obtain ⟨head, any, content, read, inner, key⟩ := (item_iff).mp items.head.1
    have first : primitiveReadAny (q.1 ++ (q.2 ++ (pairBytes pairs ++ trailing))) =
        .ok (any, content ++ (q.2 ++ (pairBytes pairs ++ trailing))) := by
      rw [key, List.append_assoc]
      exact read.append _
    have alone := plain.head first
    rw [alone, sequence_zero] at inner
    rw [inner, List.append_nil] at key
    intro p mem
    rcases List.mem_cons.mp mem with rfl | mem
    · exact ⟨any, key ▸ read, alone⟩
    · exact ih (plain.tail items.head.1 items.head.2) items.tail p mem

end Runs

section Whole

theorem labelKey_of_uintOf {label : Nat} {key : Bytes} (h : uintOf key = some label) :
    labelKey label key = true := by
  obtain ⟨any, read, uint, value⟩ := (uintOf_eq_some_iff).mp h
  simp [labelKey_head read, uint, value]

theorem uintOf_of_labelKey {label : Nat} {key : Bytes} (item : Item key)
    (h : labelKey label key = true) : uintOf key = some label := by
  obtain ⟨any, read, uint, value⟩ := labelKey_item item h
  exact (uintOf_eq_some_iff).mpr ⟨any, read, uint, value⟩

theorem readKeyAndUint_sound {ctx after : Context} {n key v : Nat} (left : Remaining ctx n)
    (h : readKeyAndUint ctx key = (some v, after)) :
    1 < n ∧ ∃ k item, uintOf k = some key ∧ uintOf item = some v ∧
      ctx.r = k ++ (item ++ after.r) ∧ Remaining after (n - 2) := by
  unfold readKeyAndUint matchKey at h
  split at h
  · cases h
  rename_i value matched
  split at h
  · rename_i read
    cases h
    split at matched
    · rename_i k next readKey
      split at matched
      · rename_i is
        cases matched
        subst is
        obtain ⟨one, key, isKey, same, behind⟩ := (readUint_uintOf left).mp readKey
        have left₁ := left.behind one behind
        obtain ⟨two, item, uint, same₁, behind₁⟩ := (readUint_uintOf left₁).mp read
        refine ⟨by omega, key, item, isKey, uint, by rw [same, same₁], ?_⟩
        have left₂ := left₁.behind two behind₁
        rwa [Nat.sub_sub] at left₂
      · cases matched
    · cases matched
  · cases h

theorem readKeyAndUint_at {ctx : Context} {n key v : Nat} {k item : Bytes}
    (left : Remaining ctx (n + 2)) (isKey : uintOf k = some key) (uint : uintOf item = some v)
    (rest : Bytes) (starts : ctx.r = k ++ (item ++ rest)) :
    readKeyAndUint ctx key = (some v, (ctx.advance (item ++ rest)).advance rest) := by
  have readKey := readUint_present left (Nat.succ_pos _) isKey starts
  have left₁ := left.next rfl (item ++ rest)
  have read := readUint_present left₁ (Nat.succ_pos _) uint rfl
  simp only [readKeyAndUint, matchKey, readKey, if_true, read]

theorem bstr_short {later : List Pair} {p : Pair} {b : Bytes}
    (short : (pairBytes later).length < 2 ^ 63) (member : p ∈ later) (bstr : bstrOf p.2 = some b) :
    b.length < 2 ^ 63 := by
  have content := bstrOf_length bstr
  have value := value_length_le member
  omega

/-- The pairs behind the first two, read from `m` to `m'`. -/
theorem manifestPairs_of_steps {version number : Pair} {later : List Pair} {m m' : Manifest}
    {n : Nat} (short : (pairBytes later).length < 2 ^ 63)
    (first : uintOf version.1 = some Label.manifestVersion ∧ uintOf version.2 = some 1)
    (second : uintOf number.1 = some Label.manifestSequenceNumber ∧ uintOf number.2 = some n)
    (fresh : m.commonBstr = none) (steps : PairSteps later m m')
    (present : m'.commonBstr.isSome = true) : ManifestPairs version number later where
  version := ⟨labelKey_of_uintOf first.1, first.2⟩
  number := ⟨labelKey_of_uintOf second.1, n, second.2⟩
  noRepeat := by
    intro p member
    obtain ⟨before, after, any, read, -, ⟨uint, value⟩ | ⟨uint, -⟩⟩ := steps.mem member
    · simpa [labelKey_head read, uint] using value.kept.1
    · simp [labelKey_head read, uint]
  bstrs := by
    intro p member field isField isKey
    obtain ⟨before, after, step⟩ := steps.mem member
    obtain ⟨b, bstr, -⟩ := (step.bstrs isField).1 isKey
    exact ⟨b, bstr⟩
  severables := by
    intro p member field isField isKey
    obtain ⟨before, after, step⟩ := steps.mem member
    exact ⟨_, (step.severables isField).1 isKey⟩
  common := by
    rcases steps.common with ⟨v, last, -⟩ | ⟨-, kept⟩
    · obtain ⟨k, member, isKey⟩ := lastValue_mem last
      exact ⟨(k, v), member, isKey⟩
    · rw [kept, fresh] at present
      cases present
  commons := by
    intro p member b isKey bstr
    obtain ⟨before, after, any, read, -, outcome⟩ := steps.mem member
    rw [labelKey_head read, Bool.and_eq_true, beq_iff_eq] at isKey
    rcases outcome with ⟨-, value⟩ | ⟨uint, -⟩
    · obtain ⟨b', bstr', -, parsed⟩ := value.common.1 isKey.2
      obtain rfl : b = b' := Option.some.inj (bstr.symm.trans bstr')
      obtain ⟨pairs, isMap, reads⟩ :=
        (suitParseCommon_iff_grammar (bstr_short short member bstr)).mp parsed
      exact ⟨pairs, _, isMap, reads⟩
    · rw [uint] at isKey
      cases isKey.1

theorem steps_of_manifestPairs {version number : Pair} {later : List Pair}
    (short : (pairBytes later).length < 2 ^ 63) (items : PairItems later)
    (alone : ∀ p ∈ later, ∃ any, Head p.1 any ∧ any.children = 0)
    (grammar : ManifestPairs version number later) (m : Manifest) : ∃ m', PairSteps later m m' := by
  apply pairSteps_exists
  intro p member m
  obtain ⟨any, read, single⟩ := alone p member
  cases uint : any.isUint with
  | false => exact ⟨m, any, read, single, .inr ⟨uint, (items p member).2, rfl⟩⟩
  | true =>
    have isLabel (label : Nat) : labelKey label p.1 = true ↔ any.value = label := by
      simp [labelKey_head read, uint]
    have first : any.value ≠ Label.manifestVersion ∧
        any.value ≠ Label.manifestSequenceNumber := by
      have none := grammar.noRepeat p member
      simpa [labelKey_head read, uint] using none
    obtain ⟨m', value⟩ : ∃ m', ValueStep any.value p.2 m m' := by
      apply valueStep_exists (items p member).2 first
      · intro field isField is
        exact grammar.bstrs p member field isField ((isLabel _).mpr is)
      · intro field isField is
        exact grammar.severables p member field isField ((isLabel _).mpr is)
      · intro b is bstr
        obtain ⟨pairs, c, isMap, reads⟩ :=
          grammar.commons p member b ((isLabel _).mpr is) bstr
        exact ⟨c, (suitParseCommon_iff_grammar (bstr_short short member bstr)).mpr
          ⟨pairs, isMap, reads⟩⟩
    exact ⟨m', any, read, single, .inl ⟨uint, value⟩⟩

/-- The result before the first pair is read. -/
def resetManifest (manifestBstr : Range) (ret : Manifest) : Manifest :=
  { ret with
    envelopeBstr := none
    binary := manifestBstr
    commonBstr := none
    referenceUri := none
    dependencyResolution := { ret.dependencyResolution with hasValue := false }
    payloadFetch := { ret.payloadFetch with hasValue := false }
    install := { ret.install with hasValue := false }
    text := { ret.text with hasValue := false }
    coswid := { ret.coswid with hasValue := false }
    validate := none
    load := none
    run := none }

theorem parseManifestFields_true {ctx map : Context} {m m' : Manifest}
    (h : parseManifestFields ctx map m = (true, m')) :
    ∃ map', Loop.eval parseManifestBody _ parseManifestBody_decreasing (map, m) =
      (true, map', m') ∧ m'.commonBstr.isSome = true := by
  unfold parseManifestFields at h
  split at h
  · cases h
  · rename_i map' m₁ loop
    obtain ⟨ok, rfl⟩ := Prod.mk.inj h
    rw [Bool.and_eq_true] at ok
    exact ⟨map', loop, ok.2⟩

theorem parseManifestFields_of_loop (ctx : Context) {map map' : Context} {m m' : Manifest}
    (loop : Loop.eval parseManifestBody _ parseManifestBody_decreasing (map, m) =
      (true, map', m')) (ended : Remaining map' 0) (present : m'.commonBstr.isSome = true) :
    parseManifestFields ctx map m = (true, m') := by
  simp only [parseManifestFields, loop, close_at ended, present, Bool.and_self]

theorem suitManifestParse_sound {bytes head body : Bytes} {any : Any} {ret : Manifest}
    (read : Head head any) (starts : bytes = head ++ body) (plain : PlainKeys any.value body)
    (short : bytes.length < 2 ^ 63) (h : (suitManifestParse (some bytes) ret).1 = true) :
    ∃ version number later, StartsWithMap bytes (version :: number :: later) ∧
      ManifestPairs version number later := by
  have left := remaining_toplevel (some bytes)
  unfold suitManifestParse at h
  simp only at h
  split at h
  · cases h
  rename_i map ctx opened
  obtain ⟨-, head', any', read', isMap, fits, same, -, rfl⟩ := (readMap_iff left).mp opened
  have both : head ++ body = head' ++ ctx.r := starts.symm.trans same
  obtain ⟨rfl, rfl⟩ := read.unique read' both
  have left₀ := remaining_openContext ctx fits
  split at h
  · cases h
  rename_i version map₁ readVersion
  obtain ⟨some₁, k₁, v₁, isKey₁, value₁, same₁, left₁⟩ := readKeyAndUint_sound left₀ readVersion
  split at h
  · cases h
  rename_i one
  rw [Decidable.not_not] at one
  subst one
  split at h
  · cases h
  rename_i number map₂ readNumber
  obtain ⟨some₂, k₂, v₂, isKey₂, value₂, same₂, left₂⟩ := readKeyAndUint_sound left₁ readNumber
  obtain ⟨n, size⟩ : ∃ n, any.value = n + 2 := ⟨any.value - 2, by omega⟩
  have left₃ : Remaining map₂ (2 * n) := by
    have count : any.value + any.value - 2 - 2 = 2 * n := by omega
    rwa [count] at left₂
  have bounded : (k₁ ++ (v₁ ++ (k₂ ++ (v₂ ++ map₂.r)))).length < 2 ^ 63 := by
    rw [← same₂, ← same₁, openContext_r]
    rw [starts, List.length_append] at short
    omega
  have short₃ : map₂.r.length < 2 ^ 63 := by
    simp only [List.length_append] at bounded
    omega
  have plain₃ : PlainKeys n map₂.r := by
    rw [openContext_r] at same₁
    rw [size, same₁, same₂] at plain
    exact (plain.tail (uintOf_item isKey₁) (uintOf_item value₁)).tail (uintOf_item isKey₂)
      (uintOf_item value₂)
  obtain ⟨map', loop, present⟩ := parseManifestFields_true (Prod.ext h rfl)
  obtain ⟨later, count, items, steps, rest, -⟩ := parseManifest_sound left₃ short₃ plain₃ loop
  refine ⟨(k₁, v₁), (k₂, v₂), later, ⟨head, any, map'.r, read, isMap, ?_, ?_, ?_⟩,
    manifestPairs_of_steps ?_ ⟨isKey₁, value₁⟩ ⟨isKey₂, value₂⟩ rfl steps present⟩
  · simp only [List.length_cons]
    omega
  · intro p member
    rcases List.mem_cons.mp member with rfl | member
    · exact ⟨uintOf_item isKey₁, uintOf_item value₁⟩
    rcases List.mem_cons.mp member with rfl | member
    · exact ⟨uintOf_item isKey₂, uintOf_item value₂⟩
    · exact items p member
  · rw [starts, ← openContext_r ctx (any.value + any.value), same₁, same₂, rest]
    simp
  · rw [rest, List.length_append] at short₃
    omega

theorem suitManifestParse_complete {bytes : Bytes} {version number : Pair} {later : List Pair}
    (isMap : StartsWithMap bytes (version :: number :: later))
    (grammar : ManifestPairs version number later)
    (plain : ∀ p ∈ later, ∃ any, Head p.1 any ∧ any.children = 0) (short : bytes.length < 2 ^ 63)
    (ret : Manifest) :
    ∃ n m', uintOf number.2 = some n ∧
      suitManifestParse (some bytes) ret = (true, m') ∧
      PairSteps later
        { resetManifest (some bytes) ret with version := 1, sequenceNumber := n } m' := by
  obtain ⟨head, any, trailing, read, isMap, count, items, rfl⟩ := isMap
  obtain ⟨n, value₂⟩ := grammar.number.2
  have isKey₁ := uintOf_of_labelKey items.head.1 grammar.version.1
  have isKey₂ := uintOf_of_labelKey items.tail.head.1 grammar.number.1
  have fits : any.value + any.value < 2 ^ 64 := by
    have most := (pairBytes_sequence items).length_le
    rw [List.length_append, List.length_append] at short
    omega
  have bounded := short
  simp only [pairBytes_cons, List.length_append] at bounded
  obtain ⟨m', steps⟩ := steps_of_manifestPairs (by omega) items.tail.tail plain grammar
    { resetManifest (some (head ++ (pairBytes (version :: number :: later) ++ trailing))) ret with
      version := 1, sequenceNumber := n }
  have left := remaining_toplevel
    (some (head ++ (pairBytes (version :: number :: later) ++ trailing)))
  have opened := readMap_at left Nat.one_pos read isMap fits rfl
  generalize entire : head ++ (pairBytes (version :: number :: later) ++ trailing) = bytes at *
  have size : any.value + any.value = 2 * later.length + 2 + 2 := by
    simp only [List.length_cons] at count
    omega
  have left₁ : Remaining (openContext ((toplevel (some bytes)).advance
      (pairBytes (version :: number :: later) ++ trailing)) (any.value + any.value))
      (2 * later.length + 2 + 2) := by
    rw [← size]
    exact remaining_openContext _ fits
  have readVersion := readKeyAndUint_at left₁ isKey₁ grammar.version.2
    (pairBytes (number :: later) ++ trailing) (by simp)
  have left₂ := (left₁.next rfl (version.2 ++ (pairBytes (number :: later) ++ trailing))).next rfl
    (pairBytes (number :: later) ++ trailing)
  have readNumber := readKeyAndUint_at left₂ isKey₂ value₂ (pairBytes later ++ trailing)
    (by simp)
  have left₃ := (left₂.next rfl (number.2 ++ (pairBytes later ++ trailing))).next rfl
    (pairBytes later ++ trailing)
  have short₃ : (pairBytes later ++ trailing).length < 2 ^ 63 := by
    rw [List.length_append]
    omega
  obtain ⟨map', loop, ended⟩ := parseManifest_complete left₃ short₃ steps rfl
  have present : m'.commonBstr.isSome = true := by
    rcases steps.common with ⟨v, -, b, -, stored, -⟩ | ⟨absent, -⟩
    · rw [stored]
      rfl
    · obtain ⟨p, member, isKey⟩ := grammar.common
      rw [(lastValue_eq_none_iff).mp absent p member] at isKey
      cases isKey
  refine ⟨n, m', value₂, ?_, steps⟩
  simp only [suitManifestParse, opened, readVersion, readNumber, ne_eq, not_true, if_false]
  exact parseManifestFields_of_loop _ loop ended present

theorem manifestFields_of_steps {bytes : Bytes} {number : Pair} {later : List Pair} {n : Nat}
    {ret m' : Manifest} (short : (pairBytes later).length < 2 ^ 63)
    (value : uintOf number.2 = some n)
    (steps : PairSteps later
      { resetManifest (some bytes) ret with version := 1, sequenceNumber := n } m') :
    ManifestFields bytes number later m' := by
  obtain ⟨envelope, binary, version, sequenceNumber⟩ := steps.kept
  refine ⟨envelope, binary, version, value.trans (congrArg some sequenceNumber.symm), ?_, ?_, ?_⟩
  · intro field isField
    rcases steps.bstrs isField with ⟨v, last, b, bstr, stored⟩ | ⟨absent, kept⟩
    · exact .inl ⟨v, b, last, bstr, stored⟩
    · refine .inr ⟨absent, kept.trans ?_⟩
      simp only [bstrFields, List.mem_cons, List.not_mem_nil, or_false] at isField
      rcases isField with rfl | rfl | rfl | rfl | rfl
      all_goals rfl
  · intro field isField
    rcases steps.severables isField with ⟨v, last, severable⟩ | ⟨absent, kept⟩
    · exact .inl ⟨v, last, severable⟩
    · refine .inr ⟨absent, (congrArg Severable.hasValue kept).trans ?_⟩
      simp only [severableFields, List.mem_cons, List.not_mem_nil, or_false] at isField
      rcases isField with rfl | rfl | rfl | rfl | rfl
      all_goals rfl
  · intro b present
    rcases steps.common with ⟨v, last, b', bstr, stored, parsed⟩ | ⟨-, kept⟩
    · obtain rfl : b' = b := Option.some.inj (stored.symm.trans present)
      obtain ⟨k, member, -⟩ := lastValue_mem last
      exact (suitParseCommon_iff_grammar (bstr_short short member bstr)).mp parsed
    · rw [kept] at present
      cases present

/-- The parser accepts exactly the manifests of the grammar, and its result is what
the last pair of every key says, whatever the result held before. -/
theorem suitManifestParse_iff_grammar {bytes head body : Bytes} {any : Any}
    (read : Head head any) (isMap : any.isMap = true) (starts : bytes = head ++ body)
    (plain : PlainKeys any.value body) (short : bytes.length < 2 ^ 63) (ret : Manifest) :
    ((suitManifestParse (some bytes) ret).1 = true ↔
      ∃ version number later, StartsWithMap bytes (version :: number :: later) ∧
        ManifestPairs version number later) ∧
    ∀ version number later, StartsWithMap bytes (version :: number :: later) →
      ManifestPairs version number later →
      ManifestFields bytes number later (suitManifestParse (some bytes) ret).2 := by
  have accepted : ∀ version number later, StartsWithMap bytes (version :: number :: later) →
      ManifestPairs version number later → ∃ m', suitManifestParse (some bytes) ret = (true, m') ∧
        ManifestFields bytes number later m' := by
    intro version number later whole grammar
    obtain ⟨head', any', trailing, read', -, count, items, same⟩ := whole
    have both := starts.symm.trans same
    obtain ⟨rfl, rfl⟩ := read.unique read' both
    rw [count] at plain
    have alone := plain.heads items
    obtain ⟨n, m', value, parsed, steps⟩ := suitManifestParse_complete
      ⟨head', any, trailing, read', isMap, count, items, same⟩ grammar
      (fun p member => alone p (List.mem_cons_of_mem _ (List.mem_cons_of_mem _ member))) short ret
    refine ⟨m', parsed, manifestFields_of_steps ?_ value steps⟩
    rw [same] at short
    simp only [pairBytes_cons, List.length_append] at short
    omega
  refine ⟨⟨suitManifestParse_sound read starts plain short, ?_⟩, ?_⟩
  · rintro ⟨version, number, later, whole, grammar⟩
    obtain ⟨m', parsed, -⟩ := accepted version number later whole grammar
    rw [parsed]
  · intro version number later whole grammar
    obtain ⟨m', parsed, fields⟩ := accepted version number later whole grammar
    rw [parsed]
    exact fields

/-- `{1: 1, 2: 5, 3: << {2: [h'00']} >>, 9: h'00'}`. -/
theorem suitManifestParse_iff_grammar_install :
    ∃ version number later, StartsWithMap
        [0xA4, 0x01, 0x01, 0x02, 0x05, 0x03, 0x45, 0xA1, 0x02, 0x81, 0x41, 0x00, 0x09, 0x41, 0x00]
        (version :: number :: later) ∧ ManifestPairs version number later := by
  have items : PairItems [([0x01], [0x01]), ([0x02], [0x05]),
      ([0x03], [0x45, 0xA1, 0x02, 0x81, 0x41, 0x00]), ([0x09], [0x41, 0x00])] := by
    simp only [PairItems, List.forall_mem_cons]
    refine ⟨⟨?_, ?_⟩, ⟨?_, ?_⟩, ⟨?_, ?_⟩, ⟨?_, ?_⟩, by simp⟩
    all_goals exact item_of_primitiveSkip (by decide +kernel)
  have plain : PlainKeys 4 (pairBytes [([0x01], [0x01]), ([0x02], [0x05]),
      ([0x03], [0x45, 0xA1, 0x02, 0x81, 0x41, 0x00]), ([0x09], [0x41, 0x00])] ++ []) :=
    plainKeys_of_pairs items (by decide)
  have read : Head [0xA4] ⟨0xA4, 4, []⟩ := by
    unfold Head
    decide
  exact (suitManifestParse_iff_grammar read rfl rfl plain (by decide) Manifest.zero).1.mp
    (by decide +kernel)

end Whole

end TeepDevice.Suit
