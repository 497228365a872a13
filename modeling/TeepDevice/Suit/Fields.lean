import TeepDevice.Suit.Search

/-! What `suit_envelope_get_field` hands out of an envelope against the pairs of
the envelope's map. -/
namespace TeepDevice.Suit
open Tcbor

/-- Tag 107 and a well-formed map of these pairs; anything may follow. -/
def IsEnvelope (bytes : Bytes) (pairs : List Pair) : Prop :=
  ∃ head any rest, Head head any ∧ any.isTag = true ∧ any.value = envelopeTag ∧
    StartsWithMap rest pairs ∧ bytes = head ++ rest

/-- The field is the content of the byte string in the last pair with the key, and
null only if there is no such pair. -/
def FieldOfPairs (key : Bytes → Bool) (pairs : List Pair) : Range → Prop
  | none => ∀ p ∈ pairs, key p.1 = false
  | some content => ∃ before k item after, pairs = before ++ (k, item) :: after ∧
      key k = true ∧ (∀ p ∈ after, key p.1 = false) ∧ bstrOf item = some content

/-- An array or a map with something in it. -/
def nested : Bytes → Bool := headIs fun any => (any.isArray || any.isMap) && decide (0 < any.value)

/-- No key is nested, save that of the last pair and those behind a tagged key. -/
def KeysAlone (pairs : List Pair) : Prop :=
  ∀ before k v after, pairs = before ++ (k, v) :: after → after ≠ [] →
    (∀ p ∈ before, headIs Any.isTag p.1 = false) → nested k = false

theorem KeysAlone.head {k v : Bytes} {pairs : List Pair} (alone : KeysAlone ((k, v) :: pairs))
    (more : pairs ≠ []) : nested k = false :=
  alone [] k v pairs rfl more (by simp)

theorem KeysAlone.tail {p : Pair} {pairs : List Pair} (alone : KeysAlone (p :: pairs))
    (untagged : headIs Any.isTag p.1 = false) : KeysAlone pairs := by
  intro before k v after same more none
  apply alone (p :: before) k v after (by simp [same]) more
  intro q mem
  rcases List.mem_cons.mp mem with rfl | mem
  · exact untagged
  · exact none q mem

theorem children_of_not_nested {any : Any} (tag : any.isTag = false)
    (h : ((any.isArray || any.isMap) && decide (0 < any.value)) = false) : any.children = 0 := by
  simp only [Bool.and_eq_false_iff, Bool.or_eq_false_iff, decide_eq_false_iff_not] at h
  rcases h with ⟨array, map⟩ | empty
  · simp [Any.children, tag, array, map]
  · have zero : any.value = 0 := by omega
    simp [Any.children, zero, tag]

/-- Where every key that counts is alone on its head, the search sees the values
that the map has under a key: up to the last pair its entries are the pairs. -/
theorem lastValue_entries {test : Any → Bool} (single : ∀ any, test any = true → any.children = 0)
    (pairs : List Pair) {entries : List Pair} {trailing trailing' : Bytes}
    (items : PairItems pairs) (alone : KeysAlone pairs) (seen : EntryItems entries)
    (count : entries.length = pairs.length)
    (same : pairBytes entries ++ trailing' = pairBytes pairs ++ trailing) :
    lastValue (headIs test) entries = lastValue (headIs test) pairs := by
  induction pairs generalizing entries with
  | nil =>
    rw [List.length_nil, List.length_eq_zero_iff] at count
    rw [count]
  | cons p pairs ih =>
    obtain ⟨e, entries, rfl⟩ := List.exists_cons_of_length_eq_add_one count
    obtain ⟨⟨any, read, tag⟩, isItem⟩ := seen e List.mem_cons_self
    obtain ⟨head', any', content, read', inner, key_eq⟩ := (item_iff).mp items.head.1
    have ends : e.1 ++ (e.2 ++ (pairBytes entries ++ trailing')) =
        head' ++ (content ++ (p.2 ++ (pairBytes pairs ++ trailing))) := by
      simpa only [pairBytes_cons, key_eq, List.append_assoc] using same
    obtain ⟨rfl, ends⟩ := read.unique read' ends
    have here (test : Any → Bool) : headIs test p.1 = test any := by
      rw [key_eq, headIs_append read']
    -- a key of one head leaves the cursor at its own value
    have aligned (single : any.children = 0) :
        e.2 = p.2 ∧ pairBytes entries ++ trailing' = pairBytes pairs ++ trailing := by
      rw [single, sequence_zero] at inner
      rw [inner, List.nil_append] at ends
      exact isItem.unique items.head.2 ends
    have untagged : headIs Any.isTag p.1 = false := by rw [here, tag]
    have later : lastValue (headIs test) entries = lastValue (headIs test) pairs := by
      have count' : entries.length = pairs.length := Nat.succ.inj count
      cases pairs with
      | nil =>
        rw [List.length_nil, List.length_eq_zero_iff] at count'
        rw [count']
      | cons q pairs =>
        have notDeep := alone.head (List.cons_ne_nil q pairs)
        rw [nested, here] at notDeep
        exact ih items.tail (alone.tail untagged) seen.tail count'
          (aligned (children_of_not_nested tag notDeep)).2
    rw [lastValue, lastValue, later, read.headIs, here]
    cases isKey : test any with
    | false => rfl
    | true => rw [(aligned (single any isKey)).1]

section Search
variable {useTstr : Bool} {key : Nat} {keyTstr : Range}

/-- A nested key has its first inner item taken for its value, and the search goes
on in front of the pair that follows. -/
theorem getFieldBody_nested {map map' : Context} {field field' : Range} {k v rest : Bytes} {n : Nat}
    (isKey : Item k) (isValue : Item v) (deep : nested k = true) (left : Remaining map (n + 2))
    (starts : map.r = k ++ (v ++ rest))
    (h : getFieldBody useTstr key keyTstr (map, field) = .inl (map', field')) :
    field' = field ∧ rest.length < map'.r.length := by
  obtain ⟨head, any, item, read, tag, isItem, same, -, outcome⟩ := getFieldBody_inl left h
  obtain ⟨head', any', content, read', inner, rfl⟩ := (item_iff).mp isKey
  rw [starts, List.append_assoc] at same
  obtain ⟨rfl, ends⟩ := read'.unique read same
  rw [nested, headIs_append read', Bool.and_eq_true, decide_eq_true_eq] at deep
  obtain ⟨m, children⟩ : ∃ m, any'.children = m + 1 := by
    rcases Bool.or_eq_true_iff.mp deep.1 with array | isMap
    · exact ⟨any'.value - 1, by rw [children_of_isArray array]; omega⟩
    · exact ⟨any'.value + any'.value - 1, by rw [children_of_isMap isMap]; omega⟩
  constructor
  · rcases outcome with ⟨isWanted, -⟩ | ⟨-, kept⟩
    · have none := wanted_children isWanted
      omega
    · exact kept
  · rw [children, Nat.add_comm] at inner
    obtain ⟨first, others, one, -, rfl⟩ := inner.split
    rw [List.append_assoc] at ends
    obtain ⟨-, behind⟩ := ((sequence_one).mp one).unique isItem ends
    have positive := isValue.length_pos
    rw [← behind]
    simp only [List.length_append]
    omega

end Search

/-- `{[0]: 3, h'AA': 0}` has no pair with the key 3, but `3: h'AA'` is read. -/
theorem envelope_fields_disagree :
    ¬ ∀ bytes pairs label result, IsEnvelope bytes pairs →
      suitEnvelopeGetFieldByKey (some bytes) label = some result →
      FieldOfPairs (labelKey label) pairs result := by
  intro claimed
  have envelope : IsEnvelope [0xD8, 0x6B, 0xA2, 0x81, 0x00, 0x03, 0x41, 0xAA, 0x00]
      [([0x81, 0x00], [0x03]), ([0x41, 0xAA], [0x00])] := by
    refine ⟨[0xD8, 0x6B], ⟨0xD8, 107, []⟩, _, by unfold Head; decide, rfl, rfl,
      ⟨[0xA2], ⟨0xA2, 2, []⟩, [], by unfold Head; decide, rfl, rfl, ?_, rfl⟩, rfl⟩
    simp only [PairItems, List.forall_mem_cons]
    refine ⟨⟨?_, ?_⟩, ⟨?_, ?_⟩, by simp⟩
    all_goals exact item_of_primitiveSkip (by decide +kernel)
  obtain ⟨before, k, item, after, same, isKey, -, -⟩ :=
    claimed _ _ 3 (some [0xAA]) envelope (by decide +kernel)
  have member : (k, item) ∈ [([0x81, 0x00], [0x03]), ([0x41, 0xAA], [0x00])] := by
    rw [same]
    simp
  have absent : ∀ p ∈ ([([0x81, 0x00], [0x03]), ([0x41, 0xAA], [0x00])] : List Pair),
      labelKey 3 p.1 = false := by
    decide
  rw [absent _ member] at isKey
  cases isKey

theorem suitEnvelopeGetField_agrees {bytes : Bytes} {pairs : List Pair} {useTstr : Bool}
    {key : Nat} {keyTstr result : Range} (envelope : IsEnvelope bytes pairs)
    (alone : KeysAlone pairs)
    (found : suitEnvelopeGetField (some bytes) useTstr key keyTstr = some result) :
    FieldOfPairs (headIs (wanted useTstr key keyTstr)) pairs result := by
  obtain ⟨head, any, rest, read, -, -, ⟨head', any', trailing, read', -, count, items, rfl⟩,
    rfl⟩ := envelope
  obtain ⟨entries, seen, all, rfl⟩ := suitEnvelopeGetField_sound found
  obtain ⟨head₁, any₁, head₂, any₂, trailing₁, read₁, -, -, read₂, -, count₂, isEntry, same⟩ := seen
  obtain ⟨-, rest_eq⟩ := read.unique read₁ same
  obtain ⟨rfl, body⟩ := read'.unique read₂ rest_eq
  have single (any : Any) (isWanted : wanted useTstr key keyTstr any = true) : any.children = 0 :=
    wanted_children isWanted
  have last := lastValue_entries single pairs items alone isEntry (count₂.symm.trans count)
    body.symm
  unfold entryField
  cases value : lastValue (headIs (wanted useTstr key keyTstr)) entries with
  | none =>
    rw [value] at last
    exact (lastValue_eq_none_iff).mp last.symm
  | some item =>
    obtain ⟨k₁, member, isWanted⟩ := lastValue_mem value
    obtain ⟨content, bstr⟩ := Option.isSome_iff_exists.mp (all (k₁, item) member isWanted)
    rw [value] at last
    obtain ⟨before, k, after, split, isKey, none⟩ := (lastValue_eq_some_iff).mp last.symm
    rw [Option.bind_some, bstr]
    exact ⟨before, k, item, after, split, isKey, none, bstr⟩

/-- Where every key that counts is alone on its head, a field handed out under a
label or a name is the one of the last pair with that key, and a null field means
that the map has no such pair. On any other map the search leaves the boundaries
of the pairs: it passes some pair without getting to the one behind it. -/
theorem envelope_fields_agree {bytes : Bytes} {pairs : List Pair}
    (envelope : IsEnvelope bytes pairs) :
    (KeysAlone pairs →
      (∀ label result, suitEnvelopeGetFieldByKey (some bytes) label = some result →
        FieldOfPairs (labelKey label) pairs result) ∧
      (∀ name result, suitEnvelopeGetFieldByName (some bytes) (some name) = some result →
        FieldOfPairs (nameKey name) pairs result)) ∧
    (¬ KeysAlone pairs → ∃ before k v after, pairs = before ++ (k, v) :: after ∧ after ≠ [] ∧
      ∀ useTstr key keyTstr map field map' field' trailing,
        Remaining map (2 * after.length + 2) →
        map.r = pairBytes ((k, v) :: after) ++ trailing →
        getFieldBody useTstr key keyTstr (map, field) = .inl (map', field') →
        map'.r ≠ pairBytes after ++ trailing) := by
  constructor
  · intro alone
    constructor
    · intro label result found
      have agreed := suitEnvelopeGetField_agrees envelope alone found
      rwa [wanted_label] at agreed
    · intro name result found
      have agreed := suitEnvelopeGetField_agrees envelope alone found
      rwa [wanted_name] at agreed
  · intro strays
    simp only [KeysAlone, not_forall, Bool.not_eq_false] at strays
    obtain ⟨before, k, v, after, same, more, -, deep⟩ := strays
    refine ⟨before, k, v, after, same, more, ?_⟩
    intro useTstr key keyTstr map field map' field' trailing left starts pass behind
    obtain ⟨-, -, -, -, -, -, ⟨-, -, -, -, -, -, items, -⟩, -⟩ := envelope
    have isPair := items (k, v) (by simp [same])
    rw [pairBytes_cons, List.append_assoc, List.append_assoc] at starts
    have short := (getFieldBody_nested isPair.1 isPair.2 deep left starts pass).2
    rw [behind] at short
    exact absurd short (Nat.lt_irrefl _)

/-- `{3: h'AA', "#a": h'BB', [0]: h''}`: the nested key is the last one. -/
theorem envelope_fields_agree_nested_last :
    FieldOfPairs (labelKey 3)
      [([0x03], [0x41, 0xAA]), ([0x62, 0x23, 0x61], [0x41, 0xBB]), ([0x81, 0x00], [0x40])]
      (some [0xAA]) := by
  have envelope : IsEnvelope
      [0xD8, 0x6B, 0xA3, 0x03, 0x41, 0xAA, 0x62, 0x23, 0x61, 0x41, 0xBB, 0x81, 0x00, 0x40]
      [([0x03], [0x41, 0xAA]), ([0x62, 0x23, 0x61], [0x41, 0xBB]), ([0x81, 0x00], [0x40])] := by
    refine ⟨[0xD8, 0x6B], ⟨0xD8, 107, []⟩, _, by unfold Head; decide, rfl, rfl,
      ⟨[0xA3], ⟨0xA3, 3, []⟩, [], by unfold Head; decide, rfl, rfl, ?_, rfl⟩, rfl⟩
    simp only [PairItems, List.forall_mem_cons]
    refine ⟨⟨?_, ?_⟩, ⟨?_, ?_⟩, ⟨?_, ?_⟩, by simp⟩
    all_goals exact item_of_primitiveSkip (by decide +kernel)
  refine ((envelope_fields_agree envelope).1 ?_).1 3 (some [0xAA]) (by decide +kernel)
  intro before k v after same more none
  rcases before with - | ⟨p, - | ⟨q, before⟩⟩
  · cases same
    decide
  · cases same
    decide
  · cases before with
    | nil =>
      cases same
      exact absurd rfl more
    | cons r before => cases before <;> cases same

end TeepDevice.Suit
