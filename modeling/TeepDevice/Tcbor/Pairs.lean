import TeepDevice.Tcbor.Cursor

/-! Maps as lists of pairs: the bytes of a key and the bytes of its value. -/
namespace TeepDevice.Tcbor

abbrev Pair := Bytes × Bytes

def pairBytes (pairs : List Pair) : Bytes := (pairs.map fun p => p.1 ++ p.2).flatten

/-- Keys and values are items. -/
def PairItems (pairs : List Pair) : Prop := ∀ p ∈ pairs, Item p.1 ∧ Item p.2

/-- The bytes start with a well-formed map of these pairs. -/
def StartsWithMap (bytes : Bytes) (pairs : List Pair) : Prop :=
  ∃ head any trailing, Head head any ∧ any.isMap = true ∧ any.value = pairs.length ∧
    PairItems pairs ∧ bytes = head ++ (pairBytes pairs ++ trailing)

/-- An untagged array of these elements. -/
def ArrayItem (item : Bytes) (elements : List Bytes) : Prop :=
  ∃ head any, Head head any ∧ any.isArray = true ∧ any.value = elements.length ∧
    (∀ e ∈ elements, Item e) ∧ item = head ++ elements.flatten

/-- A test on the head an item starts with. -/
def headIs (test : Any → Bool) (item : Bytes) : Bool :=
  match primitiveReadAny item with
  | .ok (any, _) => test any
  | .error _ => false

/-- The content of an untagged byte string. -/
def bstrOf (item : Bytes) : Option Bytes :=
  match primitiveReadAny item with
  | .ok (any, []) => if any.isBstr then some any.bytes else none
  | _ => none

/-- The integer `readInt` reads, where the item is one. -/
def intOf (item : Bytes) : Option Int :=
  match primitiveReadAny item with
  | .ok (any, []) => any.intValue
  | _ => none

def uintOf (item : Bytes) : Option Nat :=
  match primitiveReadAny item with
  | .ok (any, []) => if any.isUint then some any.value else none
  | _ => none

/-- The value of the last pair whose key passes the test. -/
def lastValue (key : Bytes → Bool) : List Pair → Option Bytes
  | [] => none
  | p :: pairs => (lastValue key pairs).or (if key p.1 then some p.2 else none)

section Heads
variable {head : Bytes} {any : Any}

theorem headIs_append {test : Any → Bool} (read : Head head any) (t : Bytes) :
    headIs test (head ++ t) = test any := by
  simp only [headIs, read.append]

theorem Head.headIs {test : Any → Bool} (read : Head head any) : headIs test head = test any := by
  have h := @headIs_append head any test read []
  simpa using h

theorem bstrOf_eq_some_iff {item content : Bytes} :
    bstrOf item = some content ↔ ∃ any, Head item any ∧ any.isBstr = true ∧
      any.bytes = content := by
  unfold bstrOf
  constructor
  · intro h
    split at h
    · rename_i any read
      split at h
      · rename_i bstr
        cases h
        exact ⟨any, read, bstr, rfl⟩
      · cases h
    · cases h
  · rintro ⟨any, read, bstr, rfl⟩
    have reads : primitiveReadAny item = .ok (any, []) := read
    simp only [reads, bstr, if_true]

theorem bstrOf_length {item content : Bytes} (h : bstrOf item = some content) :
    content.length ≤ item.length := by
  obtain ⟨any, read, -, rfl⟩ := (bstrOf_eq_some_iff).mp h
  exact primitiveReadAny_bytes read

theorem bstrOf_item {item content : Bytes} (h : bstrOf item = some content) : Item item := by
  obtain ⟨any, read, bstr, -⟩ := (bstrOf_eq_some_iff).mp h
  exact read.item (children_of_isBstr bstr)

theorem readBstr_bstrOf {ctx after : Context} {n : Nat} {b : Bytes} (left : Remaining ctx n) :
    readBstr ctx = (some b, after) ↔ 0 < n ∧ ∃ item, bstrOf item = some b ∧
      ctx.r = item ++ after.r ∧ after = ctx.advance after.r := by
  rw [readBstr_iff left]
  constructor
  · rintro ⟨some, head, any, read, bstr, same, behind, content⟩
    exact ⟨some, head, (bstrOf_eq_some_iff).mpr ⟨any, read, bstr, content⟩, same, behind⟩
  · rintro ⟨some, item, content, same, behind⟩
    obtain ⟨any, read, bstr, bytes⟩ := (bstrOf_eq_some_iff).mp content
    exact ⟨some, item, any, read, bstr, same, behind, bytes⟩

theorem intOf_eq_some_iff {item : Bytes} {i : Int} :
    intOf item = some i ↔ ∃ any, Head item any ∧ any.intValue = some i := by
  unfold intOf
  constructor
  · intro h
    split at h
    · rename_i any read
      exact ⟨any, read, h⟩
    · cases h
  · rintro ⟨any, read, value⟩
    have reads : primitiveReadAny item = .ok (any, []) := read
    simp only [reads, value]

theorem intOf_item {item : Bytes} {i : Int} (h : intOf item = some i) : Item item := by
  obtain ⟨any, read, value⟩ := (intOf_eq_some_iff).mp h
  rcases Any.intValue_cases value with uint | nint
  · exact read.item (children_of_isUint uint)
  · exact read.item (children_of_isNint nint)

theorem readInt_intOf {ctx after : Context} {n : Nat} {i : Int} (left : Remaining ctx n) :
    readInt ctx = (some i, after) ↔ 0 < n ∧ ∃ item, intOf item = some i ∧
      ctx.r = item ++ after.r ∧ after = ctx.advance after.r := by
  rw [readInt_iff left]
  constructor
  · rintro ⟨some, head, any, read, value, same, behind⟩
    exact ⟨some, head, (intOf_eq_some_iff).mpr ⟨any, read, value⟩, same, behind⟩
  · rintro ⟨some, item, value, same, behind⟩
    obtain ⟨any, read, fits⟩ := (intOf_eq_some_iff).mp value
    exact ⟨some, item, any, read, fits, same, behind⟩

theorem uintOf_eq_some_iff {item : Bytes} {v : Nat} :
    uintOf item = some v ↔ ∃ any, Head item any ∧ any.isUint = true ∧ any.value = v := by
  unfold uintOf
  constructor
  · intro h
    split at h
    · rename_i any read
      split at h
      · rename_i uint
        cases h
        exact ⟨any, read, uint, rfl⟩
      · cases h
    · cases h
  · rintro ⟨any, read, uint, rfl⟩
    have reads : primitiveReadAny item = .ok (any, []) := read
    simp only [reads, uint, if_true]

theorem uintOf_item {item : Bytes} {v : Nat} (h : uintOf item = some v) : Item item := by
  obtain ⟨any, read, uint, -⟩ := (uintOf_eq_some_iff).mp h
  exact read.item (children_of_isUint uint)

theorem readUint_uintOf {ctx after : Context} {n v : Nat} (left : Remaining ctx n) :
    readUint ctx = (some v, after) ↔ 0 < n ∧ ∃ item, uintOf item = some v ∧
      ctx.r = item ++ after.r ∧ after = ctx.advance after.r := by
  rw [readUint_iff left]
  constructor
  · rintro ⟨some, head, any, read, uint, same, behind, value⟩
    exact ⟨some, head, (uintOf_eq_some_iff).mpr ⟨any, read, uint, value⟩, same, behind⟩
  · rintro ⟨some, item, value, same, behind⟩
    obtain ⟨any, read, uint, is⟩ := (uintOf_eq_some_iff).mp value
    exact ⟨some, item, any, read, uint, same, behind, is⟩

section Present
variable {ctx : Context} {n : Nat} {item rest : Bytes}

theorem readUint_present {v : Nat} (left : Remaining ctx n) (some : 0 < n)
    (uint : uintOf item = .some v) (same : ctx.r = item ++ rest) :
    readUint ctx = (.some v, ctx.advance rest) :=
  (readUint_uintOf left).mpr ⟨some, item, uint, same, rfl⟩

theorem readBstr_at {b : Bytes} (left : Remaining ctx n) (some : 0 < n)
    (bstr : bstrOf item = .some b) (same : ctx.r = item ++ rest) :
    readBstr ctx = (.some b, ctx.advance rest) :=
  (readBstr_bstrOf left).mpr ⟨some, item, bstr, same, rfl⟩

theorem readInt_at {i : Int} (left : Remaining ctx n) (some : 0 < n)
    (int : intOf item = .some i) (same : ctx.r = item ++ rest) :
    readInt ctx = (.some i, ctx.advance rest) :=
  (readInt_intOf left).mpr ⟨some, item, int, same, rfl⟩

end Present

end Heads

theorem Sequence.unique {n : Nat} {xs ys s t : Bytes} (left : Sequence n xs)
    (right : Sequence n ys) (same : xs ++ s = ys ++ t) : xs = ys ∧ s = t := by
  induction hm : xs.length using Nat.strong_induction_on generalizing n xs ys with
  | _ m ih =>
    cases n with
    | zero =>
      rw [sequence_zero] at left right
      subst left right
      exact ⟨rfl, same⟩
    | succ n =>
      obtain ⟨head, any, more, read, rfl, rest⟩ := (sequence_succ).mp left
      obtain ⟨head', any', more', read', rfl, rest'⟩ := (sequence_succ).mp right
      rw [List.append_assoc, List.append_assoc] at same
      obtain ⟨rfl, tails⟩ := read.unique read' same
      have positive := read.length_pos
      have shorter : more.length < m := by
        rw [← hm, List.length_append]
        omega
      obtain ⟨rfl, ends⟩ := ih more.length shorter rest rest' tails rfl
      rw [← List.append_assoc, ← List.append_assoc, ends] at same
      exact ⟨List.append_cancel_right same, ends⟩

theorem Item.unique {x y s t : Bytes} (left : Item x) (right : Item y) (same : x ++ s = y ++ t) :
    x = y ∧ s = t :=
  ((sequence_one).mpr left).unique ((sequence_one).mpr right) same

section Pairs

@[simp] theorem pairBytes_cons (p : Pair) (pairs : List Pair) :
    pairBytes (p :: pairs) = p.1 ++ p.2 ++ pairBytes pairs := rfl

theorem PairItems.head {p : Pair} {pairs : List Pair} (items : PairItems (p :: pairs)) :
    Item p.1 ∧ Item p.2 :=
  items p List.mem_cons_self

theorem PairItems.tail {p : Pair} {pairs : List Pair} (items : PairItems (p :: pairs)) :
    PairItems pairs :=
  fun q mem => items q (List.mem_cons_of_mem p mem)

theorem pairBytes_append (xs ys : List Pair) :
    pairBytes (xs ++ ys) = pairBytes xs ++ pairBytes ys := by
  simp [pairBytes]

theorem pairBytes_sequence {pairs : List Pair} (items : PairItems pairs) :
    Sequence (2 * pairs.length) (pairBytes pairs) := by
  induction pairs with
  | nil => exact (sequence_zero).mpr rfl
  | cons p pairs ih =>
    have two := ((sequence_one).mpr items.head.1).append ((sequence_one).mpr items.head.2)
    have size : 2 * (p :: pairs).length = 1 + 1 + 2 * pairs.length := by
      simp only [List.length_cons]
      omega
    rw [size]
    exact two.append (ih items.tail)

theorem value_length_le {p : Pair} {pairs : List Pair} (member : p ∈ pairs) :
    p.2.length ≤ (pairBytes pairs).length := by
  induction pairs with
  | nil => cases member
  | cons q pairs ih =>
    simp only [pairBytes_cons, List.length_append]
    rcases List.mem_cons.mp member with rfl | later
    · omega
    · have below := ih later
      omega

theorem lastValue_eq_none_iff {key : Bytes → Bool} {pairs : List Pair} :
    lastValue key pairs = none ↔ ∀ p ∈ pairs, key p.1 = false := by
  induction pairs with
  | nil => simp [lastValue]
  | cons p pairs ih =>
    simp only [lastValue, Option.or_eq_none_iff, ih, List.forall_mem_cons]
    cases key p.1 with
    | false => simp
    | true => simp

theorem lastValue_eq_some_iff {key : Bytes → Bool} {pairs : List Pair} {item : Bytes} :
    lastValue key pairs = some item ↔ ∃ before k after, pairs = before ++ (k, item) :: after ∧
      key k = true ∧ ∀ p ∈ after, key p.1 = false := by
  induction pairs with
  | nil => simp [lastValue]
  | cons p pairs ih =>
    constructor
    · intro h
      simp only [lastValue, Option.or_eq_some_iff] at h
      rcases h with later | ⟨absent, here⟩
      · obtain ⟨before, k, after, rfl, isKey, last⟩ := ih.mp later
        exact ⟨p :: before, k, after, rfl, isKey, last⟩
      · split at here
        · rename_i isKey
          cases here
          exact ⟨[], p.1, pairs, rfl, isKey, (lastValue_eq_none_iff).mp absent⟩
        · cases here
    · rintro ⟨before, k, after, same, isKey, last⟩
      cases before with
      | nil =>
        cases same
        simp only [lastValue, (lastValue_eq_none_iff).mpr last, isKey, if_true, Option.none_or]
      | cons q before =>
        cases same
        have later := ih.mpr ⟨before, k, after, rfl, isKey, last⟩
        simp only [lastValue, later, Option.some_or]

theorem lastValue_mem {key : Bytes → Bool} {pairs : List Pair} {item : Bytes}
    (h : lastValue key pairs = some item) : ∃ k, (k, item) ∈ pairs ∧ key k = true := by
  obtain ⟨before, k, after, rfl, isKey, -⟩ := (lastValue_eq_some_iff).mp h
  exact ⟨k, by simp, isKey⟩

end Pairs

end TeepDevice.Tcbor
