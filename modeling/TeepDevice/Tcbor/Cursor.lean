import TeepDevice.Tcbor.Grammar

/-! The readers of a context against the grammar: what a reader that succeeds
took, and that it succeeds wherever the item is there. -/
namespace TeepDevice.Tcbor

/-- `n` items of the context are still to be read. -/
def Remaining (ctx : Context) (n : Nat) : Prop := ctx.index + n = ctx.count ∧ ctx.count < 2 ^ 64

/-- The context behind one item. -/
def Context.advance (ctx : Context) (r : Bytes) : Context :=
  { ctx with r := r, index := ctx.index + 1, error := .ok }

@[simp] theorem Context.advance_r (ctx : Context) (r : Bytes) : (ctx.advance r).r = r := rfl

@[simp] theorem openContext_r (parent : Context) (count : Nat) :
    (openContext parent count).r = parent.r := rfl

/-- The integer `readInt` makes of a head, where it fits. -/
def Any.intValue (any : Any) : Option Int :=
  if any.isUint then
    if ofInt (toInt32 any.value) = any.value then some (toInt32 any.value) else none
  else if any.isNint then
    if ofInt (-toInt32 (2 ^ 64 - 1 - any.value) - 1) = any.value then
      some (toInt32 (2 ^ 64 - 1 - any.value))
    else none
  else none

section Untagged
variable {any : Any}

theorem isTag_of_majorType {n : Nat} (h : any.majorType = n) (other : n ≠ 6) :
    any.isTag = false := by
  simp only [Any.isTag, h, beq_eq_false_iff_ne]
  exact other

theorem majorType_of_isSimple (h : any.isSimple = true) : any.majorType = 7 := by
  rw [Any.isSimple, Bool.and_eq_true] at h
  exact beq_iff_eq.mp h.1

theorem majorType_of_isNull (h : any.isNull = true) : any.majorType = 7 := by
  rw [Any.isNull, Bool.and_eq_true] at h
  exact majorType_of_isSimple h.1

theorem majorType_of_isBool (h : any.isBool = true) : any.majorType = 7 := by
  rw [Any.isBool, Bool.or_eq_true, Any.isFalse, Any.isTrue, Bool.and_eq_true,
    Bool.and_eq_true] at h
  rcases h with isFalse | isTrue
  · exact majorType_of_isSimple isFalse.1
  · exact majorType_of_isSimple isTrue.1

theorem isTag_of_isUint (h : any.isUint = true) : any.isTag = false :=
  isTag_of_majorType (beq_iff_eq.mp h) (by decide)

theorem isTag_of_isNint (h : any.isNint = true) : any.isTag = false :=
  isTag_of_majorType (beq_iff_eq.mp h) (by decide)

theorem isTag_of_isBstr (h : any.isBstr = true) : any.isTag = false :=
  isTag_of_majorType (beq_iff_eq.mp h) (by decide)

theorem isTag_of_isArray (h : any.isArray = true) : any.isTag = false :=
  isTag_of_majorType (beq_iff_eq.mp h) (by decide)

theorem isTag_of_isMap (h : any.isMap = true) : any.isTag = false :=
  isTag_of_majorType (beq_iff_eq.mp h) (by decide)

theorem children_of_isArray (h : any.isArray = true) : any.children = any.value := by
  simp [Any.children, isTag_of_isArray h, h]

theorem children_of_isMap (h : any.isMap = true) : any.children = any.value + any.value := by
  have array : any.isArray = false := by
    simp only [Any.isArray, Any.isMap, beq_iff_eq, beq_eq_false_iff_ne] at h ⊢
    omega
  simp [Any.children, isTag_of_isMap h, array, h]

/-- A head of any other major type is an item by itself. -/
theorem children_of_scalar (h : any.majorType < 4 ∨ any.majorType = 7) : any.children = 0 := by
  have tag : any.isTag = false := by
    simp only [Any.isTag, beq_eq_false_iff_ne]
    omega
  have array : any.isArray = false := by
    simp only [Any.isArray, beq_eq_false_iff_ne]
    omega
  have map : any.isMap = false := by
    simp only [Any.isMap, beq_eq_false_iff_ne]
    omega
  simp [Any.children, tag, array, map]

theorem children_of_isUint (h : any.isUint = true) : any.children = 0 := by
  have major : any.majorType = 0 := beq_iff_eq.mp h
  exact children_of_scalar (by omega)

theorem children_of_isNint (h : any.isNint = true) : any.children = 0 := by
  have major : any.majorType = 1 := beq_iff_eq.mp h
  exact children_of_scalar (by omega)

theorem children_of_isBstr (h : any.isBstr = true) : any.children = 0 := by
  have major : any.majorType = 2 := beq_iff_eq.mp h
  exact children_of_scalar (by omega)

theorem children_of_isTstr (h : any.isTstr = true) : any.children = 0 := by
  have major : any.majorType = 3 := beq_iff_eq.mp h
  exact children_of_scalar (by omega)

theorem Any.intValue_cases {i : Int} (h : any.intValue = some i) :
    any.isUint = true ∨ any.isNint = true := by
  unfold Any.intValue at h
  split at h
  · rename_i uint
    exact .inl uint
  · split at h
    · rename_i nint
      exact .inr nint
    · cases h

end Untagged

theorem Head.item {head : Bytes} {any : Any} (read : Head head any) (alone : any.children = 0) :
    Item head :=
  (item_iff).mpr ⟨head, any, [], read, alone ▸ (sequence_zero).mpr rfl, (List.append_nil head).symm⟩

section Readers
variable {ctx after : Context} {n : Nat}

theorem Remaining.isEndOfContext_iff (left : Remaining ctx n) :
    isEndOfContext ctx = true ↔ n = 0 := by
  unfold Remaining at left
  simp only [isEndOfContext, beq_iff_eq]
  omega

theorem Remaining.notEnd (left : Remaining ctx (n + 1)) : isEndOfContext ctx = false := by
  simp [← Bool.not_eq_true, left.isEndOfContext_iff]

theorem Remaining.advance (left : Remaining ctx (n + 1)) (r : Bytes) :
    Remaining (ctx.advance r) n := by
  unfold Remaining at left ⊢
  simp only [Context.advance]
  omega

theorem Remaining.next {m : Nat} (left : Remaining ctx n) (size : n = m + 1) (r : Bytes) :
    Remaining (ctx.advance r) m := by
  subst size
  exact left.advance r

theorem Remaining.behind (left : Remaining ctx n) (some : 0 < n)
    (behind : after = ctx.advance after.r) : Remaining after (n - 1) := by
  obtain ⟨m, rfl⟩ : ∃ m, n = m + 1 := ⟨n - 1, by omega⟩
  rw [behind]
  exact left.advance after.r

theorem remaining_openContext (parent : Context) (h : n < 2 ^ 64) :
    Remaining (openContext parent n) n := by
  simpa [Remaining, openContext] using h

theorem remaining_toplevel (r : Range) : Remaining (toplevel r) 1 := by
  simp [Remaining, toplevel]

theorem readAny_iff {any : Any} (left : Remaining ctx n) :
    readAny ctx = (some any, after) ↔ 0 < n ∧ ∃ head, Head head any ∧ ctx.r = head ++ after.r ∧
      after = if any.isTag then { ctx with r := after.r, error := .ok }
        else ctx.advance after.r := by
  cases n with
  | zero =>
    have ended := left.isEndOfContext_iff.mpr rfl
    simp [readAny, ended]
  | succ n =>
    simp only [readAny, left.notEnd, Bool.false_eq_true, if_false, Nat.succ_pos, true_and]
    constructor
    · intro h
      split at h
      · cases h
      · rename_i any' rest read
        obtain ⟨head, isHead, same⟩ := (primitiveReadAny_ok_iff).mp read
        cases h
        refine ⟨head, isHead, same, ?_⟩
        cases any.isTag with
        | false => rfl
        | true => rfl
    · rintro ⟨head, read, same, behind⟩
      generalize after.r = rest at same behind
      subst behind
      simp only [same, read.append]
      cases any.isTag with
      | false => rfl
      | true => rfl

/-- The typed readers: an untagged head that is accepted. -/
theorem readMatching_iff {α : Type} {accept : Any → Bool} {give : Any → Context → α} {x : α}
    (left : Remaining ctx n) (untagged : ∀ any, accept any = true → any.isTag = false) :
    readMatching accept give ctx = (some x, after) ↔
      0 < n ∧ ∃ head any, Head head any ∧ accept any = true ∧ ctx.r = head ++ after.r ∧
        after = ctx.advance after.r ∧ give any after = x := by
  constructor
  · intro h
    obtain ⟨any, read, accepted, gives⟩ := readMatching_some h
    obtain ⟨some, head, isHead, same, behind⟩ := (readAny_iff left).mp read
    rw [untagged any accepted] at behind
    exact ⟨some, head, any, isHead, accepted, same, behind, gives⟩
  · rintro ⟨some, head, any, isHead, accepted, same, behind, gives⟩
    have read : readAny ctx = (.some any, after) :=
      (readAny_iff left).mpr ⟨some, head, isHead, same, by
        rw [untagged any accepted]
        exact behind⟩
    rw [readMatching_of_accept read accepted, gives]

theorem readUint_iff {v : Nat} (left : Remaining ctx n) :
    readUint ctx = (some v, after) ↔ 0 < n ∧ ∃ head any, Head head any ∧ any.isUint = true ∧
      ctx.r = head ++ after.r ∧ after = ctx.advance after.r ∧ any.value = v :=
  readMatching_iff left fun _ => isTag_of_isUint

theorem readBstr_iff {b : Bytes} (left : Remaining ctx n) :
    readBstr ctx = (some b, after) ↔ 0 < n ∧ ∃ head any, Head head any ∧ any.isBstr = true ∧
      ctx.r = head ++ after.r ∧ after = ctx.advance after.r ∧ any.bytes = b :=
  readMatching_iff left fun _ => isTag_of_isBstr

theorem readArray_iff {array : Context} (left : Remaining ctx n) :
    readArray ctx = (some array, after) ↔ 0 < n ∧ ∃ head any, Head head any ∧
      any.isArray = true ∧ ctx.r = head ++ after.r ∧ after = ctx.advance after.r ∧
      openContext after any.value = array :=
  readMatching_iff left fun _ => isTag_of_isArray

theorem readMap_iff {map : Context} (left : Remaining ctx n) :
    readMap ctx = (some map, after) ↔ 0 < n ∧ ∃ head any, Head head any ∧ any.isMap = true ∧
      any.value + any.value < 2 ^ 64 ∧ ctx.r = head ++ after.r ∧ after = ctx.advance after.r ∧
      openContext after (any.value + any.value) = map := by
  constructor
  · intro h
    unfold readMap at h
    split at h
    · cases h
    rename_i any next read
    obtain ⟨some, head, isHead, same, behind⟩ := (readAny_iff left).mp read
    split at h
    · rename_i isMap
      split at h
      · cases h
      · rename_i carry
        obtain ⟨sum, fits⟩ := wrap64_add_of_not_lt isHead.value_lt isHead.value_lt carry
        rw [isTag_of_isMap isMap] at behind
        rw [sum] at h
        cases h
        exact ⟨some, head, any, isHead, isMap, fits, same, behind, rfl⟩
    · cases h
  · rintro ⟨some, head, any, isHead, isMap, fits, same, behind, rfl⟩
    have read : readAny ctx = (.some any, after) :=
      (readAny_iff left).mpr ⟨some, head, isHead, same, by
        rw [isTag_of_isMap isMap]
        exact behind⟩
    have sum : wrap64 (any.value + any.value) = any.value + any.value := wrap64_of_lt fits
    have carry : ¬ any.value + any.value < any.value := by omega
    simp only [readMap, read, isMap, if_true, sum, carry, if_false]

theorem SamePlace.remaining {a b : Context} (same : SamePlace a b) (left : Remaining b n) :
    Remaining a n := by
  obtain ⟨-, index, count⟩ := same
  unfold Remaining at left ⊢
  omega

theorem SamePlace.advance {a b : Context} (same : SamePlace a b) (r : Bytes) :
    a.advance r = b.advance r := by
  obtain ⟨-, index, count⟩ := same
  simp only [Context.advance, index, count]

/-- What is read depends on the place only, not on the error of an earlier reader. -/
theorem readAny_place {a b : Context} {any : Any} (same : SamePlace a b) :
    readAny a = (some any, after) ↔ readAny b = (some any, after) := by
  obtain ⟨r, index, count⟩ := same
  have ended : isEndOfContext a = isEndOfContext b := by
    rw [isEndOfContext, isEndOfContext, index, count]
  unfold readAny
  rw [ended, r]
  cases isEndOfContext b with
  | true => simp
  | false =>
    cases primitiveReadAny b.r with
    | error e => simp
    | ok read => simp [index, count]

/-- The second reader sees the head that the first one left. -/
theorem readInt_eq_some_iff {i : Int} :
    readInt ctx = (some i, after) ↔
      ∃ any, readAny ctx = (some any, after) ∧ any.intValue = some i := by
  constructor
  · intro h
    unfold readInt at h
    split at h
    · rename_i v next first
      obtain ⟨any, read, uint, rfl⟩ := readMatching_some first
      split at h
      · cases h
      · rename_i fits
        obtain ⟨value, rfl⟩ := Prod.mk.inj h
        obtain rfl := Option.some.inj value
        exact ⟨any, read, by simp only [Any.intValue, uint, if_true, Decidable.not_not.mp fits]⟩
    · rename_i failed first
      split at h
      · rename_i v next second
        obtain ⟨any, read, nint, rfl⟩ := readMatching_some second
        have uint : any.isUint = false := by
          simp only [Any.isUint, Any.isNint, beq_iff_eq, beq_eq_false_iff_ne] at nint ⊢
          omega
        split at h
        · cases h
        · rename_i fits
          obtain ⟨value, rfl⟩ := Prod.mk.inj h
          obtain rfl := Option.some.inj value
          refine ⟨any, (readAny_place (readMatching_none first)).mp read, ?_⟩
          simp only [Any.intValue, uint, Bool.false_eq_true, if_false, nint, if_true,
            Decidable.not_not.mp fits]
      · cases h
  · rintro ⟨any, read, value⟩
    unfold Any.intValue at value
    split at value
    · rename_i uint
      have first : readUint ctx = (some any.value, after) := readMatching_of_accept read uint
      split at value
      · rename_i fits
        obtain rfl := Option.some.inj value
        simp only [readInt, first, fits, ne_eq, not_true, if_false]
      · cases value
    · rename_i uint
      split at value
      · rename_i nint
        have first : readUint ctx = (none, (readUint ctx).2) :=
          Prod.ext (readMatching_of_refuse read uint) rfl
        have second : readNint (readUint ctx).2 = (some any.value, after) :=
          readMatching_of_accept ((readAny_place (readMatching_none first)).mpr read) nint
        split at value
        · rename_i fits
          obtain rfl := Option.some.inj value
          rw [readInt, first]
          simp only [second, fits, ne_eq, not_true, if_false]
        · cases value
      · cases value

theorem readInt_iff {i : Int} (left : Remaining ctx n) :
    readInt ctx = (some i, after) ↔ 0 < n ∧ ∃ head any, Head head any ∧ any.intValue = some i ∧
      ctx.r = head ++ after.r ∧ after = ctx.advance after.r := by
  have untagged {any : Any} (value : any.intValue = some i) : any.isTag = false := by
    rcases Any.intValue_cases value with uint | nint
    · exact isTag_of_isUint uint
    · exact isTag_of_isNint nint
  rw [readInt_eq_some_iff]
  constructor
  · rintro ⟨any, read, value⟩
    obtain ⟨some, head, isHead, same, behind⟩ := (readAny_iff left).mp read
    rw [untagged value] at behind
    exact ⟨some, head, any, isHead, value, same, behind⟩
  · rintro ⟨some, head, any, isHead, value, same, behind⟩
    refine ⟨any, (readAny_iff left).mpr ⟨some, head, isHead, same, ?_⟩, value⟩
    rw [untagged value]
    exact behind

theorem skip_sound {k : Nat} (fits : k < 2 ^ 64) (h : skip ctx k = (true, after)) :
    ∃ items, Sequence k items ∧ ctx.r = items ++ after.r :=
  primitiveSkip_sound fits (skip_true h).1

theorem skip_iff {k : Nat} (left : Remaining ctx n) (short : ctx.r.length < 2 ^ 63) :
    skip ctx k = (true, after) ↔ k ≤ n ∧ ∃ items, Sequence k items ∧ ctx.r = items ++ after.r ∧
      after = { ctx with
        r := after.r, index := ctx.index + k, error := if k = 0 then ctx.error else .ok } := by
  have room : sub64 ctx.count ctx.index = n := by
    unfold Remaining at left
    unfold sub64 wrap64
    omega
  unfold skip
  simp only [room]
  constructor
  · intro h
    split at h
    · cases h
    rename_i enough
    have within : k ≤ n := Nat.not_lt.mp enough
    have fits : k < 2 ^ 64 := by
      unfold Remaining at left
      omega
    split at h
    · cases h
    · rename_i rest skipped
      obtain ⟨items, present, same⟩ := primitiveSkip_sound fits skipped
      cases h
      exact ⟨within, items, present, same, rfl⟩
  · rintro ⟨within, items, present, same, behind⟩
    generalize after.r = rest at same behind
    subst behind
    have bounded : items.length < 2 ^ 64 := by
      rw [same, List.length_append] at short
      omega
    simp only [Nat.not_lt.mpr within, if_false, same, primitiveSkip_complete present bounded]

/-- Skipping all that is left takes the items and leaves none. -/
theorem skipAll_iff (left : Remaining ctx n) (short : ctx.r.length < 2 ^ 63) :
    skipAll ctx = (true, after) ↔ ∃ items, Sequence n items ∧ ctx.r = items ++ after.r ∧
      after = { ctx with
        r := after.r, index := ctx.count, error := if n = 0 then ctx.error else .ok } := by
  have room : sub64 ctx.count ctx.index = n := by
    unfold Remaining at left
    unfold sub64 wrap64
    omega
  rw [skipAll, room, skip_iff left short, left.1]
  simp

theorem remaining_zero (ended : ctx.index = ctx.count) (fits : ctx.count < 2 ^ 64) :
    Remaining ctx 0 :=
  ⟨ended, fits⟩

theorem skip_one_iff (left : Remaining ctx n) (short : ctx.r.length < 2 ^ 63) :
    skip ctx 1 = (true, after) ↔ 0 < n ∧ ∃ item, Item item ∧ ctx.r = item ++ after.r ∧
      after = ctx.advance after.r := by
  rw [skip_iff left short]
  simp only [sequence_one]
  exact Iff.rfl

theorem readSubobject_iff {x : Bytes} (left : Remaining ctx n) (short : ctx.r.length < 2 ^ 63) :
    readSubobject ctx = (some x, after) ↔ 0 < n ∧ Item x ∧ ctx.r = x ++ after.r ∧
      after = ctx.advance after.r := by
  unfold readSubobject
  constructor
  · intro h
    split at h
    · cases h
    · rename_i next skipped
      obtain ⟨some, item, isItem, same, behind⟩ := (skip_one_iff left short).mp skipped
      have taken : ctx.r.take (ctx.r.length - next.r.length) = item := by
        rw [same]
        simp
      rw [taken] at h
      cases h
      exact ⟨some, isItem, same, behind⟩
  · rintro ⟨some, isItem, same, behind⟩
    have skipped : skip ctx 1 = (true, after) :=
      (skip_one_iff left short).mpr ⟨some, x, isItem, same, behind⟩
    have taken : ctx.r.take (ctx.r.length - after.r.length) = x := by
      rw [same]
      simp
    simp only [skipped, taken]

theorem close_iff {child : Context} {m : Nat} (left : Remaining child m) :
    close ctx child = (true, after) ↔ m = 0 ∧ after = { ctx with r := child.r } := by
  unfold close
  rw [← left.isEndOfContext_iff]
  cases isEndOfContext child with
  | false => simp
  | true =>
    simp only [if_true, Prod.mk.injEq, true_and]
    exact eq_comm

section Present
variable {head rest : Bytes} {any : Any}

theorem readArray_at (left : Remaining ctx n) (some : 0 < n) (read : Head head any)
    (array : any.isArray = true) (same : ctx.r = head ++ rest) :
    readArray ctx = (.some (openContext (ctx.advance rest) any.value), ctx.advance rest) :=
  (readArray_iff left).mpr ⟨some, head, any, read, array, same, rfl, rfl⟩

theorem readMap_at (left : Remaining ctx n) (some : 0 < n) (read : Head head any)
    (map : any.isMap = true) (fits : any.value + any.value < 2 ^ 64) (same : ctx.r = head ++ rest) :
    readMap ctx = (.some (openContext (ctx.advance rest) (any.value + any.value)),
      ctx.advance rest) :=
  (readMap_iff left).mpr ⟨some, head, any, read, map, fits, same, rfl, rfl⟩

theorem skip_one_at {item : Bytes} (left : Remaining ctx n) (some : 0 < n)
    (short : ctx.r.length < 2 ^ 63) (isItem : Item item) (same : ctx.r = item ++ rest) :
    skip ctx 1 = (true, ctx.advance rest) :=
  (skip_one_iff left short).mpr ⟨some, item, isItem, same, rfl⟩

theorem readSubobject_at {item : Bytes} (left : Remaining ctx n) (some : 0 < n)
    (short : ctx.r.length < 2 ^ 63) (isItem : Item item) (same : ctx.r = item ++ rest) :
    readSubobject ctx = (.some item, ctx.advance rest) :=
  (readSubobject_iff left short).mpr ⟨some, isItem, same, rfl⟩

end Present

theorem skipAll_at {items rest : Bytes} (left : Remaining ctx n) (short : ctx.r.length < 2 ^ 63)
    (present : Sequence n items) (same : ctx.r = items ++ rest) :
    ∃ after, skipAll ctx = (true, after) ∧ after.r = rest ∧ Remaining after 0 := by
  have skipped : skipAll ctx = (true, { ctx with
      r := rest, index := ctx.count, error := if n = 0 then ctx.error else .ok }) :=
    (skipAll_iff left short).mpr ⟨items, present, same, rfl⟩
  exact ⟨_, skipped, rfl, remaining_zero rfl left.2⟩

theorem close_at {child : Context} (left : Remaining child 0) :
    close ctx child = (true, { ctx with r := child.r }) :=
  (close_iff left).mpr ⟨rfl, rfl⟩

end Readers

end TeepDevice.Tcbor
