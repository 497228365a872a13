import TeepDevice.Tcbor.Context

/-! Definite-length CBOR items as a recursive-descent reader takes them: a head
and the items the head announces. `primitiveSkip` keeps only their number. -/
namespace TeepDevice.Tcbor

/-- The items that belong to a head: one behind a tag, the elements of an array,
the keys and the values of a map. -/
def Any.children (any : Any) : Nat :=
  if any.isTag then 1
  else if any.isArray then any.value
  else if any.isMap then any.value + any.value
  else 0

/-- The bytes are one head and nothing else. -/
def Head (head : Bytes) (any : Any) : Prop := primitiveReadAny head = .ok (any, [])

inductive Item : Bytes → Prop where
  | node {head : Bytes} {any : Any} {items : List Bytes} (read : Head head any)
      (count : items.length = any.children) (each : ∀ item ∈ items, Item item) :
      Item (head ++ items.flatten)

/-- The bytes are `n` consecutive items. -/
def Sequence (n : Nat) (bytes : Bytes) : Prop :=
  ∃ items : List Bytes, items.length = n ∧ (∀ item ∈ items, Item item) ∧ bytes = items.flatten

section Heads

theorem readArgument_split {n value v : Nat} {p q : Bytes}
    (h : readArgument n value p = some (v, q)) :
    ∃ taken, p = taken ++ q ∧ taken.length = n ∧
      ∀ t, readArgument n value (taken ++ t) = some (v, t) := by
  induction n generalizing value p with
  | zero =>
    cases h
    exact ⟨[], rfl, rfl, fun t => rfl⟩
  | succ n ih =>
    cases p with
    | nil => cases h
    | cons b p =>
      obtain ⟨taken, rfl, length, again⟩ := ih h
      refine ⟨b :: taken, rfl, by simp [length], ?_⟩
      intro t
      exact again t

theorem readArgument_bound {n value v : Nat} {p q : Bytes}
    (h : readArgument n value p = some (v, q)) : v < (value + 1) * 256 ^ n := by
  induction n generalizing value p with
  | zero =>
    cases h
    simp
  | succ n ih =>
    cases p with
    | nil => cases h
    | cons b p =>
      have below := ih h
      have byte : b.toNat < 256 := b.toNat_lt
      calc v < (value * 256 + b.toNat + 1) * 256 ^ n := below
        _ ≤ ((value + 1) * 256) * 256 ^ n := Nat.mul_le_mul_right _ (by omega)
        _ = (value + 1) * 256 ^ (n + 1) := by
          rw [Nat.pow_succ, Nat.mul_assoc, Nat.mul_comm 256]

theorem primitiveReadAny_split {s rest : Bytes} {any : Any}
    (h : primitiveReadAny s = .ok (any, rest)) :
    ∃ head, s = head ++ rest ∧ ∀ t, primitiveReadAny (head ++ t) = .ok (any, t) := by
  cases s with
  | nil => cases h
  | cons header p =>
    simp only [primitiveReadAny] at h
    split at h
    · cases h
    rename_i definite
    split at h
    · cases h
    rename_i reserved
    split at h
    · cases h
    rename_i value q argument
    obtain ⟨taken, rfl, again⟩ : ∃ taken, p = taken ++ q ∧ ∀ t,
        (if 24 ≤ header.toNat % 32
          then readArgument (2 ^ (header.toNat % 32 - 24)) 0 (taken ++ t)
          else some (header.toNat % 32, taken ++ t)) = some (value, t) := by
      split at argument
      · rename_i long
        obtain ⟨taken, same, -, again⟩ := readArgument_split argument
        exact ⟨taken, same, fun t => by simpa only [long, if_true] using again t⟩
      · rename_i immediate
        cases argument
        exact ⟨[], rfl, fun t => by simp only [immediate, if_false, List.nil_append]⟩
    split at h
    · cases h
    rename_i simple
    split at h
    · rename_i string
      split at h
      · cases h
      · rename_i enough
        cases h
        refine ⟨header :: (taken ++ q.take value), by simp, ?_⟩
        intro t
        have room : ¬ (q.take value ++ t).length < value := by
          simp only [List.length_append, List.length_take]
          omega
        have front : (q.take value).length = value := by
          simp only [List.length_take]
          omega
        simp only [List.cons_append, List.append_assoc, primitiveReadAny, definite, reserved,
          if_false, again, simple, string, if_true, room]
        simp only [List.take_left' front, List.drop_left' front]
    · rename_i string
      cases h
      refine ⟨header :: taken, rfl, ?_⟩
      intro t
      simp only [List.cons_append, primitiveReadAny, definite, reserved, if_false, again, simple,
        string]

theorem primitiveReadAny_value {s rest : Bytes} {any : Any}
    (h : primitiveReadAny s = .ok (any, rest)) : any.value < 2 ^ 64 := by
  cases s with
  | nil => cases h
  | cons header p =>
    simp only [primitiveReadAny] at h
    split at h
    · cases h
    split at h
    · cases h
    rename_i reserved
    split at h
    · cases h
    rename_i value q argument
    have bound : value < 2 ^ 64 := by
      split at argument
      · have below := readArgument_bound argument
        have width : 2 ^ (header.toNat % 32 - 24) ≤ 8 :=
          Nat.pow_le_pow_right (by decide) (by omega : header.toNat % 32 - 24 ≤ 3)
        have most : 256 ^ 2 ^ (header.toNat % 32 - 24) ≤ 256 ^ 8 :=
          Nat.pow_le_pow_right (by decide) width
        omega
      · cases argument
        omega
    repeat' split at h
    all_goals cases h
    · exact Nat.two_pow_pos 64
    · exact bound

theorem primitiveReadAny_bytes {s rest : Bytes} {any : Any}
    (h : primitiveReadAny s = .ok (any, rest)) : any.bytes.length ≤ s.length := by
  cases s with
  | nil => cases h
  | cons header p =>
    simp only [primitiveReadAny] at h
    split at h
    · cases h
    split at h
    · cases h
    split at h
    · cases h
    rename_i value q argument
    have shorter : q.length ≤ p.length := by
      split at argument
      · exact readArgument_length argument
      · cases argument
        exact Nat.le_refl _
    repeat' split at h
    all_goals cases h
    · simp only [List.length_take, List.length_cons]
      omega
    · exact Nat.zero_le _

variable {head rest : Bytes} {any : Any}

theorem Head.append (read : Head head any) (t : Bytes) :
    primitiveReadAny (head ++ t) = .ok (any, t) := by
  obtain ⟨front, same, again⟩ := primitiveReadAny_split read
  rw [List.append_nil] at same
  exact same ▸ again t

theorem primitiveReadAny_ok_iff {s : Bytes} :
    primitiveReadAny s = .ok (any, rest) ↔ ∃ head, Head head any ∧ s = head ++ rest := by
  constructor
  · intro h
    obtain ⟨head, same, again⟩ := primitiveReadAny_split h
    have alone := again []
    rw [List.append_nil] at alone
    exact ⟨head, alone, same⟩
  · rintro ⟨head, read, rfl⟩
    exact read.append rest

theorem Head.value_lt (read : Head head any) : any.value < 2 ^ 64 :=
  primitiveReadAny_value read

theorem Head.length_pos (read : Head head any) : 0 < head.length :=
  primitiveReadAny_length read

theorem Head.unique {head' rest' : Bytes} {any' : Any} (read : Head head any)
    (read' : Head head' any') (same : head ++ rest = head' ++ rest') :
    any = any' ∧ rest = rest' := by
  have one := read.append rest
  rw [same, read'.append rest'] at one
  cases one
  exact ⟨rfl, rfl⟩

end Heads

section Sequences

theorem sequence_zero {bytes : Bytes} : Sequence 0 bytes ↔ bytes = [] := by
  constructor
  · rintro ⟨items, none, -, rfl⟩
    rw [List.length_eq_zero_iff.mp none]
    rfl
  · rintro rfl
    exact ⟨[], rfl, by simp, rfl⟩

theorem Sequence.append {n m : Nat} {xs ys : Bytes} (first : Sequence n xs)
    (second : Sequence m ys) : Sequence (n + m) (xs ++ ys) := by
  obtain ⟨items, rfl, each, rfl⟩ := first
  obtain ⟨others, rfl, eachOther, rfl⟩ := second
  refine ⟨items ++ others, by simp, ?_, by simp⟩
  intro item mem
  rcases List.mem_append.mp mem with left | right
  · exact each item left
  · exact eachOther item right

theorem Sequence.split {n m : Nat} {bytes : Bytes} (whole : Sequence (n + m) bytes) :
    ∃ xs ys, Sequence n xs ∧ Sequence m ys ∧ bytes = xs ++ ys := by
  obtain ⟨items, total, each, rfl⟩ := whole
  refine ⟨(items.take n).flatten, (items.drop n).flatten,
    ⟨items.take n, by simp [total], ?_, rfl⟩, ⟨items.drop n, by simp [total], ?_, rfl⟩, ?_⟩
  · intro item mem
    exact each item (List.mem_of_mem_take mem)
  · intro item mem
    exact each item (List.mem_of_mem_drop mem)
  · rw [← List.flatten_append, List.take_append_drop]

theorem item_iff {bytes : Bytes} :
    Item bytes ↔ ∃ head any content, Head head any ∧ Sequence any.children content ∧
      bytes = head ++ content := by
  constructor
  · intro item
    cases item with
    | node read count each => exact ⟨_, _, _, read, ⟨_, count, each, rfl⟩, rfl⟩
  · rintro ⟨head, any, content, read, ⟨items, count, each, rfl⟩, rfl⟩
    exact .node read count each

theorem sequence_one {bytes : Bytes} : Sequence 1 bytes ↔ Item bytes := by
  constructor
  · rintro ⟨items, one, each, rfl⟩
    obtain ⟨item, rfl⟩ := List.length_eq_one_iff.mp one
    simpa using each item (List.mem_singleton.mpr rfl)
  · intro item
    exact ⟨[bytes], rfl, by simpa using item, by simp⟩

/-- The step of the counter: a head takes one item off and puts its children on. -/
theorem sequence_succ {n : Nat} {bytes : Bytes} :
    Sequence (n + 1) bytes ↔ ∃ head any more, Head head any ∧ bytes = head ++ more ∧
      Sequence (n + any.children) more := by
  constructor
  · intro whole
    rw [Nat.add_comm] at whole
    obtain ⟨xs, ys, one, others, rfl⟩ := whole.split
    obtain ⟨head, any, content, read, inner, rfl⟩ := (item_iff).mp ((sequence_one).mp one)
    refine ⟨head, any, content ++ ys, read, List.append_assoc _ _ _, ?_⟩
    rw [Nat.add_comm]
    exact inner.append others
  · rintro ⟨head, any, more, read, rfl, both⟩
    rw [Nat.add_comm] at both
    obtain ⟨content, ys, inner, others, rfl⟩ := both.split
    have one : Item (head ++ content) := (item_iff).mpr ⟨head, any, content, read, inner, rfl⟩
    rw [Nat.add_comm, ← List.append_assoc]
    exact ((sequence_one).mpr one).append others

theorem Item.length_pos {bytes : Bytes} (item : Item bytes) : 0 < bytes.length := by
  obtain ⟨head, any, content, read, -, rfl⟩ := (item_iff).mp item
  have positive := read.length_pos
  simp only [List.length_append]
  omega

theorem Sequence.length_le {n : Nat} {bytes : Bytes} (whole : Sequence n bytes) :
    n ≤ bytes.length := by
  induction n generalizing bytes with
  | zero => exact Nat.zero_le _
  | succ n ih =>
    rw [Nat.add_comm] at whole
    obtain ⟨xs, ys, one, others, rfl⟩ := whole.split
    have first := ((sequence_one).mp one).length_pos
    have second := ih others
    simp only [List.length_append]
    omega

end Sequences

section Skipping

theorem wrap64_of_lt {n : Nat} (h : n < 2 ^ 64) : wrap64 n = n := Nat.mod_eq_of_lt h

/-- The test `count + value < count` on 64-bit values is the carry. -/
theorem wrap64_add_lt_iff {a b : Nat} (ha : a < 2 ^ 64) (hb : b < 2 ^ 64) :
    wrap64 (a + b) < a ↔ 2 ^ 64 ≤ a + b := by
  unfold wrap64
  omega

theorem wrap64_add_of_not_lt {a b : Nat} (ha : a < 2 ^ 64) (hb : b < 2 ^ 64)
    (h : ¬ wrap64 (a + b) < a) : wrap64 (a + b) = a + b ∧ a + b < 2 ^ 64 := by
  rw [wrap64_add_lt_iff ha hb] at h
  exact ⟨wrap64_of_lt (by omega), by omega⟩

/-- What one continuing pass of the skip loop does. -/
theorem skipBody_inl {s s' : Bytes} {count count' : Nat} (fits : count < 2 ^ 64)
    (h : skipBody (s, count) = .inl (s', count')) :
    ∃ head any n, count = n + 1 ∧ Head head any ∧ s = head ++ s' ∧
      count' = n + any.children ∧ count' < 2 ^ 64 := by
  obtain ⟨any, read⟩ := skipBody_continues h
  have value := primitiveReadAny_value read
  obtain ⟨head, isHead, rfl⟩ := (primitiveReadAny_ok_iff).mp read
  cases count with
  | zero => cases h
  | succ n =>
    refine ⟨head, any, n, rfl, isHead, rfl, ?_⟩
    simp only [skipBody, Nat.succ_ne_zero, if_false, read, Nat.add_sub_cancel] at h
    unfold Any.children
    split at h
    · rename_i tag
      cases h
      simpa only [tag, if_true, true_and] using fits
    rename_i tag
    simp only [tag, Bool.false_eq_true, if_false]
    split at h
    · rename_i array
      split at h
      · cases h
      · rename_i carry
        have sum := wrap64_add_of_not_lt (by omega : n < 2 ^ 64) value carry
        cases h
        simp only [array, if_true]
        omega
    rename_i array
    simp only [array, Bool.false_eq_true, if_false]
    split at h
    · rename_i map
      split at h
      · cases h
      rename_i carry
      obtain ⟨first, room⟩ := wrap64_add_of_not_lt (by omega : n < 2 ^ 64) value carry
      simp only [first] at h
      split at h
      · cases h
      · rename_i again
        have sum := wrap64_add_of_not_lt room value again
        cases h
        simp only [map, if_true]
        omega
    · rename_i map
      cases h
      simp only [map, Bool.false_eq_true, if_false]
      omega

/-- A pass leaves when nothing is pending, when no head can be read, or when the
items that would be pending no longer fit the counter. -/
theorem skipBody_inr {s : Bytes} {count : Nat} {result : Except Error Bytes}
    (fits : count < 2 ^ 64) (h : skipBody (s, count) = .inr result) :
    (count = 0 ∧ result = .ok s) ∨
      (0 < count ∧ ∃ e, primitiveReadAny s = .error e ∧ result = .error e) ∨
      (result = .error .overflow ∧ ∃ head any n rest, count = n + 1 ∧ Head head any ∧
        s = head ++ rest ∧ 2 ^ 64 ≤ n + any.children) := by
  cases count with
  | zero =>
    cases h
    exact .inl ⟨rfl, rfl⟩
  | succ n =>
    simp only [skipBody, Nat.succ_ne_zero, if_false, Nat.add_sub_cancel] at h
    split at h
    · rename_i e read
      cases h
      exact .inr (.inl ⟨Nat.succ_pos n, e, read, rfl⟩)
    rename_i any rest read
    have value := primitiveReadAny_value read
    obtain ⟨head, isHead, rfl⟩ := (primitiveReadAny_ok_iff).mp read
    have below : n < 2 ^ 64 := by omega
    refine .inr (.inr ?_)
    split at h
    · cases h
    rename_i tag
    split at h
    · rename_i array
      split at h
      · rename_i carry
        rw [wrap64_add_lt_iff below value] at carry
        cases h
        refine ⟨rfl, head, any, n, rest, rfl, isHead, rfl, ?_⟩
        simpa only [Any.children, tag, array, Bool.false_eq_true, if_false, if_true] using carry
      · cases h
    rename_i array
    split at h
    · rename_i map
      have overflow : 2 ^ 64 ≤ n + (any.value + any.value) → result = .error .overflow →
          result = .error .overflow ∧ ∃ head' any' m rest', n + 1 = m + 1 ∧ Head head' any' ∧
            head ++ rest = head' ++ rest' ∧ 2 ^ 64 ≤ m + any'.children := by
        intro big leaves
        refine ⟨leaves, head, any, n, rest, rfl, isHead, rfl, ?_⟩
        simpa only [Any.children, tag, array, map, Bool.false_eq_true, if_false, if_true] using big
      split at h
      · rename_i carry
        rw [wrap64_add_lt_iff below value] at carry
        cases h
        exact overflow (by omega) rfl
      rename_i carry
      obtain ⟨first, room⟩ := wrap64_add_of_not_lt below value carry
      simp only [first] at h
      split at h
      · rename_i again
        rw [wrap64_add_lt_iff room value] at again
        cases h
        exact overflow (by omega) rfl
      · cases h
    · cases h

theorem primitiveSkip_sound {r rest : Bytes} {n : Nat} (fits : n < 2 ^ 64)
    (h : primitiveSkip r n = .ok rest) : ∃ items, Sequence n items ∧ r = items ++ rest := by
  have whole := Loop.eval_induct skipBody_decreasing
    (fun st result => st.2 < 2 ^ 64 → ∀ rest, result = .ok rest →
      ∃ items, Sequence st.2 items ∧ st.1 = items ++ rest) ?_ ?_ (r, n)
  · exact whole fits rest h
  · rintro ⟨s, count⟩ result leaves fits rest rfl
    rcases skipBody_inr fits leaves with ⟨rfl, same⟩ | ⟨-, e, -, same⟩ | ⟨same, -⟩
    · cases same
      exact ⟨[], (sequence_zero).mpr rfl, rfl⟩
    · cases same
    · cases same
  · rintro ⟨s, count⟩ ⟨s', count'⟩ result pass ih fits rest ends
    obtain ⟨head, any, m, rfl, read, rfl, rfl, fits'⟩ := skipBody_inl fits pass
    obtain ⟨items, pending, rfl⟩ := ih fits' rest ends
    refine ⟨head ++ items, ?_, (List.append_assoc _ _ _).symm⟩
    exact (sequence_succ).mpr ⟨head, any, items, read, rfl, pending⟩

theorem item_of_primitiveSkip {bytes : Bytes} (h : primitiveSkip bytes 1 = .ok []) :
    Item bytes := by
  obtain ⟨item, one, rfl⟩ := primitiveSkip_sound (by decide) h
  rw [List.append_nil]
  exact (sequence_one).mp one

/-- On items shorter than the counter the loop runs to their end. -/
theorem primitiveSkip_complete {items rest : Bytes} {n : Nat} (present : Sequence n items)
    (short : items.length < 2 ^ 64) : primitiveSkip (items ++ rest) n = .ok rest := by
  have whole := Loop.eval_induct skipBody_decreasing
    (fun st result => ∀ items rest, Sequence st.2 items → items.length < 2 ^ 64 →
      st.1 = items ++ rest → result = .ok rest) ?_ ?_ (items ++ rest, n)
  · exact whole items rest present short rfl
  · rintro ⟨s, count⟩ result leaves items rest present short starts
    have most := present.length_le
    simp only at present starts most
    subst starts
    rcases skipBody_inr (by omega) leaves with ⟨rfl, rfl⟩ | ⟨some, e, failed, -⟩ | ⟨-, overflow⟩
    · rw [(sequence_zero).mp present, List.nil_append]
    · cases count with
      | zero => exact absurd some (Nat.lt_irrefl 0)
      | succ m =>
        obtain ⟨head, any, more, read, rfl, -⟩ := (sequence_succ).mp present
        rw [List.append_assoc, read.append] at failed
        cases failed
    · obtain ⟨head', any', m, rest', rfl, read', starts, big⟩ := overflow
      obtain ⟨head, any, more, read, rfl, pending⟩ := (sequence_succ).mp present
      rw [List.append_assoc] at starts
      obtain ⟨rfl, -⟩ := read.unique read' starts
      have pendingLength := pending.length_le
      simp only [List.length_append] at short
      omega
  · rintro ⟨s, count⟩ ⟨s', count'⟩ result pass ih items rest present short starts
    have most := present.length_le
    simp only at present starts most
    subst starts
    obtain ⟨head', any', m, rfl, read', starts, rfl, -⟩ := skipBody_inl (by omega) pass
    obtain ⟨head, any, more, read, rfl, pending⟩ := (sequence_succ).mp present
    rw [List.append_assoc] at starts
    obtain ⟨rfl, rfl⟩ := read.unique read' starts
    simp only [List.length_append] at short
    exact ih more rest pending (by omega) rfl

/-- The flat loop with its counter skips what the grammar reads, for every range
and every count; it ends after at most one pass a byte and one more, and it gives
up, by overflow or otherwise, on no input the grammar reads. -/
theorem primitiveSkip_iff_sequence (r : Bytes) (n : Nat) (short : r.length < 2 ^ 63)
    (fits : n < 2 ^ 64) :
    Loop.iter skipBody (r.length + 1) (r, n) = some (primitiveSkip r n) ∧
      (∀ rest, primitiveSkip r n = .ok rest ↔ ∃ items, Sequence n items ∧ r = items ++ rest) ∧
      ((∀ items rest, Sequence n items → r ≠ items ++ rest) →
        ∃ e, primitiveSkip r n = .error e) ∧
      (primitiveSkip r n = .error .overflow →
        ∀ items rest, Sequence n items → r ≠ items ++ rest) := by
  have reads : ∀ rest, primitiveSkip r n = .ok rest ↔
      ∃ items, Sequence n items ∧ r = items ++ rest := by
    intro rest
    constructor
    · exact primitiveSkip_sound fits
    · rintro ⟨items, present, rfl⟩
      rw [List.length_append] at short
      exact primitiveSkip_complete present (by omega)
  refine ⟨Loop.eval_iter skipBody_decreasing (r, n), reads, ?_, ?_⟩
  · intro absent
    cases skipped : primitiveSkip r n with
    | error e => exact ⟨e, rfl⟩
    | ok rest =>
      obtain ⟨items, present, same⟩ := (reads rest).mp skipped
      exact absurd same (absent items rest present)
  · intro overflow items rest present same
    have skipped := (reads rest).mpr ⟨items, present, same⟩
    rw [overflow] at skipped
    cases skipped

/-- Two items, `[1, {2: h'03'}]` under tag 24 and `null`, with a byte behind them. -/
theorem primitiveSkip_iff_sequence_nested :
    ∃ items, Sequence 2 items ∧
      [0xD8, 0x18, 0x82, 0x01, 0xA1, 0x02, 0x41, 0x03, 0xF6, 0x00] = items ++ [0x00] :=
  (primitiveSkip_iff_sequence [0xD8, 0x18, 0x82, 0x01, 0xA1, 0x02, 0x41, 0x03, 0xF6, 0x00] 2
    (by decide) (by decide)).2.1 [0x00] |>.mp (by decide +kernel)

end Skipping

end TeepDevice.Tcbor
