import TeepDevice.Tcbor.Heads
import TeepDevice.Tcbor.Cursor

/-! `tcbor_read_int` against the integers: the test that rebuilds the 64-bit
argument from the `int` also passes the arguments whose upper 33 bits are ones. -/
namespace TeepDevice.Tcbor

/-- The context is not at its end and this head comes next. -/
def NextHead (ctx : Context) (head : DefiniteHead) : Prop :=
  isEndOfContext ctx = false ∧ ∃ rest, ctx.r = head.encoding ++ rest

/-- `tcbor_read_int` reads the next integer if an `int` holds it, and else stays. -/
def IntExact (ctx : Context) : Prop :=
  (∀ r, (readInt ctx).1 = some r ↔
    (∃ head, NextHead ctx head ∧ head.integer = some r) ∧ -2 ^ 31 ≤ r ∧ r ≤ 2 ^ 31 - 1) ∧
  ((readInt ctx).1 = none → SamePlace (readInt ctx).2 ctx)

section Narrowing

/-- The arguments for which `(uint64_t)(int)v == v`. -/
theorem ofInt_toInt32_iff {v : Nat} (fits : v < 2 ^ 64) :
    ofInt (toInt32 v) = v ↔ v < 2 ^ 31 ∨ 2 ^ 64 - 2 ^ 31 ≤ v := by
  unfold ofInt toInt32
  rw [Int.bmod_def]
  split
  · omega
  · omega

theorem ofInt_not_toInt32_iff {v : Nat} (fits : v < 2 ^ 64) :
    ofInt (-toInt32 (2 ^ 64 - 1 - v) - 1) = v ↔ v < 2 ^ 31 ∨ 2 ^ 64 - 2 ^ 31 ≤ v := by
  unfold ofInt toInt32
  rw [Int.bmod_def]
  split
  · omega
  · omega

theorem toInt32_small {v : Nat} (small : v < 2 ^ 31) : toInt32 v = v := by
  unfold toInt32
  rw [Int.bmod_def]
  split
  · omega
  · omega

theorem toInt32_not_small {v : Nat} (small : v < 2 ^ 31) :
    toInt32 (2 ^ 64 - 1 - v) = -1 - v := by
  unfold toInt32
  rw [Int.bmod_def]
  split
  · omega
  · omega

theorem toInt32_range (v : Nat) : -2 ^ 31 ≤ toInt32 v ∧ toInt32 v ≤ 2 ^ 31 - 1 := by
  unfold toInt32
  rw [Int.bmod_def]
  split
  · omega
  · omega

end Narrowing

section Heads
variable (head : DefiniteHead)

theorem DefiniteHead.any_majorType : head.any.majorType = head.majorType :=
  head.header_majorType

theorem DefiniteHead.isUint_eq : head.any.isUint = decide (head.majorType = 0) := by
  rw [Any.isUint, head.any_majorType]
  generalize head.majorType = major
  revert major
  decide

theorem DefiniteHead.isNint_eq : head.any.isNint = decide (head.majorType = 1) := by
  rw [Any.isNint, head.any_majorType]
  generalize head.majorType = major
  revert major
  decide

theorem DefiniteHead.argument_lt : head.argument < 2 ^ 64 := by
  have fits := head.fits
  cases width : head.width with
  | immediate =>
    rw [width] at fits
    exact Nat.lt_trans fits (by decide)
  | following k =>
    rw [width] at fits
    have few := k.isLt
    have size : 2 ^ k.val ≤ 8 := Nat.pow_le_pow_right (by decide) (by omega : k.val ≤ 3)
    have bound : 256 ^ 2 ^ k.val ≤ 256 ^ 8 := Nat.pow_le_pow_right (by decide) size
    exact Nat.lt_of_lt_of_le fits bound

theorem DefiniteHead.intValue_uint (uint : head.majorType = 0) :
    head.any.intValue =
      if head.argument < 2 ^ 31 ∨ 2 ^ 64 - 2 ^ 31 ≤ head.argument then
        some (toInt32 head.argument) else none := by
  have value : head.any.value = head.argument := by simp [DefiniteHead.any, uint]
  have is : head.any.isUint = true := by simp [head.isUint_eq, uint]
  simp only [Any.intValue, is, if_true, value, ofInt_toInt32_iff head.argument_lt]

theorem DefiniteHead.intValue_nint (nint : head.majorType = 1) :
    head.any.intValue =
      if head.argument < 2 ^ 31 ∨ 2 ^ 64 - 2 ^ 31 ≤ head.argument then
        some (toInt32 (2 ^ 64 - 1 - head.argument)) else none := by
  have value : head.any.value = head.argument := by simp [DefiniteHead.any, nint]
  have is : head.any.isNint = true := by simp [head.isNint_eq, nint]
  have other : head.any.isUint = false := by simp [head.isUint_eq, nint]
  simp only [Any.intValue, other, Bool.false_eq_true, if_false, is, if_true, value,
    ofInt_not_toInt32_iff head.argument_lt]

theorem DefiniteHead.intValue_other (uint : head.majorType ≠ 0) (nint : head.majorType ≠ 1) :
    head.any.intValue = none := by
  simp [Any.intValue, head.isUint_eq, head.isNint_eq, uint, nint]

/-- Below the last `2 ^ 31` arguments the value is exact, and an `int`. -/
theorem DefiniteHead.intValue_iff (below : head.argument < 2 ^ 64 - 2 ^ 31) (r : Int) :
    head.any.intValue = some r ↔ head.integer = some r ∧ -2 ^ 31 ≤ r ∧ r ≤ 2 ^ 31 - 1 := by
  have narrow : (head.argument < 2 ^ 31 ∨ 2 ^ 64 - 2 ^ 31 ≤ head.argument) ↔
      head.argument < 2 ^ 31 := by omega
  by_cases uint : head.majorType = 0
  · simp only [head.intValue_uint uint, DefiniteHead.integer, if_pos uint, narrow]
    split
    · rename_i small
      rw [toInt32_small small, Option.some.injEq]
      omega
    · simp only [Option.some.injEq, reduceCtorEq, false_iff]
      omega
  · by_cases nint : head.majorType = 1
    · simp only [head.intValue_nint nint, DefiniteHead.integer, if_neg uint, if_pos nint, narrow]
      split
      · rename_i small
        rw [toInt32_not_small small, Option.some.injEq]
        omega
      · simp only [Option.some.injEq, reduceCtorEq, false_iff]
        omega
    · simp [head.intValue_other uint nint, DefiniteHead.integer, uint, nint]

/-- From there on some `int` is read, which is never the value. -/
theorem DefiniteHead.intValue_wrong (integer : head.majorType = 0 ∨ head.majorType = 1)
    (above : 2 ^ 64 - 2 ^ 31 ≤ head.argument) :
    ∃ r, head.any.intValue = some r ∧ head.integer ≠ some r := by
  have wide : head.argument < 2 ^ 31 ∨ 2 ^ 64 - 2 ^ 31 ≤ head.argument := .inr above
  rcases integer with uint | nint
  · refine ⟨toInt32 head.argument, by rw [head.intValue_uint uint, if_pos wide], ?_⟩
    have range := toInt32_range head.argument
    simp only [DefiniteHead.integer, if_pos uint, ne_eq, Option.some.injEq]
    omega
  · refine ⟨toInt32 (2 ^ 64 - 1 - head.argument),
      by rw [head.intValue_nint nint, if_pos wide], ?_⟩
    have range := toInt32_range (2 ^ 64 - 1 - head.argument)
    have uint : head.majorType ≠ 0 := by simp [nint]
    simp only [DefiniteHead.integer, if_neg uint, if_pos nint, ne_eq, Option.some.injEq]
    omega

end Heads

section Contexts
variable {ctx : Context}

theorem readInt_fst : (readInt ctx).1 = (readAny ctx).1.bind Any.intValue := by
  apply Option.ext
  intro i
  constructor
  · intro found
    have whole : readInt ctx = (some i, (readInt ctx).2) := Prod.ext found rfl
    obtain ⟨any, read, value⟩ := readInt_eq_some_iff.mp whole
    rw [read]
    exact value
  · intro found
    obtain ⟨any, first, value⟩ := Option.bind_eq_some_iff.mp found
    have read : readAny ctx = (some any, (readAny ctx).2) := Prod.ext first rfl
    rw [readInt_eq_some_iff.mpr ⟨any, read, value⟩]

theorem readInt_none (failed : (readInt ctx).1 = none) : SamePlace (readInt ctx).2 ctx := by
  unfold readInt at failed ⊢
  repeat' split at failed
  all_goals cases failed
  · rename_i different
    rw [if_pos different]
    exact fail_samePlace _ _
  · rename_i different
    rw [if_pos different]
    exact fail_samePlace _ _
  · exact fail_samePlace _ _

theorem NextHead.readAny {head : DefiniteHead} (next : NextHead ctx head) :
    (readAny ctx).1 = some head.any := by
  obtain ⟨more, rest, same⟩ := next
  have read := primitiveReadAny_encoding head rest
  simp [Tcbor.readAny, more, same, read]

theorem exists_nextHead {any : Any} (read : (readAny ctx).1 = some any) :
    ∃ head, NextHead ctx head ∧ head.any = any := by
  rcases found : readAny ctx with ⟨some_, after⟩
  rw [found] at read
  cases read
  obtain ⟨more, primitive, -⟩ := readAny_some found
  have decoded := (primitiveReadAny_decodes).1 ctx.r
  rw [primitive] at decoded
  obtain ⟨-, -, ⟨head, same, encoding⟩, -⟩ := decoded
  exact ⟨head, ⟨more, after.r, encoding⟩, same.symm⟩

theorem DefiniteHead.integer_any {head head' : DefiniteHead} (same : head.any = head'.any) :
    head.integer = head'.integer := by
  have major : head.majorType = head'.majorType := by
    apply Fin.ext
    rw [← head.any_majorType, ← head'.any_majorType, same]
  have value : head.any.value = head'.any.value := congrArg Any.value same
  simp only [DefiniteHead.any, major] at value
  unfold DefiniteHead.integer
  rw [major]
  by_cases uint : head'.majorType = 0
  · have same : head.argument = head'.argument := by simpa [uint] using value
    rw [same]
  · by_cases nint : head'.majorType = 1
    · have same : head.argument = head'.argument := by simpa [nint] using value
      rw [same]
    · simp [uint, nint]

/-- The reader is exact unless the next head is an integer with one of the last
`2 ^ 31` arguments. -/
theorem readInt_exact_iff (ctx : Context) :
    IntExact ctx ↔ ¬ ∃ head, NextHead ctx head ∧
      (head.majorType = 0 ∨ head.majorType = 1) ∧ 2 ^ 64 - 2 ^ 31 ≤ head.argument := by
  constructor
  · rintro ⟨exact_, -⟩ ⟨head, next, integer, above⟩
    obtain ⟨r, value, wrong⟩ := head.intValue_wrong integer above
    have read : (readInt ctx).1 = some r := by
      rw [readInt_fst, next.readAny, Option.bind_some, value]
    obtain ⟨⟨head', next', right⟩, -⟩ := (exact_ r).mp read
    have same : head.any = head'.any := Option.some.inj (next.readAny.symm.trans next'.readAny)
    exact wrong ((DefiniteHead.integer_any same).trans right)
  · intro outside
    refine ⟨fun r => ?_, readInt_none⟩
    rw [readInt_fst]
    have below {head : DefiniteHead} (next : NextHead ctx head)
        (integer : head.majorType = 0 ∨ head.majorType = 1) :
        head.argument < 2 ^ 64 - 2 ^ 31 :=
      Nat.lt_of_not_le fun above => outside ⟨head, next, integer, above⟩
    constructor
    · intro value
      obtain ⟨any, read, value⟩ := Option.bind_eq_some_iff.mp value
      obtain ⟨head, next, rfl⟩ := exists_nextHead read
      have integer : head.majorType = 0 ∨ head.majorType = 1 := by
        by_contra other
        rw [not_or] at other
        rw [head.intValue_other other.1 other.2] at value
        cases value
      obtain ⟨right, range⟩ := (head.intValue_iff (below next integer) r).mp value
      exact ⟨⟨head, next, right⟩, range⟩
    · rintro ⟨⟨head, next, right⟩, range⟩
      have integer : head.majorType = 0 ∨ head.majorType = 1 := by
        by_contra other
        rw [not_or] at other
        simp [DefiniteHead.integer, other.1, other.2] at right
      rw [next.readAny, Option.bind_some]
      exact (head.intValue_iff (below next integer) r).mpr ⟨right, range⟩

/-- The unsigned integer with the largest argument. -/
def largestUint : DefiniteHead := .uint (.following (Fin.last 3)) (2 ^ 64 - 1) (by decide)

/-- The unsigned integer `2 ^ 64 - 1` is read as `-1`. -/
theorem readInt_wraps :
    largestUint.encoding = [0x1B, 0xFF, 0xFF, 0xFF, 0xFF, 0xFF, 0xFF, 0xFF, 0xFF] ∧
      largestUint.integer = some (2 ^ 64 - 1) ∧
      (readInt (toplevel (some largestUint.encoding))).1 = some (-1) ∧
      ¬ IntExact (toplevel (some largestUint.encoding)) := by
  refine ⟨by decide +kernel, by decide +kernel, by decide +kernel, ?_⟩
  rintro ⟨exact_, -⟩
  have read : (readInt (toplevel (some largestUint.encoding))).1 = some (-1) := by decide +kernel
  obtain ⟨⟨head, next, minus⟩, -⟩ := (exact_ (-1)).mp read
  have here : NextHead (toplevel (some largestUint.encoding)) largestUint :=
    ⟨rfl, [], (List.append_nil _).symm⟩
  have same : head.any = largestUint.any := Option.some.inj (next.readAny.symm.trans here.readAny)
  rw [DefiniteHead.integer_any same] at minus
  exact absurd minus (by decide +kernel)

end Contexts

end TeepDevice.Tcbor
