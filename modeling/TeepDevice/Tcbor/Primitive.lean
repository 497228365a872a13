import Mathlib.Algebra.Group.Int.Defs
import Mathlib.Algebra.Group.Nat.Defs
import TeepDevice.Loop

/-! The CBOR primitives of lib/cbor/teecbor.c and lib/include/teecbor.h.
A range of bytes is the list between its two pointers; the null range is kept
apart from the empty one because the callers test for it. -/
namespace TeepDevice

abbrev Bytes := List UInt8

/-- `tcbor_range_t`; equality of two of them is `tcbor_range_equal`. -/
abbrev Range := Option Bytes

/-- Unsigned 64-bit wrap-around, for the arithmetic whose overflow the code tests. -/
def wrap64 (n : Nat) : Nat := n % 2 ^ 64

namespace Tcbor

inductive Error where
  | ok | malformed | needData | notSupported | notMatch | endOfContext | overflow
  deriving DecidableEq, Repr

/-- `tcbor_any_t`. The union holds `bytes` for the two string types and `value`
for all others; no reader looks at the arm that is not set. -/
structure Any where
  header : UInt8
  value : Nat
  bytes : Bytes
  deriving DecidableEq, Repr

namespace Any

def majorType (any : Any) : Nat := any.header.toNat / 32

def isUint (any : Any) : Bool := any.majorType == 0
def isNint (any : Any) : Bool := any.majorType == 1
def isBstr (any : Any) : Bool := any.majorType == 2
def isTstr (any : Any) : Bool := any.majorType == 3
def isArray (any : Any) : Bool := any.majorType == 4
def isMap (any : Any) : Bool := any.majorType == 5
def isTag (any : Any) : Bool := any.majorType == 6
def isSimple (any : Any) : Bool := any.majorType == 7 && decide (any.header.toNat % 32 ≤ 24)
def isFalse (any : Any) : Bool := any.isSimple && any.value == 20
def isTrue (any : Any) : Bool := any.isSimple && any.value == 21
def isBool (any : Any) : Bool := any.isFalse || any.isTrue
def isNull (any : Any) : Bool := any.isSimple && any.value == 22

end Any

/-- The argument bytes after the head, big-endian. At most eight are read, so
the shifted `uint64_t` never loses a bit. -/
def readArgument : Nat → Nat → Bytes → Option (Nat × Bytes)
  | 0, value, p => some (value, p)
  | _ + 1, _, [] => none
  | n + 1, value, b :: p => readArgument n (value * 256 + b.toNat) p

def primitiveReadAny : Bytes → Except Error (Any × Bytes)
  | [] => .error .needData
  | header :: p =>
    let mt := header.toNat / 32
    let ai := header.toNat % 32
    if ai = 31 then .error .notSupported
    else if 28 ≤ ai then .error .malformed
    else
      match (if 24 ≤ ai then readArgument (2 ^ (ai - 24)) 0 p else some (ai, p)) with
      | none => .error .needData
      | some (value, p) =>
        if mt = 7 ∧ ai = 24 ∧ value < 32 then .error .malformed
        else if mt = 2 ∨ mt = 3 then
          -- the difference of the pointers is not negative, so its conversion to
          -- uint64_t in this comparison changes nothing
          if p.length < value then .error .needData
          else .ok (⟨header, 0, p.take value⟩, p.drop value)
        else .ok (⟨header, value, []⟩, p)

theorem readArgument_length {n value v : Nat} {p q : Bytes}
    (h : readArgument n value p = some (v, q)) : q.length ≤ p.length := by
  induction n generalizing value p with
  | zero =>
    cases Option.some.inj h
    exact Nat.le_refl _
  | succ n ih =>
    cases p with
    | nil => cases h
    | cons b p => exact Nat.le_succ_of_le (ih h)

/-- A successful read consumes at least the head byte. -/
theorem primitiveReadAny_length {s rest : Bytes} {any : Any}
    (h : primitiveReadAny s = .ok (any, rest)) : rest.length < s.length := by
  cases s with
  | nil => cases h
  | cons header p =>
    simp only [primitiveReadAny] at h
    split at h
    · cases h
    · split at h
      · cases h
      · split at h
        · cases h
        · rename_i value q argument
          have shorter : q.length ≤ p.length := by
            split at argument
            · exact readArgument_length argument
            · cases Option.some.inj argument
              exact Nat.le_refl _
          split at h
          · cases h
          · split at h
            · split at h
              · cases h
              · obtain ⟨-, rfl⟩ := Prod.mk.inj (Except.ok.inj h)
                simp only [List.length_drop, List.length_cons]
                omega
            · obtain ⟨-, rfl⟩ := Prod.mk.inj (Except.ok.inj h)
              exact Nat.lt_succ_of_le shorter

/-- The loop of `tcbor_primitive_skip`: `s` is the local cursor, `count` the
items still to be skipped. The two additions of a map are tested one by one. -/
def skipBody : Bytes × Nat → (Bytes × Nat) ⊕ Except Error Bytes
  | (s, count) =>
    if count = 0 then .inr (.ok s)
    else
      match primitiveReadAny s with
      | .error e => .inr (.error e)
      | .ok (any, s) =>
        if any.isTag then .inl (s, count)
        else
          let count := count - 1
          if any.isArray then
            if wrap64 (count + any.value) < count then .inr (.error .overflow)
            else .inl (s, wrap64 (count + any.value))
          else if any.isMap then
            if wrap64 (count + any.value) < count then .inr (.error .overflow)
            else
              let count := wrap64 (count + any.value)
              if wrap64 (count + any.value) < count then .inr (.error .overflow)
              else .inl (s, wrap64 (count + any.value))
          else .inl (s, count)

theorem skipBody_continues {s s' : Bytes} {count count' : Nat}
    (h : skipBody (s, count) = .inl (s', count')) :
    ∃ any, primitiveReadAny s = .ok (any, s') := by
  simp only [skipBody] at h
  split at h
  · cases h
  · split at h
    · cases h
    · rename_i any rest read
      refine ⟨any, ?_⟩
      have same : rest = s' := by
        repeat' split at h
        all_goals
          first
          | exact (Prod.mk.inj (Sum.inl.inj h)).1
          | cases h
      exact same ▸ read

theorem skipBody_decreasing : Loop.Decreasing skipBody (fun st => st.1.length) := by
  rintro ⟨s, count⟩ ⟨s', count'⟩ h
  obtain ⟨any, read⟩ := skipBody_continues h
  exact primitiveReadAny_length read

/-- `tcbor_primitive_skip`: the cursor after `count` items, or the error. -/
def primitiveSkip (r : Bytes) (count : Nat) : Except Error Bytes :=
  Loop.eval skipBody (fun st => st.1.length) skipBody_decreasing (r, count)

theorem primitiveSkip_length {r rest : Bytes} {count : Nat}
    (h : primitiveSkip r count = .ok rest) :
    rest.length ≤ r.length ∧ (0 < count → rest.length < r.length) := by
  have whole := Loop.eval_induct skipBody_decreasing
    (fun st result => ∀ rest, result = .ok rest →
      rest.length ≤ st.1.length ∧ (0 < st.2 → rest.length < st.1.length)) ?_ ?_ (r, count)
  · exact whole rest h
  · rintro ⟨s, n⟩ result leave rest rfl
    simp only [skipBody] at leave
    split at leave
    · rename_i done
      cases leave
      exact ⟨Nat.le_refl _, fun positive => by omega⟩
    · repeat' split at leave
      all_goals cases leave
  · rintro ⟨s, n⟩ ⟨s', n'⟩ result pass ih rest ends
    obtain ⟨any, read⟩ := skipBody_continues pass
    have shorter := primitiveReadAny_length read
    have tail : rest.length ≤ s'.length := (ih rest ends).1
    have below : rest.length < s.length := Nat.lt_of_le_of_lt tail shorter
    exact ⟨Nat.le_of_lt below, fun _ => below⟩

end Tcbor

end TeepDevice
