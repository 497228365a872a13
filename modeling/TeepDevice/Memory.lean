import Mathlib.Data.List.TakeWhile

/-! Arrays of a fixed size and the strings they hold: a store that stays inside
the array, and the bytes up to a terminator. Nothing here names a program. -/
namespace TeepDevice.Memory

section Write
variable {α : Type} {array after xs ys rest : List α} {at_ : Nat}

/-- The array with these values stored from a position on, if they fit. -/
def write (array : List α) (at_ : Nat) (values : List α) : Option (List α) :=
  if at_ + values.length ≤ array.length then
    some (array.take at_ ++ (values ++ array.drop (at_ + values.length)))
  else none

theorem write_eq_some_iff :
    write array at_ xs = some after ↔ at_ + xs.length ≤ array.length ∧
      after = array.take at_ ++ (xs ++ array.drop (at_ + xs.length)) := by
  unfold write
  split
  · rename_i fits
    exact ⟨fun h => ⟨fits, (Option.some.inj h).symm⟩, fun h => congrArg some h.2.symm⟩
  · rename_i tooLong
    exact ⟨nofun, fun h => absurd h.1 tooLong⟩

/-- A store behind what was written so far. -/
theorem write_behind (written rest xs : List α) (fits : xs.length ≤ rest.length) :
    write (written ++ rest) written.length xs = some (written ++ (xs ++ rest.drop xs.length)) := by
  rw [write_eq_some_iff, List.length_append, List.take_left, List.drop_append]
  rw [List.drop_of_length_le (Nat.le_add_right _ _), Nat.add_sub_cancel_left]
  exact ⟨Nat.add_le_add_left fits _, rfl⟩

theorem write_front (fits : xs.length ≤ rest.length) :
    write rest 0 xs = some (xs ++ rest.drop xs.length) :=
  write_behind [] rest xs fits

theorem write_one {value : α} (inside : at_ < array.length) :
    write array at_ [value] = some (array.set at_ value) := by
  rw [write_eq_some_iff, List.set_eq_take_append_cons_drop, if_pos inside]
  exact ⟨inside, rfl⟩

theorem write_length (stored : write array at_ xs = some after) :
    after.length = array.length := by
  obtain ⟨fits, rfl⟩ := (write_eq_some_iff).mp stored
  simp only [List.length_append, List.length_take, List.length_drop]
  omega

/-- A store leaves what is behind it. -/
theorem write_drop (stored : write array at_ xs = some after) {n : Nat}
    (behind : at_ + xs.length ≤ n) : after.drop n = array.drop n := by
  obtain ⟨fits, rfl⟩ := (write_eq_some_iff).mp stored
  have front : (array.take at_ ++ xs).length = at_ + xs.length := by
    rw [List.length_append, List.length_take]
    omega
  rw [← List.append_assoc, List.drop_append, front, List.drop_drop,
    List.drop_of_length_le (by omega), List.nil_append]
  congr 1
  omega

end Write

section Strings
variable {array s rest : List UInt8}

/-- The string in an array: the bytes before the first terminator, if there is
one. -/
def cString (array : List UInt8) : Option (List UInt8) :=
  if 0 ∈ array then some (array.takeWhile (· ≠ 0)) else none

theorem cString_append (inside : 0 ∉ s) (rest : List UInt8) :
    cString (s ++ 0 :: rest) = some s := by
  have before : ∀ c ∈ s, decide (c ≠ 0) = true :=
    fun c member => decide_eq_true fun zero => inside (zero ▸ member)
  rw [cString, if_pos (List.mem_append_right _ List.mem_cons_self),
    List.takeWhile_append_of_pos before, List.takeWhile_cons_of_neg (by decide), List.append_nil]

theorem cString_eq_some_iff :
    cString array = some s ↔ 0 ∉ s ∧ ∃ rest, array = s ++ 0 :: rest := by
  constructor
  · intro string
    unfold cString at string
    split at string
    · rename_i zero
      cases string
      refine ⟨fun inside => ?_, ?_⟩
      · have other := List.mem_takeWhile_imp inside
        exact of_decide_eq_true other rfl
      · have split := List.takeWhile_append_dropWhile (p := (· ≠ (0 : UInt8))) (l := array)
        cases behind : array.dropWhile (· ≠ 0) with
        | nil =>
          rw [List.dropWhile_eq_nil_iff] at behind
          exact absurd rfl (of_decide_eq_true (behind 0 zero))
        | cons c rest =>
          have stops := List.head?_dropWhile_not (fun c : UInt8 => decide (c ≠ 0)) array
          rw [behind, List.head?_cons] at stops
          have isZero : c = 0 := by simpa using stops
          rw [behind, isZero] at split
          exact ⟨rest, split.symm⟩
    · cases string
  · rintro ⟨inside, rest, rfl⟩
    exact cString_append inside rest

end Strings

end TeepDevice.Memory
