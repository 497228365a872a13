import TeepDevice.Agent.Session
import TeepDevice.Memory

/-! The string functions of tools.c. A pointer into a string is what the array
holds from there on, its terminator included, and reading behind the array is
`none`. -/
namespace TeepDevice.Agent
open Tcbor

/-- The inner loop of `local_strstr`, and where it leaves its two pointers. -/
def matchLoop : Bytes → Bytes → Option (Bytes × Bytes)
  | [], _ => none
  | c :: p, q =>
    if c = 0 then some (c :: p, q)
    else
      match q with
      | [] => none
      | d :: rest =>
        if d = 0 then some (c :: p, d :: rest)
        else if c ≠ d then some (c :: p, d :: rest)
        else matchLoop p rest

/-- The outer loop of `local_strstr`; a null pointer is `some none`. -/
def searchLoop (y : Bytes) : Bytes → Option (Option Bytes)
  | [] => none
  | c :: x =>
    if c = 0 then some none
    else
      match matchLoop (c :: x) y with
      | some (a :: _, b :: _) =>
        if b = 0 then some (some (c :: x)) else if a = 0 then some none else searchLoop y x
      | _ => none

def localStrstr (x y : Bytes) : Option (Option Bytes) :=
  match y with
  | [] => none
  | d :: _ => if d = 0 then some (some x) else searchLoop y x

/-- `strstr`, as it is built without `USE_SAFESTRSTR`. -/
def strstr (haystack needle : Bytes) : Option (Option Bytes) := localStrstr haystack needle

/-- The loop of `strncpy`: what is stored in `dst`. -/
def copyLoop : Nat → Bytes → Option Bytes
  | 0, _ => some []
  | _ + 1, [] => none
  | n + 1, c :: s => if c = 0 then some [0] else (copyLoop n s).map (c :: ·)

/-- `strncpy` of tools.c. -/
def toolsStrncpy (dst src : Bytes) (n : Nat) : Option Bytes :=
  match copyLoop n src with
  | none => none
  | some copied => (Memory.write dst 0 copied).bind fun dst => Memory.write dst n [0]

section Search
variable {x y : Bytes}

/-- The first position at which a string occurs in another. -/
def FirstAt (x y : Bytes) (i : Nat) : Prop := y <+: x.drop i ∧ ∀ j < i, ¬ y <+: x.drop j

/-- The inner loop walks over what the strings have in common. -/
theorem matchLoop_common (endsX : 0 ∉ x) (endsY : 0 ∉ y) :
    ∃ common p q, x = common ++ p ∧ y = common ++ q ∧
      matchLoop (x ++ [0]) (y ++ [0]) = some (p ++ [0], q ++ [0]) ∧
      (p = [] ∨ q = [] ∨ p.head? ≠ q.head?) := by
  induction x generalizing y with
  | nil => exact ⟨[], [], y, rfl, rfl, rfl, .inl rfl⟩
  | cons c x ih =>
    obtain ⟨notZero, endsX⟩ := List.ne_and_not_mem_of_not_mem_cons endsX
    cases y with
    | nil =>
      refine ⟨[], c :: x, [], rfl, rfl, ?_, .inr (.inl rfl)⟩
      rw [List.cons_append, List.nil_append, matchLoop, if_neg notZero.symm]
      rfl
    | cons d y =>
      obtain ⟨notZero', endsY⟩ := List.ne_and_not_mem_of_not_mem_cons endsY
      by_cases same : c = d
      · obtain ⟨common, p, q, rfl, rfl, stops, differ⟩ := ih endsX endsY
        refine ⟨c :: common, p, q, rfl, same ▸ rfl, ?_, differ⟩
        rw [List.cons_append, List.cons_append, matchLoop, if_neg notZero.symm]
        rw [if_neg notZero'.symm, if_neg (not_not.mpr same), stops]
      · refine ⟨[], c :: x, d :: y, rfl, rfl, ?_, .inr (.inr ?_)⟩
        · rw [List.cons_append, List.cons_append, matchLoop, if_neg notZero.symm]
          rw [if_neg notZero'.symm, if_pos same]
        · exact fun heads => same (Option.some.inj heads)

theorem firstAt_zero (starts : y <+: x) : FirstAt x y 0 := ⟨starts, nofun⟩

theorem FirstAt.succ {c : UInt8} {i : Nat} (fails : ¬ y <+: c :: x) :
    FirstAt (c :: x) y (i + 1) ↔ FirstAt x y i := by
  constructor
  · rintro ⟨here, before⟩
    exact ⟨here, fun j below => before (j + 1) (Nat.succ_lt_succ below)⟩
  · rintro ⟨here, before⟩
    refine ⟨here, fun j below => ?_⟩
    cases j with
    | zero => exact fails
    | succ j => exact before j (Nat.lt_of_succ_lt_succ below)

theorem FirstAt.unique {i j : Nat} (first : FirstAt x y i) (first' : FirstAt x y j) : i = j := by
  rcases Nat.lt_trichotomy i j with below | same | above
  · exact absurd first.1 (first'.2 i below)
  · exact same
  · exact absurd first'.1 (first.2 j above)

/-- A string that occurs has a first position. -/
theorem infix_iff_firstAt : y <:+: x ↔ ∃ i, FirstAt x y i := by
  induction x with
  | nil =>
    rw [List.infix_nil]
    constructor
    · rintro rfl
      exact ⟨0, firstAt_zero (List.prefix_refl _)⟩
    · rintro ⟨i, here, -⟩
      rw [List.drop_nil] at here
      exact List.prefix_nil.mp here
  | cons c x ih =>
    rw [List.infix_cons_iff, ih]
    by_cases starts : y <+: c :: x
    · exact ⟨fun _ => ⟨0, firstAt_zero starts⟩, fun _ => .inl starts⟩
    · constructor
      · rintro (here | ⟨i, first⟩)
        · exact absurd here starts
        · exact ⟨i + 1, (FirstAt.succ starts).mpr first⟩
      · rintro ⟨i, first⟩
        cases i with
        | zero => exact absurd first.1 starts
        | succ i => exact .inr ⟨i, (FirstAt.succ starts).mp first⟩

/-- The pointer to the first occurrence, or a null pointer. -/
def Finds (x y : Bytes) (found : Option Bytes) : Prop :=
  (∃ i, FirstAt x y i ∧ found = some (x.drop i ++ [0])) ∨ (¬ y <:+: x ∧ found = none)

theorem searchLoop_finds (endsX : 0 ∉ x) (endsY : 0 ∉ y) (some' : y ≠ []) :
    ∃ found, searchLoop (y ++ [0]) (x ++ [0]) = some found ∧ Finds x y found := by
  induction x with
  | nil =>
    refine ⟨none, rfl, .inr ⟨?_, rfl⟩⟩
    rw [List.infix_nil]
    exact some'
  | cons c x ih =>
    have notZero := (List.ne_of_not_mem_cons endsX).symm
    obtain ⟨common, p, q, splitX, splitY, stops, differ⟩ := matchLoop_common endsX endsY
    rw [List.cons_append] at stops
    rw [List.cons_append, searchLoop, if_neg notZero, stops]
    cases q with
    | nil =>
      -- the needle is used up
      have starts : y <+: c :: x := by
        rw [splitX, splitY, List.append_nil]
        exact List.prefix_append common p
      refine ⟨some (c :: (x ++ [0])), ?_, .inl ⟨0, firstAt_zero starts, rfl⟩⟩
      cases p with
      | nil => rfl
      | cons a p => rfl
    | cons b q =>
      have notZero' : b ≠ 0 := by
        rintro rfl
        exact endsY (splitY ▸ List.mem_append_right common List.mem_cons_self)
      cases p with
      | nil =>
        -- the string is used up: no later part of it is as long as the needle
        refine ⟨none, ?_, .inr ⟨fun occurs => ?_, rfl⟩⟩
        · simp only [List.nil_append, List.cons_append, if_neg notZero', if_true]
        · have long := occurs.length_le
          rw [splitX, splitY, List.length_append, List.length_append] at long
          exact absurd long (by simp)
      | cons a p =>
        have notZero'' : a ≠ 0 := by
          rintro rfl
          exact endsX (splitX ▸ List.mem_append_right common List.mem_cons_self)
        have heads : a ≠ b := by
          rcases differ with empty | empty | heads
          · cases empty
          · cases empty
          · exact fun same => heads (congrArg some same)
        have fails : ¬ y <+: c :: x := by
          rw [splitX, splitY, List.prefix_append_right_inj, List.cons_prefix_cons]
          exact fun starts => heads starts.1.symm
        obtain ⟨found, searched, finds⟩ := ih (List.not_mem_of_not_mem_cons endsX)
        refine ⟨found, ?_, ?_⟩
        · simp only [List.cons_append, if_neg notZero', if_neg notZero'']
          exact searched
        · rcases finds with ⟨i, first, at_⟩ | ⟨absent, null⟩
          · exact .inl ⟨i + 1, (FirstAt.succ fails).mpr first, at_⟩
          · refine .inr ⟨?_, null⟩
            rw [List.infix_cons_iff]
            rintro (starts | occurs)
            · exact fails starts
            · exact absent occurs

theorem localStrstr_finds (endsX : 0 ∉ x) (endsY : 0 ∉ y) :
    ∃ found, localStrstr (x ++ [0]) (y ++ [0]) = some found ∧ Finds x y found := by
  cases y with
  | nil => exact ⟨_, rfl, .inl ⟨0, firstAt_zero List.nil_prefix, rfl⟩⟩
  | cons d y =>
    have notZero := (List.ne_of_not_mem_cons endsY).symm
    rw [List.cons_append, localStrstr, if_neg notZero]
    exact searchLoop_finds endsX endsY (List.cons_ne_nil d y)

/-- `local_strstr` gives the first occurrence, a null pointer if there is none,
and reads nothing behind the terminators. -/
theorem localStrstr_strstr (endsX : 0 ∉ x) (endsY : 0 ∉ y) :
    ∃ found, localStrstr (x ++ [0]) (y ++ [0]) = some found ∧
      strstr (x ++ [0]) (y ++ [0]) = some found ∧
      (found = none ↔ ¬ y <:+: x) ∧
      ∀ pointer, found = some pointer ↔ ∃ i, FirstAt x y i ∧ pointer = x.drop i ++ [0] := by
  obtain ⟨found, searched, finds⟩ := localStrstr_finds endsX endsY
  refine ⟨found, searched, searched, ?_⟩
  rcases finds with ⟨i, first, rfl⟩ | ⟨absent, rfl⟩
  · refine ⟨⟨nofun, fun absent => absurd (infix_iff_firstAt.mpr ⟨i, first⟩) absent⟩, ?_⟩
    intro pointer
    constructor
    · intro same
      exact ⟨i, first, (Option.some.inj same).symm⟩
    · rintro ⟨j, first', rfl⟩
      rw [first.unique first']
  · refine ⟨⟨fun _ => absent, fun _ => rfl⟩, ?_⟩
    intro pointer
    constructor
    · intro null
      cases null
    · rintro ⟨i, first, -⟩
      exact absurd (infix_iff_firstAt.mpr ⟨i, first⟩) absent

/-- The needle overlaps itself, and the second occurrence ends the string. -/
theorem localStrstr_strstr_overlap :
    FirstAt [97, 97, 98, 97, 97] [97, 98, 97] 1 ∧ ∃ found,
      localStrstr [97, 97, 98, 97, 97, 0] [97, 98, 97, 0] = some found ∧
      strstr [97, 97, 98, 97, 97, 0] [97, 98, 97, 0] = some found ∧
      (found = none ↔ ¬ [97, 98, 97] <:+: ([97, 97, 98, 97, 97] : Bytes)) ∧
      ∀ pointer, found = some pointer ↔ ∃ i, FirstAt [97, 97, 98, 97, 97] [97, 98, 97] i ∧
        pointer = ([97, 97, 98, 97, 97] : Bytes).drop i ++ [0] :=
  ⟨⟨by decide, by decide⟩, localStrstr_strstr (x := [97, 97, 98, 97, 97]) (y := [97, 98, 97])
    (by decide) (by decide)⟩

end Search

section Strncpy
variable {s rest dst : Bytes} {n : Nat}

theorem copyLoop_string (inside : 0 ∉ s) (n : Nat) :
    copyLoop n (s ++ 0 :: rest) = some (if s.length < n then s ++ [0] else s.take n) := by
  induction s generalizing n with
  | nil =>
    cases n with
    | zero => rfl
    | succ n => rfl
  | cons c s ih =>
    obtain ⟨notZero, inside⟩ := List.ne_and_not_mem_of_not_mem_cons inside
    cases n with
    | zero => rfl
    | succ n =>
      rw [List.cons_append, copyLoop, if_neg notZero.symm, ih inside, Option.map_some]
      simp only [List.length_cons, Nat.add_lt_add_iff_right, List.cons_append,
        List.take_succ_cons, apply_ite (c :: ·)]

theorem takeWhile_string (inside : 0 ∉ s) (n : Nat) :
    ((s ++ 0 :: rest).take n).takeWhile (· ≠ 0) = s.take n := by
  induction s generalizing n with
  | nil =>
    cases n with
    | zero => rfl
    | succ n => rfl
  | cons c s ih =>
    obtain ⟨notZero, inside⟩ := List.ne_and_not_mem_of_not_mem_cons inside
    cases n with
    | zero => rfl
    | succ n =>
      rw [List.cons_append, List.take_succ_cons, List.take_succ_cons]
      rw [List.takeWhile_cons_of_pos (by simp [notZero.symm]), ih inside]

/-- `strncpy` of tools.c stays inside the field. -/
theorem toolsStrncpy_strncpy (inside : 0 ∉ s) (room : n < dst.length) :
    toolsStrncpy dst (s ++ 0 :: rest) n = some (strncpy true dst (s ++ 0 :: rest) n) := by
  have same : (if s.length < n then s ++ [0] else s.take n) =
      if (s.take n).length < n then s.take n ++ [0] else s.take n := by
    rw [List.length_take]
    split
    · rename_i short
      rw [if_pos (by omega), List.take_of_length_le (Nat.le_of_lt short)]
    · rw [if_neg (by omega)]
  rw [toolsStrncpy, copyLoop_string inside, same]
  simp only [strncpy, takeWhile_string inside, if_true]
  have fits : (if (s.take n).length < n then s.take n ++ [0] else s.take n).length ≤ n := by
    split
    · rename_i short
      rw [List.length_append, List.length_singleton]
      exact short
    · exact List.length_take_le n s
  rw [Memory.write_front (by omega), Option.bind_some, Memory.write_one]
  rw [List.length_append, List.length_drop]
  omega

end Strncpy

end TeepDevice.Agent
