import Mathlib.Data.List.Perm.Basic
import Mathlib.Data.List.Nodup

/-! A heap of numbered blocks. A number is handed out once, so that a pointer to a
block that was freed stays recognizable. Nothing here names a program. -/
namespace TeepDevice

/-- One entry for each allocation: the contents, or `none` once the block is freed. -/
structure Heap (α : Type) where
  blocks : List (Option α)

namespace Heap

def empty {α : Type} : Heap α := ⟨[]⟩

variable {α : Type}

def load (h : Heap α) (b : Nat) : Option α := (h.blocks[b]?).join

def alloc (h : Heap α) (x : α) : Nat × Heap α := (h.blocks.length, ⟨h.blocks ++ [some x]⟩)

/-- `none` for a block that is not live. -/
def free (h : Heap α) (b : Nat) : Option (Heap α) :=
  if (h.load b).isSome then some ⟨h.blocks.set b none⟩ else none

/-- `free` of a pointer, which may be null. -/
def release (h : Heap α) : Option Nat → Option (Heap α)
  | none => some h
  | some b => h.free b

/-- One pointer after the other. -/
def releaseAll (h : Heap α) (pointers : List (Option Nat)) : Option (Heap α) :=
  pointers.foldlM release h

variable {h h' : Heap α} {b c : Nat} {owned rest : List Nat}

theorem load_empty (b : Nat) : (empty : Heap α).load b = none := rfl

theorem load_alloc (h : Heap α) (x : α) : (h.alloc x).2.load (h.alloc x).1 = some x := by
  simp only [load, alloc, List.getElem?_concat_length, Option.join_some]

theorem load_lt (live : (h.load b).isSome) : b < h.blocks.length := by
  by_contra outside
  have absent : h.blocks[b]? = none := List.getElem?_eq_none_iff.mpr (Nat.not_lt.mp outside)
  simp only [load, absent, Option.join_none, Option.isSome_none, Bool.false_eq_true] at live

theorem load_alloc_other {x : α} (other : b ≠ (h.alloc x).1) :
    (h.alloc x).2.load b = h.load b := by
  simp only [load, alloc] at other ⊢
  by_cases inside : b < h.blocks.length
  · rw [List.getElem?_append_left inside]
  · have past : h.blocks.length < b := by omega
    have absent : h.blocks[b]? = none := List.getElem?_eq_none_iff.mpr (Nat.not_lt.mp inside)
    have absent' : (h.blocks ++ [some x])[b]? = none := by
      apply List.getElem?_eq_none_iff.mpr
      rw [List.length_append, List.length_singleton]
      exact past
    rw [absent, absent']

theorem alloc_fresh (h : Heap α) (x : α) : h.load (h.alloc x).1 = none := by
  simp only [load, alloc, List.getElem?_length, Option.join_none]

theorem load_free (freed : h.free b = some h') : h'.load b = none := by
  unfold free at freed
  split at freed
  · rename_i live
    cases freed
    simp only [load, List.getElem?_set_self (load_lt live), Option.join_some]
  · cases freed

theorem load_free_other (freed : h.free b = some h') (other : c ≠ b) : h'.load c = h.load c := by
  unfold free at freed
  split at freed
  · cases freed
    simp only [load, List.getElem?_set_ne other.symm]
  · cases freed

/-- Every live block has one owner, and nobody owns another block. -/
structure Owns (h : Heap α) (owned : List Nat) : Prop where
  nodup : owned.Nodup
  live_iff : ∀ b, (h.load b).isSome ↔ b ∈ owned

namespace Owns

theorem empty : (Heap.empty : Heap α).Owns [] where
  nodup := List.nodup_nil
  live_iff b := by simp only [load_empty, Option.isSome_none, Bool.false_eq_true, List.not_mem_nil]

theorem perm (owns : h.Owns owned) (same : owned.Perm rest) : h.Owns rest where
  nodup := same.nodup_iff.mp owns.nodup
  live_iff b := (owns.live_iff b).trans same.mem_iff

theorem alloc (owns : h.Owns owned) (x : α) : (h.alloc x).2.Owns ((h.alloc x).1 :: owned) where
  nodup := by
    apply List.nodup_cons.mpr
    refine ⟨?_, owns.nodup⟩
    intro member
    have live := (owns.live_iff _).mpr member
    rw [alloc_fresh] at live
    cases live
  live_iff b := by
    by_cases new : b = (h.alloc x).1
    · subst new
      simp only [load_alloc, Option.isSome_some, List.mem_cons, true_or]
    · rw [load_alloc_other new, owns.live_iff, List.mem_cons, or_iff_right new]

/-- An owned block can be freed, once. -/
theorem free (owns : h.Owns (b :: owned)) :
    ∃ h', h.free b = some h' ∧ h'.Owns owned ∧ ∀ c ≠ b, h'.load c = h.load c := by
  have live : (h.load b).isSome := (owns.live_iff b).mpr List.mem_cons_self
  have freed : h.free b = some ⟨h.blocks.set b none⟩ := if_pos live
  obtain ⟨alone, nodup⟩ := List.nodup_cons.mp owns.nodup
  refine ⟨_, freed, ⟨nodup, ?_⟩, fun c other => load_free_other freed other⟩
  intro c
  by_cases same : c = b
  · subst same
    rw [load_free freed]
    exact iff_of_false Bool.false_ne_true alone
  · rw [load_free_other freed same, owns.live_iff, List.mem_cons, or_iff_right same]

/-- Pointers that own their blocks can be released one after the other. -/
theorem releaseAll (pointers : List (Option Nat)) :
    ∀ {h : Heap α}, h.Owns (pointers.filterMap id ++ rest) →
      ∃ h', h.releaseAll pointers = some h' ∧ h'.Owns rest ∧
        ∀ c ∉ pointers.filterMap id, h'.load c = h.load c := by
  induction pointers with
  | nil =>
    intro h owns
    exact ⟨h, rfl, owns, fun _ _ => rfl⟩
  | cons pointer pointers ih =>
    intro h owns
    cases pointer with
    | none =>
      obtain ⟨h', released, owns', same⟩ := ih owns
      exact ⟨h', released, owns', same⟩
    | some b =>
      obtain ⟨next, freed, owns', first⟩ := owns.free
      obtain ⟨h', released, owns'', same⟩ := ih owns'
      refine ⟨h', ?_, owns'', ?_⟩
      · simp only [Heap.releaseAll, List.foldlM_cons, release, freed, Option.bind_eq_bind,
          Option.bind_some]
        exact released
      · intro c other
        have parts : c ≠ b ∧ c ∉ pointers.filterMap id := by
          simpa only [List.filterMap_cons, id, List.mem_cons, not_or] using other
        rw [same c parts.2, first c parts.1]

end Owns

end Heap

end TeepDevice
