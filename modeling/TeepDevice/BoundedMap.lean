import Mathlib.Data.List.AList
import Mathlib.Data.List.Dedup
import Mathlib.Data.List.Induction
import Mathlib.Data.List.Perm.Subperm

/-! Finite maps with room for so many keys, written one key at a time. A write
without override keeps a value that is there; one that finds no room for a new
key fails and changes nothing. Nothing here names a program. -/
namespace TeepDevice.BoundedMap

section Runs
variable {σ τ ω : Type}

/-- The answers and the last state of a run of writes. -/
def run (step : σ → ω → Bool × σ) (start : σ) (writes : List ω) : List Bool × σ :=
  writes.foldl (fun st w => (st.1 ++ [(step st.2 w).1], (step st.2 w).2)) ([], start)

theorem run_concat (step : σ → ω → Bool × σ) (start : σ) (writes : List ω) (w : ω) :
    run step start (writes ++ [w]) =
      ((run step start writes).1 ++ [(step (run step start writes).2 w).1],
        (step (run step start writes).2 w).2) := by
  unfold run
  rw [List.foldl_append]
  rfl

/-- An invariant of the writes is one of the runs. -/
theorem run_invariant {step : σ → ω → Bool × σ} {start : σ} (inv : σ → Prop) (initial : inv start)
    (keeps : ∀ s w, inv s → inv (step s w).2) (writes : List ω) :
    inv (run step start writes).2 := by
  induction writes using List.reverseRecOn with
  | nil => exact initial
  | append_singleton writes w ih =>
    rw [run_concat]
    exact keeps _ w ih

/-- Two runs that answer alike at every write stay related. -/
theorem run_related {step : σ → ω → Bool × σ} {step' : τ → ω → Bool × τ} {start : σ} {start' : τ}
    (rel : σ → τ → Prop) (initial : rel start start') (writes : List ω)
    (keeps : ∀ before w after, writes = before ++ w :: after →
      rel (run step start before).2 (run step' start' before).2 →
      (step (run step start before).2 w).1 = (step' (run step' start' before).2 w).1 ∧
        rel (step (run step start before).2 w).2 (step' (run step' start' before).2 w).2) :
    (run step start writes).1 = (run step' start' writes).1 ∧
      rel (run step start writes).2 (run step' start' writes).2 := by
  induction writes using List.reverseRecOn with
  | nil => exact ⟨rfl, initial⟩
  | append_singleton writes w ih =>
    obtain ⟨answers, related⟩ := ih fun before w' after same =>
      keeps before w' (after ++ [w]) (by rw [same, List.append_assoc, List.cons_append])
    obtain ⟨answer, next⟩ := keeps writes w [] rfl related
    rw [run_concat, run_concat, answers, answer]
    exact ⟨rfl, next⟩

end Runs

section Maps
variable {α β : Type} [DecidableEq α] {cap : Nat}

structure Write (α β : Type) where
  key : α
  value : β
  override : Bool

abbrev Table (α β : Type) := AList fun _ : α => β

def put (cap : Nat) (m : Table α β) (w : Write α β) : Bool × Table α β :=
  if w.key ∈ m then (true, if w.override then m.insert w.key w.value else m)
  else if m.keys.length = cap then (false, m)
  else (true, m.insert w.key w.value)

def putAll (cap : Nat) (writes : List (Write α β)) : List Bool × Table α β :=
  run (put cap) ∅ writes

theorem put_of_mem {m : Table α β} {w : Write α β} (member : w.key ∈ m) :
    put cap m w = (true, if w.override then m.insert w.key w.value else m) := if_pos member

theorem put_full {m : Table α β} {w : Write α β} (new : w.key ∉ m) (full : m.keys.length = cap) :
    put cap m w = (false, m) := by
  rw [put, if_neg new, if_pos full]

theorem put_new {m : Table α β} {w : Write α β} (new : w.key ∉ m) (room : m.keys.length ≠ cap) :
    put cap m w = (true, m.insert w.key w.value) := by
  rw [put, if_neg new, if_neg room]

theorem keys_length_insert {m : Table α β} {a : α} (new : a ∉ m) (b : β) :
    (m.insert a b).keys.length = m.keys.length + 1 := by
  have absent : a ∉ m.keys := fun member => new (AList.mem_keys.mpr member)
  rw [AList.keys_insert, List.length_cons, List.erase_of_not_mem absent]

theorem keys_length_replace {m : Table α β} {a : α} (member : a ∈ m) (b : β) :
    (m.insert a b).keys.length = m.keys.length := by
  have present : a ∈ m.keys := AList.mem_keys.mp member
  have some := List.length_pos_of_mem present
  rw [AList.keys_insert, List.length_cons, List.length_erase_of_mem present]
  omega

theorem mem_put_of_mem {m : Table α β} {a : α} (member : a ∈ m) (w : Write α β) :
    a ∈ (put cap m w).2 := by
  unfold put
  split
  · split
    · exact (AList.mem_insert m).mpr (.inr member)
    · exact member
  · split
    · exact member
    · exact (AList.mem_insert m).mpr (.inr member)

/-- What the keys of a map are after some writes: written ones, never more than
there is room for, and all of them while there is room. -/
structure Holds (cap : Nat) (keys : List α) (m : Table α β) : Prop where
  bounded : m.keys.length ≤ cap
  written : ∀ a ∈ m, a ∈ keys
  all : m.keys.length < cap → ∀ a ∈ keys, a ∈ m

theorem put_holds {keys : List α} {m : Table α β} (holds : Holds cap keys m) (w : Write α β) :
    Holds cap (keys ++ [w.key]) (put cap m w).2 := by
  have grown (a : α) (member : a ∈ m) : a ∈ keys ++ [w.key] :=
    List.mem_append_left _ (holds.written a member)
  by_cases member : w.key ∈ m
  · rw [put_of_mem member]
    dsimp only
    split
    · refine ⟨by rw [keys_length_replace member]; exact holds.bounded, ?_, ?_⟩
      · intro a there
        rcases (AList.mem_insert m).mp there with rfl | there
        · exact grown w.key member
        · exact grown a there
      · intro room a there
        rw [keys_length_replace member] at room
        rcases List.mem_append.mp there with there | here
        · exact (AList.mem_insert m).mpr (.inr (holds.all room a there))
        · exact (AList.mem_insert m).mpr (.inl (List.mem_singleton.mp here))
    · refine ⟨holds.bounded, grown, fun room a there => ?_⟩
      rcases List.mem_append.mp there with there | here
      · exact holds.all room a there
      · exact List.mem_singleton.mp here ▸ member
  · by_cases full : m.keys.length = cap
    · rw [put_full member full]
      exact ⟨holds.bounded, grown, fun room => absurd full (Nat.ne_of_lt room)⟩
    · rw [put_new member full]
      have room := Nat.lt_of_le_of_ne holds.bounded full
      refine ⟨by rw [keys_length_insert member]; exact room, ?_, ?_⟩
      · intro a there
        rcases (AList.mem_insert m).mp there with rfl | there
        · exact List.mem_append_right _ List.mem_cons_self
        · exact grown a there
      · intro _ a there
        rcases List.mem_append.mp there with there | here
        · exact (AList.mem_insert m).mpr (.inr (holds.all room a there))
        · exact (AList.mem_insert m).mpr (.inl (List.mem_singleton.mp here))

theorem putAll_concat (writes : List (Write α β)) (w : Write α β) :
    (putAll cap (writes ++ [w])).2 = (put cap (putAll cap writes).2 w).2 := by
  unfold putAll
  rw [run_concat]

theorem putAll_holds (writes : List (Write α β)) :
    Holds cap (writes.map Write.key) (putAll cap writes).2 := by
  induction writes using List.reverseRecOn with
  | nil =>
    refine ⟨Nat.zero_le _, fun a member => absurd member (AList.notMem_empty a), ?_⟩
    exact fun _ a member => absurd member List.not_mem_nil
  | append_singleton writes w ih =>
    rw [putAll_concat, List.map_append]
    exact put_holds ih w

/-- A map is full as soon as that many distinct keys were written. -/
theorem putAll_full_iff (writes : List (Write α β)) :
    (putAll cap writes).2.keys.length = cap ↔ cap ≤ (writes.map Write.key).dedup.length := by
  have holds : Holds cap (writes.map Write.key) (putAll cap writes).2 := putAll_holds writes
  have distinct := (putAll cap writes).2.keys_nodup
  constructor
  · intro full
    have inside : (putAll cap writes).2.keys ⊆ (writes.map Write.key).dedup := fun a member =>
      List.mem_dedup.mpr (holds.written a (AList.mem_keys.mpr member))
    have most := (List.subperm_of_subset distinct inside).length_le
    rwa [full] at most
  · intro many
    by_contra notFull
    have room := Nat.lt_of_le_of_ne holds.bounded notFull
    have inside : (writes.map Write.key).dedup ⊆ (putAll cap writes).2.keys := fun a member =>
      AList.mem_keys.mp (holds.all room a (List.mem_dedup.mp member))
    have most := (List.subperm_of_subset (List.nodup_dedup _) inside).length_le
    omega

/-- A key that is written while there is room is there ever after. -/
theorem putAll_mem {before after : List (Write α β)} {w : Write α β}
    (room : (before.map Write.key).dedup.length < cap) :
    w.key ∈ (putAll cap (before ++ w :: after)).2 := by
  induction after using List.reverseRecOn with
  | nil =>
    rw [putAll_concat]
    by_cases member : w.key ∈ (putAll cap before).2
    · exact mem_put_of_mem member w
    · have notFull : (putAll cap before).2.keys.length ≠ cap := fun full =>
        Nat.not_le_of_lt room ((putAll_full_iff before).mp full)
      rw [put_new member notFull]
      exact (AList.mem_insert _).mpr (.inl rfl)
  | append_singleton after last ih =>
    rw [← List.cons_append, ← List.append_assoc, putAll_concat]
    exact mem_put_of_mem ih last

end Maps

end TeepDevice.BoundedMap
