import TeepDevice.BoundedMap
import TeepDevice.Suit.Parameters

/-! The binder table against a finite map with room for `SUIT_BINDER_MAX` pairs
of target and key. A binder keeps 32 bits of its key, so the two agree as long
as no longer key gets a binder. -/
namespace TeepDevice.Suit
open Tcbor BoundedMap

/-- The arguments of a call of `set_parameter`; a target is an address. -/
abbrev Setting := Write (Nat × Nat) Bytes

/-- `set_parameter` with the table it leaves. -/
def setBinder (bindings : List Binder) (s : Setting) : Bool × List Binder :=
  match setParameter bindings s.key.1 s.key.2 s.value s.override with
  | none => (false, bindings)
  | some bindings => (true, bindings)

/-- The answers and the table after some calls on an empty table. -/
def bindersAfter (settings : List Setting) : List Bool × List Binder := run setBinder [] settings

/-- The table holds what the map holds, in as many binders as the map has keys. -/
structure Holding (bindings : List Binder) (map : Table (Nat × Nat) Bytes) : Prop where
  lookups : ∀ target key, suitRunnerGetParameter bindings target key = map.lookup (target, key)
  single : (binderKeys bindings).Nodup

/-- The table behaves as the map over all the calls: the same answers, the same
lookups, one binder a pair and no more binders than there is room for. -/
structure IsFiniteMap (settings : List Setting) : Prop where
  answers : (bindersAfter settings).1 = (putAll binderMax settings).1
  holding : Holding (bindersAfter settings).2 (putAll binderMax settings).2
  bounded : (bindersAfter settings).2.length ≤ binderMax

/-- The keys of the binders have 32 bits. -/
def Narrow (bindings : List Binder) : Prop := ∀ binder ∈ bindings, binder.key < 2 ^ 32

section Tables
variable {bindings : List Binder} {map : Table (Nat × Nat) Bytes}

theorem Holding.mem_iff (holding : Holding bindings map) (pair : Nat × Nat) :
    pair ∈ binderKeys bindings ↔ pair ∈ map := by
  rw [← AList.lookup_isSome, ← holding.lookups pair.1 pair.2, Option.isSome_iff_ne_none, Ne,
    getParameter_eq_none, Decidable.not_not]

theorem Holding.length_eq (holding : Holding bindings map) :
    bindings.length = map.keys.length := by
  have perm : (binderKeys bindings).Perm map.keys :=
    (List.perm_ext_iff_of_nodup holding.single map.keys_nodup).mpr fun pair =>
      (holding.mem_iff pair).trans AList.mem_keys
  rw [← perm.length_eq, binderKeys, List.length_map]

theorem lookup_insert_if (map : Table (Nat × Nat) Bytes) (a a' : Nat × Nat) (value : Bytes) :
    (map.insert a value).lookup a' = if a = a' then some value else map.lookup a' := by
  by_cases same : a = a'
  · subst same
    rw [if_pos rfl, AList.lookup_insert]
  · rw [if_neg same, AList.lookup_insert_ne (Ne.symm same)]

theorem setParameter_room {target key : Nat} {value : Bytes} {override : Bool}
    {after : List Binder} (absent : (target, key) ∉ binderKeys bindings)
    (done : setParameter bindings target key value override = some after) :
    bindings.length ≠ binderMax := by
  have none : lookupBinder bindings target key = none :=
    Option.map_eq_none_iff.mp (getParameter_eq_none.mpr absent)
  intro full
  simp only [setParameter, none, full, if_true] at done
  cases done

/-- A key of 32 bits is set as in the map. -/
theorem setBinder_holding (holding : Holding bindings map) {s : Setting}
    (small : s.key.2 < 2 ^ 32) :
    (setBinder bindings s).1 = (put binderMax map s).1 ∧
      Holding (setBinder bindings s).2 (put binderMax map s).2 := by
  have known := holding.mem_iff s.key
  have size := holding.length_eq
  unfold setBinder
  cases done : setParameter bindings s.key.1 s.key.2 s.value s.override with
  | none =>
    obtain ⟨absent, full⟩ := setParameter_full done
    rw [put_full (fun member => absent (known.mpr member)) (size ▸ full)]
    exact ⟨rfl, holding⟩
  | some after =>
    have spec := setParameter_spec small done
    have single : (binderKeys after).Nodup := by
      rcases (spec 0 0).2 with same | ⟨absent, more⟩
      · rw [same]
        exact holding.single
      · rw [more]
        exact holding.single.append (List.nodup_singleton _) (List.disjoint_singleton.mpr absent)
    by_cases member : s.key ∈ map
    · have present : suitRunnerGetParameter bindings s.key.1 s.key.2 ≠ none := fun none =>
        (getParameter_eq_none).mp none (known.mpr member)
      rw [put_of_mem member]
      refine ⟨rfl, fun target key => ?_, single⟩
      rw [(spec target key).1]
      cases s.override with
      | true =>
        simp only [true_or, and_true, if_true, lookup_insert_if, Prod.ext_iff]
        rw [holding.lookups]
      | false =>
        simp only [Bool.false_eq_true, false_or, present, and_false, if_false]
        exact holding.lookups target key
    · have absent : (s.key.1, s.key.2) ∉ binderKeys bindings := fun there => member (known.mp there)
      rw [put_new member (size ▸ setParameter_room absent done)]
      refine ⟨rfl, fun target key => ?_, single⟩
      rw [(spec target key).1]
      simp only [getParameter_eq_none.mpr absent, or_true, and_true, lookup_insert_if, Prod.ext_iff]
      rw [holding.lookups]

/-- A longer key has no binder. -/
theorem wide_absent (narrow : Narrow bindings) (target : Nat) {key : Nat} (wide : 2 ^ 32 ≤ key) :
    suitRunnerGetParameter bindings target key = none := by
  rw [getParameter_eq_none]
  intro there
  obtain ⟨binder, member, same⟩ := List.mem_map.mp there
  have short := narrow binder member
  rw [(Prod.mk.inj same).2] at short
  omega

theorem rebind_narrow (narrow : Narrow bindings) (target key : Nat) (value : Bytes) :
    Narrow (rebind bindings target key value) := by
  induction bindings with
  | nil => exact narrow
  | cons first rest ih =>
    obtain ⟨here, there⟩ := List.forall_mem_cons.mp narrow
    unfold rebind
    split
    · exact List.forall_mem_cons.mpr ⟨here, there⟩
    · exact List.forall_mem_cons.mpr ⟨here, ih there⟩

theorem setBinder_narrow (narrow : Narrow bindings) (s : Setting) :
    Narrow (setBinder bindings s).2 := by
  unfold setBinder setParameter
  cases lookupBinder bindings s.key.1 s.key.2 with
  | some binder =>
    cases s.override with
    | true => exact rebind_narrow narrow _ _ _
    | false => exact narrow
  | none =>
    dsimp only
    by_cases full : bindings.length = binderMax
    · rw [if_pos full]
      exact narrow
    · rw [if_neg full]
      intro binder member
      rcases List.mem_append.mp member with there | here
      · exact narrow binder there
      · rw [List.mem_singleton.mp here]
        exact Nat.mod_lt _ (by decide)

theorem bindersAfter_narrow (settings : List Setting) : Narrow (bindersAfter settings).2 :=
  run_invariant Narrow (fun _ member => absurd member List.not_mem_nil)
    (fun _ s narrow => setBinder_narrow narrow s) settings

/-- A longer key is refused by a full table, as by a full map. -/
theorem setBinder_wide (holding : Holding bindings map) (narrow : Narrow bindings) {s : Setting}
    (wide : 2 ^ 32 ≤ s.key.2) (full : map.keys.length = binderMax) :
    (setBinder bindings s).1 = (put binderMax map s).1 ∧
      Holding (setBinder bindings s).2 (put binderMax map s).2 := by
  have absent := wide_absent narrow s.key.1 wide
  have none : lookupBinder bindings s.key.1 s.key.2 = none := Option.map_eq_none_iff.mp absent
  have new : s.key ∉ map := fun member =>
    (getParameter_eq_none).mp absent ((holding.mem_iff s.key).mpr member)
  have size : bindings.length = binderMax := holding.length_eq.trans full
  rw [put_full new full]
  simp only [setBinder, setParameter, none, size, if_true]
  exact ⟨trivial, holding⟩

end Tables

/-- Keys of more than 32 bits come only when there is no room for them: after as
many distinct pairs as the table has binders. -/
def WideComeLate (settings : List Setting) : Prop :=
  ∀ before s after, settings = before ++ s :: after → 2 ^ 32 ≤ s.key.2 →
    binderMax ≤ (before.map Write.key).dedup.length

/-- The table is a finite map over exactly the calls whose keys fit a binder, or
come when no binder is left. -/
theorem binders_finite_map_iff (settings : List Setting) :
    IsFiniteMap settings ↔ WideComeLate settings := by
  constructor
  · intro isMap before s after same wide
    by_contra few
    have member : s.key ∈ (putAll binderMax settings).2 := by
      rw [same]
      exact putAll_mem (Nat.lt_of_not_le few)
    have none : suitRunnerGetParameter (bindersAfter settings).2 s.key.1 s.key.2 = none :=
      wide_absent (bindersAfter_narrow settings) s.key.1 wide
    exact getParameter_eq_none.mp none ((isMap.holding.mem_iff s.key).mpr member)
  · intro late
    have initial : Holding [] (∅ : Table (Nat × Nat) Bytes) :=
      ⟨fun target key => by rw [AList.lookup_empty]; rfl, List.nodup_nil⟩
    obtain ⟨answers, holding⟩ := run_related Holding initial settings
      (fun before s after same holding => by
        by_cases wide : 2 ^ 32 ≤ s.key.2
        · exact setBinder_wide holding (bindersAfter_narrow before) wide
            ((putAll_full_iff before).mpr (late before s after same wide))
        · exact setBinder_holding holding (Nat.lt_of_not_le wide))
    have size : (bindersAfter settings).2.length = (putAll binderMax settings).2.keys.length :=
      holding.length_eq
    refine ⟨answers, holding, ?_⟩
    rw [size]
    exact (putAll_holds settings).bounded

/-- The key 2^32 + 21, whose last 32 bits are those of the URI. -/
def wideUri : Setting := ⟨(0, 2 ^ 32 + 21), [0x61, 0x61], false⟩

/-- It is stored as the URI and cannot be read back under its own key. -/
theorem wide_key_stored_short :
    suitRunnerGetParameter (bindersAfter [wideUri]).2 0 parameterUri = some [0x61, 0x61] ∧
      suitRunnerGetParameter (bindersAfter [wideUri]).2 0 (2 ^ 32 + 21) = none ∧
      ¬ IsFiniteMap [wideUri] := by
  have stored : suitRunnerGetParameter (bindersAfter [wideUri]).2 0 parameterUri =
      some [0x61, 0x61] := by decide
  refine ⟨stored, by decide, fun isMap => ?_⟩
  have uri := isMap.holding.lookups 0 parameterUri
  have absent : (putAll binderMax [wideUri]).2.lookup (0, parameterUri) = none := by decide
  cases (stored.symm.trans uri).trans absent

end TeepDevice.Suit
