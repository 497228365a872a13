import TeepDevice.Suit.Fields

/-! The grammar of the common section and that `suit_parse_common` accepts it. -/
namespace TeepDevice.Suit
open Tcbor

/-- One member of the section: what its value must be and what is stored of it. -/
def CommonValue (label : Nat) (v : Bytes) (c c' : Common) : Prop :=
  (label = Label.dependencies ∧ ∃ maps, ArrayItem v maps ∧ (∀ m ∈ maps, headIs Any.isMap m = true) ∧
    maps.length ≤ dependencyMax ∧ c' = { c with nDependencies := maps.length }) ∨
  (label = Label.components ∧ ∃ items, ArrayItem v items ∧ items.length ≤ componentMax ∧
    c' = { c with components := items.map fun id => ⟨some id⟩ }) ∨
  (label = Label.commonSequence ∧ ∃ b, bstrOf v = some b ∧
    c' = { c with commandSequence := some b })

/-- The members in order; no label twice. -/
def CommonSteps : List Pair → List Nat → Common → Common → Prop
  | [], _, c, c' => c' = c
  | p :: pairs, seen, c, c' => ∃ label mid, labelKey label p.1 = true ∧ label ∉ seen ∧
      CommonValue label p.2 c mid ∧ CommonSteps pairs (label :: seen) mid c'

section Arrays
variable {array : Context} {n : Nat}

theorem readDependency_iff {after : Context} (left : Remaining array n)
    (short : array.r.length < 2 ^ 63) :
    readDependency array = (true, after) ↔ 0 < n ∧ ∃ item, Item item ∧
      headIs Any.isMap item = true ∧ array.r = item ++ after.r ∧
      after = array.advance after.r := by
  unfold readDependency
  constructor
  · intro h
    split at h
    · cases h
    rename_i map next opened
    obtain ⟨some, head, any, read, isMap, fits, same, behind, rfl⟩ := (readMap_iff left).mp opened
    have left₀ := remaining_openContext next fits
    have short₀ : next.r.length < 2 ^ 63 := by
      rw [same, List.length_append] at short
      omega
    split at h
    · cases h
    rename_i map' skipped
    obtain ⟨items, rest, same₁, ended⟩ := (skipAll_iff left₀ short₀).mp skipped
    have left₁ : Remaining map' 0 := by
      rw [ended]
      exact remaining_zero rfl left₀.2
    obtain ⟨-, ends⟩ := (close_iff left₁).mp h
    rw [openContext_r] at same₁
    refine ⟨some, head ++ items, (item_iff).mpr ⟨head, any, items, read, ?_, rfl⟩, ?_, ?_, ?_⟩
    · rw [children_of_isMap isMap]
      exact rest
    · rw [headIs_append read, isMap]
    · rw [same, same₁, ends, List.append_assoc]
    · rw [ends, behind]
      rfl
  · rintro ⟨some, item, isItem, isMap, same, behind⟩
    obtain ⟨head, any, content, read, inner, rfl⟩ := (item_iff).mp isItem
    generalize after.r = t at same behind
    subst behind
    rw [headIs_append read] at isMap
    rw [children_of_isMap isMap] at inner
    rw [List.append_assoc] at same
    have sizes : content.length + t.length < 2 ^ 63 := by
      rw [same] at short
      simp only [List.length_append] at short
      omega
    have fits : any.value + any.value < 2 ^ 64 := by
      have most := inner.length_le
      omega
    have opened := readMap_at left some read isMap fits same
    have left₀ := remaining_openContext (array.advance (content ++ t)) fits
    obtain ⟨map', skipped, ends, left₁⟩ :=
      skipAll_at left₀ (by simpa using sizes) inner rfl
    simp only [opened, skipped, close_at left₁, ends]
    rfl

theorem readDependencies_sound {array' : Context} {k k' : Nat} (left : Remaining array n)
    (short : array.r.length < 2 ^ 63) (within : k ≤ dependencyMax)
    (h : readDependencies array k = (true, array', k')) :
    ∃ maps : List Bytes, maps.length = n ∧ (∀ m ∈ maps, Item m) ∧
      (∀ m ∈ maps, headIs Any.isMap m = true) ∧ array.r = maps.flatten ++ array'.r ∧
      k' = k + maps.length ∧ k' ≤ dependencyMax ∧ Remaining array' 0 := by
  unfold readDependencies at h
  induction n generalizing array k with
  | zero =>
    have ended := left.isEndOfContext_iff.mpr rfl
    rw [Loop.eval_unfold] at h
    simp only [readDependenciesBody, ended, if_true] at h
    cases h
    exact ⟨[], rfl, by simp, by simp, rfl, rfl, within, left⟩
  | succ n ih =>
    rw [Loop.eval_unfold] at h
    by_cases full : k = dependencyMax
    · simp only [readDependenciesBody, left.notEnd, Bool.false_eq_true, if_false, full,
        if_true] at h
      cases h
    cases read : readDependency array with
    | mk ok next =>
      cases ok with
      | false =>
        simp only [readDependenciesBody, left.notEnd, Bool.false_eq_true, if_false, full,
          read] at h
        cases h
      | true =>
        simp only [readDependenciesBody, left.notEnd, Bool.false_eq_true, if_false, full,
          read] at h
        obtain ⟨-, item, isItem, isMap, same, behind⟩ := (readDependency_iff left short).mp read
        have left' : Remaining next n := by
          rw [behind]
          exact left.advance next.r
        have short' : next.r.length < 2 ^ 63 := by
          rw [same, List.length_append] at short
          omega
        have within' : k + 1 ≤ dependencyMax := by omega
        obtain ⟨maps, count, items, areMaps, rest, total, most, ended⟩ :=
          ih left' short' within' h
        refine ⟨item :: maps, by simp [count], by simpa using ⟨isItem, items⟩,
          by simpa using ⟨isMap, areMaps⟩, by rw [same, rest]; simp, ?_, most, ended⟩
        simp only [List.length_cons]
        omega

theorem readDependencies_complete {maps : List Bytes} {trailing : Bytes} {k : Nat}
    (left : Remaining array n) (short : array.r.length < 2 ^ 63) (count : maps.length = n)
    (items : ∀ m ∈ maps, Item m) (areMaps : ∀ m ∈ maps, headIs Any.isMap m = true)
    (within : k + maps.length ≤ dependencyMax) (starts : array.r = maps.flatten ++ trailing) :
    ∃ array', readDependencies array k = (true, array', k + maps.length) ∧ array'.r = trailing ∧
      Remaining array' 0 := by
  unfold readDependencies
  induction maps generalizing array k n with
  | nil =>
    subst count
    have ended := left.isEndOfContext_iff.mpr rfl
    rw [Loop.eval_unfold]
    exact ⟨array, by simp only [readDependenciesBody, ended, if_true]; rfl, starts, left⟩
  | cons m maps ih =>
    subst count
    rw [List.flatten_cons, List.append_assoc] at starts
    simp only [List.length_cons] at within left
    have read : readDependency array = (true, array.advance (maps.flatten ++ trailing)) :=
      (readDependency_iff left short).mpr ⟨Nat.succ_pos _, m, items m List.mem_cons_self,
        areMaps m List.mem_cons_self, starts, rfl⟩
    have short' : (maps.flatten ++ trailing).length < 2 ^ 63 := by
      rw [starts, List.length_append] at short
      omega
    have room : ¬ k = dependencyMax := by omega
    obtain ⟨array', loop, ends, ended⟩ := ih (left.advance (maps.flatten ++ trailing)) short' rfl
      (fun x mem => items x (List.mem_cons_of_mem m mem))
      (fun x mem => areMaps x (List.mem_cons_of_mem m mem))
      (by omega : k + 1 + maps.length ≤ dependencyMax) rfl
    refine ⟨array', ?_, ends, ended⟩
    rw [Loop.eval_unfold]
    simp only [readDependenciesBody, left.notEnd, Bool.false_eq_true, if_false, room, read, loop,
      List.length_cons]
    rw [Nat.add_assoc, Nat.add_comm 1]

theorem readComponents_sound {array' : Context} {cs cs' : List Component}
    (left : Remaining array n) (short : array.r.length < 2 ^ 63)
    (within : cs.length ≤ componentMax) (h : readComponents array cs = (true, array', cs')) :
    ∃ items : List Bytes, items.length = n ∧ (∀ i ∈ items, Item i) ∧
      array.r = items.flatten ++ array'.r ∧ cs' = cs ++ (items.map fun id => ⟨some id⟩) ∧
      cs'.length ≤ componentMax ∧ Remaining array' 0 := by
  unfold readComponents at h
  induction n generalizing array cs with
  | zero =>
    have ended := left.isEndOfContext_iff.mpr rfl
    rw [Loop.eval_unfold] at h
    simp only [readComponentsBody, ended, if_true] at h
    cases h
    exact ⟨[], rfl, by simp, rfl, by simp, within, left⟩
  | succ n ih =>
    rw [Loop.eval_unfold] at h
    by_cases full : cs.length = componentMax
    · simp only [readComponentsBody, left.notEnd, Bool.false_eq_true, if_false, full,
        if_true] at h
      cases h
    cases read : readSubobject array with
    | mk found next =>
      cases found with
      | none =>
        simp only [readComponentsBody, left.notEnd, Bool.false_eq_true, if_false, full, read] at h
        cases h
      | some id =>
        simp only [readComponentsBody, left.notEnd, Bool.false_eq_true, if_false, full, read] at h
        obtain ⟨-, isItem, same, behind⟩ := (readSubobject_iff left short).mp read
        have left' : Remaining next n := by
          rw [behind]
          exact left.advance next.r
        have short' : next.r.length < 2 ^ 63 := by
          rw [same, List.length_append] at short
          omega
        have within' : (cs ++ [Component.mk (some id)]).length ≤ componentMax := by
          simp only [List.length_append, List.length_singleton]
          omega
        obtain ⟨items, count, areItems, rest, stored, most, ended⟩ := ih left' short' within' h
        refine ⟨id :: items, by simp [count], by simpa using ⟨isItem, areItems⟩,
          by rw [same, rest]; simp, ?_, most, ended⟩
        rw [stored]
        simp

theorem readComponents_complete {items : List Bytes} {trailing : Bytes} {cs : List Component}
    (left : Remaining array n) (short : array.r.length < 2 ^ 63) (count : items.length = n)
    (areItems : ∀ i ∈ items, Item i) (within : cs.length + items.length ≤ componentMax)
    (starts : array.r = items.flatten ++ trailing) :
    ∃ array', readComponents array cs = (true, array', cs ++ (items.map fun id => ⟨some id⟩)) ∧
      array'.r = trailing ∧ Remaining array' 0 := by
  unfold readComponents
  induction items generalizing array cs n with
  | nil =>
    subst count
    have ended := left.isEndOfContext_iff.mpr rfl
    rw [Loop.eval_unfold]
    exact ⟨array, by simp [readComponentsBody, ended], starts, left⟩
  | cons id items ih =>
    subst count
    rw [List.flatten_cons, List.append_assoc] at starts
    simp only [List.length_cons] at within left
    have read := readSubobject_at left (Nat.succ_pos _) short (areItems id List.mem_cons_self)
      starts
    have short' : (items.flatten ++ trailing).length < 2 ^ 63 := by
      rw [starts, List.length_append] at short
      omega
    have room : ¬ cs.length = componentMax := by omega
    have within' : (cs ++ [Component.mk (some id)]).length + items.length ≤ componentMax := by
      simp only [List.length_append, List.length_singleton]
      omega
    obtain ⟨array', loop, ends, ended⟩ := ih (left.advance (items.flatten ++ trailing)) short' rfl
      (fun x mem => areItems x (List.mem_cons_of_mem id mem)) within' rfl
    refine ⟨array', ?_, ends, ended⟩
    rw [Loop.eval_unfold]
    simp only [readComponentsBody, left.notEnd, Bool.false_eq_true, if_false, room, read, loop]
    simp

end Arrays

section Fields

/-- The flags of the loop, read off the labels seen so far. -/
structure Seen (seen : List Nat) (st : CommonState) : Prop where
  dependencies : st.dependenciesSeen = true ↔ Label.dependencies ∈ seen
  components : st.componentsSeen = true ↔ Label.components ∈ seen
  commandSequence : st.common.commandSequence.isSome = true ↔ Label.commonSequence ∈ seen
  noDependencies : st.dependenciesSeen = false → st.common.nDependencies = 0
  noComponents : st.componentsSeen = false → st.common.components = []

theorem mem_cons_other {a b : Nat} {seen : List Nat} (other : a ≠ b) :
    a ∈ seen ↔ a ∈ b :: seen := by
  simp [other]

theorem Seen.dependencies_read {seen : List Nat} {st : CommonState} (is : Seen seen st)
    (map : Context) (k : Nat) :
    Seen (Label.dependencies :: seen) { st with
      map := map, common := { st.common with nDependencies := k }, dependenciesSeen := true } where
  dependencies := by simp
  components := is.components.trans (mem_cons_other (by decide))
  commandSequence := is.commandSequence.trans (mem_cons_other (by decide))
  noDependencies := by simp
  noComponents := is.noComponents

theorem Seen.components_read {seen : List Nat} {st : CommonState} (is : Seen seen st)
    (map : Context) (cs : List Component) :
    Seen (Label.components :: seen) { st with
      map := map, common := { st.common with components := cs }, componentsSeen := true } where
  dependencies := is.dependencies.trans (mem_cons_other (by decide))
  components := by simp
  commandSequence := is.commandSequence.trans (mem_cons_other (by decide))
  noDependencies := is.noDependencies
  noComponents := by simp

theorem Seen.commandSequence_read {seen : List Nat} {st : CommonState} (is : Seen seen st)
    (map : Context) (b : Bytes) :
    Seen (Label.commonSequence :: seen) { st with
      map := map, common := { st.common with commandSequence := some b } } where
  dependencies := is.dependencies.trans (mem_cons_other (by decide))
  components := is.components.trans (mem_cons_other (by decide))
  commandSequence := by simp
  noDependencies := is.noDependencies
  noComponents := is.noComponents

/-- What a field took of the map, and what it stored. -/
structure FieldRead (key n : Nat) (seen : List Nat) (v : Bytes) (st st' : CommonState) : Prop where
  value : CommonValue key v st.common st'.common
  took : st.map.r = v ++ st'.map.r
  left : Remaining st'.map n
  seen : Seen (key :: seen) st'

theorem openArray_sound {ctx array after : Context} {n : Nat} (left : Remaining ctx (n + 1))
    (short : ctx.r.length < 2 ^ 63) (opened : readArray ctx = (some array, after)) :
    ∃ head any, Head head any ∧ any.isArray = true ∧ ctx.r = head ++ array.r ∧
      array.r.length < 2 ^ 63 ∧ Remaining array any.value ∧
      after = ctx.advance after.r := by
  obtain ⟨-, head, any, read, isArray, same, behind, rfl⟩ := (readArray_iff left).mp opened
  refine ⟨head, any, read, isArray, same, ?_, remaining_openContext after read.value_lt, behind⟩
  rw [same, List.length_append] at short
  rw [openContext_r]
  omega

theorem dependencies_sound {n : Nat} {st st' : CommonState} {seen : List Nat}
    (left : Remaining st.map (n + 1)) (short : st.map.r.length < 2 ^ 63) (is : Seen seen st)
    (h : parseCommonField Label.dependencies st = (true, st')) :
    Label.dependencies ∉ seen ∧ ∃ v, FieldRead Label.dependencies n seen v st st' := by
  rw [parseCommonField, if_pos rfl] at h
  split at h
  · cases h
  rename_i fresh
  split at h
  · cases h
  rename_i array map opened
  obtain ⟨head, any, read, isArray, same, short₀, left₀, behind⟩ :=
    openArray_sound left short opened
  split at h
  · cases h
  rename_i array' k loop
  rw [is.noDependencies (Bool.eq_false_of_not_eq_true fresh)] at loop
  obtain ⟨maps, count, items, areMaps, rest, total, most, ended⟩ :=
    readDependencies_sound left₀ short₀ (Nat.zero_le _) loop
  rw [close_at ended] at h
  cases h
  refine ⟨fun mem => fresh (is.dependencies.mpr mem), head ++ maps.flatten, ?_, ?_, ?_, ?_⟩
  · exact .inl ⟨rfl, maps, ⟨head, any, read, isArray, count.symm, items, rfl⟩, areMaps, by omega,
      by rw [total, Nat.zero_add]⟩
  · rw [same, rest, List.append_assoc]
  · rw [behind]
    exact left.advance _
  · exact is.dependencies_read _ _

theorem components_sound {n : Nat} {st st' : CommonState} {seen : List Nat}
    (left : Remaining st.map (n + 1)) (short : st.map.r.length < 2 ^ 63) (is : Seen seen st)
    (h : parseCommonField Label.components st = (true, st')) :
    Label.components ∉ seen ∧ ∃ v, FieldRead Label.components n seen v st st' := by
  rw [parseCommonField, if_neg (by decide), if_pos rfl] at h
  split at h
  · cases h
  rename_i fresh
  split at h
  · cases h
  rename_i array map opened
  obtain ⟨head, any, read, isArray, same, short₀, left₀, behind⟩ :=
    openArray_sound left short opened
  split at h
  · cases h
  rename_i array' cs loop
  rw [is.noComponents (Bool.eq_false_of_not_eq_true fresh)] at loop
  obtain ⟨items, count, areItems, rest, stored, most, ended⟩ :=
    readComponents_sound left₀ short₀ (Nat.zero_le _) loop
  rw [close_at ended] at h
  cases h
  rw [List.nil_append] at stored
  have few : items.length ≤ componentMax := by simpa [stored] using most
  refine ⟨fun mem => fresh (is.components.mpr mem), head ++ items.flatten, ?_, ?_, ?_, ?_⟩
  · exact .inr (.inl ⟨rfl, items, ⟨head, any, read, isArray, count.symm, areItems, rfl⟩, few,
      by rw [stored]⟩)
  · rw [same, rest, List.append_assoc]
  · rw [behind]
    exact left.advance _
  · exact is.components_read _ _

theorem commandSequence_sound {n : Nat} {st st' : CommonState} {seen : List Nat}
    (left : Remaining st.map (n + 1)) (is : Seen seen st)
    (h : parseCommonField Label.commonSequence st = (true, st')) :
    Label.commonSequence ∉ seen ∧ ∃ v, FieldRead Label.commonSequence n seen v st st' := by
  rw [parseCommonField, if_neg (by decide), if_neg (by decide), if_pos rfl] at h
  split at h
  · cases h
  rename_i fresh
  split at h
  · cases h
  rename_i sequence map read
  cases h
  obtain ⟨-, item, bstr, same, behind⟩ := (readBstr_bstrOf left).mp read
  refine ⟨fun mem => fresh (is.commandSequence.mpr mem), item, ?_, same, ?_, ?_⟩
  · exact .inr (.inr ⟨rfl, sequence, bstr, rfl⟩)
  · rw [behind]
    exact left.advance _
  · exact is.commandSequence_read _ _

theorem parseCommonField_known {key : Nat} {st st' : CommonState}
    (h : parseCommonField key st = (true, st')) :
    key = Label.dependencies ∨ key = Label.components ∨ key = Label.commonSequence := by
  by_contra unknown
  rw [not_or, not_or] at unknown
  rw [parseCommonField, if_neg unknown.1, if_neg unknown.2.1, if_neg unknown.2.2] at h
  cases h

theorem parseCommonField_sound {key n : Nat} {st st' : CommonState} {seen : List Nat}
    (left : Remaining st.map (n + 1)) (short : st.map.r.length < 2 ^ 63) (is : Seen seen st)
    (h : parseCommonField key st = (true, st')) :
    key ∉ seen ∧ ∃ v, FieldRead key n seen v st st' := by
  rcases parseCommonField_known h with rfl | rfl | rfl
  · exact dependencies_sound left short is h
  · exact components_sound left short is h
  · exact commandSequence_sound left is h

theorem openArray_complete {ctx : Context} {n : Nat} {v trailing : Bytes} {elements : List Bytes}
    (left : Remaining ctx (n + 1)) (short : ctx.r.length < 2 ^ 63) (array : ArrayItem v elements)
    (starts : ctx.r = v ++ trailing) :
    ∃ inner, readArray ctx = (some inner, ctx.advance (elements.flatten ++ trailing)) ∧
      Remaining inner elements.length ∧ inner.r = elements.flatten ++ trailing ∧
      inner.r.length < 2 ^ 63 := by
  obtain ⟨head, any, read, isArray, count, -, rfl⟩ := array
  rw [List.append_assoc] at starts
  refine ⟨_, readArray_at left (Nat.succ_pos n) read isArray starts, ?_, rfl, ?_⟩
  · rw [← count]
    exact remaining_openContext _ read.value_lt
  · rw [starts, List.length_append] at short
    exact Nat.lt_of_le_of_lt (Nat.le_add_left _ _) short

theorem dependencies_complete {n : Nat} {st : CommonState} {seen : List Nat}
    {v trailing : Bytes} {maps : List Bytes} (left : Remaining st.map (n + 1))
    (short : st.map.r.length < 2 ^ 63) (is : Seen seen st) (fresh : Label.dependencies ∉ seen)
    (array : ArrayItem v maps) (areMaps : ∀ m ∈ maps, headIs Any.isMap m = true)
    (few : maps.length ≤ dependencyMax) (starts : st.map.r = v ++ trailing) :
    ∃ st', parseCommonField Label.dependencies st = (true, st') ∧
      st'.common = { st.common with nDependencies := maps.length } ∧ st'.map.r = trailing ∧
      Remaining st'.map n ∧ Seen (Label.dependencies :: seen) st' := by
  have unseen : st.dependenciesSeen = false := by
    rw [← Bool.not_eq_true, is.dependencies]
    exact fresh
  obtain ⟨inner, opened, left₀, starts₀, short₀⟩ := openArray_complete left short array starts
  obtain ⟨-, -, -, -, -, items, -⟩ := array
  obtain ⟨array', loop, ends, ended⟩ := readDependencies_complete left₀ short₀ rfl items areMaps
    (by omega : 0 + maps.length ≤ dependencyMax) starts₀
  have parsed : parseCommonField Label.dependencies st = (true, { st with
      map := { st.map.advance (maps.flatten ++ trailing) with r := array'.r }
      common := { st.common with nDependencies := 0 + maps.length }
      dependenciesSeen := true }) := by
    simp only [parseCommonField, if_true, unseen, Bool.false_eq_true, if_false, opened,
      is.noDependencies unseen, loop, close_at ended]
  refine ⟨_, parsed, by simp, ends, left.advance array'.r, ?_⟩
  exact is.dependencies_read _ _

theorem components_complete {n : Nat} {st : CommonState} {seen : List Nat}
    {v trailing : Bytes} {items : List Bytes} (left : Remaining st.map (n + 1))
    (short : st.map.r.length < 2 ^ 63) (is : Seen seen st) (fresh : Label.components ∉ seen)
    (array : ArrayItem v items) (few : items.length ≤ componentMax)
    (starts : st.map.r = v ++ trailing) :
    ∃ st', parseCommonField Label.components st = (true, st') ∧
      st'.common = { st.common with components := items.map fun id => ⟨some id⟩ } ∧
      st'.map.r = trailing ∧ Remaining st'.map n ∧ Seen (Label.components :: seen) st' := by
  have unseen : st.componentsSeen = false := by
    rw [← Bool.not_eq_true, is.components]
    exact fresh
  obtain ⟨inner, opened, left₀, starts₀, short₀⟩ := openArray_complete left short array starts
  obtain ⟨-, -, -, -, -, areItems, -⟩ := array
  obtain ⟨array', loop, ends, ended⟩ := readComponents_complete left₀ short₀ rfl areItems
    (by simpa using few : ([] : List Component).length + items.length ≤ componentMax) starts₀
  have parsed : parseCommonField Label.components st = (true, { st with
      map := { st.map.advance (items.flatten ++ trailing) with r := array'.r }
      common := { st.common with components := [] ++ items.map fun id => ⟨some id⟩ }
      componentsSeen := true }) := by
    have other : Label.components ≠ Label.dependencies := by decide
    simp only [parseCommonField, other, if_true, unseen, Bool.false_eq_true, if_false, opened,
      is.noComponents unseen, loop, close_at ended]
  refine ⟨_, parsed, by simp, ends, left.advance array'.r, ?_⟩
  exact is.components_read _ _

theorem commandSequence_complete {n : Nat} {st : CommonState} {seen : List Nat}
    {v b trailing : Bytes} (left : Remaining st.map (n + 1)) (is : Seen seen st)
    (fresh : Label.commonSequence ∉ seen) (bstr : bstrOf v = some b)
    (starts : st.map.r = v ++ trailing) :
    ∃ st', parseCommonField Label.commonSequence st = (true, st') ∧
      st'.common = { st.common with commandSequence := some b } ∧ st'.map.r = trailing ∧
      Remaining st'.map n ∧ Seen (Label.commonSequence :: seen) st' := by
  have unseen : ¬ st.common.commandSequence.isSome = true := by
    rw [is.commandSequence]
    exact fresh
  have read := readBstr_at left (Nat.succ_pos n) bstr starts
  have parsed : parseCommonField Label.commonSequence st = (true, { st with
      map := st.map.advance trailing
      common := { st.common with commandSequence := some b } }) := by
    have other : Label.commonSequence ≠ Label.dependencies := by decide
    have other' : Label.commonSequence ≠ Label.components := by decide
    simp only [parseCommonField, other, other', if_true, unseen, Bool.false_eq_true, if_false,
      read]
  refine ⟨_, parsed, rfl, rfl, left.advance trailing, ?_⟩
  exact is.commandSequence_read _ _

theorem parseCommonField_complete {key n : Nat} {st : CommonState} {seen : List Nat}
    {v trailing : Bytes} {c : Common} (left : Remaining st.map (n + 1))
    (short : st.map.r.length < 2 ^ 63) (is : Seen seen st) (fresh : key ∉ seen)
    (value : CommonValue key v st.common c) (starts : st.map.r = v ++ trailing) :
    ∃ st', parseCommonField key st = (true, st') ∧ st'.common = c ∧ st'.map.r = trailing ∧
      Remaining st'.map n ∧ Seen (key :: seen) st' := by
  rcases value with ⟨rfl, maps, array, areMaps, few, rfl⟩ | ⟨rfl, items, array, few, rfl⟩ |
    ⟨rfl, b, bstr, rfl⟩
  · exact dependencies_complete left short is fresh array areMaps few starts
  · exact components_complete left short is fresh array few starts
  · exact commandSequence_complete left is fresh bstr starts

end Fields

section Loop

theorem ArrayItem.item {v : Bytes} {elements : List Bytes} (array : ArrayItem v elements) :
    Item v := by
  obtain ⟨head, any, read, isArray, count, items, rfl⟩ := array
  refine (item_iff).mpr ⟨head, any, elements.flatten, read, ⟨elements, ?_, items, rfl⟩, rfl⟩
  rw [children_of_isArray isArray, count]

theorem CommonValue.item {label : Nat} {v : Bytes} {c c' : Common}
    (value : CommonValue label v c c') : Item v := by
  rcases value with ⟨-, maps, array, -⟩ | ⟨-, items, array, -⟩ | ⟨-, b, bstr, -⟩
  · exact ArrayItem.item array
  · exact ArrayItem.item array
  · exact bstrOf_item bstr

theorem labelKey_head {label : Nat} {head : Bytes} {any : Any} (read : Head head any) :
    labelKey label head = (any.isUint && any.value == label) :=
  read.headIs

/-- A key with a label is one head. -/
theorem labelKey_item {label : Nat} {key : Bytes} (item : Item key)
    (h : labelKey label key = true) :
    ∃ any, Head key any ∧ any.isUint = true ∧ any.value = label := by
  obtain ⟨head, any, content, read, inner, rfl⟩ := (item_iff).mp item
  rw [labelKey, headIs_append read, Bool.and_eq_true, beq_iff_eq] at h
  rw [children_of_isUint h.1, sequence_zero] at inner
  subst inner
  rw [List.append_nil]
  exact ⟨any, read, h.1, h.2⟩

theorem labelKey_unique {label label' : Nat} {key : Bytes} (h : labelKey label key = true)
    (h' : labelKey label' key = true) : label = label' := by
  unfold labelKey headIs at h h'
  split at h
  · rename_i any rest read
    simp only [read, Bool.and_eq_true, beq_iff_eq] at h h'
    exact h.2.symm.trans h'.2
  · cases h

theorem parseCommon_sound {n : Nat} {st st' : CommonState} {seen : List Nat}
    (left : Remaining st.map (2 * n)) (short : st.map.r.length < 2 ^ 63) (is : Seen seen st)
    (h : Loop.eval parseCommonBody _ parseCommonBody_decreasing st = (true, st')) :
    ∃ pairs, pairs.length = n ∧ PairItems pairs ∧ CommonSteps pairs seen st.common st'.common ∧
      st.map.r = pairBytes pairs ++ st'.map.r ∧ Remaining st'.map 0 := by
  induction n generalizing st seen with
  | zero =>
    have ended := left.isEndOfContext_iff.mpr rfl
    rw [Loop.eval_unfold] at h
    simp only [parseCommonBody, ended, if_true] at h
    cases h
    exact ⟨[], rfl, by simp [PairItems], rfl, rfl, left⟩
  | succ n ih =>
    have left' : Remaining st.map (2 * n + 1 + 1) := left
    rw [Loop.eval_unfold] at h
    cases pass : parseCommonBody st with
    | inr out =>
      simp only [pass] at h
      simp only [parseCommonBody, left'.notEnd, Bool.false_eq_true, if_false] at pass
      repeat' split at pass
      all_goals cases pass
      all_goals cases h
    | inl next =>
      simp only [pass] at h
      simp only [parseCommonBody, left'.notEnd, Bool.false_eq_true, if_false] at pass
      split at pass
      · cases pass
      rename_i key map readKey
      obtain ⟨-, head, read, same, behind⟩ := (readAny_iff left').mp readKey
      split at pass
      · cases pass
      rename_i tag
      simp only [tag] at behind
      split at pass
      · rename_i uint
        split at pass
        · rename_i next' field
          cases pass
          have left₁ : Remaining map (2 * n + 1) := by
            rw [behind]
            exact left'.advance map.r
          have short₁ : map.r.length < 2 ^ 63 := by
            rw [same, List.length_append] at short
            omega
          have is' : Seen seen { st with map := map } :=
            ⟨is.dependencies, is.components, is.commandSequence, is.noDependencies,
              is.noComponents⟩
          obtain ⟨fresh, v, value, rest, left₂, seen'⟩ :=
            parseCommonField_sound left₁ short₁ is' field
          simp only at rest value
          have short₂ : next.map.r.length < 2 ^ 63 := by
            rw [rest, List.length_append] at short₁
            omega
          obtain ⟨pairs, count, items, steps, body, ended⟩ := ih left₂ short₂ seen' h
          refine ⟨(head, v) :: pairs, by simp [count], ?_, ?_, ?_, ended⟩
          · intro p mem
            rcases List.mem_cons.mp mem with rfl | mem
            · exact ⟨read.item (children_of_isUint uint), value.item⟩
            · exact items p mem
          · refine ⟨key.value, next.common, ?_, fresh, value, steps⟩
            rw [labelKey_head read]
            simp [uint]
          · rw [same, rest, body]
            simp
        · cases pass
      · cases pass

theorem parseCommon_complete {pairs : List Pair} {st : CommonState} {seen : List Nat}
    {trailing : Bytes} {c : Common} (left : Remaining st.map (2 * pairs.length))
    (short : st.map.r.length < 2 ^ 63) (is : Seen seen st) (items : PairItems pairs)
    (steps : CommonSteps pairs seen st.common c) (starts : st.map.r = pairBytes pairs ++ trailing) :
    ∃ st', Loop.eval parseCommonBody _ parseCommonBody_decreasing st = (true, st') ∧
      st'.common = c ∧ Remaining st'.map 0 := by
  induction pairs generalizing st seen with
  | nil =>
    have ended := left.isEndOfContext_iff.mpr rfl
    refine ⟨st, ?_, steps.symm, left⟩
    rw [Loop.eval_unfold]
    simp only [parseCommonBody, ended, if_true]
  | cons p pairs ih =>
    obtain ⟨label, mid, isLabel, fresh, value, steps⟩ := steps
    obtain ⟨any, read, uint, rfl⟩ := labelKey_item items.head.1 isLabel
    have left' : Remaining st.map (2 * pairs.length + 1 + 1) := left
    rw [pairBytes_cons, List.append_assoc, List.append_assoc] at starts
    have untagged := isTag_of_isUint uint
    have readKey : readAny st.map =
        (some any, st.map.advance (p.2 ++ (pairBytes pairs ++ trailing))) :=
      (readAny_iff left').mpr ⟨Nat.succ_pos _, p.1, read, starts, by simp [untagged]⟩
    have left₁ := left'.advance (p.2 ++ (pairBytes pairs ++ trailing))
    have short₁ : (p.2 ++ (pairBytes pairs ++ trailing)).length < 2 ^ 63 := by
      rw [starts, List.length_append] at short
      omega
    have is' : Seen seen { st with map := st.map.advance (p.2 ++ (pairBytes pairs ++ trailing)) } :=
      ⟨is.dependencies, is.components, is.commandSequence, is.noDependencies, is.noComponents⟩
    obtain ⟨next, field, rfl, ends, left₂, seen'⟩ :=
      parseCommonField_complete left₁ short₁ is' fresh value rfl
    have short₂ : next.map.r.length < 2 ^ 63 := by
      rw [ends]
      rw [List.length_append] at short₁
      omega
    obtain ⟨st', loop, done, ended⟩ := ih left₂ short₂ seen' items.tail steps ends
    refine ⟨st', ?_, done, ended⟩
    rw [Loop.eval_unfold]
    simp only [parseCommonBody, left'.notEnd, Bool.false_eq_true, if_false, readKey, untagged, uint,
      if_true, field, loop]

theorem suitParseCommon_iff {content : Bytes} {c : Common} (short : content.length < 2 ^ 63) :
    suitParseCommon (some content) = (true, c) ↔
      ∃ pairs, StartsWithMap content pairs ∧ CommonSteps pairs [] ⟨0, [], none⟩ c := by
  have left := remaining_toplevel (some content)
  have fresh (map : Context) : Seen [] ⟨map, ⟨0, [], none⟩, false, false⟩ :=
    ⟨by simp, by simp, by simp, by simp, by simp⟩
  unfold suitParseCommon
  constructor
  · intro h
    simp only at h
    split at h
    · cases h
    rename_i map ctx opened
    obtain ⟨-, head, any, read, isMap, fits, same, -, rfl⟩ := (readMap_iff left).mp opened
    have short₀ : ctx.r.length < 2 ^ 63 := by
      have taken : content = head ++ ctx.r := same
      rw [taken, List.length_append] at short
      omega
    have left₀ : Remaining (openContext ctx (any.value + any.value)) (2 * any.value) := by
      rw [Nat.two_mul]
      exact remaining_openContext ctx fits
    split at h
    · cases h
    rename_i st loop
    obtain ⟨pairs, count, items, steps, body, -⟩ := parseCommon_sound left₀ short₀ (fresh _) loop
    obtain ⟨-, rfl⟩ := Prod.mk.inj h
    refine ⟨pairs, ⟨head, any, st.map.r, read, isMap, count.symm, items, ?_⟩, steps⟩
    rw [← body]
    exact same
  · rintro ⟨pairs, ⟨head, any, trailing, read, isMap, count, items, rfl⟩, steps⟩
    have short₀ : (pairBytes pairs ++ trailing).length < 2 ^ 63 := by
      rw [List.length_append] at short
      omega
    have fits : any.value + any.value < 2 ^ 64 := by
      have most := (pairBytes_sequence items).length_le
      rw [List.length_append] at short₀
      omega
    have opened := readMap_at left Nat.one_pos read isMap fits rfl
    have left₀ : Remaining (openContext
        ((toplevel (some (head ++ (pairBytes pairs ++ trailing)))).advance
          (pairBytes pairs ++ trailing)) (any.value + any.value)) (2 * pairs.length) := by
      rw [← count, Nat.two_mul]
      exact remaining_openContext _ fits
    have accepted : ∃ st, Loop.eval parseCommonBody _ parseCommonBody_decreasing
        ⟨openContext ((toplevel (some (head ++ (pairBytes pairs ++ trailing)))).advance
          (pairBytes pairs ++ trailing)) (any.value + any.value), ⟨0, [], none⟩, false, false⟩ =
            (true, st) ∧ st.common = c ∧ Remaining st.map 0 :=
      parseCommon_complete left₀ short₀ (fresh _) items steps rfl
    obtain ⟨st, loop, rfl, ended⟩ := accepted
    simp only [opened, loop, close_at ended]

end Loop

section Declarative

def commonLabels : List Nat := [Label.dependencies, Label.components, Label.commonSequence]

/-- The field of a label holds this value, which has the form the label asks for. -/
def StoredAt (label : Nat) (v : Bytes) (c : Common) : Prop :=
  (label = Label.dependencies → ∃ maps, ArrayItem v maps ∧
    (∀ m ∈ maps, headIs Any.isMap m = true) ∧ maps.length ≤ dependencyMax ∧
    c.nDependencies = maps.length) ∧
  (label = Label.components → ∃ items, ArrayItem v items ∧ items.length ≤ componentMax ∧
    c.components = items.map fun id => ⟨some id⟩) ∧
  (label = Label.commonSequence → ∃ b, bstrOf v = some b ∧ c.commandSequence = some b)

/-- Two results with the same field of a label. -/
def SameAt (label : Nat) (c c' : Common) : Prop :=
  (label = Label.dependencies → c'.nDependencies = c.nDependencies) ∧
  (label = Label.components → c'.components = c.components) ∧
  (label = Label.commonSequence → c'.commandSequence = c.commandSequence)

/-- The section of these pairs, read into `c`: only known labels, none twice, and
every field from the pair of its label, or empty. -/
structure CommonPairs (pairs : List Pair) (c : Common) : Prop where
  known : ∀ p ∈ pairs, ∃ label ∈ commonLabels, labelKey label p.1 = true
  once : pairs.Pairwise fun p q => ∀ label, labelKey label p.1 = true → labelKey label q.1 = false
  stored : ∀ label ∈ commonLabels,
    (∃ v, lastValue (labelKey label) pairs = some v ∧ StoredAt label v c) ∨
      (lastValue (labelKey label) pairs = none ∧ SameAt label ⟨0, [], none⟩ c)

theorem SameAt.trans {label : Nat} {c c' c'' : Common} (first : SameAt label c c')
    (second : SameAt label c' c'') : SameAt label c c'' :=
  ⟨fun h => (second.1 h).trans (first.1 h), fun h => (second.2.1 h).trans (first.2.1 h),
    fun h => (second.2.2 h).trans (first.2.2 h)⟩

theorem SameAt.symm {label : Nat} {c c' : Common} (same : SameAt label c c') :
    SameAt label c' c :=
  ⟨fun h => (same.1 h).symm, fun h => (same.2.1 h).symm, fun h => (same.2.2 h).symm⟩

theorem StoredAt.of_same {label : Nat} {v : Bytes} {c c' : Common} (stored : StoredAt label v c)
    (same : SameAt label c c') : StoredAt label v c' := by
  refine ⟨?_, ?_, ?_⟩
  · intro h
    obtain ⟨maps, array, areMaps, few, n⟩ := stored.1 h
    exact ⟨maps, array, areMaps, few, (same.1 h).trans n⟩
  · intro h
    obtain ⟨items, array, few, components⟩ := stored.2.1 h
    exact ⟨items, array, few, (same.2.1 h).trans components⟩
  · intro h
    obtain ⟨b, bstr, sequence⟩ := stored.2.2 h
    exact ⟨b, bstr, (same.2.2 h).trans sequence⟩

theorem eq_of_sameAt {c c' : Common} (same : ∀ label ∈ commonLabels, SameAt label c c') :
    c' = c := by
  have dependencies := (same Label.dependencies (by decide)).1 rfl
  have components := (same Label.components (by decide)).2.1 rfl
  have sequence := (same Label.commonSequence (by decide)).2.2 rfl
  cases c
  cases c'
  simp only at dependencies components sequence
  simp only [dependencies, components, sequence]

theorem sameAt_refl (label : Nat) (c : Common) : SameAt label c c :=
  ⟨fun _ => rfl, fun _ => rfl, fun _ => rfl⟩

theorem commonValue_iff {label : Nat} {v : Bytes} {c c' : Common} :
    CommonValue label v c c' ↔ label ∈ commonLabels ∧ StoredAt label v c' ∧
      ∀ other ∈ commonLabels, other ≠ label → SameAt other c c' := by
  constructor
  · rintro (⟨rfl, maps, array, areMaps, few, rfl⟩ | ⟨rfl, items, array, few, rfl⟩ |
      ⟨rfl, b, bstr, rfl⟩)
    · exact ⟨by decide, ⟨fun _ => ⟨maps, array, areMaps, few, rfl⟩,
        fun h => absurd h (by decide), fun h => absurd h (by decide)⟩,
        fun other _ ne => ⟨fun h => absurd h ne, fun _ => rfl, fun _ => rfl⟩⟩
    · exact ⟨by decide, ⟨fun h => absurd h (by decide), fun _ => ⟨items, array, few, rfl⟩,
        fun h => absurd h (by decide)⟩,
        fun other _ ne => ⟨fun _ => rfl, fun h => absurd h ne, fun _ => rfl⟩⟩
    · exact ⟨by decide, ⟨fun h => absurd h (by decide), fun h => absurd h (by decide),
        fun _ => ⟨b, bstr, rfl⟩⟩,
        fun other _ ne => ⟨fun _ => rfl, fun _ => rfl, fun h => absurd h ne⟩⟩
  · rintro ⟨known, stored, others⟩
    simp only [commonLabels, List.mem_cons, List.not_mem_nil, or_false] at known
    rcases known with rfl | rfl | rfl
    · obtain ⟨maps, array, areMaps, few, n⟩ := stored.1 rfl
      refine .inl ⟨rfl, maps, array, areMaps, few, ?_⟩
      have components := (others Label.components (by decide) (by decide)).2.1 rfl
      have sequence := (others Label.commonSequence (by decide) (by decide)).2.2 rfl
      rw [← n, ← components, ← sequence]
    · obtain ⟨items, array, few, components⟩ := stored.2.1 rfl
      refine .inr (.inl ⟨rfl, items, array, few, ?_⟩)
      have dependencies := (others Label.dependencies (by decide) (by decide)).1 rfl
      have sequence := (others Label.commonSequence (by decide) (by decide)).2.2 rfl
      rw [← components, ← dependencies, ← sequence]
    · obtain ⟨b, bstr, sequence⟩ := stored.2.2 rfl
      refine .inr (.inr ⟨rfl, b, bstr, ?_⟩)
      have dependencies := (others Label.dependencies (by decide) (by decide)).1 rfl
      have components := (others Label.components (by decide) (by decide)).2.1 rfl
      rw [← sequence, ← dependencies, ← components]

/-- `c` with the field of one label taken from `c'`. -/
def mix (label : Nat) (c c' : Common) : Common where
  nDependencies := if label = Label.dependencies then c'.nDependencies else c.nDependencies
  components := if label = Label.components then c'.components else c.components
  commandSequence := if label = Label.commonSequence then c'.commandSequence else c.commandSequence

theorem mix_self (label : Nat) (c c' : Common) : SameAt label (mix label c c') c' :=
  ⟨fun h => by simp [mix, h], fun h => by simp [mix, h], fun h => by simp [mix, h]⟩

theorem mix_other {label other : Nat} (c c' : Common) (ne : other ≠ label) :
    SameAt other c (mix label c c') := by
  refine ⟨?_, ?_, ?_⟩
  all_goals
    rintro rfl
    simp [mix, ne.symm]

/-- The pairs that are left behind the labels seen, read from `c` into `c'`. -/
structure CommonRest (pairs : List Pair) (seen : List Nat) (c c' : Common) : Prop where
  known : ∀ p ∈ pairs, ∃ label ∈ commonLabels, labelKey label p.1 = true
  once : pairs.Pairwise fun p q => ∀ label, labelKey label p.1 = true → labelKey label q.1 = false
  unseen : ∀ p ∈ pairs, ∀ label ∈ seen, labelKey label p.1 = false
  stored : ∀ label ∈ commonLabels,
    (∃ v, lastValue (labelKey label) pairs = some v ∧ StoredAt label v c') ∨
      (lastValue (labelKey label) pairs = none ∧ SameAt label c c')

theorem commonRest_nil {seen : List Nat} {c c' : Common} : CommonRest [] seen c c' ↔ c' = c := by
  constructor
  · intro rest
    apply eq_of_sameAt
    intro label known
    rcases rest.stored label known with ⟨v, absent, -⟩ | ⟨-, same⟩
    · cases absent
    · exact same
  · rintro rfl
    exact ⟨by simp, .nil, by simp, fun label _ => .inr ⟨rfl, sameAt_refl label c'⟩⟩

theorem labelKey_other {label other : Nat} {key : Bytes} (isLabel : labelKey label key = true)
    (different : other ≠ label) : labelKey other key = false := by
  rw [← Bool.not_eq_true]
  exact fun isOther => different (labelKey_unique isOther isLabel)

theorem CommonRest.cons {p : Pair} {pairs : List Pair} {seen : List Nat} {label : Nat}
    {c mid c' : Common} (isLabel : labelKey label p.1 = true) (fresh : label ∉ seen)
    (value : CommonValue label p.2 c mid) (rest : CommonRest pairs (label :: seen) mid c') :
    CommonRest (p :: pairs) seen c c' := by
  obtain ⟨isKnown, here, others⟩ := (commonValue_iff).mp value
  refine ⟨?_, ?_, ?_, ?_⟩
  · intro q mem
    rcases List.mem_cons.mp mem with rfl | mem
    · exact ⟨label, isKnown, isLabel⟩
    · exact rest.known q mem
  · refine List.pairwise_cons.mpr ⟨?_, rest.once⟩
    intro q mem other isOther
    rw [labelKey_unique isOther isLabel]
    exact rest.unseen q mem label List.mem_cons_self
  · intro q mem other old
    rcases List.mem_cons.mp mem with rfl | mem
    · exact labelKey_other isLabel fun same => fresh (same ▸ old)
    · exact rest.unseen q mem other (List.mem_cons_of_mem label old)
  · intro other isOther
    simp only [lastValue]
    rcases rest.stored other isOther with ⟨v, last, at_⟩ | ⟨absent, same⟩
    · exact .inl ⟨v, by simp [last], at_⟩
    · by_cases is : other = label
      · subst is
        exact .inl ⟨p.2, by simp [absent, isLabel], here.of_same same⟩
      · exact .inr ⟨by simp [absent, labelKey_other isLabel is],
          (others other isOther is).trans same⟩

/-- The first pair is read on its own: its field is the one the whole ends with. -/
theorem CommonRest.uncons {p : Pair} {pairs : List Pair} {seen : List Nat} {c c' : Common}
    (all : CommonRest (p :: pairs) seen c c') :
    ∃ label mid, labelKey label p.1 = true ∧ label ∉ seen ∧ CommonValue label p.2 c mid ∧
      CommonRest pairs (label :: seen) mid c' := by
  obtain ⟨label, isKnown, isLabel⟩ := all.known p List.mem_cons_self
  obtain ⟨different, once⟩ := List.pairwise_cons.mp all.once
  have later : ∀ q ∈ pairs, labelKey label q.1 = false :=
    fun q mem => different q mem label isLabel
  have absent := (lastValue_eq_none_iff).mpr later
  have here : StoredAt label p.2 c' := by
    rcases all.stored label isKnown with ⟨v, last, at_⟩ | ⟨none, -⟩
    · simp only [lastValue, absent, isLabel, if_true, Option.none_or] at last
      cases last
      exact at_
    · simp only [lastValue, absent, isLabel, if_true, Option.none_or] at none
      cases none
  refine ⟨label, mix label c c', isLabel, ?_, ?_, ?_, once, ?_, ?_⟩
  · intro old
    rw [all.unseen p List.mem_cons_self label old] at isLabel
    cases isLabel
  · exact (commonValue_iff).mpr ⟨isKnown, here.of_same (mix_self label c c').symm,
      fun other _ ne => mix_other c c' ne⟩
  · exact fun q mem => all.known q (List.mem_cons_of_mem p mem)
  · intro q mem other old
    rcases List.mem_cons.mp old with rfl | old
    · exact later q mem
    · exact all.unseen q (List.mem_cons_of_mem p mem) other old
  · intro other isOther
    by_cases is : other = label
    · subst is
      exact .inr ⟨absent, mix_self other c c'⟩
    · have notKey := labelKey_other isLabel is
      rcases all.stored other isOther with ⟨v, last, at_⟩ | ⟨none, same⟩
      · exact .inl ⟨v, by simpa [lastValue, notKey] using last, at_⟩
      · exact .inr ⟨by simpa [lastValue, notKey] using none, (mix_other c c' is).symm.trans same⟩

theorem commonSteps_iff {pairs : List Pair} {seen : List Nat} {c c' : Common} :
    CommonSteps pairs seen c c' ↔ CommonRest pairs seen c c' := by
  induction pairs generalizing seen c with
  | nil => exact (commonRest_nil).symm
  | cons p pairs ih =>
    constructor
    · rintro ⟨label, mid, isLabel, fresh, value, steps⟩
      exact .cons isLabel fresh value (ih.mp steps)
    · intro all
      obtain ⟨label, mid, isLabel, fresh, value, rest⟩ := all.uncons
      exact ⟨label, mid, isLabel, fresh, value, ih.mpr rest⟩

/-- What `suit_parse_common` accepts, and what it returns. -/
theorem suitParseCommon_iff_grammar {content : Bytes} {c : Common}
    (short : content.length < 2 ^ 63) :
    suitParseCommon (some content) = (true, c) ↔
      ∃ pairs, StartsWithMap content pairs ∧ CommonPairs pairs c := by
  rw [suitParseCommon_iff short]
  constructor
  · rintro ⟨pairs, isMap, steps⟩
    obtain ⟨known, once, -, stored⟩ := (commonSteps_iff).mp steps
    exact ⟨pairs, isMap, known, once, stored⟩
  · rintro ⟨pairs, isMap, known, once, stored⟩
    exact ⟨pairs, isMap, (commonSteps_iff).mpr ⟨known, once, by simp, stored⟩⟩

end Declarative

end TeepDevice.Suit
