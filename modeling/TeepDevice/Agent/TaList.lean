import TeepDevice.Agent.Authenticated
import TeepDevice.Memory
import Mathlib.Data.List.Forall2

/-! `SET_CURRENT_TA_LIST` with the string and the `requests` array as the code
has them: a pass that counts, and a pass bounded by that count that splits. A
pointer into the string is what the string holds from there on; reading behind
it, or outside of an array, is `none`. -/
namespace TeepDevice.Agent
open Tcbor

/-- `struct teep_manifest_request` with the whole of its `id` array. -/
structure RequestEntry where
  requested : Bool
  unneeded : Bool
  id : Bytes
  deriving DecidableEq, Repr

/-- The first loop over the value. -/
def countEntries : Nat → Bytes → Option Nat
  | _, [] => none
  | n, c :: s => if c = 0 then some n else countEntries (if c = 0x2C then n + 1 else n) s

/-- The innermost loop, from index `i` of the array on. -/
def copyId (len : Nat) : Nat → Bytes → Bytes → Option (Bytes × Bytes)
  | _, _, [] => none
  | i, id, c :: s =>
    if c = 0 then some (id, c :: s)
    else if c = 0x2C then some (id, s)
    else if i < len - 1 then (Memory.write id i [c]).bind fun id => copyId len (i + 1) id s
    else copyId len (i + 1) id s

/-- The sign that a field may start with: `requested`, `unneeded` and the pointer. -/
def takeSign (c : UInt8) (s : Bytes) : Bool × Bool × Bytes :=
  if c = 0x2B then (true, false, s)
  else if c = 0x2D then (false, true, s)
  else (false, false, c :: s)

/-- One pass of the second loop. -/
def splitEntry (entry : RequestEntry) : Bytes → Option (RequestEntry × Bytes)
  | [] => none
  | c :: s =>
    let len := entry.id.length
    let id := List.replicate len 0
    match takeSign c s with
    | (requested, unneeded, s) =>
      (copyId len 0 id s).map fun (id, s) => (⟨requested, unneeded, id⟩, s)

/-- The second loop: `n` passes, from `index` on. -/
def splitEntries : Nat → Nat → List RequestEntry → Bytes → Option (List RequestEntry)
  | 0, _, requests, _ => some requests
  | n + 1, index, requests, s =>
    match requests[index]? with
    | none => none
    | some entry =>
      (splitEntry entry s).bind fun (entry, s) =>
        splitEntries n (index + 1) (requests.set index entry) s

/-- The case `AGENT_OPTION_SET_CURRENT_TA_LIST`: the result, `requests` and
`n_requests`. -/
def setCurrentTaList (requests : List RequestEntry) (nRequests : Nat) (value : Bytes) :
    Option (Nat × List RequestEntry × Nat) :=
  match value with
  | [] => none
  | c :: _ =>
    if c = 0 then some (teeSuccess, requests, nRequests)
    else
      match countEntries 1 value with
      | none => none
      | some n =>
        if 16 < n then some (teeErrorBadParameters, requests, nRequests)
        else (splitEntries n 0 requests value).map fun requests => (teeSuccess, requests, n)

/-- A field without its sign. -/
def unsigned (field : Bytes) : Bytes :=
  if field.head? = some 0x2B ∨ field.head? = some 0x2D then field.drop 1 else field

/-- The entry says what the field says. -/
structure EntryOf (field : Bytes) (entry : RequestEntry) : Prop where
  requested : entry.requested = true ↔ field.head? = some 0x2B
  unneeded : entry.unneeded = true ↔ field.head? = some 0x2D
  apart : ¬ (entry.requested = true ∧ entry.unneeded = true)
  id : Memory.cString entry.id = some ((unsigned field).take 127)
  size : entry.id.length = 128

/-- A text and its fields. -/
inductive Fields : Bytes → List Bytes → Prop where
  | last {f : Bytes} (plain : 0x2C ∉ f) : Fields f [f]
  | cons {f text : Bytes} {fields : List Bytes} (plain : 0x2C ∉ f) (rest : Fields text fields) :
    Fields (f ++ 0x2C :: text) (f :: fields)

theorem fields_splitOn (text : Bytes) : Fields text (text.splitOn 0x2C) := by
  induction size : text.length using Nat.strongRecOn generalizing text with
  | ind n ih =>
    by_cases comma : 0x2C ∈ text
    · obtain ⟨f, rest, rfl, plain⟩ := List.eq_append_cons_of_mem comma
      rw [List.splitOn_append_cons_self_of_not_mem plain]
      refine .cons plain (ih rest.length ?_ rest rfl)
      rw [← size, List.length_append, List.length_cons]
      omega
    · rw [List.splitOn_eq_singleton comma]
      exact .last comma

section Loops
variable {text f rest after : Bytes} {fields : List Bytes} {entry : RequestEntry}

theorem Fields.length_eq (split : Fields text fields) :
    fields.length = text.count 0x2C + 1 := by
  induction split with
  | last plain => rw [List.count_eq_zero.mpr plain, List.length_singleton]
  | cons plain _ ih =>
    rw [List.length_cons, ih, List.count_append, List.count_eq_zero.mpr plain,
      List.count_cons_self, Nat.zero_add]

theorem countEntries_string (inside : 0 ∉ text) (n : Nat) :
    countEntries n (text ++ [0]) = some (n + text.count 0x2C) := by
  induction text generalizing n with
  | nil => rfl
  | cons c text ih =>
    obtain ⟨notZero, inside⟩ := List.ne_and_not_mem_of_not_mem_cons inside
    rw [List.cons_append, countEntries, if_neg notZero.symm, ih inside, List.count_cons]
    by_cases comma : c = 0x2C
    · simp only [comma, if_true, beq_self_eq_true]
      rw [Nat.add_assoc, Nat.add_comm 1]
    · simp only [comma, if_false, beq_iff_eq, Nat.add_zero]

/-- A full array takes no more bytes, but the field is used up. -/
theorem copyId_full {len i : Nat} (full : len - 1 ≤ i) (id : Bytes) (plain : 0x2C ∉ f)
    (inside : 0 ∉ f) (rest : Bytes) :
    copyId len i id (f ++ rest) = copyId len (i + f.length) id rest := by
  induction f generalizing i with
  | nil => rfl
  | cons c f ih =>
    obtain ⟨notComma, plain⟩ := List.ne_and_not_mem_of_not_mem_cons plain
    obtain ⟨notZero, inside⟩ := List.ne_and_not_mem_of_not_mem_cons inside
    rw [List.cons_append, copyId, if_neg notZero.symm, if_neg notComma.symm,
      if_neg (Nat.not_lt.mpr full), ih (by omega) plain inside, List.length_cons]
    congr 1
    omega

/-- A field is copied to the zeros as far as there is room, one zero is kept. -/
theorem copyId_field (room : Nat) (stored : Bytes) (plain : 0x2C ∉ f) (inside : 0 ∉ f)
    (rest : Bytes) :
    copyId (stored.length + (room + 1)) stored.length (stored ++ List.replicate (room + 1) 0)
        (f ++ rest) =
      copyId (stored.length + (room + 1)) (stored.length + f.length)
        (stored ++ (f.take room ++ List.replicate (room + 1 - (f.take room).length) 0)) rest := by
  induction f generalizing room stored with
  | nil => simp
  | cons c f ih =>
    cases room with
    | zero =>
      rw [copyId_full (by omega) _ plain inside]
      rfl
    | succ room =>
      obtain ⟨notComma, plain⟩ := List.ne_and_not_mem_of_not_mem_cons plain
      obtain ⟨notZero, inside⟩ := List.ne_and_not_mem_of_not_mem_cons inside
      have here := Memory.write_behind stored (List.replicate (room + 1 + 1) 0) [c]
        (by rw [List.length_replicate, List.length_singleton]; omega)
      have next := ih room (stored ++ [c]) plain inside
      rw [List.length_append, List.length_singleton] at next
      rw [List.cons_append, copyId, if_neg notZero.symm, if_neg notComma.symm, if_pos (by omega),
        here, Option.bind_some]
      have whole : stored.length + (room + 1 + 1) = stored.length + 1 + (room + 1) := by omega
      have count : stored.length + (c :: f).length = stored.length + 1 + f.length := by
        rw [List.length_cons]
        omega
      have taken : (c :: f.take room).length = (f.take room).length + 1 := rfl
      rw [whole, count, List.take_succ_cons, taken, Nat.add_sub_add_right, List.length_singleton,
        List.drop_replicate, ← List.append_assoc, Nat.add_sub_cancel]
      rw [next, List.append_assoc]
      rfl

/-- Where the pointer is behind a field that ends the string or not. -/
inductive Ends : Bytes → Bytes → Prop where
  | terminator : Ends [0] [0]
  | comma (s : Bytes) : Ends (0x2C :: s) s

theorem copyId_ends (len i : Nat) (id : Bytes) (ends : Ends rest after) :
    copyId len i id rest = some (id, after) := by
  cases ends with
  | terminator => rfl
  | comma s => rfl

theorem copyId_string (plain : 0x2C ∉ f) (inside : 0 ∉ f) (ends : Ends rest after) :
    ∃ id, copyId 128 0 (List.replicate 128 0) (f ++ rest) = some (id, after) ∧
      Memory.cString id = some (f.take 127) ∧ id.length = 128 := by
  have copied := copyId_field 127 [] plain inside rest
  rw [List.length_nil, Nat.zero_add, List.nil_append, List.nil_append, Nat.zero_add] at copied
  have short := List.length_take_le 127 f
  obtain ⟨zeros, more⟩ : ∃ n, 127 + 1 - (f.take 127).length = n + 1 :=
    ⟨127 - (f.take 127).length, by omega⟩
  refine ⟨_, copied.trans (copyId_ends _ _ _ ends), ?_, ?_⟩
  · rw [more, List.replicate_succ]
    exact Memory.cString_append (fun member => inside (List.mem_of_mem_take member)) _
  · rw [List.length_append, List.length_replicate]
    omega

theorem takeSign_field (f : Bytes) (ends : Ends rest after) :
    ∃ c s, f ++ rest = c :: s ∧ takeSign c s =
      (decide (f.head? = some 0x2B), decide (f.head? = some 0x2D), unsigned f ++ rest) := by
  cases f with
  | nil =>
    cases ends with
    | terminator => exact ⟨0, [], rfl, rfl⟩
    | comma => exact ⟨0x2C, after, rfl, rfl⟩
  | cons c f =>
    refine ⟨c, f ++ rest, rfl, ?_⟩
    simp only [takeSign, unsigned, List.head?_cons, Option.some.injEq, List.drop_one,
      List.tail_cons]
    by_cases plus : c = 0x2B
    · simp [plus]
    · by_cases minus : c = 0x2D
      · simp [minus]
      · simp [plus, minus]

theorem mem_unsigned {c : UInt8} (member : c ∈ unsigned f) : c ∈ f := by
  unfold unsigned at member
  split at member
  · exact List.mem_of_mem_drop member
  · exact member

/-- A field gives its entry, whatever the entry held before. -/
theorem splitEntry_field (size : entry.id.length = 128) (plain : 0x2C ∉ f) (inside : 0 ∉ f)
    (ends : Ends rest after) :
    ∃ entry', splitEntry entry (f ++ rest) = some (entry', after) ∧ EntryOf f entry' := by
  obtain ⟨c, s, start, sign⟩ := takeSign_field f ends
  obtain ⟨id, copied, string, size'⟩ := copyId_string (fun member => plain (mem_unsigned member))
    (fun member => inside (mem_unsigned member)) ends
  refine ⟨⟨decide (f.head? = some 0x2B), decide (f.head? = some 0x2D), id⟩, ?_, ?_⟩
  · rw [start, splitEntry, size]
    simp only [sign, copied, Option.map_some]
  · refine ⟨decide_eq_true_iff, decide_eq_true_iff, ?_, string, size'⟩
    rintro ⟨plus, minus⟩
    have same := (of_decide_eq_true plus).symm.trans (of_decide_eq_true minus)
    cases same

/-- The second loop takes one field a pass and ends at the terminator. -/
theorem splitEntries_fields (split : Fields text fields) (inside : 0 ∉ text)
    (before old : List RequestEntry) (room : fields.length ≤ old.length)
    (sizes : ∀ entry ∈ old, entry.id.length = 128) :
    ∃ written, splitEntries fields.length before.length (before ++ old) (text ++ [0]) =
        some (before ++ (written ++ old.drop fields.length)) ∧
      List.Forall₂ EntryOf fields written := by
  induction split generalizing before old with
  | @last f plain =>
    cases old with
    | nil => cases room
    | cons entry old =>
      obtain ⟨entry', stored, of⟩ := splitEntry_field (sizes entry List.mem_cons_self) plain inside
        .terminator
      refine ⟨[entry'], ?_, .cons of .nil⟩
      simp [splitEntries, stored]
  | @cons f text fields plain rest ih =>
    cases old with
    | nil => cases room
    | cons entry old =>
      obtain ⟨entry', stored, of⟩ := splitEntry_field (sizes entry List.mem_cons_self) plain
        (fun member => inside (List.mem_append_left _ member)) (.comma (text ++ [0]))
      obtain ⟨written, others, all⟩ := ih
        (fun member => inside (List.mem_append_right _ (List.mem_cons_of_mem _ member)))
        (before ++ [entry']) old (Nat.le_of_succ_le_succ room)
        (fun entry member => sizes entry (List.mem_cons_of_mem _ member))
      refine ⟨entry' :: written, ?_, .cons of all⟩
      rw [List.length_append, List.length_singleton, List.append_assoc, List.append_assoc] at others
      have here : (before ++ entry :: old)[before.length]? = some entry := by simp
      have put : (before ++ entry :: old).set before.length entry' =
          before ++ ([entry'] ++ old) := by simp
      rw [List.append_assoc, List.cons_append, List.length_cons, splitEntries, here]
      simp only [stored, Option.bind_some, put, List.drop_succ_cons]
      exact others

/-- The entry of the abstract list. -/
def requestOf (field : Bytes) : ManifestRequest :=
  ⟨decide (field.head? = some 0x2B), decide (field.head? = some 0x2D), (unsigned field).take 127⟩

/-- What a field is cut off from: nothing, or the rest of the list. -/
def Cut (rest : Bytes) : Prop := rest = [] ∨ ∃ text, rest = 0x2C :: text

theorem takeWhile_cut (plain : 0x2C ∉ f) (cut : Cut rest) :
    (f ++ rest).takeWhile (· ≠ 0x2C) = f ∧
      ((f ++ rest).dropWhile (· ≠ 0x2C)).drop 1 = rest.drop 1 := by
  have others : ∀ c ∈ f, decide (c ≠ 0x2C) = true :=
    fun c member => decide_eq_true fun comma => plain (comma ▸ member)
  rw [List.takeWhile_append_of_pos others, List.dropWhile_append_of_pos others]
  rcases cut with rfl | ⟨text, rfl⟩
  · exact ⟨List.append_nil f, rfl⟩
  · exact ⟨List.append_nil f, rfl⟩

theorem splitTaList_field (n : Nat) (plain : 0x2C ∉ f) (cut : Cut rest) :
    splitTaList (n + 1) (f ++ rest) = requestOf f :: splitTaList n (rest.drop 1) := by
  cases f with
  | nil =>
    rcases cut with rfl | ⟨text, rfl⟩
    · rfl
    · rfl
  | cons c f =>
    obtain ⟨taken, dropped⟩ := takeWhile_cut plain cut
    obtain ⟨taken', dropped'⟩ := takeWhile_cut (List.not_mem_of_not_mem_cons plain) cut
    simp only [splitTaList, List.cons_append]
    split
    · rename_i s same
      obtain ⟨rfl, rfl⟩ := List.cons.inj same
      rw [taken', dropped']
      rfl
    · rename_i s same
      obtain ⟨rfl, rfl⟩ := List.cons.inj same
      rw [taken', dropped']
      rfl
    · rename_i plus minus
      have notPlus : c ≠ 0x2B := fun same => plus (f ++ rest) (by rw [same])
      have notMinus : c ≠ 0x2D := fun same => minus (f ++ rest) (by rw [same])
      rw [← List.cons_append, taken, dropped]
      simp [requestOf, unsigned, notPlus, notMinus]

theorem splitTaList_fields (split : Fields text fields) :
    splitTaList fields.length text = fields.map requestOf := by
  induction split with
  | @last f plain =>
    have first := splitTaList_field 0 plain (.inl rfl)
    rw [List.append_nil] at first
    exact first
  | @cons f text fields plain rest ih =>
    rw [List.length_cons, splitTaList_field _ plain (.inr ⟨text, rfl⟩), List.drop_one,
      List.tail_cons, ih, List.map_cons]

theorem setDevOption_taList (p : Platform) {ta : Ta} (initial : ta.session.state = .init)
    (some' : text ≠ []) :
    setDevOption p ta 1 text =
      if 16 < text.count 0x2C + 1 then (ta, teeErrorBadParameters)
      else ({ ta with session := { ta.session with
        requests := splitTaList (text.count 0x2C + 1) text } }, teeSuccess) := by
  rw [setDevOption, if_neg (not_not.mpr initial), if_neg Nat.one_ne_zero, if_pos rfl,
    if_neg some']

end Loops

/-- Each field gives one entry and a value of too many fields none, whatever the
entries held before; the second loop ends where the first one did. -/
theorem setCurrentTaList_splits (p : Platform) {ta : Ta} (initial : ta.session.state = .init)
    {value : Bytes} (some' : value ≠ []) (inside : 0 ∉ value) {requests : List RequestEntry}
    (sixteen : requests.length = 16) (sizes : ∀ entry ∈ requests, entry.id.length = 128)
    (nRequests : Nat) :
    (16 < (value.splitOn 0x2C).length →
      setCurrentTaList requests nRequests (value ++ [0]) =
        some (teeErrorBadParameters, requests, nRequests) ∧
      setDevOption p ta 1 value = (ta, teeErrorBadParameters)) ∧
    ((value.splitOn 0x2C).length ≤ 16 →
      ∃ written, setCurrentTaList requests nRequests (value ++ [0]) =
          some (teeSuccess, written ++ requests.drop (value.splitOn 0x2C).length,
            (value.splitOn 0x2C).length) ∧
        List.Forall₂ EntryOf (value.splitOn 0x2C) written ∧
        setDevOption p ta 1 value = ({ ta with session := { ta.session with
          requests := (value.splitOn 0x2C).map requestOf } }, teeSuccess)) := by
  have split := fields_splitOn value
  have count := split.length_eq
  have counted := countEntries_string inside 1
  have model : splitTaList (value.count 0x2C + 1) value = (value.splitOn 0x2C).map requestOf := by
    rw [← count]
    exact splitTaList_fields split
  cases value with
  | nil => exact absurd rfl some'
  | cons c text =>
    have notZero := (List.ne_of_not_mem_cons inside).symm
    constructor
    · intro many
      rw [count] at many
      constructor
      · rw [List.cons_append] at counted
        rw [List.cons_append, setCurrentTaList, if_neg notZero, counted]
        simp only [Nat.add_comm 1, if_pos many]
      · rw [setDevOption_taList p initial some', if_pos many]
    · intro few
      obtain ⟨written, stored, all⟩ := splitEntries_fields split inside [] requests
        (by omega) sizes
      refine ⟨written, ?_, all, ?_⟩
      · rw [List.cons_append] at counted stored
        rw [List.cons_append, setCurrentTaList, if_neg notZero, counted]
        rw [count] at few stored ⊢
        simp only [Nat.add_comm 1, if_neg (Nat.not_lt.mpr few)]
        rw [List.nil_append, List.nil_append, List.length_nil] at stored
        rw [stored]
        rfl
      · rw [count] at few
        rw [setDevOption_taList p initial some', if_neg (Nat.not_lt.mpr few), model]

/-- Entries that were used before. -/
def usedEntries : List RequestEntry := List.replicate 16 ⟨true, true, List.replicate 128 0xFF⟩

/-- A requested entry, an empty one, one to be removed and a trailing comma; and a
list of seventeen empty entries. -/
theorem setCurrentTaList_splits_mixed :
    (∃ written, setCurrentTaList usedEntries 5
          [0x2B, 0x61, 0x2C, 0x2C, 0x2D, 0x62, 0x2C, 0x00] =
        some (teeSuccess, written ++ usedEntries.drop 4, 4) ∧
      List.Forall₂ EntryOf [[0x2B, 0x61], [], [0x2D, 0x62], []] written ∧
      setDevOption readmePlatform (Ta.start blankMemory) 1
          [0x2B, 0x61, 0x2C, 0x2C, 0x2D, 0x62, 0x2C] =
        ({ Ta.start blankMemory with session := { (Ta.start blankMemory).session with
          requests := [[0x2B, 0x61], [], [0x2D, 0x62], []].map requestOf } }, teeSuccess)) ∧
    setCurrentTaList usedEntries 5 (List.replicate 16 0x2C ++ [0]) =
      some (teeErrorBadParameters, usedEntries, 5) ∧
    setDevOption readmePlatform (Ta.start blankMemory) 1 (List.replicate 16 0x2C) =
      (Ta.start blankMemory, teeErrorBadParameters) := by
  have sizes : ∀ entry ∈ usedEntries, entry.id.length = 128 := by
    intro entry member
    rw [List.eq_of_mem_replicate member]
    rfl
  have mixed : ([0x2B, 0x61, 0x2C, 0x2C, 0x2D, 0x62, 0x2C] : Bytes).splitOn 0x2C =
      [[0x2B, 0x61], [], [0x2D, 0x62], []] := by decide +kernel
  have few := (@setCurrentTaList_splits readmePlatform (Ta.start blankMemory) rfl _
    (List.cons_ne_nil 0x2B [0x61, 0x2C, 0x2C, 0x2D, 0x62, 0x2C]) (by decide) _ rfl sizes 5).2
  have many := (@setCurrentTaList_splits readmePlatform (Ta.start blankMemory) rfl _
    (List.cons_ne_nil 0x2C (List.replicate 15 0x2C)) (by decide) _ rfl sizes 5).1
  rw [mixed] at few
  exact ⟨few (by decide), many (by decide +kernel)⟩

end TeepDevice.Agent
