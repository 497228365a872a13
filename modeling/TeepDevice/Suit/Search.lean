import TeepDevice.Suit.Envelope
import TeepDevice.Tcbor.Pairs

/-! What the search for an envelope field sees: the entries it steps over, which
are the pairs of the map only where every key is alone on its head. -/
namespace TeepDevice.Suit
open Tcbor

/-- Heads that are no tags, each with the item behind it. -/
def EntryItems (entries : List Pair) : Prop :=
  ∀ e ∈ entries, (∃ any, Head e.1 any ∧ any.isTag = false) ∧ Item e.2

/-- Tag 107, the head of a map, and as many entries as the map has pairs. A key
counts for one head here, so an array or a map as a key shifts what follows. -/
def EnvelopeEntries (bytes : Bytes) (entries : List Pair) : Prop :=
  ∃ head any head' any' trailing, Head head any ∧ any.isTag = true ∧ any.value = envelopeTag ∧
    Head head' any' ∧ any'.isMap = true ∧ any'.value = entries.length ∧ EntryItems entries ∧
    bytes = head ++ (head' ++ (pairBytes entries ++ trailing))

/-- The value of the last entry under a key, where it is a byte string. -/
def entryField (key : Bytes → Bool) (entries : List Pair) : Range :=
  (lastValue key entries).bind bstrOf

/-- The entries under the key hold byte strings only. -/
def AllBstr (key : Bytes → Bool) (entries : List Pair) : Prop :=
  ∀ e ∈ entries, key e.1 = true → (bstrOf e.2).isSome = true

theorem AllBstr.tail {key : Bytes → Bool} {e : Pair} {entries : List Pair}
    (all : AllBstr key (e :: entries)) : AllBstr key entries :=
  fun d member => all d (List.mem_cons_of_mem e member)

theorem EntryItems.tail {e : Pair} {entries : List Pair} (items : EntryItems (e :: entries)) :
    EntryItems entries :=
  fun d member => items d (List.mem_cons_of_mem e member)

def labelKey (label : Nat) : Bytes → Bool := headIs fun any => any.isUint && any.value == label

def nameKey (name : Bytes) : Bytes → Bool := headIs fun any => any.isTstr && any.bytes == name

/-- The test of the loop on the head it takes for a key. -/
def wanted (useTstr : Bool) (key : Nat) (keyTstr : Range) (any : Any) : Bool :=
  (any.isUint && !useTstr && any.value == key) ||
    (any.isTstr && useTstr && some any.bytes == keyTstr)

theorem wanted_label (key : Nat) (keyTstr : Range) :
    headIs (wanted false key keyTstr) = labelKey key := by
  apply congrArg headIs
  funext any
  simp [wanted]

theorem wanted_name (key : Nat) (name : Bytes) :
    headIs (wanted true key (some name)) = nameKey name := by
  apply congrArg headIs
  funext any
  simp only [wanted, Bool.not_true, Bool.and_false, Bool.false_and, Bool.false_or, Bool.and_true]
  rfl

theorem wanted_children {useTstr : Bool} {key : Nat} {keyTstr : Range} {any : Any}
    (h : wanted useTstr key keyTstr any = true) : any.children = 0 := by
  simp only [wanted, Bool.or_eq_true, Bool.and_eq_true] at h
  rcases h with ⟨⟨uint, -⟩, -⟩ | ⟨⟨tstr, -⟩, -⟩
  · exact children_of_isUint uint
  · exact children_of_isTstr tstr

/-- The field of one more entry in front: a later one wins. -/
theorem entryField_cons {test : Bytes → Bool} {e : Pair} {entries : List Pair} {field : Range}
    (all : AllBstr test (e :: entries)) :
    (entryField test (e :: entries)).or field =
      (entryField test entries).or (if test e.1 then bstrOf e.2 else field) := by
  unfold entryField
  rw [lastValue]
  cases later : lastValue test entries with
  | some item =>
    obtain ⟨k, member, isKey⟩ := lastValue_mem later
    obtain ⟨content, bstr⟩ := Option.isSome_iff_exists.mp
      (all (k, item) (List.mem_cons_of_mem e member) isKey)
    simp [bstr]
  | none =>
    cases here : test e.1 with
    | false => simp
    | true =>
      obtain ⟨content, bstr⟩ := Option.isSome_iff_exists.mp (all e List.mem_cons_self here)
      simp [bstr]

/-- The field is the content of an entry under the key. -/
theorem entryField_eq_some_iff {test : Bytes → Bool} {entries : List Pair} {content : Bytes} :
    entryField test entries = some content ↔
      ∃ item, lastValue test entries = some item ∧ bstrOf item = some content := by
  unfold entryField
  exact Option.bind_eq_some_iff

theorem entryField_length {test : Bytes → Bool} {entries : List Pair} {content : Bytes}
    (found : entryField test entries = some content) :
    content.length ≤ (pairBytes entries).length := by
  obtain ⟨item, last, bstr⟩ := (entryField_eq_some_iff).mp found
  obtain ⟨k, member, -⟩ := lastValue_mem last
  obtain ⟨before, after, rfl⟩ := List.append_of_mem member
  have inItem := bstrOf_length bstr
  simp only [pairBytes_append, pairBytes_cons, List.length_append]
  omega

section Search
variable {useTstr : Bool} {key : Nat} {keyTstr : Range}

/-- One pass of the loop, read as a step over pairs of items. -/
theorem getFieldBody_inl {map map' : Context} {field field' : Range} {n : Nat}
    (left : Remaining map (n + 2))
    (h : getFieldBody useTstr key keyTstr (map, field) = .inl (map', field')) :
    ∃ head any item, Head head any ∧ any.isTag = false ∧ Item item ∧
      map.r = head ++ (item ++ map'.r) ∧ Remaining map' n ∧
      ((wanted useTstr key keyTstr any = true ∧ ∃ content, bstrOf item = some content ∧
          field' = some content) ∨
        (wanted useTstr key keyTstr any = false ∧ field' = field)) := by
  simp only [getFieldBody, left.notEnd, Bool.false_eq_true, if_false] at h
  split at h
  · cases h
  rename_i any rest read
  obtain ⟨-, head, isHead, same, behind⟩ := (readAny_iff left).mp read
  split at h
  · cases h
  rename_i tag
  simp only [Bool.not_eq_true] at tag
  rw [tag] at behind
  have left' : Remaining rest (n + 1) := by
    rw [behind]
    exact left.advance rest.r
  split at h
  · rename_i isWanted
    split at h
    · cases h
    rename_i content after value
    cases h
    obtain ⟨-, item, bstr, same', behind'⟩ := (readBstr_bstrOf left').mp value
    refine ⟨head, any, item, isHead, tag, bstrOf_item bstr, by rw [same, same'], ?_,
      .inl ⟨isWanted, content, bstr, rfl⟩⟩
    rw [behind']
    exact left'.advance _
  · rename_i unwanted
    split at h
    · cases h
    rename_i after passed
    cases h
    have once := skip_true passed
    obtain ⟨item, isItem, same'⟩ := skip_sound (by decide) passed
    refine ⟨head, any, item, isHead, tag, (sequence_one).mp isItem, by rw [same, same'], ?_,
      .inr ⟨by simpa [wanted] using unwanted, rfl⟩⟩
    unfold Remaining at left' ⊢
    omega

theorem getFieldBody_inr {map : Context} {field : Range} {n : Nat} {out : Option Range}
    (left : Remaining map (n + 1))
    (h : getFieldBody useTstr key keyTstr (map, field) = .inr out) : out = none := by
  simp only [getFieldBody, left.notEnd, Bool.false_eq_true, if_false] at h
  repeat' split at h
  all_goals cases h
  all_goals rfl

/-- What the loop finds, it finds among the entries in front of it. -/
theorem getField_sound (n : Nat) {map : Context} {field result : Range}
    (left : Remaining map (2 * n))
    (found : Loop.eval (getFieldBody useTstr key keyTstr) _
      (getFieldBody_decreasing useTstr key keyTstr) (map, field) = some result) :
    ∃ entries trailing, entries.length = n ∧ EntryItems entries ∧
      map.r = pairBytes entries ++ trailing ∧
      AllBstr (headIs (wanted useTstr key keyTstr)) entries ∧
      result = (entryField (headIs (wanted useTstr key keyTstr)) entries).or field := by
  induction n generalizing map field with
  | zero =>
    have ended := left.isEndOfContext_iff.mpr rfl
    rw [Loop.eval_unfold] at found
    simp only [getFieldBody, ended, if_true] at found
    refine ⟨[], map.r, rfl, ?_, rfl, ?_, (Option.some.inj found).symm⟩
    · exact fun e member => absurd member List.not_mem_nil
    · exact fun e member => absurd member List.not_mem_nil
  | succ n ih =>
    have left' : Remaining map (2 * n + 2) := left
    rw [Loop.eval_unfold] at found
    cases pass : getFieldBody useTstr key keyTstr (map, field) with
    | inr out =>
      simp only [pass] at found
      rw [getFieldBody_inr left' pass] at found
      cases found
    | inl next =>
      obtain ⟨map', field'⟩ := next
      simp only [pass] at found
      obtain ⟨head, any, item, read, tag, isItem, same, left'', outcome⟩ :=
        getFieldBody_inl left' pass
      obtain ⟨entries, trailing, count, items, starts, all, rfl⟩ := ih left'' found
      have here : headIs (wanted useTstr key keyTstr) head = wanted useTstr key keyTstr any :=
        read.headIs
      have whole : AllBstr (headIs (wanted useTstr key keyTstr)) ((head, item) :: entries) := by
        intro e member isKey
        rcases List.mem_cons.mp member with rfl | member
        · rw [here] at isKey
          rcases outcome with ⟨-, content, bstr, -⟩ | ⟨unwanted, -⟩
          · exact Option.isSome_iff_exists.mpr ⟨content, bstr⟩
          · rw [isKey] at unwanted
            cases unwanted
        · exact all e member isKey
      refine ⟨(head, item) :: entries, trailing, by rw [List.length_cons, count], ?_, ?_, whole, ?_⟩
      · intro e member
        rcases List.mem_cons.mp member with rfl | member
        · exact ⟨⟨any, read, tag⟩, isItem⟩
        · exact items e member
      · rw [same, starts, pairBytes_cons]
        simp only [List.append_assoc]
      · rw [entryField_cons whole, here]
        rcases outcome with ⟨isWanted, content, bstr, rfl⟩ | ⟨unwanted, rfl⟩
        · rw [if_pos isWanted, bstr]
        · rw [if_neg (by rw [unwanted]; exact Bool.false_ne_true)]

/-- And where the entries are there, it finds what they hold. -/
theorem getField_complete (entries : List Pair) {map : Context} {field : Range} {trailing : Bytes}
    (items : EntryItems entries)
    (all : AllBstr (headIs (wanted useTstr key keyTstr)) entries)
    (left : Remaining map (2 * entries.length)) (short : map.r.length < 2 ^ 63)
    (starts : map.r = pairBytes entries ++ trailing) :
    Loop.eval (getFieldBody useTstr key keyTstr) _
      (getFieldBody_decreasing useTstr key keyTstr) (map, field) =
        some ((entryField (headIs (wanted useTstr key keyTstr)) entries).or field) := by
  induction entries generalizing map field with
  | nil =>
    have ended := left.isEndOfContext_iff.mpr rfl
    rw [Loop.eval_unfold]
    simp only [getFieldBody, ended, if_true]
    rfl
  | cons e entries ih =>
    obtain ⟨⟨any, read, tag⟩, isItem⟩ := items e List.mem_cons_self
    have left' : Remaining map (2 * entries.length + 2) := left
    have here : headIs (wanted useTstr key keyTstr) e.1 = wanted useTstr key keyTstr any :=
      read.headIs
    rw [pairBytes_cons, List.append_assoc, List.append_assoc] at starts
    have first : readAny map = (some any, map.advance (e.2 ++ (pairBytes entries ++ trailing))) :=
      (readAny_iff left').mpr ⟨by omega, e.1, read, starts, by simp [tag]⟩
    have left₁ := left'.advance (e.2 ++ (pairBytes entries ++ trailing))
    have left₂ := left₁.advance (pairBytes entries ++ trailing)
    have short₁ : (map.advance (e.2 ++ (pairBytes entries ++ trailing))).r.length < 2 ^ 63 := by
      rw [starts, List.length_append] at short
      exact Nat.lt_of_le_of_lt (Nat.le_add_left _ _) short
    have short₂ : (pairBytes entries ++ trailing).length < 2 ^ 63 := by
      rw [Context.advance_r, List.length_append] at short₁
      exact Nat.lt_of_le_of_lt (Nat.le_add_left _ _) short₁
    have pass : getFieldBody useTstr key keyTstr (map, field) =
        .inl ((map.advance (e.2 ++ (pairBytes entries ++ trailing))).advance
          (pairBytes entries ++ trailing),
          if headIs (wanted useTstr key keyTstr) e.1 then bstrOf e.2 else field) := by
      simp only [getFieldBody, left'.notEnd, Bool.false_eq_true, if_false, first, tag, here]
      cases isWanted : wanted useTstr key keyTstr any with
      | true =>
        obtain ⟨content, bstr⟩ := Option.isSome_iff_exists.mp
          (all e List.mem_cons_self (by rw [here, isWanted]))
        have value := readBstr_at left₁ (Nat.succ_pos _) bstr rfl
        unfold wanted at isWanted
        simp only [isWanted, if_true, value, bstr]
      | false =>
        have passed := skip_one_at left₁ (Nat.succ_pos _) short₁ isItem rfl
        unfold wanted at isWanted
        simp only [isWanted, Bool.false_eq_true, if_false, passed]
    rw [Loop.eval_unfold, pass]
    dsimp only
    rw [ih items.tail all.tail left₂ short₂ rfl, entryField_cons all]

theorem suitEnvelopeGetField_sound {bytes : Bytes} {result : Range}
    (found : suitEnvelopeGetField (some bytes) useTstr key keyTstr = some result) :
    ∃ entries, EnvelopeEntries bytes entries ∧
      AllBstr (headIs (wanted useTstr key keyTstr)) entries ∧
      result = entryField (headIs (wanted useTstr key keyTstr)) entries := by
  unfold suitEnvelopeGetField at found
  split at found
  · cases found
  split at found
  · cases found
  rename_i number ctx readTag_eq
  split at found
  · cases found
  rename_i tagged
  split at found
  · cases found
  rename_i map after readMap_eq
  obtain ⟨any, taken, isTag, rfl⟩ := readMatching_some readTag_eq
  obtain ⟨-, head, read, same, behind⟩ := (readAny_iff (remaining_toplevel _)).mp taken
  rw [isTag] at behind
  have left : Remaining ctx 1 := by
    rw [behind]
    exact remaining_toplevel (some bytes)
  obtain ⟨-, head', any', read', isMap, fits, same', -, rfl⟩ := (readMap_iff left).mp readMap_eq
  have left' : Remaining (openContext after (any'.value + any'.value)) (2 * any'.value) := by
    rw [Nat.two_mul]
    exact remaining_openContext after fits
  obtain ⟨entries, trailing, count, items, starts, all, rfl⟩ :=
    getField_sound any'.value left' found
  rw [openContext_r] at starts
  refine ⟨entries, ⟨head, any, head', any', trailing, read, isTag, Decidable.not_not.mp tagged,
    read', isMap, count.symm, items, ?_⟩, all, Option.or_none⟩
  have whole : bytes = head ++ ctx.r := same
  rw [whole, same', starts]

theorem pairBytes_length_ge {entries : List Pair} (items : EntryItems entries) :
    2 * entries.length ≤ (pairBytes entries).length := by
  induction entries with
  | nil => exact Nat.le_refl _
  | cons e entries ih =>
    obtain ⟨⟨any, read, -⟩, isItem⟩ := items e List.mem_cons_self
    have first := read.length_pos
    have second := isItem.length_pos
    have rest := ih items.tail
    simp only [pairBytes_cons, List.length_cons, List.length_append]
    omega

theorem suitEnvelopeGetField_complete {bytes : Bytes} {entries : List Pair}
    (short : bytes.length < 2 ^ 63) (label : (!useTstr && !fieldLabel key) = false)
    (envelope : EnvelopeEntries bytes entries)
    (all : AllBstr (headIs (wanted useTstr key keyTstr)) entries) :
    suitEnvelopeGetField (some bytes) useTstr key keyTstr =
      some (entryField (headIs (wanted useTstr key keyTstr)) entries) := by
  obtain ⟨head, any, head', any', trailing, read, isTag, value, read', isMap, count, items, rfl⟩ :=
    envelope
  have few := pairBytes_length_ge items
  simp only [List.length_append] at short
  let outer := toplevel (some (head ++ (head' ++ (pairBytes entries ++ trailing))))
  let ctx : Context := { outer with r := head' ++ (pairBytes entries ++ trailing), error := .ok }
  have readsTag : readTag outer = (some any.value, ctx) := by
    have taken : readAny outer = (some any, ctx) :=
      (readAny_iff (remaining_toplevel _)).mpr ⟨Nat.one_pos, head, read, rfl, by rw [isTag]; rfl⟩
    simp only [readTag, readMatching, taken, isTag, if_true]
  have left : Remaining ctx 1 :=
    remaining_toplevel (some (head ++ (head' ++ (pairBytes entries ++ trailing))))
  have fits : any'.value + any'.value < 2 ^ 64 := by omega
  have readsMap := readMap_at left Nat.one_pos read' isMap fits rfl
  have left' : Remaining (openContext (ctx.advance (pairBytes entries ++ trailing))
      (any'.value + any'.value)) (2 * entries.length) := by
    rw [← count, Nat.two_mul]
    exact remaining_openContext _ fits
  have short' : (pairBytes entries ++ trailing).length < 2 ^ 63 := by
    rw [List.length_append]
    omega
  have found := @getField_complete useTstr key keyTstr entries _ none _ items all left' short' rfl
  rw [Option.or_none] at found
  unfold suitEnvelopeGetField
  rw [if_neg (by rw [label]; exact Bool.false_ne_true)]
  simp only [show toplevel (some (head ++ (head' ++ (pairBytes entries ++ trailing)))) = outer
    from rfl, readsTag, value, readsMap, ne_eq, not_true, if_false]
  exact found

/-- A field is no longer than the envelope it is taken from. -/
theorem suitEnvelopeGetField_length {bytes content : Bytes}
    (found : suitEnvelopeGetField (some bytes) useTstr key keyTstr = some (some content)) :
    content.length ≤ bytes.length := by
  obtain ⟨entries, envelope, -, last⟩ := suitEnvelopeGetField_sound found
  obtain ⟨head, any, head', any', trailing, -, -, -, -, -, -, -, rfl⟩ := envelope
  have inside := entryField_length last.symm
  simp only [List.length_append]
  omega

end Search

end TeepDevice.Suit
