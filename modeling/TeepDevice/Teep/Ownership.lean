import Mathlib.Data.List.Dedup
import TeepDevice.Heap
import TeepDevice.Teep.Reading

/-! The memory of a parsed message (libteep.c): the block of the message, the blocks
of its arrays and what frees them again. The values are those of Teep.Message. -/
namespace TeepDevice.Teep

/-- The `array` pointers of `struct teep_message`. -/
inductive ArrayField where
  | supportedCipherSuits | supportedFreshnessMechanisms | versions | tcList | requestedTcList
  | unneededTcList | extList | manifestList | suitReports
  deriving DecidableEq, Repr

/-- The heap with the arrays of the message that is being parsed. Which of them were
assigned, the latest first, is history only. -/
structure Blocks where
  heap : Heap Bytes
  arrays : ArrayField → Option Nat
  assigned : List ArrayField

/-- `p->array = malloc(..)`; what the pointer held before is lost. -/
def Blocks.assign (blocks : Blocks) (field : ArrayField) (granted : Bool) : Blocks :=
  if granted then
    let (block, heap) := blocks.heap.alloc []
    ⟨heap, Function.update blocks.arrays field (some block), field :: blocks.assigned⟩
  else ⟨blocks.heap, Function.update blocks.arrays field none, field :: blocks.assigned⟩

/-- A parser step that may allocate arrays of the message. -/
abbrev Owning (q : Qcbor) := OptionT (StateM ((q.Decoder × Nat) × Blocks))

section Parser
variable {q : Qcbor} (malloc : Malloc)

/-- A step that leaves the heap alone. -/
def aside {α : Type} (step : Parse q α) : Owning q α :=
  OptionT.mk fun st => ((step.run st.1).1, (step.run st.1).2, st.2)

def mallocArray (field : ArrayField) (size : Nat) : Owning q Unit :=
  OptionT.mk fun ((d, allocations), blocks) =>
    (if malloc allocations size then some () else none, (d, allocations + 1),
      blocks.assign field (malloc allocations size))

/-- An array of as many elements as its head announces, each of a width in bytes. -/
def parseArrayInto {α : Type} (field : ArrayField) (width : Nat) (element : Parse q α)
    (option : QcborItem) : Owning q (List α) :=
  match option.value with
  | .array len => do
    mallocArray malloc field (len * width)
    aside (times element len)
  | _ => failure

def parseUint32ArrayInto (field : ArrayField) (option : QcborItem) : Owning q (List Nat) :=
  parseArrayInto malloc field 4 (do parseUint32 (← getNext)) option

def parseBufferArrayInto (field : ArrayField) (option : QcborItem) (binary : Bool) :
    Owning q (List Bytes) :=
  parseArrayInto malloc field 16 (do parseString binary (← getNext)) option

def parseTcInfoArrayInto (field : ArrayField) (cbor : Bytes) (option : QcborItem)
    (requested : Bool) : Owning q (List TcInfo) :=
  parseArrayInto malloc field 32 (do
    match (← getNext).value with
    | .map count => parseTcInfoEntries cbor requested count ⟨none, none, none⟩
    | _ => failure) option

def parseComponentIdArrayInto (field : ArrayField) (cbor : Bytes) (option : QcborItem) :
    Owning q (List Bytes) :=
  parseArrayInto malloc field 16 (do
    let offset ← tell
    teepParseComponentId cbor offset (← getNext)) option

def parseForInto (types : List MessageType) (m : Message) (nestLevel : Nat) (option : QcborItem)
    (parse : Owning q Message) : Owning q Message :=
  if m.type ∈ types then parse
  else aside do
    skipOption nestLevel option
    return m

/-- `parse_option`: the cases with an array, then the others, which allocate nothing. -/
def parseOptionInto (cbor : Bytes) (m : Message) (option : QcborItem) (nestLevel : Nat) :
    Owning q Message :=
  if option.label = some OptionKey.supportedCipherSuits then
    parseForInto [.queryRequest, .error] m nestLevel option do
      let array ← parseUint32ArrayInto malloc .supportedCipherSuits option
      return { m with supportedCipherSuits := some array }
  else if option.label = some OptionKey.versions then
    parseForInto [.queryRequest, .error] m nestLevel option do
      let array ← parseUint32ArrayInto malloc .versions option
      return { m with versions := some array }
  else if option.label = some OptionKey.tcList then
    parseForInto [.queryResponse] m nestLevel option do
      let array ← parseTcInfoArrayInto malloc .tcList cbor option false
      return { m with tcList := some array }
  else if option.label = some OptionKey.requestedTcList then
    parseForInto [.queryResponse] m nestLevel option do
      let array ← parseTcInfoArrayInto malloc .requestedTcList cbor option true
      return { m with requestedTcList := some array }
  else if option.label = some OptionKey.unneededTcList then
    parseForInto [.queryResponse] m nestLevel option do
      let array ← parseComponentIdArrayInto malloc .unneededTcList cbor option
      return { m with unneededTcList := some array }
  else if option.label = some OptionKey.extList then
    parseForInto [.queryResponse] m nestLevel option do
      let array ← parseUint32ArrayInto malloc .extList option
      return { m with extList := some array }
  else if option.label = some OptionKey.manifestList then
    parseForInto [.update] m nestLevel option do
      let array ← parseBufferArrayInto malloc .manifestList option true
      return { m with manifestList := some array }
  else if option.label = some OptionKey.suitReports then
    parseForInto [.success, .error] m nestLevel option do
      let array ← parseBufferArrayInto malloc .suitReports option true
      return { m with suitReports := some array }
  else if option.label = some OptionKey.supportedFreshnessMechanisms then
    parseForInto [.queryRequest, .error] m nestLevel option do
      let array ← parseUint32ArrayInto malloc .supportedFreshnessMechanisms option
      return { m with supportedFreshnessMechanisms := some array }
  else aside (parseOption malloc cbor m option nestLevel)

def parseOptionsLoopInto (cbor : Bytes) (nestLevel : Nat) : Nat → Message → Owning q Message
  | 0, m => return m
  | n + 1, m => do
    let option ← aside getNext
    parseOptionsLoopInto cbor nestLevel n (← parseOptionInto malloc cbor m option nestLevel)

def parseOptionsInto (cbor : Bytes) (m : Message) : Owning q Message := do
  let options ← aside getNext
  match options.value with
  | .map count => parseOptionsLoopInto malloc cbor options.nextNestLevel count m
  | _ => failure

/-- What comes before the message is allocated. -/
def parseHead : Parse q MessageType := do
  match (← getNext).value with
  | .array _ =>
    match (← getNext).value with
    | .int64 v =>
      match messageTypeOf v with
      | none => failure
      | some type => return type
    | _ => failure
  | _ => failure

/-- What comes after it. -/
def parseBody (cbor : Bytes) (type : MessageType) : Owning q Message := do
  let m ← parseOptionsInto malloc cbor (.zero type)
  aside do
    let m ← parseTail m
    let (d, _) ← get
    guard (q.finish d)
    return m

/-- The arrays of each arm of the union, as `free_parsed_teep_message` frees them. -/
def freedArrays : MessageType → List ArrayField
  | .queryRequest => [.supportedCipherSuits, .supportedFreshnessMechanisms, .versions]
  | .queryResponse => [.tcList, .requestedTcList, .unneededTcList, .extList]
  | .update => [.manifestList]
  | .success => [.suitReports]
  | .error => [.supportedCipherSuits, .supportedFreshnessMechanisms, .versions, .suitReports]

/-- A parsed message with its block and those of its arrays. -/
structure ParsedMessage where
  message : Message
  block : Nat
  arrays : ArrayField → Option Nat

/-- `none` where a block is freed that is not live. -/
def freeParsedTeepMessage (heap : Heap Bytes) (type : MessageType)
    (arrays : ArrayField → Option Nat) (block : Nat) : Option (Heap Bytes) :=
  heap.releaseAll ((freedArrays type).map arrays ++ [some block])

/-- What `parse_teep_message` leaves: its result, the number of allocations, the heap
and the arrays that were assigned on the way. -/
structure ParseResult where
  parsed : Option ParsedMessage
  allocations : Nat
  heap : Heap Bytes
  assigned : List ArrayField

/-- `parse_teep_message` on a heap. -/
def parseTeepMessageInto (q : Qcbor) (malloc : Malloc) (allocations : Nat) (heap : Heap Bytes)
    (cbor : Bytes) : Option ParseResult :=
  match (parseHead (q := q)).run (q.init cbor, allocations) with
  | (none, _, allocations) => some ⟨none, allocations, heap, []⟩
  | (some type, d, allocations) =>
    if !malloc allocations 168 then some ⟨none, allocations + 1, heap, []⟩
    else
      let (block, heap) := heap.alloc []
      match (parseBody malloc cbor type).run ((d, allocations + 1), ⟨heap, fun _ => none, []⟩) with
      | (some m, (_, allocations), blocks) =>
        some ⟨some ⟨m, block, blocks.arrays⟩, allocations, blocks.heap, blocks.assigned⟩
      | (none, (_, allocations), blocks) =>
        (freeParsedTeepMessage blocks.heap type blocks.arrays block).map fun heap =>
          ⟨none, allocations, heap, blocks.assigned⟩

end Parser

/-- The blocks of the arrays that a message of this type holds. -/
def heldArrays (type : MessageType) (arrays : ArrayField → Option Nat) : List Nat :=
  (freedArrays type).filterMap arrays

/-- How many assignments replaced an earlier one. -/
def repeats (assigned : List ArrayField) : Nat := assigned.length - assigned.dedup.length

/-- Each live block is an array of the message, was lost with the pointer to it or
belongs to somebody else, whose blocks are as they were. -/
structure Blocks.Accounted (type : MessageType) (base : Heap Bytes) (owned lost : List Nat)
    (blocks : Blocks) : Prop where
  owns : blocks.heap.Owns (heldArrays type blocks.arrays ++ (lost ++ owned))
  count : lost.length + blocks.assigned.dedup.length = blocks.assigned.length
  frame : ∀ b ∈ owned, blocks.heap.load b = base.load b

/-- No assignment failed so far. -/
def Blocks.Complete (blocks : Blocks) : Prop :=
  ∀ field, field ∈ blocks.assigned ↔ (blocks.arrays field).isSome

section Assigning
variable {type : MessageType} {base : Heap Bytes} {owned lost : List Nat} {blocks : Blocks}
  {field : ArrayField}

theorem freedArrays_nodup (type : MessageType) : (freedArrays type).Nodup := by
  cases type <;> decide

/-- The pointer of one field apart from those of the others. -/
theorem held_apart {fields : List ArrayField} (arrays : ArrayField → Option Nat)
    (nodup : fields.Nodup) (member : field ∈ fields) :
    (fields.filterMap arrays).Perm
      ((arrays field).toList ++ fields.filterMap (Function.update arrays field none)) := by
  induction fields with
  | nil => cases member
  | cons first fields ih =>
    obtain ⟨alone, nodup⟩ := List.nodup_cons.mp nodup
    by_cases here : first = field
    · subst here
      have others : fields.filterMap (Function.update arrays first none) =
          fields.filterMap arrays := by
        apply List.filterMap_congr
        intro other inside
        have apart : other ≠ first := fun same => alone (same ▸ inside)
        exact Function.update_of_ne apart none arrays
      simp only [List.filterMap_cons, Function.update_self, others]
      cases arrays first with
      | none => exact List.Perm.refl _
      | some b => exact List.Perm.refl _
    · have inside : field ∈ fields := (List.mem_cons.mp member).resolve_left (Ne.symm here)
      simp only [List.filterMap_cons, Function.update_of_ne here]
      cases arrays first with
      | none => exact ih nodup inside
      | some b => exact ((ih nodup inside).cons b).trans List.perm_middle.symm

theorem heldArrays_apart (arrays : ArrayField → Option Nat) (member : field ∈ freedArrays type)
    (pointer : Option Nat) :
    (heldArrays type (Function.update arrays field pointer)).Perm
      (pointer.toList ++ heldArrays type (Function.update arrays field none)) := by
  have apart := held_apart (Function.update arrays field pointer) (freedArrays_nodup type) member
  rw [Function.update_self, Function.update_idem] at apart
  exact apart

/-- The block that the field held before is lost. -/
theorem Blocks.Accounted.drop (accounted : blocks.Accounted type base owned lost)
    (member : field ∈ freedArrays type) :
    blocks.heap.Owns (heldArrays type (Function.update blocks.arrays field none) ++
      ((blocks.arrays field).toList ++ lost ++ owned)) := by
  apply accounted.owns.perm
  have apart := heldArrays_apart blocks.arrays member (blocks.arrays field)
  rw [Function.update_eq_self] at apart
  have behind := (apart.trans List.perm_append_comm).append_right (lost ++ owned)
  simpa only [List.append_assoc] using behind

/-- One block is lost if the field was assigned before, and none otherwise. -/
theorem Blocks.Complete.count (complete : blocks.Complete) (field : ArrayField)
    (count : lost.length + blocks.assigned.dedup.length = blocks.assigned.length) :
    ((blocks.arrays field).toList ++ lost).length + (field :: blocks.assigned).dedup.length =
      (field :: blocks.assigned).length := by
  have assigned := complete field
  cases pointer : blocks.arrays field with
  | none =>
    rw [pointer] at assigned
    have fresh : field ∉ blocks.assigned := fun before => Bool.false_ne_true (assigned.mp before)
    simp only [List.dedup_cons_of_notMem fresh, Option.toList_none, List.nil_append,
      List.length_cons]
    omega
  | some b =>
    rw [pointer] at assigned
    have before : field ∈ blocks.assigned := assigned.mpr rfl
    simp only [List.dedup_cons_of_mem before, Option.toList_some, List.cons_append,
      List.nil_append, List.length_cons]
    omega

theorem Blocks.Accounted.assign (accounted : blocks.Accounted type base owned lost)
    (complete : blocks.Complete) (member : field ∈ freedArrays type) (granted : Bool) :
    ∃ lost', (blocks.assign field granted).Accounted type base owned lost' ∧
      (granted = true → (blocks.assign field granted).Complete) := by
  have owns := accounted.drop member
  have count := complete.count field accounted.count
  refine ⟨(blocks.arrays field).toList ++ lost, ?_, ?_⟩
  · cases granted with
    | false => exact ⟨owns, count, accounted.frame⟩
    | true =>
      refine ⟨?_, count, ?_⟩
      · have apart := heldArrays_apart blocks.arrays member (some (blocks.heap.alloc []).1)
        exact (owns.alloc []).perm (apart.symm.append_right _)
      · intro b mine
        have live : (blocks.heap.load b).isSome :=
          (accounted.owns.live_iff b).mpr
            (List.mem_append_right _ (List.mem_append_right _ mine))
        have older : b ≠ (blocks.heap.alloc []).1 := by
          rintro rfl
          rw [Heap.alloc_fresh] at live
          cases live
        exact (Heap.load_alloc_other older).trans (accounted.frame b mine)
  · rintro rfl other
    by_cases same : other = field
    · subst same
      simp only [Blocks.assign, if_true, List.mem_cons, true_or, Function.update_self,
        Option.isSome_some]
    · simp only [Blocks.assign, if_true, List.mem_cons, same, false_or,
        Function.update_of_ne same]
      exact complete other

end Assigning

/-- What holds of every value that a step comes to. -/
def Ensures {q : Qcbor} {α : Type} (post : α → Prop) (step : Parse q α) : Prop :=
  ∀ st x, (step.run st).1 = some x → post x

/-- A step that computes what the plain one does, with this to say about its value,
and keeps account of its blocks. -/
structure Tracks {q : Qcbor} {α : Type} (type : MessageType) (base : Heap Bytes)
    (owned : List Nat) (post : α → Prop) (step : Owning q α) (plain : Parse q α) : Prop where
  ensures : Ensures post plain
  same : ∀ st blocks,
    ((step.run (st, blocks)).1, (step.run (st, blocks)).2.1) = plain.run st
  accounts : ∀ st blocks lost, blocks.Accounted type base owned lost → blocks.Complete →
    ∃ lost', (step.run (st, blocks)).2.2.Accounted type base owned lost' ∧
      ((step.run (st, blocks)).1.isSome = true → (step.run (st, blocks)).2.2.Complete)

section Ensuring
variable {q : Qcbor} {α β : Type} {post : α → Prop} {step : Parse q α} {m : Message}

theorem ensures_pure {x : α} (holds : post x) : Ensures post (pure x : Parse q α) := by
  intro st y run
  cases run
  exact holds

theorem ensures_failure : Ensures post (failure : Parse q α) := by
  intro st y run
  cases run

theorem Ensures.bind {post' : β → Prop} {f : α → Parse q β} (first : Ensures post step)
    (next : ∀ x, post x → Ensures post' (f x)) : Ensures post' (step >>= f) := by
  intro st y run
  simp only [OptionT.run, Bind.bind, OptionT.bind, OptionT.mk, StateT.bind] at run
  rcases ran : step st with ⟨_ | x, st'⟩
  · rw [ran] at run
    cases run
  · rw [ran] at run
    have holds : post x := first st x (by rw [OptionT.run, ran])
    exact next x holds st' y run

theorem ensures_true (step : Parse q α) : Ensures (fun _ => True) step := fun _ _ _ => trivial

theorem Ensures.ite {c : Prop} [Decidable c] {step' : Parse q α} (yes : Ensures post step)
    (no : Ensures post step') : Ensures post (if c then step else step') := by
  by_cases holds : c
  · simpa only [if_pos holds] using yes
  · simpa only [if_neg holds] using no

theorem ensures_type (step : Parse q α) {f : α → Message}
    (type : ∀ x, (f x).type = m.type := by intro _; rfl) :
    Ensures (fun x => x.type = m.type) (do return f (← step)) :=
  (ensures_true step).bind fun x _ => ensures_pure (type x)

theorem ensures_parseFor {parse : Parse q Message} {types : List MessageType} {nestLevel : Nat}
    {option : QcborItem} (type : Ensures (fun x => x.type = m.type) parse) :
    Ensures (fun x => x.type = m.type) (parseFor types m nestLevel option parse) :=
  Ensures.ite type ((ensures_true _).bind fun _ _ => ensures_pure rfl)

theorem ensures_parseOption (malloc : Malloc) (cbor : Bytes) (option : QcborItem)
    (nestLevel : Nat) :
    Ensures (fun x => x.type = m.type)
      (parseOption malloc cbor m option nestLevel : Parse q Message) := by
  unfold parseOption
  cases option.label with
  | none => exact ensures_failure
  | some key =>
    apply Ensures.ite (ensures_parseFor (ensures_type _))
    apply Ensures.ite (ensures_parseFor (ensures_type _))
    apply Ensures.ite (ensures_parseFor (ensures_type _))
    apply Ensures.ite (ensures_parseFor (ensures_type _))
    apply Ensures.ite (ensures_parseFor (ensures_type _))
    apply Ensures.ite (ensures_parseFor (ensures_type _))
    apply Ensures.ite (ensures_parseFor (ensures_type _))
    apply Ensures.ite (ensures_parseFor (ensures_type _))
    apply Ensures.ite (ensures_parseFor (ensures_type _))
    apply Ensures.ite (ensures_parseFor (ensures_type _))
    apply Ensures.ite (ensures_parseFor (ensures_type _))
    apply Ensures.ite (ensures_parseFor (ensures_type _))
    apply Ensures.ite (ensures_parseFor (ensures_type _))
    apply Ensures.ite (ensures_parseFor (ensures_type _))
    apply Ensures.ite (ensures_parseFor (ensures_type _))
    apply Ensures.ite (ensures_parseFor (ensures_type _))
    apply Ensures.ite (ensures_type _)
    apply Ensures.ite (ensures_parseFor (ensures_type _))
    exact (ensures_true _).bind fun _ _ => ensures_pure rfl

theorem ensures_parseTail : Ensures (fun x => x.type = m.type) (parseTail m : Parse q Message) := by
  unfold parseTail
  split
  · refine (ensures_true getNext).bind fun item _ => ?_
    split
    · exact ensures_pure rfl
    · exact ensures_failure
  · refine (ensures_true getNext).bind fun item _ => ?_
    split
    · exact ensures_pure rfl
    · exact ensures_failure
  · exact ensures_pure rfl

end Ensuring

section Tracking
variable {q : Qcbor} {α β : Type} {type : MessageType} {base : Heap Bytes} {owned : List Nat}
  {malloc : Malloc} {post : α → Prop} {step : Owning q α} {plain : Parse q α} {m : Message}
  {option : QcborItem} {field : ArrayField}

theorem Tracks.aside (ensures : Ensures post plain) :
    Tracks type base owned post (aside plain) plain where
  ensures := ensures
  same _ _ := rfl
  accounts _ _ lost accounted complete := ⟨lost, accounted, fun _ => complete⟩

theorem tracks_pure {x : α} (holds : post x) :
    Tracks type base owned post (pure x : Owning q α) (pure x) :=
  Tracks.aside (ensures_pure holds)

theorem tracks_failure : Tracks type base owned post (failure : Owning q α) failure :=
  Tracks.aside ensures_failure

theorem Tracks.bind {post' : β → Prop} {f : α → Owning q β} {g : α → Parse q β}
    (first : Tracks type base owned post step plain)
    (next : ∀ x, post x → Tracks type base owned post' (f x) (g x)) :
    Tracks type base owned post' (step >>= f) (plain >>= g) := by
  constructor
  · exact first.ensures.bind fun x holds => (next x holds).ensures
  · intro st blocks
    have same := first.same st blocks
    have ensures := first.ensures st
    simp only [OptionT.run, Bind.bind, OptionT.bind, OptionT.mk, StateT.bind]
      at same ensures ⊢
    rcases run : step (st, blocks) with ⟨_ | x, st', blocks'⟩
    · rw [run] at same
      rw [← same]
      rfl
    · rw [run] at same
      rw [← same] at ensures ⊢
      exact (next x (ensures x rfl)).same st' blocks'
  · intro st blocks lost accounted complete
    have same := first.same st blocks
    have ensures := first.ensures st
    obtain ⟨lost', accounted', complete'⟩ := first.accounts st blocks lost accounted complete
    simp only [OptionT.run, Bind.bind, OptionT.bind, OptionT.mk, StateT.bind]
      at same ensures accounted' complete' ⊢
    rcases run : step (st, blocks) with ⟨_ | x, st', blocks'⟩
    · rw [run] at accounted'
      exact ⟨lost', accounted', nofun⟩
    · rw [run] at same accounted' complete'
      rw [← same] at ensures
      exact (next x (ensures x rfl)).accounts st' blocks' lost' accounted' (complete' rfl)

theorem tracks_mallocArray (member : field ∈ freedArrays type) (size : Nat) :
    Tracks type base owned (fun _ => True) (mallocArray malloc field size : Owning q Unit)
      (allocate malloc size) := by
  constructor
  · exact ensures_true _
  · rintro ⟨d, allocations⟩ blocks
    exact (exec_allocate d allocations malloc size).symm
  · rintro ⟨d, allocations⟩ blocks lost accounted complete
    obtain ⟨lost', accounted', complete'⟩ :=
      accounted.assign complete member (malloc allocations size)
    refine ⟨lost', accounted', ?_⟩
    intro granted
    apply complete'
    cases answer : malloc allocations size with
    | true => rfl
    | false =>
      simp only [mallocArray, OptionT.run, OptionT.mk, answer] at granted
      cases granted

/-- An array that is parsed into a field of the message. -/
theorem tracks_array {element : Parse q α} {width : Nat} {array : Parse q (List α)}
    (member : field ∈ freedArrays type)
    (filled : ∀ len, option.value = .array len → array = do
      allocate malloc (len * width)
      times element len)
    (other : (∀ len, option.value ≠ .array len) → array = failure) :
    Tracks type base owned (fun _ => True)
      (parseArrayInto malloc field width element option) array := by
  unfold parseArrayInto
  split
  · rename_i len value
    rw [filled len value]
    exact (tracks_mallocArray member _).bind fun _ _ => Tracks.aside (ensures_true _)
  · rename_i value
    rw [other value]
    exact tracks_failure

theorem tracks_parseUint32Array (member : field ∈ freedArrays type) (option : QcborItem) :
    Tracks (q := q) type base owned (fun _ => True) (parseUint32ArrayInto malloc field option)
      (parseUint32Array malloc option) := by
  apply tracks_array member
  · intro len value
    simp only [parseUint32Array, value]
  · intro value
    unfold parseUint32Array
    split
    · rename_i len array
      exact absurd array (value len)
    · rfl

theorem tracks_parseBufferArray (member : field ∈ freedArrays type) (option : QcborItem)
    (binary : Bool) :
    Tracks (q := q) type base owned (fun _ => True)
      (parseBufferArrayInto malloc field option binary) (parseBufferArray malloc option binary) := by
  apply tracks_array member
  · intro len value
    simp only [parseBufferArray, value]
  · intro value
    unfold parseBufferArray
    split
    · rename_i len array
      exact absurd array (value len)
    · rfl

end Tracking

end TeepDevice.Teep
