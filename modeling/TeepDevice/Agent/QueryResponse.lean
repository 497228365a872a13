import Mathlib.Data.List.Forall2
import TeepDevice.Agent.Authenticated
import TeepDevice.Agent.Messages
import TeepDevice.Teep.TcLists

/-! The QueryResponse of the agent read back by its own parser. The encoder
writes the three lists in shapes that the parser does not all take. -/
namespace TeepDevice.Agent
open Teep

section Reading
variable {q : Qcbor}

theorem mapM_map_some {α β : Type} {node : α → Node} {value : Node → Option β} {f : α → β}
    (each : ∀ x, value (node x) = some (f x)) (xs : List α) :
    (xs.map node).mapM value = some (xs.map f) := by
  induction xs with
  | nil => rfl
  | cons x xs ih => simp [each x, ih]

/-- The component id that is read from a requested entry has the label of the
entry in front of the array. -/
theorem tcInfo_requestedNode (id : Bytes) :
    (requestedNode id).tcInfo q =
      some ⟨some (arrayNode (some OptionKey.componentId) [textNode id]).encoding, none, none⟩ :=
  rfl

/-- An entry that is just a text string is not accepted. -/
theorem tcInfo_textNode (id : Bytes) : (textNode id).tcInfo q = none := rfl

theorem componentId_unneededNode (id : Bytes) :
    (unneededNode id).componentId = some (unneededNode id).encoding := rfl

end Reading

section Options
variable {q : Qcbor} (malloc : Malloc) {m : Message} (level next : Nat)

theorem reads_token (b : Bytes) (a : Nat) (rest : List Delivery) :
    Reads (fun cbor => (parseOption malloc cbor m
      ((bytesNode (some OptionKey.token) b).head level next) level : Parse q Message))
      ((bytesNode (some OptionKey.token) b).inside level next ++ rest) a
      (some ({ m with token := some b }, a, rest)) := by
  exact reads_pure _

variable (type : m.type = .queryResponse)
include type

/-- A list of installed components is only read back if it is empty. -/
theorem reads_tcList (ids : List Bytes) (a : Nat) (rest : List Delivery) :
    Reads (fun cbor => (parseOption malloc cbor m ((arrayNode (some OptionKey.tcList)
      (ids.map textNode)).head level next) level : Parse q Message))
      ((arrayNode (some OptionKey.tcList) (ids.map textNode)).inside level next ++ rest) a
      (if malloc a (ids.length * 32) ∧ ids = [] then
        some ({ m with tcList := some [] }, a + 1, rest) else none) := by
  have option : Reads _ _ a (if malloc a ((ids.map textNode).length * 32) then
      (((ids.map textNode).mapM (Node.tcInfo q)).map fun xs => { m with tcList := some xs }).map
        fun x => (x, a + 1, rest) else none) :=
    reads_listOption malloc .tcList rfl type
      (entries_wellFormed textNode_wellFormed (some OptionKey.tcList) ids) level next level a rest
  rw [List.length_map] at option
  cases ids with
  | nil => simpa using option
  | cons id ids => simpa [tcInfo_textNode] using option

theorem reads_requestedTcList (ids : List Bytes) (a : Nat) (rest : List Delivery) :
    Reads (fun cbor => (parseOption malloc cbor m ((arrayNode (some OptionKey.requestedTcList)
      (ids.map requestedNode)).head level next) level : Parse q Message))
      ((arrayNode (some OptionKey.requestedTcList) (ids.map requestedNode)).inside level next ++
        rest) a
      (if malloc a (ids.length * 32) then
        some ({ m with requestedTcList := some (ids.map fun id =>
          ⟨some (arrayNode (some OptionKey.componentId) [textNode id]).encoding, none, none⟩) },
          a + 1, rest) else none) := by
  have option : Reads _ _ a (if malloc a ((ids.map requestedNode).length * 32) then
      (((ids.map requestedNode).mapM (Node.tcInfo q)).map
        fun xs => { m with requestedTcList := some xs }).map
          fun x => (x, a + 1, rest) else none) :=
    reads_listOption malloc .requestedTcList rfl type
      (entries_wellFormed requestedNode_wellFormed (some OptionKey.requestedTcList) ids)
      level next level a rest
  rw [List.length_map, mapM_map_some tcInfo_requestedNode] at option
  exact option

theorem reads_unneededTcList (ids : List Bytes) (a : Nat) (rest : List Delivery) :
    Reads (fun cbor => (parseOption malloc cbor m ((arrayNode (some OptionKey.unneededTcList)
      (ids.map unneededNode)).head level next) level : Parse q Message))
      ((arrayNode (some OptionKey.unneededTcList) (ids.map unneededNode)).inside level next ++
        rest) a
      (if malloc a (ids.length * 16) then
        some ({ m with unneededTcList := some (ids.map fun id => (unneededNode id).encoding) },
          a + 1, rest) else none) := by
  have option : Reads _ _ a (if malloc a ((ids.map unneededNode).length * 16) then
      (((ids.map unneededNode).mapM Node.componentId).map
        fun xs => { m with unneededTcList := some xs }).map
          fun x => (x, a + 1, rest) else none) :=
    reads_listOption (q := q) malloc .unneededTcList rfl type
      (entries_wellFormed unneededNode_wellFormed (some OptionKey.unneededTcList) ids)
      level next level a rest
  rw [List.length_map, mapM_map_some componentId_unneededNode] at option
  exact option

/-- The message that the three lists come to when they are all read. -/
def withLists (m : Message) (requested unneeded : List Bytes) : Message :=
  { m with
    tcList := some []
    requestedTcList := some (requested.map fun id =>
      ⟨some (arrayNode (some OptionKey.componentId) [textNode id]).encoding, none, none⟩)
    unneededTcList := some (unneeded.map fun id => (unneededNode id).encoding) }

/-- What it takes for the three lists to be read from the allocation `a` on. -/
def ListsRead (malloc : Malloc) (a : Nat) (installed requested unneeded : List Bytes) : Prop :=
  (malloc a (installed.length * 32) ∧ installed = []) ∧
    malloc (a + 1) (requested.length * 32) ∧ malloc (a + 2) (unneeded.length * 16)

instance (malloc : Malloc) (a : Nat) (installed requested unneeded : List Bytes) :
    Decidable (ListsRead malloc a installed requested unneeded) :=
  inferInstanceAs (Decidable ((_ ∧ _) ∧ _ ∧ _))

theorem reads_lists (installed requested unneeded : List Bytes) (a : Nat)
    (rest : List Delivery) :
    Reads (fun cbor => (parseOptionsLoop malloc cbor level 3 m : Parse q Message))
      (Node.preorders level next
        [arrayNode (some OptionKey.tcList) (installed.map textNode),
          arrayNode (some OptionKey.requestedTcList) (requested.map requestedNode),
          arrayNode (some OptionKey.unneededTcList) (unneeded.map unneededNode)] ++ rest) a
      (if ListsRead malloc a installed requested unneeded then
        some (withLists m requested unneeded, a + 3, rest) else none) := by
  simp only [Node.preorders_cons, List.isEmpty_cons, List.isEmpty_nil, if_true,
    List.append_assoc, if_neg Bool.false_ne_true, Node.preorders_nil, List.nil_append]
  have first := fun rest => reads_tcList (q := q) malloc level level type installed a rest
  by_cases read : malloc a (installed.length * 32) ∧ installed = []
  · simp only [if_pos read] at first
    refine reads_optionsLoop_cons malloc (first _) ?_
    have second := fun rest => reads_requestedTcList (q := q) malloc level level
      (m := { m with tcList := some [] }) type requested (a + 1) rest
    by_cases free : malloc (a + 1) (requested.length * 32)
    · simp only [if_pos free] at second
      refine reads_optionsLoop_cons malloc (second _) ?_
      have third := reads_unneededTcList (q := q) malloc level next
        (m := { withLists m requested [] with unneededTcList := m.unneededTcList }) type
        unneeded (a + 1 + 1) rest
      by_cases free' : malloc (a + 2) (unneeded.length * 16)
      · rw [if_pos free'] at third
        rw [if_pos ⟨read, free, free'⟩]
        exact reads_optionsLoop_cons malloc third (reads_pure _)
      · rw [if_neg free'] at third
        rw [if_neg fun all => free' all.2.2]
        exact fails_optionsLoop_cons malloc third
    · simp only [if_neg free] at second
      rw [if_neg fun all => free all.2.1]
      exact fails_optionsLoop_cons malloc (second _)
  · simp only [if_neg read] at first
    rw [if_neg fun all => read all.1]
    exact fails_optionsLoop_cons malloc (first _)

end Options

section Messages
variable {q : Qcbor} (malloc : Malloc)

theorem reads_messageTree {type : MessageType} {options : List Node} {a : Nat}
    {r : Option (Message × Nat × List Delivery)}
    (reads : Reads (fun cbor => parseOptionsLoop malloc cbor 2 options.length (.zero type) >>=
      conclude (q := q)) (Node.preorders 2 0 options) (a + 1) r) :
    Reads (parseMessage (q := q) malloc) ((messageTree type options []).preorder 0 0) a
      (if malloc a 168 then r else none) := by
  have known : messageTypeOf type.code = some type := by
    cases type <;> rfl
  refine reads_message malloc (c := 2) known fun _ => ?_
  rw [Node.preorders_nil, List.append_nil]
  cases options with
  | nil => exact reads
  | cons option options => exact reads

theorem reads_conclude {m : Message} (type : m.type = .queryResponse) (a : Nat) :
    Reads (fun _ => (conclude m : Parse q Message)) [] a (some (m, a, [])) :=
  reads_conclude_response type [] a

/-- The message that has just the token. -/
def withToken (token : Option Bytes) : Message :=
  { Message.zero .queryResponse with token := token }

theorem reads_tokenNodes (token : Option Bytes) (nodes : List Node) {a : Nat}
    {r : Option (Message × Nat × List Delivery)}
    (others : Reads (fun cbor => (parseOptionsLoop malloc cbor 2 nodes.length (withToken token) :
      Parse q Message)) (Node.preorders 2 0 nodes) a r) :
    Reads (fun cbor => (parseOptionsLoop malloc cbor 2 (tokenNodes token ++ nodes).length
      (.zero .queryResponse) : Parse q Message)) (Node.preorders 2 0 (tokenNodes token ++ nodes)) a
      r := by
  cases token with
  | none => exact others
  | some b =>
    have first := fun next => reads_token (q := q) (m := .zero .queryResponse) malloc 2 next b a
      (Node.preorders 2 0 nodes)
    exact reads_optionsLoop_cons malloc (first _) others

theorem reads_queryResponse (session : Session) (a : Nat) :
    Reads (parseMessage (q := q) malloc)
      ((messageTree .queryResponse (queryResponseNodes session) []).preorder 0 0) a
      (if malloc a 168 then
        if hasItem session.dataItemRequested 0 = false ∧ hasItem session.dataItemRequested 1 then
          if ListsRead malloc (a + 1) (idsOf ManifestRequest.installed session.requests)
              (idsOf ManifestRequest.requested session.requests)
              (idsOf ManifestRequest.unneeded session.requests) then
            some (withLists (withToken session.token)
              (idsOf ManifestRequest.requested session.requests)
              (idsOf ManifestRequest.unneeded session.requests), a + 4, [])
          else none
        else some (withToken session.token, a + 1, [])
      else none) := by
  apply reads_messageTree
  have bare := (reads_tokenNodes (q := q) malloc session.token [] (a := a + 1) (reads_pure _)).bind
    (f := fun _ => conclude) (reads_conclude rfl _)
  unfold queryResponseNodes
  cases attestation : hasItem session.dataItemRequested 0 with
  | true => simpa using bare
  | false =>
    cases components : hasItem session.dataItemRequested 1 with
    | false => simpa using bare
    | true =>
      have lists := reads_lists (q := q) (m := withToken session.token) malloc 2 0 rfl
        (idsOf ManifestRequest.installed session.requests)
        (idsOf ManifestRequest.requested session.requests)
        (idsOf ManifestRequest.unneeded session.requests) (a + 1) []
      rw [List.append_nil] at lists
      have loop := reads_tokenNodes malloc session.token _ lists
      simp only [Bool.false_eq_true, if_false, if_true, and_self]
      split
      · rename_i all
        rw [if_pos all] at loop
        exact loop.bind (f := fun _ => conclude) (reads_conclude rfl _)
      · rename_i missing
        rw [if_neg missing] at loop
        exact loop.bind_none

end Messages

section ReadBack
open Tcbor

/-- The bytes are an array whose one element is the id as a text string. -/
def IsIdArray (componentId id : Bytes) : Prop :=
  ∃ array text rest, primitiveReadAny componentId = .ok (array, rest) ∧ array.isArray = true ∧
    array.value = 1 ∧ primitiveReadAny rest = .ok (text, []) ∧ text.isTstr = true ∧
    text.bytes = id

theorem primitiveReadAny_text {id : Bytes} (short : id.length < 256) :
    ∃ any, primitiveReadAny (referenceHead 3 id.length ++ id) = .ok (any, []) ∧
      any.isTstr = true ∧ any.bytes = id := by
  unfold referenceHead
  by_cases immediate : id.length < 24
  · have header : (UInt8.ofNat (3 * 32 + id.length)).toNat = 96 + id.length := by
      simp
      omega
    have major : (96 + id.length) / 32 = 3 := by omega
    have argument : (96 + id.length) % 32 = id.length := by omega
    refine ⟨⟨UInt8.ofNat (3 * 32 + id.length), 0, id⟩, ?_, ?_, rfl⟩
    · simp only [immediate, if_true, List.cons_append, List.nil_append, primitiveReadAny, header,
        major, argument]
      have length : id.length ≠ 31 := by omega
      have definite : ¬ 28 ≤ id.length := by omega
      have direct : ¬ 24 ≤ id.length := by omega
      simp [length, definite, direct]
    · simp only [Any.isTstr, Any.majorType, header, major]
      rfl
  · refine ⟨⟨0x78, 0, id⟩, ?_, by simp [Any.isTstr, Any.majorType], rfl⟩
    have byte : (UInt8.ofNat id.length).toNat = id.length := by
      simp
      omega
    simp [immediate, short, primitiveReadAny, readArgument, byte]

theorem isIdArray_unneeded {id : Bytes} (short : id.length < 256) :
    IsIdArray (unneededNode id).encoding id := by
  obtain ⟨text, read, string, bytes⟩ := primitiveReadAny_text short
  refine ⟨⟨0x81, 1, []⟩, text, referenceHead 3 id.length ++ id, ?_, by decide, rfl, read, string,
    bytes⟩
  simp [unneededNode, arrayNode, textNode, Node.encoding, Node.encodings, labelBytes]
  rfl

/-- The slice of a requested entry starts with its label, an integer. -/
theorem not_isIdArray_requested (id : Bytes) :
    ¬ IsIdArray (arrayNode (some OptionKey.componentId) [textNode id]).encoding id := by
  rintro ⟨array, text, rest, read, isArray, -⟩
  have labelled : primitiveReadAny (arrayNode (some OptionKey.componentId) [textNode id]).encoding =
      .ok (⟨0x10, 16, []⟩, referenceHead 4 1 ++ (textNode id).encoding ++ []) := rfl
  rw [labelled] at read
  cases read
  cases isArray

/-- The lists that SET_CURRENT_TA_LIST can leave in a session. -/
inductive TaList : List ManifestRequest → Prop
  | unset : TaList []
  | set (value : Bytes) (some : value ≠ []) (few : value.count 0x2C + 1 ≤ 16) :
    TaList (splitTaList (value.count 0x2C + 1) value)

theorem splitTaList_short {n : Nat} {s : Bytes} {r : ManifestRequest}
    (member : r ∈ splitTaList n s) : r.id.length < 128 := by
  induction n generalizing s with
  | zero => cases member
  | succ n ih =>
    unfold splitTaList at member
    rcases List.mem_cons.mp member with rfl | later
    · exact Nat.lt_succ_of_le (List.length_take_le _ _)
    · exact ih later

/-- The parsed message has the session's token and one entry for each request,
in its list and in order, with a component id that holds the request's id. -/
structure ReadsBack (session : Session) (m : Message) : Prop where
  type : m.type = .queryResponse
  token : m.token = session.token
  installed : List.Forall₂ (fun id info => ∃ componentId, info.componentId = some componentId ∧
    IsIdArray componentId id) (idsOf ManifestRequest.installed session.requests)
    (m.tcList.getD [])
  requested : List.Forall₂ (fun id info => ∃ componentId, info.componentId = some componentId ∧
    IsIdArray componentId id) (idsOf ManifestRequest.requested session.requests)
    (m.requestedTcList.getD [])
  unneeded : List.Forall₂ (fun id componentId => IsIdArray componentId id)
    (idsOf ManifestRequest.unneeded session.requests) (m.unneededTcList.getD [])

theorem TaList.short {requests : List ManifestRequest} (list : TaList requests)
    {use : ManifestRequest → Bool} {id : Bytes} (member : id ∈ idsOf use requests) :
    id.length < 256 := by
  obtain ⟨r, within, rfl⟩ := List.mem_map.mp member
  have request := (List.mem_filter.mp within).1
  cases list with
  | unset => cases request
  | set value some few => exact Nat.lt_trans (splitTaList_short request) (by decide)

/-- Every request is to be removed, or there is none in a message without lists;
and the allocations of the parser succeed. -/
def ReadableResponse (malloc : Malloc) (a : Nat) (session : Session) : Prop :=
  malloc a 168 ∧
    if hasItem session.dataItemRequested 0 then session.requests = []
    else
      (∀ r ∈ session.requests, r.requested = false ∧ r.unneeded = true) ∧
        malloc (a + 1) 0 ∧ malloc (a + 2) 0 ∧ malloc (a + 3) (session.requests.length * 16)

theorem idsOf_eq_nil_iff {use : ManifestRequest → Bool} {requests : List ManifestRequest} :
    idsOf use requests = [] ↔ ∀ r ∈ requests, use r = false := by
  simp [idsOf]

theorem readsBack_withToken_iff (session : Session) :
    ReadsBack session (withToken session.token) ↔ session.requests = [] := by
  constructor
  · intro back
    have installed := (idsOf_eq_nil_iff).mp (List.forall₂_nil_right_iff.mp back.installed)
    have requested := (idsOf_eq_nil_iff).mp (List.forall₂_nil_right_iff.mp back.requested)
    have unneeded := (idsOf_eq_nil_iff).mp (List.forall₂_nil_right_iff.mp back.unneeded)
    apply List.eq_nil_iff_forall_not_mem.mpr
    intro r member
    have kind := installed r member
    simp [ManifestRequest.installed, requested r member, unneeded r member] at kind
  · intro none
    have empty : ∀ use, idsOf use session.requests = [] := by simp [none, idsOf]
    constructor
    · rfl
    · rfl
    all_goals
      rw [empty]
      exact List.Forall₂.nil

theorem readsBack_withLists_iff (session : Session) (list : TaList session.requests)
    (nothing : idsOf ManifestRequest.installed session.requests = []) :
    ReadsBack session (withLists (withToken session.token)
        (idsOf ManifestRequest.requested session.requests)
        (idsOf ManifestRequest.unneeded session.requests)) ↔
      idsOf ManifestRequest.requested session.requests = [] := by
  constructor
  · intro back
    have entries := back.requested
    cases ids : idsOf ManifestRequest.requested session.requests with
    | nil => rfl
    | cons id others =>
      rw [ids] at entries
      obtain ⟨⟨componentId, slice, array⟩, -⟩ := List.forall₂_cons.mp entries
      cases slice
      exact absurd array (not_isIdArray_requested id)
  · intro none
    constructor
    · rfl
    · rfl
    · rw [nothing]
      exact List.Forall₂.nil
    · rw [none]
      exact List.Forall₂.nil
    · apply List.forall₂_map_right_iff.mpr
      apply List.forall₂_same.mpr
      intro id member
      exact isIdArray_unneeded (list.short member)

theorem idsOf_unneeded {requests : List ManifestRequest}
    (all : ∀ r ∈ requests, r.requested = false ∧ r.unneeded = true) :
    idsOf ManifestRequest.installed requests = [] ∧
      idsOf ManifestRequest.requested requests = [] ∧
      (idsOf ManifestRequest.unneeded requests).length = requests.length := by
  refine ⟨(idsOf_eq_nil_iff).mpr fun r member => ?_,
    (idsOf_eq_nil_iff).mpr fun r member => (all r member).1, ?_⟩
  · simp [ManifestRequest.installed, (all r member).2]
  · rw [idsOf, List.length_map, List.filter_eq_self.mpr fun r member => (all r member).2]

theorem all_unneeded {requests : List ManifestRequest}
    (installed : idsOf ManifestRequest.installed requests = [])
    (requested : idsOf ManifestRequest.requested requests = []) :
    ∀ r ∈ requests, r.requested = false ∧ r.unneeded = true := by
  intro r member
  have first := (idsOf_eq_nil_iff).mp requested r member
  have second := (idsOf_eq_nil_iff).mp installed r member
  simp only [ManifestRequest.installed, first, Bool.not_false, Bool.true_and,
    Bool.not_eq_false'] at second
  exact ⟨first, second⟩

theorem queryResponse_reads_back_iff {q : Qcbor} {malloc : Malloc} {allocations : Nat}
    {session : Session} {buffer out : Bytes} {length : Nat} (encodes : Encodes q)
    (inverse : ∀ tree, treeOf (queryResponseOps session) = some tree →
      Delivers q tree.encoding tree)
    (list : TaList session.requests) (asked : hasItem session.dataItemRequested 1 = true)
    (built : q.encode (queryResponseOps session) buffer = (out, some length)) :
    (∃ m after, parseTeepMessage q malloc allocations (out.take length) = (some m, after) ∧
      ReadsBack session m) ↔ ReadableResponse malloc allocations session := by
  have tree := treeOf_queryResponseOps session
  have produced := encodes _ _ tree buffer
  have delivers := inverse _ tree
  generalize encoding : (messageTree .queryResponse (queryResponseNodes session) []).encoding =
    bytes at produced delivers
  have same : out.take length = bytes := by
    split at produced
    · rw [built] at produced
      cases produced
      simp
    · rw [built] at produced
      cases produced.1
  have answer := parseTeepMessage_reads malloc delivers
    (reads_queryResponse malloc session allocations)
  simp only [same, answer]
  unfold ReadableResponse
  by_cases message : malloc allocations 168 = true
  · cases attestation : hasItem session.dataItemRequested 0 with
    | true => simp [message, readsBack_withToken_iff]
    | false =>
      simp only [message, if_true, asked, and_self, true_and, Bool.false_eq_true, if_false]
      by_cases read : ListsRead malloc (allocations + 1)
          (idsOf ManifestRequest.installed session.requests)
          (idsOf ManifestRequest.requested session.requests)
          (idsOf ManifestRequest.unneeded session.requests)
      · have back := readsBack_withLists_iff session list read.1.2
        have found : ∀ m after, (∃ left, some (withLists (withToken session.token)
            (idsOf ManifestRequest.requested session.requests)
            (idsOf ManifestRequest.unneeded session.requests), allocations + 4,
              ([] : List Delivery)) = some (m, after, left)) ↔
            m = withLists (withToken session.token)
              (idsOf ManifestRequest.requested session.requests)
              (idsOf ManifestRequest.unneeded session.requests) ∧ after = allocations + 4 := by
          intro m after
          simp [eq_comm]
        simp only [if_pos read, found]
        constructor
        · rintro ⟨m, after, ⟨rfl, -⟩, whole⟩
          have all := all_unneeded read.1.2 (back.mp whole)
          obtain ⟨installed, requested, length⟩ := idsOf_unneeded all
          refine ⟨all, ?_, ?_, ?_⟩
          · simpa [installed] using read.1.1
          · simpa [requested] using read.2.1
          · simpa [length] using read.2.2
        · rintro ⟨all, -⟩
          exact ⟨_, _, ⟨rfl, rfl⟩, back.mpr (idsOf_unneeded all).2.1⟩
      · simp only [if_neg read]
        constructor
        · rintro ⟨m, after, ⟨left, nothing⟩, -⟩
          cases nothing
        · rintro ⟨all, first, second, third⟩
          obtain ⟨installed, requested, length⟩ := idsOf_unneeded all
          exact absurd ⟨by simpa [installed] using first, by simpa [requested] using second,
            by simpa [length] using third⟩ read
  · simp [message]

/-- A session after a QueryRequest for the trusted components, with a TA list. -/
def listSession (value : Bytes) : Session :=
  { blankMemory with
    state := .postingQueryResponse
    token := some [0x77]
    requests := splitTaList (value.count 0x2C + 1) value
    dataItemRequested := 2 }

def taskBytes : Bytes := List.replicate teepMaxMessageLen 0

theorem queryResponse_reads_back_iff_unneeded :
    (∃ m after, parseTeepMessage referenceQcbor (fun _ _ => true) 0
        [0x82, 0x02, 0xA4, 0x14, 0x41, 0x77, 0x08, 0x80, 0x0E, 0x80, 0x0F, 0x81, 0x81, 0x61, 0x61] =
          (some m, after) ∧ ReadsBack (listSession [0x2D, 0x61]) m) ↔
      ReadableResponse (fun _ _ => true) 0 (listSession [0x2D, 0x61]) := by
  have built : referenceQcbor.encode (queryResponseOps (listSession [0x2D, 0x61])) taskBytes =
      ([0x82, 0x02, 0xA4, 0x14, 0x41, 0x77, 0x08, 0x80, 0x0E, 0x80, 0x0F, 0x81, 0x81, 0x61, 0x61] ++
        List.replicate 2033 0, some 15) := by decide +kernel
  have delivers : Delivers referenceQcbor
      (messageTree .queryResponse (queryResponseNodes (listSession [0x2D, 0x61])) []).encoding
      (messageTree .queryResponse (queryResponseNodes (listSession [0x2D, 0x61])) []) := by
    decide +kernel
  have inverse : ∀ tree, treeOf (queryResponseOps (listSession [0x2D, 0x61])) = some tree →
      Delivers referenceQcbor tree.encoding tree := by
    intro tree described
    rw [treeOf_queryResponseOps] at described
    cases described
    exact delivers
  exact queryResponse_reads_back_iff referenceQcbor_encodes inverse
    (TaList.set [0x2D, 0x61] (by decide) (by decide)) (by decide) built

/-- The id of an installed component is written as a text string, for which the
parser rejects the message; the component id of a requested one is read back
with the label in front. -/
theorem queryResponse_not_read_back :
    (Delivers referenceQcbor
        [0x82, 0x02, 0xA4, 0x14, 0x41, 0x77, 0x08, 0x81, 0x61, 0x61, 0x0E, 0x80, 0x0F, 0x80]
        (messageTree .queryResponse (queryResponseNodes (listSession [0x61])) []) ∧
      referenceQcbor.encode (queryResponseOps (listSession [0x61])) taskBytes =
        ([0x82, 0x02, 0xA4, 0x14, 0x41, 0x77, 0x08, 0x81, 0x61, 0x61, 0x0E, 0x80, 0x0F, 0x80] ++
          List.replicate 2034 0, some 14) ∧
      (parseTeepMessage referenceQcbor (fun _ _ => true) 0
        [0x82, 0x02, 0xA4, 0x14, 0x41, 0x77, 0x08, 0x81, 0x61, 0x61, 0x0E, 0x80, 0x0F, 0x80]).1 =
          none) ∧
    Delivers referenceQcbor
        [0x82, 0x02, 0xA4, 0x14, 0x41, 0x77, 0x08, 0x80, 0x0E, 0x81, 0xA1, 0x10, 0x81, 0x61, 0x61,
          0x0F, 0x80]
        (messageTree .queryResponse (queryResponseNodes (listSession [0x2B, 0x61])) []) ∧
      referenceQcbor.encode (queryResponseOps (listSession [0x2B, 0x61])) taskBytes =
        ([0x82, 0x02, 0xA4, 0x14, 0x41, 0x77, 0x08, 0x80, 0x0E, 0x81, 0xA1, 0x10, 0x81, 0x61,
          0x61, 0x0F, 0x80] ++ List.replicate 2031 0, some 17) ∧
      (parseTeepMessage referenceQcbor (fun _ _ => true) 0
        [0x82, 0x02, 0xA4, 0x14, 0x41, 0x77, 0x08, 0x80, 0x0E, 0x81, 0xA1, 0x10, 0x81, 0x61, 0x61,
          0x0F, 0x80]).1.map Message.requestedTcList =
        some (some [⟨some [0x10, 0x81, 0x61, 0x61], none, none⟩]) := by
  decide +kernel

end ReadBack

end TeepDevice.Agent
