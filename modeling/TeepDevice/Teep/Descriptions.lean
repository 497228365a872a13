import Mathlib.Data.List.Forall2
import TeepDevice.Teep.TcLists

/-! The descriptions of trusted components in a QueryResponse (TC_LIST and
REQUESTED_TC_LIST), and what the parser makes of them. -/
namespace TeepDevice.Teep

/-- One entry of a description; the content of a component id is left out. -/
inductive Field where
  | componentId
  | tcManifestSequenceNumber (n : UInt32)
  | haveBinary (n : UInt32)
  deriving DecidableEq

def Field.key : Field → Int
  | .componentId => OptionKey.componentId
  | .tcManifestSequenceNumber _ => OptionKey.tcManifestSequenceNumber
  | .haveBinary _ => OptionKey.haveBinary

/-- A description: some of the entries in some order. -/
structure Description where
  fields : List Field
  distinct : (fields.map Field.key).Nodup

def Description.HasBinary (d : Description) : Prop := ∃ n, Field.haveBinary n ∈ d.fields

/-- A byte or text string. -/
inductive StringNode : Node → Prop
  | byteString (s bytes : Bytes) : StringNode (.mk (.byteString s) none bytes [])
  | textString (s bytes : Bytes) : StringNode (.mk (.textString s) none bytes [])

/-- The node encodes the entry. -/
inductive FieldNode : Field → Node → Prop
  | componentId (bytes : Bytes) {children : List Node}
    (elements : ∀ child ∈ children, StringNode child) :
    FieldNode .componentId
      (.mk (.array children.length) (some OptionKey.componentId) bytes children)
  | tcManifestSequenceNumber (n : UInt32) (bytes : Bytes) :
    FieldNode (.tcManifestSequenceNumber n)
      (.mk (.int64 n.toNat) (some OptionKey.tcManifestSequenceNumber) bytes [])
  | haveBinary (n : UInt32) (bytes : Bytes) :
    FieldNode (.haveBinary n) (.mk (.int64 n.toNat) (some OptionKey.haveBinary) bytes [])

/-- The node encodes the description, as a map of definite length. -/
inductive DescriptionNode (d : Description) : Node → Prop
  | map (bytes : Bytes) {children : List Node} (fields : List.Forall₂ FieldNode d.fields children) :
    DescriptionNode d (.mk (.map children.length) none bytes children)

/-- Each number that is present is recorded, and each absent one is not. -/
structure Recorded (d : Description) (info : TcInfo) : Prop where
  sequenceNumber : ∀ n, .tcManifestSequenceNumber n ∈ d.fields →
    info.tcManifestSequenceNumber = some n.toNat
  noSequenceNumber : (∀ n, .tcManifestSequenceNumber n ∉ d.fields) →
    info.tcManifestSequenceNumber = none
  binary : ∀ n, .haveBinary n ∈ d.fields → info.haveBinary = some n.toNat
  noBinary : (∀ n, .haveBinary n ∉ d.fields) → info.haveBinary = none

/-- `QCBOR_Int64ToUInt32` takes what fits. -/
def ConvertsUInt32 (q : Qcbor) : Prop := ∀ n : UInt32, q.int64ToUInt32 n.toNat = some n.toNat

section Nodes
variable {q : Qcbor} {d : Description} {node : Node} {field : Field} {info : TcInfo}

theorem StringNode.wellFormed (string : StringNode node) : node.WellFormed := by
  cases string with
  | byteString s bytes => exact .intro rfl (by simp)
  | textString s bytes => exact .intro rfl (by simp)

theorem StringNode.element (string : StringNode node) : node.element = some () := by
  cases string <;> rfl

theorem FieldNode.wellFormed (is : FieldNode field node) : node.WellFormed := by
  cases is with
  | componentId bytes elements =>
    exact .intro rfl fun child within => (elements child within).wellFormed
  | tcManifestSequenceNumber n bytes => exact .intro rfl (by simp)
  | haveBinary n bytes => exact .intro rfl (by simp)

theorem forall₂_right {α β : Type} {R : α → β → Prop} {P : β → Prop} {xs : List α} {ys : List β}
    (related : List.Forall₂ R xs ys) (each : ∀ x y, R x y → P y) : ∀ y ∈ ys, P y := by
  induction related with
  | nil => simp
  | cons first _ ih => exact List.forall_mem_cons.mpr ⟨each _ _ first, ih⟩

theorem DescriptionNode.wellFormed (is : DescriptionNode d node) : node.WellFormed := by
  cases is with
  | map bytes fields => exact .intro rfl (forall₂_right fields fun _ _ field => field.wellFormed)

theorem mapM_elements {children : List Node} (strings : ∀ child ∈ children, StringNode child) :
    ∃ units, children.mapM Node.element = some units := by
  induction children with
  | nil => exact ⟨[], rfl⟩
  | cons child children ih =>
    obtain ⟨first, others⟩ := List.forall_mem_cons.mp strings
    obtain ⟨units, rest⟩ := ih others
    exact ⟨() :: units, by simp [first.element, rest]⟩

theorem withEntry_componentId (info : TcInfo) (is : FieldNode .componentId node) :
    ∃ id, info.withEntry q node = some { info with componentId := some id } := by
  have label : node.label = some OptionKey.componentId := by cases is; rfl
  have read : ∃ id, node.componentId = some id := by
    cases is with
    | componentId bytes elements =>
      obtain ⟨units, all⟩ := mapM_elements elements
      exact ⟨_, congrArg (Option.map fun _ => _) all⟩
  obtain ⟨id, read⟩ := read
  exact ⟨id, by rw [TcInfo.withEntry, if_pos label, read, Option.map_some]⟩

theorem withEntry_sequenceNumber (info : TcInfo) (converts : ConvertsUInt32 q) {n : UInt32}
    (is : FieldNode (.tcManifestSequenceNumber n) node) :
    info.withEntry q node = some { info with tcManifestSequenceNumber := some n.toNat } := by
  have label : node.label = some OptionKey.tcManifestSequenceNumber := by cases is; rfl
  have number : node.number q = some n.toNat := by cases is; exact converts n
  rw [TcInfo.withEntry, if_neg (by rw [label]; decide), if_pos label, number, Option.map_some]

/-- An entry that says whether the binary is there is not accepted. -/
theorem withEntry_haveBinary {n : UInt32} (is : FieldNode (.haveBinary n) node) :
    info.withEntry q node = none := by
  have label : node.label = some OptionKey.haveBinary := by cases is; rfl
  rw [TcInfo.withEntry, if_neg (by rw [label]; decide), if_neg (by rw [label]; decide)]

/-- The entries of a description without have-binary are all read. -/
theorem foldlM_fields (converts : ConvertsUInt32 q) {fields : List Field} {nodes : List Node}
    (are : List.Forall₂ FieldNode fields nodes) (distinct : (fields.map Field.key).Nodup)
    (without : ∀ n, .haveBinary n ∉ fields) (info : TcInfo) :
    ∃ info', nodes.foldlM (TcInfo.withEntry q) info = some info' ∧
      (∀ n, .tcManifestSequenceNumber n ∈ fields →
        info'.tcManifestSequenceNumber = some n.toNat) ∧
      ((∀ n, .tcManifestSequenceNumber n ∉ fields) →
        info'.tcManifestSequenceNumber = info.tcManifestSequenceNumber) ∧
      info'.haveBinary = info.haveBinary := by
  induction are generalizing info with
  | nil => exact ⟨info, rfl, by simp, fun _ => rfl, rfl⟩
  | @cons field node fields nodes is _ ih =>
    obtain ⟨fresh, distinct⟩ := List.nodup_cons.mp distinct
    have others := ih distinct fun n within => without n (List.mem_cons_of_mem _ within)
    cases field with
    | componentId =>
      obtain ⟨id, read⟩ := withEntry_componentId (q := q) info is
      obtain ⟨info', rest, present, absent, binary⟩ := others { info with componentId := some id }
      exact ⟨info', by simp [read, rest], by simpa using present, by simpa using absent, binary⟩
    | tcManifestSequenceNumber n =>
      have read := withEntry_sequenceNumber info converts is
      obtain ⟨info', rest, -, absent, binary⟩ :=
        others { info with tcManifestSequenceNumber := some n.toNat }
      have behind : ∀ n', Field.tcManifestSequenceNumber n' ∉ fields := by
        intro n' within
        have mapped : (Field.tcManifestSequenceNumber n').key ∈ fields.map Field.key :=
          List.mem_map_of_mem within
        exact fresh mapped
      refine ⟨info', by simp [read, rest], ?_, fun none => absurd (none n) (by simp), binary⟩
      intro n' member
      rcases List.mem_cons.mp member with same | within
      · cases same
        exact absent behind
      · exact absurd within (behind n')
    | haveBinary n => exact absurd (List.mem_cons_self ..) (without n)

/-- One entry with have-binary is enough for the description to be refused. -/
theorem foldlM_haveBinary {fields : List Field} {nodes : List Node} {n : UInt32}
    (are : List.Forall₂ FieldNode fields nodes) (member : .haveBinary n ∈ fields) (info : TcInfo) :
    nodes.foldlM (TcInfo.withEntry q) info = none := by
  induction are generalizing info with
  | nil => cases member
  | @cons field node fields nodes is _ ih =>
    rw [List.foldlM_cons]
    rcases List.mem_cons.mp member with rfl | within
    · rw [withEntry_haveBinary is]
      rfl
    · cases info.withEntry q node with
      | none => rfl
      | some info => exact ih within info

theorem tcInfo_recorded (converts : ConvertsUInt32 q) (is : DescriptionNode d node)
    (without : ¬ d.HasBinary) : ∃ info, node.tcInfo q = some info ∧ Recorded d info := by
  have absent : ∀ n, .haveBinary n ∉ d.fields := fun n within => without ⟨n, within⟩
  cases is with
  | map bytes are =>
    obtain ⟨info, read, present, missing, binary⟩ :=
      foldlM_fields converts are d.distinct absent ⟨none, none, none⟩
    exact ⟨info, read, present, missing, fun n within => absurd within (absent n), fun _ => binary⟩

theorem tcInfo_haveBinary (is : DescriptionNode d node) (has : d.HasBinary) :
    node.tcInfo q = none := by
  obtain ⟨n, member⟩ := has
  cases is with
  | map bytes are => exact foldlM_haveBinary are member ⟨none, none, none⟩

theorem mapM_recorded (converts : ConvertsUInt32 q) {ds : List Description} {nodes : List Node}
    (are : List.Forall₂ DescriptionNode ds nodes) (without : ∀ d ∈ ds, ¬ d.HasBinary) :
    ∃ infos, nodes.mapM (Node.tcInfo q) = some infos ∧ List.Forall₂ Recorded ds infos := by
  induction are with
  | nil => exact ⟨[], rfl, .nil⟩
  | cons is _ ih =>
    obtain ⟨first, others⟩ := List.forall_mem_cons.mp without
    obtain ⟨info, read, recorded⟩ := tcInfo_recorded converts is first
    obtain ⟨infos, rest, all⟩ := ih others
    exact ⟨info :: infos, by simp [read, rest], .cons recorded all⟩

theorem mapM_haveBinary {ds : List Description} {nodes : List Node}
    (are : List.Forall₂ DescriptionNode ds nodes) {d : Description} (member : d ∈ ds)
    (has : d.HasBinary) : nodes.mapM (Node.tcInfo q) = none := by
  induction are with
  | nil => cases member
  | @cons first node ds nodes is _ ih =>
    rw [List.mapM_cons]
    rcases List.mem_cons.mp member with rfl | within
    · rw [tcInfo_haveBinary is has]
      rfl
    · rw [ih within]
      cases node.tcInfo q <;> rfl

end Nodes

section Messages
variable {q : Qcbor} {malloc : Malloc} {h₀ h₁ h₂ : Bytes} {a : Nat}

/-- A QueryResponse with these options. -/
def responseTree (h₀ h₁ h₂ : Bytes) (options : List Node) : Node :=
  messageOf (.array 2) MessageType.queryResponse.code none none none h₀ h₁ h₂ options []

theorem reads_responseTree {options : List Node} {r : Option (Message × Nat × List Delivery)}
    (kept : OfType .queryResponse r)
    (reads : Reads (fun cbor => (parseOptionsLoop malloc cbor 2 options.length
      (.zero .queryResponse) : Parse q Message)) (Node.preorders 2 0 options) (a + 1) r) :
    Reads (parseMessage (q := q) malloc) ((responseTree h₀ h₁ h₂ options).preorder 0 0) a
      (if malloc a 168 then ended r else none) := by
  have whole := reads.conclude kept
  refine reads_message malloc (c := 2) rfl fun _ => ?_
  rw [Node.preorders_nil, List.append_nil]
  cases options with
  | nil => exact whole
  | cons option options => exact whole

/-- A message that is accepted with some list ends with its options. -/
theorem around_ended {kind : ListOption} {m' : Message} {a' : Nat} {node : Node}
    {r : Option (Message × Nat × List Delivery)} {x : Message × Nat × List Delivery}
    (found : ended (kind.around q malloc m' a' r node) = some x) : ∃ y b, r = some (y, b, []) := by
  obtain ⟨around, empty⟩ := Option.filter_eq_some_iff.mp found
  unfold ListOption.around at around
  split at around
  · obtain ⟨y, -, copied⟩ := Option.bind_eq_some_iff.mp around
    obtain ⟨⟨z, b, left⟩, rfl, rfl⟩ := Option.map_eq_some_iff.mp copied
    cases List.isEmpty_iff.mp empty
    exact ⟨z, b, rfl⟩
  · cases around

theorem parseTeepMessage_outcome {tree : Node} {r : Option (Message × Nat × List Delivery)}
    {cbor : Bytes} (delivers : Delivers q cbor tree)
    (reads : Reads (parseMessage (q := q) malloc) (tree.preorder 0 0) a r) :
    (parseTeepMessage q malloc a cbor).1 = r.map Prod.fst := by
  have answer := parseTeepMessage_reads malloc delivers reads
  cases parsed : parseTeepMessage q malloc a cbor with
  | mk outcome b =>
    cases r with
    | some r =>
      rw [(answer r.1 r.2.1).mpr ⟨r.2.2, rfl⟩] at parsed
      cases parsed
      rfl
    | none =>
      cases outcome with
      | none => rfl
      | some m =>
        obtain ⟨left, found⟩ := (answer m b).mp parsed
        cases found

end Messages

section Decoding
variable {q : Qcbor} {malloc : Malloc} {requested : Bool} {before after : List Node} {a : Nat}
  {ds : List Description} {nodes : List Node} {cbor bytes h₀ h₁ h₂ : Bytes}

/-- The list of trusted components that is meant: the requested one or TC_LIST. -/
def tcOption (requested : Bool) : ListOption := if requested then .requestedTcList else .tcList

def Message.tcInfos (requested : Bool) (m : Message) : Option (List TcInfo) :=
  if requested then m.requestedTcList else m.tcList

/-- The option with these maps, as an array of definite length. -/
def listNode (requested : Bool) (bytes : Bytes) (nodes : List Node) : Node :=
  .mk (.array nodes.length) (some (tcOption requested).key) bytes nodes

/-- Nothing else in the message is at fault: there are no other options, or with
an empty list in this place the message is accepted. -/
def RestAccepted (q : Qcbor) (malloc : Malloc) (a : Nat) (requested : Bool)
    (before after : List Node) : Prop :=
  (before = [] ∧ after = []) ∨ ∃ cbor h₀ h₁ h₂ bytes m b,
    Delivers q cbor (responseTree h₀ h₁ h₂ (before ++ listNode requested bytes [] :: after)) ∧
      parseTeepMessage q malloc a cbor = (some m, b)

/-- What the descriptions of a list should come to. -/
structure Faithful (requested : Bool) (ds : List Description) (outcome : Option Message) :
    Prop where
  decoded : (requested = true ∨ ∀ d ∈ ds, ¬ d.HasBinary) → ∃ m infos, outcome = some m ∧
    m.tcInfos requested = some infos ∧ List.Forall₂ Recorded ds infos
  rejected : requested = false → (∃ d ∈ ds, d.HasBinary) → outcome = none

/-- The list decides the outcome. -/
theorem reads_rest (free : ∀ i size, malloc i size = true)
    (wf : ∀ node ∈ before ++ after, node.WellFormed)
    (others : ∀ node ∈ after, node.label ≠ some (tcOption requested).key)
    (rest : RestAccepted q malloc a requested before after) :
    ∃ m' x b, ∀ h₀ h₁ h₂ node, node.label = some (tcOption requested).key → node.WellFormed →
      Reads (parseMessage (q := q) malloc)
        ((responseTree h₀ h₁ h₂ (before ++ node :: after)).preorder 0 0) a
        (((tcOption requested).read q node m').map fun y =>
          ((tcOption requested).copy y x, b, [])) := by
  rcases rest with ⟨rfl, rfl⟩ | ⟨cbor, h₀, h₁, h₂, bytes, m, b, delivers, accepted⟩
  · -- the list is the only option
    refine ⟨.zero .queryResponse, .zero .queryResponse, a + 2, fun h₀ h₁ h₂ node label wfNode => ?_⟩
    have first := reads_listOption (q := q) (m := .zero .queryResponse) malloc (tcOption requested)
      label rfl wfNode 2 0 2 (a + 1) []
    rw [free, if_pos rfl] at first
    have loop : Reads (fun cbor => (parseOptionsLoop malloc cbor 2 1 (.zero .queryResponse) :
        Parse q Message)) (Node.preorders 2 0 [node]) (a + 1)
          (((tcOption requested).read q node (.zero .queryResponse)).map
            fun y => (y, a + 2, [])) := by
      rw [Node.preorders_cons, Node.preorders_nil]
      cases read : (tcOption requested).read q node (.zero .queryResponse) with
      | none =>
        rw [read] at first
        exact fails_optionsLoop_cons malloc first
      | some y =>
        rw [read] at first
        exact reads_optionsLoop_cons malloc first (reads_pure y)
    have whole := @reads_responseTree q malloc h₀ h₁ h₂ a _ _ ?_ loop
    · rw [free, if_pos rfl] at whole
      cases read : (tcOption requested).read q node (.zero .queryResponse) with
      | none =>
        rw [read] at whole
        exact whole
      | some y =>
        rw [read] at whole
        rw [Option.map_some, ← ListOption.read_copy read]
        exact whole
    · intro x found
      obtain ⟨y, read, rfl⟩ := Option.map_eq_some_iff.mp found
      rw [ListOption.read_copy read]
      exact ListOption.copy_type _ _ _
  · obtain ⟨m', a', r, kept, reads⟩ := reads_around (q := q) malloc (tcOption requested) 2 0 before
      after wf others (m := .zero .queryResponse) rfl (a + 1) []
    simp only [List.append_nil] at reads
    have whole h₀ h₁ h₂ node label wfNode := @reads_responseTree q malloc h₀ h₁ h₂ a _ _
      (ListOption.around_type malloc kept m' a' node) (reads node label wfNode)
    simp only [free, if_true] at whole
    have base := whole h₀ h₁ h₂ (listNode requested bytes []) rfl (.intro rfl (by simp))
    obtain ⟨left, found⟩ := (parseTeepMessage_reads malloc delivers base m b).mp accepted
    obtain ⟨x, c, rfl⟩ := around_ended found
    refine ⟨m', x, c, fun h₀ h₁ h₂ node label wfNode => ?_⟩
    have read := whole h₀ h₁ h₂ node label wfNode
    unfold ListOption.around at read
    rw [free, if_pos rfl] at read
    cases list : (tcOption requested).read q node m' with
    | none =>
      rw [list] at read
      exact read
    | some y =>
      rw [list] at read
      exact read

theorem read_listNode {m : Message} (x : Message) :
    ((tcOption requested).read q (listNode requested bytes nodes) m).map
        (fun y => ((tcOption requested).copy y x).tcInfos requested) =
      (nodes.mapM (Node.tcInfo q)).map some := by
  cases requested with
  | false =>
    change ((nodes.mapM (Node.tcInfo q)).map _).map _ = _
    rw [Option.map_map]
    rfl
  | true =>
    change ((nodes.mapM (Node.tcInfo q)).map _).map _ = _
    rw [Option.map_map]
    rfl

theorem tcList_decodes_iff (converts : ConvertsUInt32 q) (free : ∀ i size, malloc i size = true)
    (are : List.Forall₂ DescriptionNode ds nodes)
    (wf : ∀ node ∈ before ++ after, node.WellFormed)
    (others : ∀ node ∈ after, node.label ≠ some (tcOption requested).key)
    (rest : RestAccepted q malloc a requested before after)
    (delivers : Delivers q cbor
      (responseTree h₀ h₁ h₂ (before ++ listNode requested bytes nodes :: after))) :
    Faithful requested ds (parseTeepMessage q malloc a cbor).1 ↔
      (requested = true → ∀ d ∈ ds, ¬ d.HasBinary) := by
  obtain ⟨m', x, b, reads⟩ := reads_rest free wf others rest
  have wfList : (listNode requested bytes nodes).WellFormed :=
    .intro rfl (forall₂_right are fun _ _ is => is.wellFormed)
  have lists := @read_listNode q requested nodes bytes m' x
  rw [parseTeepMessage_outcome delivers
    (reads h₀ h₁ h₂ (listNode requested bytes nodes) rfl wfList)]
  generalize (tcOption requested).read q (listNode requested bytes nodes) m' = read at lists
  by_cases binary : ∃ d ∈ ds, d.HasBinary
  · obtain ⟨d, member, has⟩ := binary
    rw [mapM_haveBinary are member has] at lists
    cases Option.map_eq_none_iff.mp lists
    constructor
    · intro faithful wanted
      obtain ⟨m, infos, accepted, -⟩ := faithful.decoded (Or.inl wanted)
      cases accepted
    · intro without
      refine ⟨fun claimed => ?_, fun _ _ => rfl⟩
      rcases claimed with wanted | none
      · exact absurd has (without wanted d member)
      · exact absurd has (none d member)
  · have without : ∀ d ∈ ds, ¬ d.HasBinary := fun d member has => binary ⟨d, member, has⟩
    obtain ⟨infos, decoded, recorded⟩ := mapM_recorded converts are without
    rw [decoded] at lists
    obtain ⟨y, rfl, holds⟩ := Option.map_eq_some_iff.mp lists
    refine ⟨fun _ _ => without, fun _ => ⟨fun _ => ?_, fun _ has => absurd has binary⟩⟩
    exact ⟨_, infos, rfl, holds, recorded⟩

end Decoding

section Samples

theorem referenceQcbor_converts : ConvertsUInt32 referenceQcbor := by
  intro n
  have fits := n.toNat_lt
  simp only [referenceQcbor]
  rw [if_pos (by omega), Int.toNat_natCast]

def tokenNode : Node := .mk (.byteString [0x77]) (some OptionKey.token) [0x14, 0x41, 0x77] []

/-- The sequence number 5 and a component id of one string. -/
def numberedFields : List Node :=
  [.mk (.int64 5) (some OptionKey.tcManifestSequenceNumber) [0x11, 0x05] [],
    .mk (.array 1) (some OptionKey.componentId) [0x10, 0x81]
      [.mk (.byteString [0xAA]) none [0x41, 0xAA] []]]

def numbered : Description := ⟨[.tcManifestSequenceNumber 5, .componentId], by decide⟩

def unsaid : Description := ⟨[], by decide⟩

theorem numbered_described : List.Forall₂ DescriptionNode [numbered, unsaid]
    [.mk (.map 2) none [0xA2] numberedFields, .mk (.map 0) none [0xA0] []] := by
  have id : ∀ child ∈ [Node.mk (.byteString [0xAA]) none [0x41, 0xAA] []], StringNode child := by
    intro child within
    cases List.mem_singleton.mp within
    exact .byteString _ _
  have fields : List.Forall₂ FieldNode numbered.fields numberedFields :=
    .cons (FieldNode.tcManifestSequenceNumber 5 _) (.cons (FieldNode.componentId _ id) .nil)
  have last : DescriptionNode unsaid (.mk (.map 0) none [0xA0] []) :=
    @DescriptionNode.map unsaid [0xA0] [] .nil
  exact .cons (DescriptionNode.map _ fields) (.cons last .nil)

/-- Behind a token, a requested component with a sequence number and an id, and
one of which nothing is said. -/
theorem tcList_decodes_iff_token : Faithful true [numbered, unsaid]
    (parseTeepMessage referenceQcbor (fun _ _ => true) 0
      [0x82, 0x02, 0xA2, 0x14, 0x41, 0x77, 0x0E, 0x82, 0xA2, 0x11, 0x05, 0x10, 0x81, 0x41, 0xAA,
        0xA0]).1 := by
  have token : ∀ node ∈ [tokenNode] ++ [], node.WellFormed := by
    intro node within
    cases List.mem_singleton.mp within
    exact .intro rfl (by simp)
  have rest : RestAccepted referenceQcbor (fun _ _ => true) 0 true [tokenNode] [] :=
    .inr ⟨[0x82, 0x02, 0xA2, 0x14, 0x41, 0x77, 0x0E, 0x80], [0x82], [0x02], [0xA2], [0x0E, 0x80],
      { Message.zero .queryResponse with token := some [0x77], requestedTcList := some [] }, 2,
      by decide +kernel, by decide +kernel⟩
  have delivers : Delivers referenceQcbor
      [0x82, 0x02, 0xA2, 0x14, 0x41, 0x77, 0x0E, 0x82, 0xA2, 0x11, 0x05, 0x10, 0x81, 0x41, 0xAA,
        0xA0] (responseTree [0x82] [0x02] [0xA2] ([tokenNode] ++ listNode true [0x0E, 0x82]
          [.mk (.map 2) none [0xA2] numberedFields, .mk (.map 0) none [0xA0] []] :: [])) := by
    decide +kernel
  refine (tcList_decodes_iff referenceQcbor_converts (fun _ _ => rfl) numbered_described token
    (by simp) rest delivers).mpr fun _ d member => ?_
  rintro ⟨n, binary⟩
  rcases List.mem_cons.mp member with rfl | member
  · simp [numbered] at binary
  · cases List.mem_singleton.mp member
    cases binary

def withBinary : Description := ⟨[.haveBinary 1], by decide⟩

/-- The parser refuses a requested component whose binary is there. -/
theorem haveBinary_not_decoded :
    DescriptionNode withBinary (.mk (.map 1) none [0xA1]
        [.mk (.int64 1) (some OptionKey.haveBinary) [0x12, 0x01] []]) ∧
      Delivers referenceQcbor [0x82, 0x02, 0xA1, 0x0E, 0x81, 0xA1, 0x12, 0x01]
        (responseTree [0x82] [0x02] [0xA1] [listNode true [0x0E, 0x81] [.mk (.map 1) none [0xA1]
          [.mk (.int64 1) (some OptionKey.haveBinary) [0x12, 0x01] []]]]) ∧
      ¬ Faithful true [withBinary] (parseTeepMessage referenceQcbor (fun _ _ => true) 0
        [0x82, 0x02, 0xA1, 0x0E, 0x81, 0xA1, 0x12, 0x01]).1 := by
  refine ⟨@DescriptionNode.map withBinary [0xA1] [_] (.cons (FieldNode.haveBinary 1 _) .nil),
    by decide +kernel, ?_⟩
  intro faithful
  obtain ⟨m, infos, accepted, -⟩ := faithful.decoded (Or.inl rfl)
  have refused : (parseTeepMessage referenceQcbor (fun _ _ => true) 0
      [0x82, 0x02, 0xA1, 0x0E, 0x81, 0xA1, 0x12, 0x01]).1 = none := by decide +kernel
  rw [refused] at accepted
  cases accepted

end Samples

end TeepDevice.Teep
