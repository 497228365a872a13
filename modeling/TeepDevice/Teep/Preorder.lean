import TeepDevice.Teep.Message

/-! What QCBOR does on well-formed input. The items of a message come in
preorder, each with the nesting level of the item after it. A step of the
parser is described by the items it finds and the items it leaves, so that a
description holds for every decoder that delivers them. -/
namespace TeepDevice.Teep

/-- An item with the bytes it is read from, those of its label included. -/
structure Delivery where
  item : QcborItem
  bytes : Bytes
  deriving DecidableEq, Repr

/-- A data item and, in order, the items directly inside it. -/
inductive Node where
  | mk (value : QcborValue) (label : Option Int) (bytes : Bytes) (children : List Node)

def Node.value : Node → QcborValue
  | .mk value _ _ _ => value

def Node.label : Node → Option Int
  | .mk _ label _ _ => label

def Node.bytes : Node → Bytes
  | .mk _ _ bytes _ => bytes

def Node.children : Node → List Node
  | .mk _ _ _ children => children

mutual

/-- The items of a node on `level`, when the item after it is on level `next`. -/
def Node.preorder (level next : Nat) : Node → List Delivery
  | .mk value label bytes children =>
    ⟨⟨value, label, if children.isEmpty then next else level + 1⟩, bytes⟩ ::
      Node.preorders (level + 1) next children

def Node.preorders (level next : Nat) : List Node → List Delivery
  | [] => []
  | node :: nodes =>
    node.preorder level (if nodes.isEmpty then next else level) ++
      Node.preorders level next nodes

end

/-- The item a node starts with and the items inside it. -/
def Node.head (level next : Nat) (node : Node) : QcborItem :=
  ⟨node.value, node.label, if node.children.isEmpty then next else level + 1⟩

def Node.inside (level next : Nat) (node : Node) : List Delivery :=
  Node.preorders (level + 1) next node.children

theorem Node.preorder_eq (level next : Nat) (node : Node) :
    node.preorder level next = ⟨node.head level next, node.bytes⟩ :: node.inside level next := by
  cases node with
  | mk value label bytes children => rfl

theorem Node.preorders_cons (level next : Nat) (node : Node) (nodes : List Node) :
    Node.preorders level next (node :: nodes) =
      node.preorder level (if nodes.isEmpty then next else level) ++
        Node.preorders level next nodes := rfl

@[simp] theorem Node.preorders_nil (level next : Nat) : Node.preorders level next [] = [] := rfl

theorem Node.preorders_append (level next : Nat) (before : List Node) (node : Node)
    (nodes : List Node) :
    Node.preorders level next (before ++ node :: nodes) =
      Node.preorders level level before ++ Node.preorders level next (node :: nodes) := by
  induction before with
  | nil => rfl
  | cons first before ih =>
    have filled : (before ++ node :: nodes).isEmpty = false := by simp
    rw [List.cons_append, Node.preorders_cons, ih, filled, Node.preorders_cons level level]
    simp

mutual

/-- The bytes of a node with all that is inside it. -/
def Node.encoding : Node → Bytes
  | .mk _ _ bytes children => bytes ++ Node.encodings children

def Node.encodings : List Node → Bytes
  | [] => []
  | node :: nodes => node.encoding ++ Node.encodings nodes

end

mutual

theorem Node.encoding_preorder (level next : Nat) : (node : Node) →
    (node.preorder level next).flatMap Delivery.bytes = node.encoding
  | .mk value label bytes children => by
    simp only [Node.preorder, List.flatMap_cons, Node.encoding]
    rw [Node.encodings_preorders (level + 1) next children]

theorem Node.encodings_preorders (level next : Nat) : (nodes : List Node) →
    (Node.preorders level next nodes).flatMap Delivery.bytes = Node.encodings nodes
  | [] => rfl
  | node :: nodes => by
    simp only [Node.preorders_cons, List.flatMap_append, Node.encodings]
    rw [Node.encoding_preorder, Node.encodings_preorders level next nodes]

end

/-- The number of items in a list of nodes. -/
def Node.items (nodes : List Node) : Nat := (Node.preorders 0 0 nodes).length

mutual

theorem Node.preorder_length (level next level' next' : Nat) : (node : Node) →
    (node.preorder level next).length = (node.preorder level' next').length
  | .mk _ _ _ children => by
    simp only [Node.preorder, List.length_cons]
    exact congrArg (· + 1) (Node.preorders_length (level + 1) next (level' + 1) next' children)

theorem Node.preorders_length (level next level' next' : Nat) : (nodes : List Node) →
    (Node.preorders level next nodes).length = (Node.preorders level' next' nodes).length
  | [] => rfl
  | node :: nodes => by
    simp only [Node.preorders_cons, List.length_append]
    rw [Node.preorder_length _ _ level' (if nodes.isEmpty then next' else level') node,
      Node.preorders_length level next level' next' nodes]

end

theorem Node.length_preorders (level next : Nat) (nodes : List Node) :
    (Node.preorders level next nodes).length = Node.items nodes :=
  Node.preorders_length level next 0 0 nodes

/-- Whether a value has this many items or pairs inside. -/
def QcborValue.counts : QcborValue → Nat → Prop
  | .none, _ => False
  | .array count, n | .map count, n => count = n
  | _, n => n = 0

inductive Node.WellFormed : Node → Prop
  | intro {value : QcborValue} {label : Option Int} {bytes : Bytes} {children : List Node}
    (counts : value.counts children.length)
    (inner : ∀ child ∈ children, Node.WellFormed child) :
    Node.WellFormed (.mk value label bytes children)

theorem Node.WellFormed.counts {node : Node} (wf : node.WellFormed) :
    node.value.counts node.children.length := by
  cases wf with
  | intro counts _ => exact counts

theorem Node.WellFormed.inner {node : Node} (wf : node.WellFormed) :
    ∀ child ∈ node.children, child.WellFormed := by
  cases wf with
  | intro _ inner => exact inner

/-- A value that is no array or map has nothing inside. -/
theorem Node.WellFormed.leaf {node : Node} (wf : node.WellFormed)
    (array : ∀ n, node.value ≠ .array n) (map : ∀ n, node.value ≠ .map n) :
    node.children = [] := by
  have counts := wf.counts
  apply List.length_eq_zero_iff.mp
  cases value : node.value with
  | none => simp [value, QcborValue.counts] at counts
  | array n => exact absurd value (array n)
  | map n => exact absurd value (map n)
  | _ => simpa [value, QcborValue.counts] using counts

section Playing
variable (q : Qcbor)

/-- From here the decoder delivers these items and then nothing: `finish`
succeeds at the end only, and `tell` is where the bytes that are left start. -/
def Plays (cbor : Bytes) : List Delivery → q.Decoder → Prop
  | [], d => (q.getNext d).1.value = .none ∧ q.finish d = true ∧ q.tell d = cbor.length
  | e :: es, d =>
    (q.getNext d).1 = e.item ∧ q.finish d = false ∧
      (cbor.drop (q.tell d) = (e :: es).flatMap Delivery.bytes ∧ q.tell d ≤ cbor.length) ∧
      Plays cbor es (q.getNext d).2

/-- The items of a well-formed message come as the tree has them. -/
def Delivers (cbor : Bytes) (tree : Node) : Prop := Plays q cbor (tree.preorder 0 0) (q.init cbor)

instance decidablePlays (cbor : Bytes) :
    (es : List Delivery) → (d : q.Decoder) → Decidable (Plays q cbor es d)
  | [], d => inferInstanceAs (Decidable ((q.getNext d).1.value = .none ∧ _ ∧ _))
  | e :: es, d =>
    have : Decidable (Plays q cbor es (q.getNext d).2) := decidablePlays cbor es _
    inferInstanceAs (Decidable ((q.getNext d).1 = e.item ∧ _ ∧ _ ∧ _))

instance (cbor : Bytes) (tree : Node) : Decidable (Delivers q cbor tree) :=
  inferInstanceAs (Decidable (Plays q cbor (tree.preorder 0 0) (q.init cbor)))

variable {q} {cbor : Bytes} {es rest : List Delivery} {d : q.Decoder}

theorem Plays.position (plays : Plays q cbor es d) :
    cbor.drop (q.tell d) = es.flatMap Delivery.bytes ∧ q.tell d ≤ cbor.length := by
  cases es with
  | nil => simp [plays.2.2]
  | cons e es => exact plays.2.2.1

theorem Plays.finish (plays : Plays q cbor es d) : q.finish d = es.isEmpty := by
  cases es with
  | nil => exact plays.2.1
  | cons e es => exact plays.2.1

/-- The bytes between two positions are those of the items between them. -/
theorem Plays.slice {d' : q.Decoder} (plays : Plays q cbor (es ++ rest) d)
    (later : Plays q cbor rest d') :
    Teep.slice cbor (q.tell d) (q.tell d') = es.flatMap Delivery.bytes := by
  obtain ⟨left, within⟩ := plays.position
  obtain ⟨left', within'⟩ := later.position
  have length := congrArg List.length left
  have length' := congrArg List.length left'
  simp only [List.length_drop, List.flatMap_append, List.length_append] at length length'
  rw [Teep.slice, List.drop_take, left, List.flatMap_append]
  apply List.take_left'
  omega

/-- The decoder after a number of items. -/
def advance (q : Qcbor) : Nat → q.Decoder → q.Decoder
  | 0, d => d
  | n + 1, d => advance q n (q.getNext d).2

theorem advance_add (m n : Nat) (d : q.Decoder) :
    advance q (m + n) d = advance q n (advance q m d) := by
  induction m generalizing d with
  | zero => simp [advance]
  | succ m ih =>
    rw [Nat.succ_add]
    exact ih (q.getNext d).2

theorem Plays.advance (plays : Plays q cbor (es ++ rest) d) :
    Plays q cbor rest (advance q es.length d) := by
  induction es generalizing d with
  | nil => exact plays
  | cons e es ih => exact ih plays.2.2.2

theorem Plays.length_unique {es' : List Delivery} (plays : Plays q cbor es d)
    (plays' : Plays q cbor es' d) : es.length = es'.length := by
  induction es generalizing es' d with
  | nil =>
    cases es' with
    | nil => rfl
    | cons e' es' => exact absurd (plays.finish.symm.trans plays'.finish) (by simp)
  | cons e es ih =>
    cases es' with
    | nil => exact absurd (plays.finish.symm.trans plays'.finish) (by simp)
    | cons e' es' => simp [ih plays.2.2.2 plays'.2.2.2]

end Playing

section Levels

/-- Following the levels from `level` on, `bottom` is reached with the last item
and not before. -/
def Climbs (bottom : Nat) : Nat → List Delivery → Prop
  | level, [] => level = bottom
  | level, e :: es => level ≠ bottom ∧ Climbs bottom e.item.nextNestLevel es

mutual

/-- The item after a node on `level` is the first one that is not deeper. -/
theorem Node.climbs (level next bottom : Nat) (other : bottom ≤ level) (rest : List Delivery) :
    (node : Node) → Climbs bottom next rest → ∀ above, above ≠ bottom →
      Climbs bottom above (node.preorder level next ++ rest)
  | .mk value label bytes children, after, above, differs => by
    simp only [Node.preorder, List.cons_append, Climbs]
    refine ⟨differs, ?_⟩
    cases children with
    | nil => simpa using after
    | cons child children =>
      simp only [List.isEmpty_cons]
      exact Node.climbs_all (level + 1) next bottom (by omega) rest (child :: children) after
        (level + 1) (by omega) (by simp)

theorem Node.climbs_all (level next bottom : Nat) (other : bottom < level)
    (rest : List Delivery) : (nodes : List Node) → Climbs bottom next rest → ∀ above,
      above ≠ bottom → nodes ≠ [] → Climbs bottom above (Node.preorders level next nodes ++ rest)
  | [], _, _, _, empty => absurd rfl empty
  | node :: nodes, after, above, differs, _ => by
    simp only [Node.preorders_cons, List.append_assoc]
    cases nodes with
    | nil =>
      simpa using Node.climbs level next bottom (Nat.le_of_lt other) rest node after above differs
    | cons other' nodes =>
      apply Node.climbs level level bottom (Nat.le_of_lt other) _ node _ above differs
      exact Node.climbs_all level next bottom other rest (other' :: nodes) after level
        (Nat.ne_of_gt other) (by simp)

end

/-- The level falls back to that of the node when all of it has been delivered. -/
theorem Node.climbs_inside (level : Nat) (node : Node) :
    Climbs level (node.head level level).nextNestLevel (node.inside level level) := by
  cases node with
  | mk value label bytes children =>
    cases children with
    | nil => simp [Node.head, Node.inside, Node.children, Climbs]
    | cons child children =>
      have inner := Node.climbs_all (level + 1) level level (by omega) [] (child :: children) rfl
        (level + 1) (by omega) (by simp)
      simpa [Node.head, Node.inside, Node.children] using inner

mutual

theorem Node.levels (level next : Nat) : (node : Node) → ∀ e ∈ node.preorder level next,
    e.item.nextNestLevel = next ∨ level < e.item.nextNestLevel
  | .mk value label bytes children => by
    intro e member
    simp only [Node.preorder, List.mem_cons] at member
    rcases member with rfl | inner
    · cases children with
      | nil => simp
      | cons child children => simp
    · rcases Node.levels_all (level + 1) next children e inner with same | deeper
      · exact Or.inl same
      · exact Or.inr (Nat.lt_of_succ_le deeper)

theorem Node.levels_all (level next : Nat) : (nodes : List Node) →
    ∀ e ∈ Node.preorders level next nodes,
      e.item.nextNestLevel = next ∨ level ≤ e.item.nextNestLevel
  | [], e, member => by simp at member
  | node :: nodes, e, member => by
    rw [Node.preorders_cons, List.mem_append] at member
    rcases member with first | later
    · rcases Node.levels level _ node e first with same | deeper
      · cases nodes with
        | nil => exact Or.inl (by simpa using same)
        | cons other nodes => exact Or.inr (by simp_all)
      · exact Or.inr (Nat.le_of_lt deeper)
    · exact Node.levels_all level next nodes e later

theorem Node.WellFormed.delivered (level next : Nat) : (node : Node) → node.WellFormed →
    ∀ e ∈ node.preorder level next, e.item.value ≠ .none
  | .mk value label bytes children, wf => by
    intro e member
    simp only [Node.preorder, List.mem_cons] at member
    rcases member with rfl | inner
    · rintro rfl
      exact wf.counts
    · exact Node.WellFormed.delivered_all (level + 1) next children wf.inner e inner

theorem Node.WellFormed.delivered_all (level next : Nat) : (nodes : List Node) →
    (∀ node ∈ nodes, node.WellFormed) →
      ∀ e ∈ Node.preorders level next nodes, e.item.value ≠ .none
  | [], _, e, member => by simp at member
  | node :: nodes, wf, e, member => by
    rw [Node.preorders_cons, List.mem_append] at member
    rcases member with first | later
    · exact Node.WellFormed.delivered level _ node (wf node (by simp)) e first
    · exact Node.WellFormed.delivered_all level next nodes
        (fun other within => wf other (by simp [within])) e later

end

end Levels

end TeepDevice.Teep
