import TeepDevice.Teep.Encoder
import TeepDevice.Teep.Preorder

/-! The data item that the calls on an encoder describe, and its encoding. The
open containers are on a stack, innermost first, with the items put in so far. -/
namespace TeepDevice.Teep

structure Container where
  isMap : Bool
  label : Option Int
  children : List Node

def labelBytes : Option Int → Bytes
  | none => []
  | some label => referenceInt label

def intNode (v : Int) : Node := .mk (.int64 v) none (referenceInt v) []

def textNode (s : Bytes) : Node :=
  .mk (.textString s) none (referenceHead 3 s.length ++ s) []

def bytesNode (label : Option Int) (b : Bytes) : Node :=
  .mk (.byteString b) label (labelBytes label ++ referenceHead 2 b.length ++ b) []

def arrayNode (label : Option Int) (children : List Node) : Node :=
  .mk (.array children.length) label (labelBytes label ++ referenceHead 4 children.length) children

def mapNode (label : Option Int) (children : List Node) : Node :=
  .mk (.map children.length) label (labelBytes label ++ referenceHead 5 children.length) children

def Container.node (c : Container) : Node :=
  if c.isMap then mapNode c.label c.children else arrayNode c.label c.children

def put (node : Node) : List Container → Option (List Container)
  | [] => none
  | c :: levels => some ({ c with children := c.children ++ [node] } :: levels)

def buildOp (levels : List Container) : EncodeOp → Option (List Container)
  | .openArray => some (⟨false, none, []⟩ :: levels)
  | .openMap => some (⟨true, none, []⟩ :: levels)
  | .openArrayInMapN label =>
    if levels.isEmpty then none else some (⟨false, some label, []⟩ :: levels)
  | .addInt64 v => put (intNode v) levels
  | .addUInt64 v =>
    put (.mk (if v < 2 ^ 63 then .int64 v else .other) none (referenceHead 0 v) []) levels
  | .addSZString s => put (textNode s) levels
  | .addBytesToMapN label b => put (bytesNode (some label) b) levels
  | .closeArray | .closeMap =>
    match levels with
    | [] => none
    | c :: levels => put c.node levels

/-- The one item that a complete sequence of calls describes. -/
def treeOf (ops : List EncodeOp) : Option Node :=
  match ops.foldlM buildOp [⟨false, none, []⟩] with
  | some [⟨_, _, [tree]⟩] => some tree
  | _ => none

theorem Node.encodings_append (nodes nodes' : List Node) :
    Node.encodings (nodes ++ nodes') = Node.encodings nodes ++ Node.encodings nodes' := by
  induction nodes with
  | nil => rfl
  | cons node nodes ih => simp only [List.cons_append, Node.encodings, ih, List.append_assoc]

section Reference

/-- The reference encoder's stack for the same open containers: a label is
written to the outer container before the inner one is opened. -/
def referenceLevels : Bytes → List Container → List (Bool × Nat × Bytes)
  | _, [] => []
  | pending, c :: levels =>
    (c.isMap, c.children.length, Node.encodings c.children ++ pending) ::
      referenceLevels (labelBytes c.label) levels

theorem referenceEncode_put {op : EncodeOp} {node : Node} {levels after : List Container}
    {ops : List EncodeOp} (step : put node levels = some after)
    (encodes : ∀ isMap n out levels, referenceEncode (op :: ops) ((isMap, n, out) :: levels) =
      referenceEncode ops ((isMap, n + 1, out ++ node.encoding) :: levels)) :
    referenceEncode (op :: ops) (referenceLevels [] levels) =
      referenceEncode ops (referenceLevels [] after) := by
  cases levels with
  | nil => cases step
  | cons c levels =>
    cases step
    simp [referenceLevels, encodes, Node.encodings_append, Node.encodings]

theorem referenceEncode_close {op : EncodeOp} {c : Container} {levels after : List Container}
    {ops : List EncodeOp} (step : put c.node levels = some after)
    (closes : op = .closeArray ∨ op = .closeMap) :
    referenceEncode (op :: ops) (referenceLevels [] (c :: levels)) =
      referenceEncode ops (referenceLevels [] after) := by
  cases levels with
  | nil => cases step
  | cons outer levels =>
    cases step
    cases c with
    | mk isMap label children =>
      cases isMap with
      | true =>
        rcases closes with rfl | rfl <;>
          simp [referenceEncode, referenceLevels, Container.node, mapNode,
            Node.encodings_append, Node.encodings, Node.encoding]
      | false =>
        rcases closes with rfl | rfl <;>
          simp [referenceEncode, referenceLevels, Container.node, arrayNode,
            Node.encodings_append, Node.encodings, Node.encoding]

theorem referenceEncode_levels {ops : List EncodeOp} {levels : List Container} {tree : Node}
    {isMap : Bool} {label : Option Int}
    (built : ops.foldlM buildOp levels = some [⟨isMap, label, [tree]⟩]) :
    referenceEncode ops (referenceLevels [] levels) = some tree.encoding := by
  induction ops generalizing levels with
  | nil =>
    cases Option.some.inj built
    simp [referenceEncode, referenceLevels, Node.encodings]
  | cons op ops ih =>
    rw [List.foldlM_cons, Option.bind_eq_bind, Option.bind_eq_some_iff] at built
    obtain ⟨after, step, built⟩ := built
    rw [← ih built]
    cases op with
    | openArray =>
      cases step
      simp [referenceEncode, referenceLevels, Node.encodings, labelBytes]
    | openMap =>
      cases step
      simp [referenceEncode, referenceLevels, Node.encodings, labelBytes]
    | openArrayInMapN l =>
      cases levels with
      | nil => cases step
      | cons c levels =>
        cases step
        simp [referenceEncode, referenceLevels, Node.encodings, labelBytes]
    | addInt64 v =>
      exact referenceEncode_put step fun isMap n out levels => by
        simp [referenceEncode, intNode, Node.encoding, Node.encodings]
    | addUInt64 v =>
      exact referenceEncode_put step fun isMap n out levels => by
        simp [referenceEncode, Node.encoding, Node.encodings]
    | addSZString s =>
      exact referenceEncode_put step fun isMap n out levels => by
        simp [referenceEncode, textNode, Node.encoding, Node.encodings]
    | addBytesToMapN l b =>
      exact referenceEncode_put step fun isMap n out levels => by
        simp [referenceEncode, bytesNode, labelBytes, Node.encoding, Node.encodings]
    | closeArray =>
      cases levels with
      | nil => cases step
      | cons c levels => exact referenceEncode_close step (Or.inl rfl)
    | closeMap =>
      cases levels with
      | nil => cases step
      | cons c levels => exact referenceEncode_close step (Or.inr rfl)

end Reference

/-- An encoder that writes the encoding of what its calls describe. It fails
only if the buffer is too small for that, and leaves something in the buffer. -/
def Encodes (q : Qcbor) : Prop :=
  ∀ ops tree, treeOf ops = some tree → ∀ buffer : Bytes,
    if tree.encoding.length ≤ buffer.length then
      q.encode ops buffer = (tree.encoding ++ buffer.drop tree.encoding.length,
        some tree.encoding.length)
    else (q.encode ops buffer).2 = none ∧ (q.encode ops buffer).1.length = buffer.length

theorem referenceQcbor_encodes : Encodes referenceQcbor := by
  intro ops tree built buffer
  have encoded : referenceEncode ops [(false, 0, [])] = some tree.encoding := by
    unfold treeOf at built
    split at built
    · rename_i isMap label only whole
      cases built
      simpa [referenceLevels, Node.encodings] using referenceEncode_levels whole
    · cases built
  simp only [referenceQcbor, encoded]
  split
  · rfl
  · exact ⟨rfl, rfl⟩

section Appending

/-- Whatever is open, these calls put these items into the innermost container. -/
def Appends (ops : List EncodeOp) (nodes : List Node) : Prop :=
  ∀ c levels, ops.foldlM buildOp (c :: levels) =
    some ({ c with children := c.children ++ nodes } :: levels)

variable {ops ops' : List EncodeOp} {nodes nodes' : List Node}

theorem appends_nil : Appends [] [] := by
  intro c levels
  simp

theorem Appends.append (first : Appends ops nodes) (second : Appends ops' nodes') :
    Appends (ops ++ ops') (nodes ++ nodes') := by
  intro c levels
  rw [List.foldlM_append, first c levels]
  simpa using second { c with children := c.children ++ nodes } levels

theorem Appends.flatMap {α : Type} {f : α → List EncodeOp} {g : α → List Node}
    (each : ∀ x, Appends (f x) (g x)) (xs : List α) : Appends (xs.flatMap f) (xs.flatMap g) := by
  induction xs with
  | nil => exact appends_nil
  | cons x xs ih =>
    simp only [List.flatMap_cons]
    exact (each x).append ih

theorem appends_int (v : Int) : Appends [.addInt64 v] [intNode v] := by
  intro c levels
  rfl

theorem appends_text (s : Bytes) : Appends [.addSZString s] [textNode s] := by
  intro c levels
  rfl

theorem appends_bytes (label : Int) (b : Bytes) :
    Appends [.addBytesToMapN label b] [bytesNode (some label) b] := by
  intro c levels
  rfl

theorem Appends.array (inner : Appends ops nodes) :
    Appends (.openArray :: ops ++ [.closeArray]) [arrayNode none nodes] := by
  intro c levels
  simp [buildOp, inner ⟨false, none, []⟩ (c :: levels), put, Container.node]

theorem Appends.map (inner : Appends ops nodes) :
    Appends (.openMap :: ops ++ [.closeMap]) [mapNode none nodes] := by
  intro c levels
  simp [buildOp, inner ⟨true, none, []⟩ (c :: levels), put, Container.node]

theorem Appends.arrayInMap (inner : Appends ops nodes) (label : Int) :
    Appends (.openArrayInMapN label :: ops ++ [.closeArray]) [arrayNode (some label) nodes] := by
  intro c levels
  simp [buildOp, inner ⟨false, some label, []⟩ (c :: levels), put, Container.node]

theorem Appends.treeOf {tree : Node} (appends : Appends ops [tree]) :
    Teep.treeOf ops = some tree := by
  rw [Teep.treeOf, appends]
  rfl

end Appending

section Messages

def tokenNodes (token : Option Bytes) : List Node :=
  token.toList.map (bytesNode (some OptionKey.token))

/-- A message with its options and, where it has one, the item behind them. -/
def messageTree (type : MessageType) (options tail : List Node) : Node :=
  arrayNode none (intNode type.code :: mapNode none options :: tail)

theorem appends_token (token : Option Bytes) :
    Appends (addToken [] token) (tokenNodes token) := by
  cases token with
  | none => exact appends_nil
  | some b => exact appends_bytes OptionKey.token b

theorem addToken_eq (enc : MessageEncoder) (token : Option Bytes) :
    addToken enc token = enc ++ addToken [] token := by
  cases token with
  | none => simp [addToken]
  | some b => simp [addToken]

theorem appends_message (type : MessageType) {options tail : List EncodeOp}
    {optionNodes tailNodes : List Node} (inner : Appends options optionNodes)
    (behind : Appends tail tailNodes) :
    treeOf (messageEncoderFinish (closeOptions (openOptions (addHeader messageEncoderInit type) ++
      options) ++ tail)) = some (messageTree type optionNodes tailNodes) := by
  apply Appends.treeOf
  have whole := (((appends_int type.code).append inner.map).append behind).array
  simpa [messageTree, messageEncoderFinish, closeOptions, openOptions, addHeader,
    messageEncoderInit] using whole

end Messages

section WellFormed

theorem intNode_wellFormed (v : Int) : (intNode v).WellFormed :=
  .intro rfl (by simp)

theorem textNode_wellFormed (s : Bytes) : (textNode s).WellFormed :=
  .intro rfl (by simp)

theorem bytesNode_wellFormed (label : Option Int) (b : Bytes) : (bytesNode label b).WellFormed :=
  .intro rfl (by simp)

variable {children : List Node} (inner : ∀ child ∈ children, child.WellFormed)
include inner

theorem arrayNode_wellFormed (label : Option Int) : (arrayNode label children).WellFormed :=
  .intro rfl inner

theorem mapNode_wellFormed (label : Option Int) : (mapNode label children).WellFormed :=
  .intro rfl inner

theorem messageTree_wellFormed (type : MessageType) {tail : List Node}
    (behind : ∀ node ∈ tail, node.WellFormed) : (messageTree type children tail).WellFormed := by
  apply arrayNode_wellFormed
  intro node member
  simp only [List.mem_cons] at member
  rcases member with rfl | rfl | later
  · exact intNode_wellFormed _
  · exact mapNode_wellFormed inner none
  · exact behind node later

end WellFormed

theorem tokenNodes_wellFormed (token : Option Bytes) :
    ∀ node ∈ tokenNodes token, node.WellFormed := by
  intro node member
  obtain ⟨b, -, rfl⟩ := List.mem_map.mp member
  exact bytesNode_wellFormed _ b

end TeepDevice.Teep
