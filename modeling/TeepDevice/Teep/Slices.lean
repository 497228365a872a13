import TeepDevice.Tcbor.Grammar
import TeepDevice.Teep.Descriptions

/-! Where the component ids of a QueryResponse lie in its bytes. The start of a
slice is taken in front of the item that `QCBORDecode_GetNext` consumes, which is
the array in an array of ids and the label in a map. -/
namespace TeepDevice.Teep

variable {q : Qcbor} {malloc : Malloc}

/-- The entry with this label, or the last of them. -/
def lastOption (key : Int) : List Node → Option Node
  | [] => none
  | node :: nodes => (lastOption key nodes).or (if node.label = some key then some node else none)

theorem lastOption_eq_none_iff {key : Int} {nodes : List Node} :
    lastOption key nodes = none ↔ ∀ node ∈ nodes, node.label ≠ some key := by
  induction nodes with
  | nil => simp [lastOption]
  | cons node nodes ih => simp [lastOption, ih, and_comm]

theorem lastOption_some {key : Int} {nodes : List Node} {node : Node}
    (found : lastOption key nodes = some node) : node ∈ nodes ∧ node.label = some key := by
  induction nodes with
  | nil => cases found
  | cons first nodes ih =>
    rcases Option.or_eq_some_iff.mp found with later | ⟨-, here⟩
    · obtain ⟨member, label⟩ := ih later
      exact ⟨List.mem_cons_of_mem _ member, label⟩
    · split at here
      · rename_i label
        cases here
        exact ⟨List.mem_cons_self .., label⟩
      · cases here

/-- The message has this list of another one. -/
def ListOption.Same (m x : Message) : ListOption → Prop
  | .tcList => x.tcList = m.tcList
  | .requestedTcList => x.requestedTcList = m.requestedTcList
  | .unneededTcList => x.unneededTcList = m.unneededTcList

/-- The message has the list that this option encodes. -/
def ListOption.Holds (q : Qcbor) (node : Node) (x : Message) : ListOption → Prop
  | .tcList => ∃ infos, node.list (Node.tcInfo q) = some infos ∧ x.tcList = some infos
  | .requestedTcList =>
    ∃ infos, node.list (Node.tcInfo q) = some infos ∧ x.requestedTcList = some infos
  | .unneededTcList => ∃ ids, node.list Node.componentId = some ids ∧ x.unneededTcList = some ids

/-- The last option with its key decides about a list. -/
def ListOption.After (q : Qcbor) (nodes : List Node) (m x : Message) (kind : ListOption) : Prop :=
  match lastOption kind.key nodes with
  | some node => kind.Holds q node x
  | none => kind.Same m x

section Effects
variable {α β : Type} {kind : ListOption} {m x y : Message} {node : Node} {cbor : Bytes}
  {d : q.Decoder} {a level next : Nat} {rest : List Delivery}

theorem ListOption.Same.trans (same : kind.Same m y) (same' : kind.Same y x) : kind.Same m x := by
  cases kind with
  | tcList => exact Eq.trans same' same
  | requestedTcList => exact Eq.trans same' same
  | unneededTcList => exact Eq.trans same' same

theorem ListOption.Holds.same (holds : kind.Holds q node y) (same : kind.Same y x) :
    kind.Holds q node x := by
  cases kind with
  | tcList =>
    obtain ⟨infos, list, field⟩ := holds
    exact ⟨infos, list, Eq.trans same field⟩
  | requestedTcList =>
    obtain ⟨infos, list, field⟩ := holds
    exact ⟨infos, list, Eq.trans same field⟩
  | unneededTcList =>
    obtain ⟨infos, list, field⟩ := holds
    exact ⟨infos, list, Eq.trans same field⟩

theorem ListOption.same_copy (kind : ListOption) (m x : Message) : kind.Same m (kind.copy m x) := by
  cases kind <;> rfl

theorem ListOption.holds_read (read : kind.read q node m = some x) : kind.Holds q node x := by
  cases kind with
  | tcList =>
    obtain ⟨infos, list, rfl⟩ := Option.map_eq_some_iff.mp read
    exact ⟨infos, list, rfl⟩
  | requestedTcList =>
    obtain ⟨infos, list, rfl⟩ := Option.map_eq_some_iff.mp read
    exact ⟨infos, list, rfl⟩
  | unneededTcList =>
    obtain ⟨infos, list, rfl⟩ := Option.map_eq_some_iff.mp read
    exact ⟨infos, list, rfl⟩

/-- A sequence that gives a value did so in both of its parts. -/
theorem exec_bind_inv {step : Parse q α} {f : α → Parse q β} {v : β}
    (run : (exec (step >>= f) d a).1 = some v) :
    ∃ u d' b, exec step d a = (some u, d', b) ∧ (exec (f u) d' b).1 = some v := by
  cases first : exec step d a with
  | mk u state =>
    cases u with
    | none =>
      rw [exec_bind_none (congrArg Prod.fst first)] at run
      cases run
    | some u =>
      rw [exec_bind_some first] at run
      exact ⟨u, state.1, state.2, rfl, run⟩

/-- A run that gives a value gives the one that the items determine. -/
theorem Reads.value {step : Bytes → Parse q α} {es : List Delivery} {v : α}
    {r : Option (α × Nat × List Delivery)} (reads : Reads step es a r) (plays : Plays q cbor es d)
    (run : (exec (step cbor) d a).1 = some v) :
    ∃ d' b left, r = some (v, b, left) ∧ exec (step cbor) d a = (some v, d', b) ∧
      Plays q cbor left d' := by
  cases r with
  | none =>
    rw [reads cbor d plays] at run
    cases run
  | some r =>
    obtain ⟨d', found, later⟩ := reads cbor d plays
    rw [found] at run
    cases run
    exact ⟨d', r.2.1, r.2.2, rfl, found, later⟩

/-- What one option does to the lists. -/
theorem parseOption_effect {nestLevel : Nat} (type : m.type = .queryResponse)
    (wf : node.WellFormed) (plays : Plays q cbor (node.inside level next ++ rest) d)
    (run : (exec (parseOption malloc cbor m (node.head level next) nestLevel) d a).1 = some x)
    (kind : ListOption) :
    if node.label = some kind.key then kind.Holds q node x else kind.Same m x := by
  split
  · rename_i label
    have reads := reads_listOption (q := q) malloc kind label type wf level next nestLevel a rest
    obtain ⟨d', b, left, found, -⟩ := reads.value plays run
    split at found
    · obtain ⟨y, read, same⟩ := Option.map_eq_some_iff.mp found
      cases same
      exact ListOption.holds_read read
    · cases found
  · rename_i label
    have copied : (parseOption malloc cbor m (node.head level next) nestLevel : Parse q Message) =
        parseOption malloc cbor m (node.head level next) nestLevel >>= fun y =>
          pure (kind.copy m y) := by
      have same := @parseOption_copy q malloc kind m m nestLevel (node.head level next) cbor label
      rw [kind.copy_self, map_eq_pure_bind] at same
      exact same
    rw [copied] at run
    obtain ⟨y, d', b, -, last⟩ := exec_bind_inv run
    cases last
    exact kind.same_copy m y

theorem ListOption.after_cons {nodes : List Node}
    (effect : if node.label = some kind.key then kind.Holds q node y else kind.Same m y)
    (others : kind.After q nodes y x) : kind.After q (node :: nodes) m x := by
  unfold ListOption.After at others ⊢
  rw [lastOption]
  cases later : lastOption kind.key nodes with
  | some last =>
    rw [later] at others
    exact others
  | none =>
    rw [later] at others
    split at effect
    · rename_i label
      rw [if_pos label]
      exact effect.same others
    · rename_i label
      rw [if_neg label]
      exact effect.trans others

/-- What the options of a map do to the lists. -/
theorem optionsLoop_effect (level next : Nat) (nodes : List Node)
    (wf : ∀ node ∈ nodes, node.WellFormed) (type : m.type = .queryResponse)
    (plays : Plays q cbor (Node.preorders level next nodes ++ rest) d)
    (run : (exec (parseOptionsLoop malloc cbor level nodes.length m) d a).1 = some x)
    (kind : ListOption) : kind.After q nodes m x := by
  induction nodes generalizing m d a with
  | nil =>
    cases run
    cases kind <;> rfl
  | cons node nodes ih =>
    have first := wf node (by simp)
    rw [Node.preorders_cons, Node.preorder_eq, List.append_assoc] at plays
    rw [List.length_cons, parseOptionsLoop, exec_found plays] at run
    obtain ⟨y, d', b, option, others⟩ := exec_bind_inv run
    have read := congrArg Prod.fst option
    have effect := parseOption_effect type first plays.2.2.2 read kind
    cases nodes with
    | nil =>
      cases others
      exact ListOption.after_cons effect (by cases kind <;> rfl)
    | cons other nodes =>
      rcases parseOption_inner (q := q) malloc level m first a with ⟨z, c, kept, reads⟩ | fails
      · obtain ⟨d₁, c₁, left, found, again, later⟩ := (reads _).value plays.2.2.2 read
        cases found
        cases again.symm.trans option
        exact ListOption.after_cons effect
          (ih (fun node within => wf node (by simp_all)) (kept.trans type) later others)
      · obtain ⟨d₁, c₁, left, found, -⟩ := (fails _).value plays.2.2.2 read
        cases found

end Effects

section Accepted
variable {m : Message} {cbor : Bytes} {tree : Node} {a b : Nat}

/-- The lists of an accepted QueryResponse are those of the last options with their keys. -/
theorem accepted_lists (wf : tree.WellFormed) (delivers : Delivers q cbor tree)
    (accepted : parseTeepMessage q malloc a cbor = (some m, b)) (type : m.type = .queryResponse)
    (kind : ListOption) : kind.After q tree.options (.zero .queryResponse) m := by
  obtain ⟨c, v, l₀, l₁, l₂, h₀, h₁, h₂, type', options, tail, rfl, known⟩ :=
    accepted_shape malloc wf delivers accepted
  have wfOptions : ∀ node ∈ options, node.WellFormed :=
    (wf.inner (.mk (.map options.length) l₂ h₂ options) (by simp [Node.children])).inner
  have isResponse : type' = .queryResponse := by
    obtain ⟨r, reads, same⟩ := settled_message (q := q) malloc options known wfOptions a
    obtain ⟨left, rfl⟩ := (parseTeepMessage_reads malloc delivers reads m b).mp accepted
    exact (same _ rfl).symm.trans type
  subst isResponse
  have ends {r : Option (Message × Nat × List Delivery)} (kept : OfType .queryResponse r)
      (loop : Reads (fun cbor => (parseOptionsLoop malloc cbor
        (if options.isEmpty then afterOptions tail else 2) options.length (.zero .queryResponse) :
          Parse q Message))
        (Node.preorders 2 (afterOptions tail) options ++ Node.preorders 1 0 tail) (a + 1) r) :
      ∃ c', r = some (m, c', []) := by
    obtain ⟨left, found⟩ := (parseTeepMessage_reads malloc delivers
      (reads_message malloc known fun _ => loop.conclude kept) m b).mp accepted
    split at found
    · obtain ⟨some, empty⟩ := Option.filter_eq_some_iff.mp found
      cases List.isEmpty_iff.mp empty
      exact ⟨b, some⟩
    · cases found
  cases options with
  | nil =>
    obtain ⟨c', same⟩ := ends (ofType_some rfl) (reads_pure _)
    have unchanged : Message.zero .queryResponse = m := congrArg Prod.fst (Option.some.inj same)
    rw [← unchanged]
    cases kind <;> rfl
  | cons option options =>
    obtain ⟨r, loop, kept⟩ := settled_optionsLoop (q := q) malloc 2 (afterOptions tail) _ wfOptions
      (.zero .queryResponse) (Node.preorders 1 0 tail) (a + 1)
    obtain ⟨c', rfl⟩ := ends kept loop
    have plays : Plays q cbor ((messageOf (.array c) v l₀ l₁ l₂ h₀ h₁ h₂ (option :: options)
      tail).preorder 0 0) (q.init cbor) := delivers
    rw [preorder_messageOf] at plays
    have behind := plays.2.2.2.2.2.2.2.2.2
    obtain ⟨d, run, -⟩ := loop cbor _ behind
    exact optionsLoop_effect 2 (afterOptions tail) _ wfOptions rfl behind
      (congrArg Prod.fst run) kind

end Accepted

section Exactness
open Tcbor
variable {m : Message} {tree node : Node} {cbor : Bytes} {a b : Nat}

/-- The encoding of a node without the label in front of it. -/
def Node.withoutLabel (node : Node) : Bytes :=
  match node.label, primitiveReadAny node.encoding with
  | some _, .ok (_, rest) => rest
  | _, _ => node.encoding

/-- A label is a data item in front of its value, and the elements of an array
have none. -/
inductive Node.Labelled : Node → Prop
  | intro {value : QcborValue} {label : Option Int} {bytes : Bytes} {children : List Node}
    (front : label ≠ none → ∃ head any behind, Head head any ∧ bytes = head ++ behind)
    (elements : ∀ n, value = .array n → ∀ child ∈ children, child.label = none)
    (inner : ∀ child ∈ children, Node.Labelled child) :
    Node.Labelled (.mk value label bytes children)

/-- The entries of a list, as the last option with its key has them. -/
def entriesOf (kind : ListOption) (tree : Node) : List Node :=
  ((lastOption kind.key tree.options).map Node.children).getD []

/-- The component ids of the three lists are the arrays, and nothing but them. -/
structure SlicedExactly (tree : Node) (m : Message) : Prop where
  tcList : List.Forall₂ (fun entry info => info.componentId =
    (lastOption OptionKey.componentId entry.children).map Node.withoutLabel)
    (entriesOf .tcList tree) (m.tcList.getD [])
  requestedTcList : List.Forall₂ (fun entry info => info.componentId =
    (lastOption OptionKey.componentId entry.children).map Node.withoutLabel)
    (entriesOf .requestedTcList tree) (m.requestedTcList.getD [])
  unneededTcList : List.Forall₂ (fun entry id => id = entry.withoutLabel)
    (entriesOf .unneededTcList tree) (m.unneededTcList.getD [])

/-- No map of the two lists of trusted components has a component id. -/
def WithoutIds (tree : Node) : Prop :=
  ∀ entry ∈ entriesOf .tcList tree ++ entriesOf .requestedTcList tree,
    ∀ child ∈ entry.children, child.label ≠ some OptionKey.componentId

instance (tree : Node) : Decidable (WithoutIds tree) :=
  inferInstanceAs (Decidable (∀ entry ∈ _, ∀ child ∈ _, _))

theorem Node.Labelled.inner (labelled : node.Labelled) :
    ∀ child ∈ node.children, child.Labelled := by
  cases labelled with
  | intro front elements inner => exact inner

theorem Node.Labelled.withoutLabel_ne (labelled : node.Labelled) {key : Int}
    (label : node.label = some key) : node.encoding ≠ node.withoutLabel := by
  cases labelled with
  | @intro value label' bytes children front =>
    cases label
    obtain ⟨head, any, behind, isHead, rfl⟩ := front (by simp)
    have whole : (Node.mk value (some key) (head ++ behind) children).encoding =
        head ++ (behind ++ Node.encodings children) := List.append_assoc ..
    have length := congrArg List.length whole
    have some := isHead.length_pos
    intro same
    rw [Node.withoutLabel, whole, isHead.append] at same
    have shorter := congrArg List.length same
    simp only [Node.label, List.length_append] at shorter
    omega

theorem forall₂_iff {α β : Type} {R P : α → β → Prop} {Q : α → Prop} {xs : List α} {ys : List β}
    (related : List.Forall₂ R xs ys) (each : ∀ x ∈ xs, ∀ y, R x y → (P x y ↔ Q x)) :
    List.Forall₂ P xs ys ↔ ∀ x ∈ xs, Q x := by
  induction related with
  | nil => simp
  | cons first _ ih =>
    obtain ⟨here, others⟩ := List.forall_mem_cons.mp each
    rw [List.forall₂_cons, ih others, here _ first, List.forall_mem_cons]

theorem mapM_forall₂ {α β : Type} {f : α → Option β} {xs : List α} {ys : List β}
    (all : xs.mapM f = some ys) : List.Forall₂ (fun x y => f x = some y) xs ys := by
  induction xs generalizing ys with
  | nil =>
    cases all
    exact .nil
  | cons x xs ih =>
    simp only [List.mapM_cons, Option.bind_eq_bind, Option.bind_eq_some_iff] at all
    obtain ⟨y, first, zs, rest, same⟩ := all
    cases same
    exact .cons first (ih rest)

theorem componentId_encoding {id : Bytes} (read : node.componentId = some id) :
    node.componentId = some node.encoding := by
  unfold Node.componentId at read ⊢
  split at read
  · obtain ⟨units, all, -⟩ := Option.map_eq_some_iff.mp read
    rw [all]
    rfl
  · cases read

/-- What is stored as the component id of a description. -/
theorem foldlM_componentId {nodes : List Node} {info info' : TcInfo}
    (read : nodes.foldlM (TcInfo.withEntry q) info = some info') :
    info'.componentId = ((lastOption OptionKey.componentId nodes).map Node.encoding).or
      info.componentId := by
  induction nodes generalizing info with
  | nil =>
    cases read
    rfl
  | cons node nodes ih =>
    simp only [List.foldlM_cons, Option.bind_eq_bind, Option.bind_eq_some_iff] at read
    obtain ⟨next, first, others⟩ := read
    rw [ih others, lastOption]
    have step : next.componentId = if node.label = some OptionKey.componentId then
        some node.encoding else info.componentId := by
      unfold TcInfo.withEntry at first
      split at first
      · rename_i label
        obtain ⟨id, array, rfl⟩ := Option.map_eq_some_iff.mp first
        rw [if_pos label]
        exact array.symm.trans (componentId_encoding array)
      · rename_i label
        rw [if_neg label]
        split at first
        · obtain ⟨n, -, rfl⟩ := Option.map_eq_some_iff.mp first
          rfl
        · cases first
    rw [step]
    split
    · cases lastOption OptionKey.componentId nodes <;> rfl
    · cases lastOption OptionKey.componentId nodes <;> rfl

theorem tcInfo_componentId {info : TcInfo} (read : node.tcInfo q = some info) :
    info.componentId = (lastOption OptionKey.componentId node.children).map Node.encoding := by
  unfold Node.tcInfo at read
  split at read
  · rw [foldlM_componentId read, Option.or_none]
  · cases read

theorem list_forall₂ {α : Type} {value : Node → Option α} {xs : List α}
    (read : node.list value = some xs) :
    (∃ n, node.value = .array n) ∧ List.Forall₂ (fun x y => value x = some y) node.children xs := by
  unfold Node.list at read
  split at read
  · rename_i n array
    exact ⟨⟨n, array⟩, mapM_forall₂ read⟩
  · cases read

/-- The entries and what was stored of them correspond, one by one. -/
theorem entries_forall₂ {α : Type} {value : Node → Option α} {kind : ListOption}
    {field : Option (List α)}
    (after : match lastOption kind.key tree.options with
      | some node => ∃ xs, node.list value = some xs ∧ field = some xs
      | none => field = none) :
    List.Forall₂ (fun x y => value x = some y) (entriesOf kind tree) (field.getD []) ∧
      ∀ entry ∈ entriesOf kind tree, ∃ node ∈ tree.options, entry ∈ node.children ∧
        ∃ n, node.value = .array n := by
  unfold entriesOf
  cases found : lastOption kind.key tree.options with
  | none =>
    rw [found] at after
    cases after
    exact ⟨.nil, by simp⟩
  | some node =>
    rw [found] at after
    obtain ⟨xs, list, rfl⟩ := after
    obtain ⟨array, related⟩ := list_forall₂ list
    exact ⟨related, fun entry within => ⟨node, (lastOption_some found).1, within, array⟩⟩

theorem Node.Labelled.option (labelled : tree.Labelled) : ∀ node ∈ tree.options, node.Labelled := by
  unfold Node.options
  split
  · rename_i options others
    exact (labelled.inner options (by simp [Node.children])).inner
  · simp

theorem Node.Labelled.element (labelled : node.Labelled) {n : Nat} (array : node.value = .array n) :
    ∀ child ∈ node.children, child.label = none := by
  cases labelled with
  | intro front elements inner => exact elements n array

theorem Node.withoutLabel_none (label : node.label = none) : node.withoutLabel = node.encoding := by
  unfold Node.withoutLabel
  rw [label]

/-- In a map, the slice is not the array. -/
theorem tcInfo_sliced_iff (labelled : node.Labelled) {info : TcInfo}
    (read : node.tcInfo q = some info) :
    info.componentId = (lastOption OptionKey.componentId node.children).map Node.withoutLabel ↔
      ∀ child ∈ node.children, child.label ≠ some OptionKey.componentId := by
  rw [tcInfo_componentId read, ← lastOption_eq_none_iff]
  cases found : lastOption OptionKey.componentId node.children with
  | none => simp
  | some child =>
    obtain ⟨within, label⟩ := lastOption_some found
    have differs := (labelled.inner child within).withoutLabel_ne label
    simpa using differs

theorem componentIds_sliced_iff (wf : tree.WellFormed) (labelled : tree.Labelled)
    (delivers : Delivers q cbor tree)
    (accepted : parseTeepMessage q malloc a cbor = (some m, b)) (type : m.type = .queryResponse) :
    SlicedExactly tree m ↔ WithoutIds tree := by
  have lists := accepted_lists wf delivers accepted type
  obtain ⟨installed, within⟩ := @entries_forall₂ tree _ (Node.tcInfo q) .tcList _ (lists .tcList)
  obtain ⟨requested, within'⟩ :=
    @entries_forall₂ tree _ (Node.tcInfo q) .requestedTcList _ (lists .requestedTcList)
  obtain ⟨unneeded, within''⟩ :=
    @entries_forall₂ tree _ Node.componentId .unneededTcList _ (lists .unneededTcList)
  have maps {kind : ListOption} (within : ∀ entry ∈ entriesOf kind tree, ∃ node ∈ tree.options,
      entry ∈ node.children ∧ ∃ n, node.value = .array n) :
      ∀ entry ∈ entriesOf kind tree, entry.Labelled := by
    intro entry member
    obtain ⟨node, option, child, -⟩ := within entry member
    exact (labelled.option node option).inner entry child
  have first := forall₂_iff installed fun entry member info read =>
    tcInfo_sliced_iff (maps within entry member) read
  have second := forall₂_iff requested fun entry member info read =>
    tcInfo_sliced_iff (maps within' entry member) read
  -- the entries of the third list have no label
  have third : List.Forall₂ (fun entry id => id = entry.withoutLabel)
      (entriesOf .unneededTcList tree) (m.unneededTcList.getD []) := by
    refine (forall₂_iff (Q := fun _ => True) unneeded fun entry member id read => ?_).mpr
      fun _ _ => trivial
    obtain ⟨node, option, child, n, array⟩ := within'' entry member
    have label := (labelled.option node option).element array entry child
    rw [Node.withoutLabel_none label]
    exact iff_true_intro (Option.some.inj (read.symm.trans (componentId_encoding read)))
  constructor
  · intro sliced entry member
    rcases List.mem_append.mp member with here | here
    · exact first.mp sliced.tcList entry here
    · exact second.mp sliced.requestedTcList entry here
  · intro without
    refine ⟨first.mpr ?_, second.mpr ?_, third⟩
    · exact fun entry member => without entry (List.mem_append_left _ member)
    · exact fun entry member => without entry (List.mem_append_right _ member)

end Exactness

section Checking
open Tcbor

instance (value : QcborValue) (n : Nat) : Decidable (value.counts n) :=
  match value with
  | .none => inferInstanceAs (Decidable False)
  | .array count | .map count => inferInstanceAs (Decidable (count = n))
  | .int64 _ | .byteString _ | .textString _ | .other => inferInstanceAs (Decidable (n = 0))

def labelInFront (label : Option Int) (bytes : Bytes) : Bool :=
  label.isNone || (primitiveReadAny bytes).toBool

def plainElements (value : QcborValue) (children : List Node) : Bool :=
  match value with
  | .array _ => children.all fun child => child.label.isNone
  | _ => true

mutual

/-- A check of a whole tree. -/
def Node.sound : Node → Bool
  | .mk value label bytes children =>
    decide (value.counts children.length) && labelInFront label bytes &&
      plainElements value children && Node.allSound children

def Node.allSound : List Node → Bool
  | [] => true
  | node :: nodes => node.sound && Node.allSound nodes

end

mutual

theorem Node.sound_labelled : (node : Node) → node.sound = true → node.WellFormed ∧ node.Labelled
  | .mk value label bytes children, sound => by
    simp only [Node.sound, Bool.and_eq_true, decide_eq_true_eq] at sound
    obtain ⟨⟨⟨counts, front⟩, elements⟩, inner⟩ := sound
    have each := Node.allSound_labelled children inner
    refine ⟨.intro counts fun child within => (each child within).1, .intro ?_ ?_
      fun child within => (each child within).2⟩
    · intro labelled
      rcases Bool.or_eq_true_iff.mp front with none | some
      · exact absurd (Option.isNone_iff_eq_none.mp none) labelled
      · cases read : primitiveReadAny bytes with
        | error e =>
          rw [read] at some
          cases some
        | ok taken =>
          obtain ⟨head, isHead, same⟩ := (primitiveReadAny_ok_iff).mp read
          exact ⟨head, taken.1, taken.2, isHead, same⟩
    · rintro n rfl child within
      have none := List.all_eq_true.mp elements child within
      exact Option.isNone_iff_eq_none.mp none

theorem Node.allSound_labelled : (nodes : List Node) → Node.allSound nodes = true →
    ∀ node ∈ nodes, node.WellFormed ∧ node.Labelled
  | [], _ => by simp
  | node :: nodes, sound => by
    obtain ⟨here, others⟩ := Bool.and_eq_true_iff.mp sound
    exact List.forall_mem_cons.mpr
      ⟨Node.sound_labelled node here, Node.allSound_labelled nodes others⟩

end

end Checking

section Samples

/-- One requested component with this entry, and one id that is not needed. -/
def twoListsTree (entry : Node) : Node :=
  responseTree [0x82] [0x02] [0xA2]
    [.mk (.array 1) (some OptionKey.requestedTcList) [0x0E, 0x81]
        [.mk (.map 1) none [0xA1] [entry]],
      .mk (.array 1) (some OptionKey.unneededTcList) [0x0F, 0x81]
        [.mk (.array 1) none [0x81] [.mk (.byteString [0xAA]) none [0x41, 0xAA] []]]]

/-- A requested component with a sequence number only. -/
theorem componentIds_sliced_iff_numbered :
    SlicedExactly (twoListsTree (.mk (.int64 5) (some OptionKey.tcManifestSequenceNumber)
        [0x11, 0x05] []))
      { Message.zero .queryResponse with
        requestedTcList := some [⟨none, some 5, none⟩]
        unneededTcList := some [[0x81, 0x41, 0xAA]] } := by
  have sound := Node.sound_labelled (twoListsTree (.mk (.int64 5)
    (some OptionKey.tcManifestSequenceNumber) [0x11, 0x05] [])) (by decide)
  have delivers : Delivers referenceQcbor [0x82, 0x02, 0xA2, 0x0E, 0x81, 0xA1, 0x11, 0x05, 0x0F,
      0x81, 0x81, 0x41, 0xAA] (twoListsTree (.mk (.int64 5)
        (some OptionKey.tcManifestSequenceNumber) [0x11, 0x05] [])) := by decide +kernel
  have accepted : parseTeepMessage referenceQcbor (fun _ _ => true) 0 [0x82, 0x02, 0xA2, 0x0E,
      0x81, 0xA1, 0x11, 0x05, 0x0F, 0x81, 0x81, 0x41, 0xAA] =
        (some { Message.zero .queryResponse with
          requestedTcList := some [⟨none, some 5, none⟩]
          unneededTcList := some [[0x81, 0x41, 0xAA]] }, 3) := by decide +kernel
  refine (componentIds_sliced_iff sound.1 sound.2 delivers accepted rfl).mpr ?_
  decide

/-- The same id in both lists: the requested one is stored with the label 16. -/
theorem requested_id_with_label :
    Delivers referenceQcbor [0x82, 0x02, 0xA2, 0x0E, 0x81, 0xA1, 0x10, 0x81, 0x41, 0xAA, 0x0F,
        0x81, 0x81, 0x41, 0xAA] (twoListsTree (.mk (.array 1) (some OptionKey.componentId)
          [0x10, 0x81] [.mk (.byteString [0xAA]) none [0x41, 0xAA] []])) ∧
      parseTeepMessage referenceQcbor (fun _ _ => true) 0 [0x82, 0x02, 0xA2, 0x0E, 0x81, 0xA1,
        0x10, 0x81, 0x41, 0xAA, 0x0F, 0x81, 0x81, 0x41, 0xAA] =
          (some { Message.zero .queryResponse with
            requestedTcList := some [⟨some [0x10, 0x81, 0x41, 0xAA], none, none⟩]
            unneededTcList := some [[0x81, 0x41, 0xAA]] }, 3) ∧
      ¬ SlicedExactly (twoListsTree (.mk (.array 1) (some OptionKey.componentId)
          [0x10, 0x81] [.mk (.byteString [0xAA]) none [0x41, 0xAA] []]))
        { Message.zero .queryResponse with
          requestedTcList := some [⟨some [0x10, 0x81, 0x41, 0xAA], none, none⟩]
          unneededTcList := some [[0x81, 0x41, 0xAA]] } := by
  refine ⟨by decide +kernel, by decide +kernel, fun sliced => ?_⟩
  obtain ⟨first, -⟩ := List.forall₂_cons.mp sliced.requestedTcList
  revert first
  decide

end Samples

end TeepDevice.Teep
