import TeepDevice.Teep.Skipping

/-! The three lists of components that a QueryResponse may have. Each of them is
only written by the option with its key, and an option is read the same whatever
the lists are. -/
namespace TeepDevice.Teep

variable {q : Qcbor} (malloc : Malloc)

inductive ListOption where
  | tcList
  | requestedTcList
  | unneededTcList

def ListOption.key : ListOption → Int
  | .tcList => OptionKey.tcList
  | .requestedTcList => OptionKey.requestedTcList
  | .unneededTcList => OptionKey.unneededTcList

/-- The message with this list of another one. -/
def ListOption.copy (source m : Message) : ListOption → Message
  | .tcList => { m with tcList := source.tcList }
  | .requestedTcList => { m with requestedTcList := source.requestedTcList }
  | .unneededTcList => { m with unneededTcList := source.unneededTcList }

/-- The bytes that the parser allocates for each entry. -/
def ListOption.size : ListOption → Nat
  | .tcList => 32
  | .requestedTcList => 32
  | .unneededTcList => 16

/-- The message with the list that an option holds. -/
def ListOption.read (q : Qcbor) (node : Node) (m : Message) : ListOption → Option Message
  | .tcList => (node.list (Node.tcInfo q)).map fun xs => { m with tcList := some xs }
  | .requestedTcList =>
    (node.list (Node.tcInfo q)).map fun xs => { m with requestedTcList := some xs }
  | .unneededTcList =>
    (node.list Node.componentId).map fun xs => { m with unneededTcList := some xs }

@[simp] theorem ListOption.copy_type (kind : ListOption) (source m : Message) :
    (kind.copy source m).type = m.type := by
  cases kind <;> rfl

@[simp] theorem ListOption.copy_self (kind : ListOption) (m : Message) : kind.copy m m = m := by
  cases kind <;> rfl

section Copying
variable {α : Type} {kind : ListOption} {source m : Message} {level : Nat} {option : QcborItem}

theorem copy_ite {c : Prop} [Decidable c] {yes yes' no no' : Parse q Message}
    (same : c → yes' = kind.copy source <$> yes) (same' : ¬ c → no' = kind.copy source <$> no) :
    (if c then yes' else no') = kind.copy source <$> (if c then yes else no) := by
  by_cases holds : c
  · rw [if_pos holds, if_pos holds, same holds]
  · rw [if_neg holds, if_neg holds, same' holds]

theorem copy_parseFor (types : List MessageType) {f f' : α → Message} {parse : Parse q α}
    (same : ∀ x, f' x = kind.copy source (f x)) :
    parseFor types (kind.copy source m) level option (do return f' (← parse)) =
      kind.copy source <$> parseFor types m level option (do return f (← parse)) := by
  unfold parseFor
  rw [kind.copy_type]
  apply copy_ite
  · intro _
    simp [same]
  · intro _
    simp

/-- An option with another key leaves the list alone. -/
theorem parseOption_copy (cbor : Bytes) (differs : option.label ≠ some kind.key) :
    (parseOption malloc cbor (kind.copy source m) option level : Parse q Message) =
      kind.copy source <$> parseOption malloc cbor m option level := by
  unfold parseOption
  cases label : option.label with
  | none => simp
  | some key =>
    have other : key ≠ kind.key := fun same => differs (label.trans (congrArg some same))
    refine copy_ite (fun _ => copy_parseFor _ fun _ => by cases kind <;> rfl) fun _ => ?_
    refine copy_ite (fun _ => copy_parseFor _ fun _ => by cases kind <;> rfl) fun _ => ?_
    refine copy_ite (fun _ => copy_parseFor _ fun _ => by cases kind <;> rfl) fun _ => ?_
    refine copy_ite (fun _ => copy_parseFor _ fun _ => by cases kind <;> rfl) fun _ => ?_
    refine copy_ite (fun _ => copy_parseFor _ fun _ => by cases kind <;> rfl) fun _ => ?_
    refine copy_ite (fun _ => copy_parseFor _ fun _ => by cases kind <;> rfl) fun _ => ?_
    refine copy_ite (fun _ => copy_parseFor _ fun _ => by cases kind <;> rfl) fun _ => ?_
    refine copy_ite (fun _ => copy_parseFor _ fun _ => by cases kind <;> rfl) fun _ => ?_
    refine copy_ite (fun list => copy_parseFor _ fun _ => ?_) fun _ => ?_
    · cases kind with
      | tcList => exact absurd list other
      | requestedTcList => rfl
      | unneededTcList => rfl
    refine copy_ite (fun list => copy_parseFor _ fun _ => ?_) fun _ => ?_
    · cases kind with
      | tcList => rfl
      | requestedTcList => exact absurd list other
      | unneededTcList => rfl
    refine copy_ite (fun list => copy_parseFor _ fun _ => ?_) fun _ => ?_
    · cases kind with
      | tcList => rfl
      | requestedTcList => rfl
      | unneededTcList => exact absurd list other
    refine copy_ite (fun _ => copy_parseFor _ fun _ => by cases kind <;> rfl) fun _ => ?_
    refine copy_ite (fun _ => copy_parseFor _ fun _ => by cases kind <;> rfl) fun _ => ?_
    refine copy_ite (fun _ => copy_parseFor _ fun _ => by cases kind <;> rfl) fun _ => ?_
    refine copy_ite (fun _ => copy_parseFor _ fun _ => by cases kind <;> rfl) fun _ => ?_
    refine copy_ite (fun _ => copy_parseFor _ fun _ => by cases kind <;> rfl) fun _ => ?_
    refine copy_ite (fun _ => ?_) fun _ => ?_
    · cases kind <;> simp [ListOption.copy]
    refine copy_ite (fun _ => copy_parseFor _ fun _ => by cases kind <;> rfl) fun _ => ?_
    simp

end Copying

section Reading
variable {kind : ListOption} {source m : Message} {level next a b : Nat} {node : Node}
  {rest left : List Delivery} {r : Option (Message × Nat × List Delivery)}

/-- An outcome with the list of another message. -/
def ListOption.copyTo (kind : ListOption) (source : Message)
    (r : Option (Message × Nat × List Delivery)) : Option (Message × Nat × List Delivery) :=
  r.map fun x => (kind.copy source x.1, x.2)

theorem Reads.copy (source : Message) (differs : node.label ≠ some kind.key)
    (reads : Reads (fun cbor => (parseOption malloc cbor m (node.head level next) level :
      Parse q Message)) (node.inside level next ++ rest) a r) :
    Reads (fun cbor => (parseOption malloc cbor (kind.copy source m) (node.head level next) level :
      Parse q Message)) (node.inside level next ++ rest) a (kind.copyTo source r) := by
  have same : ∀ cbor, (parseOption malloc cbor (kind.copy source m) (node.head level next) level :
      Parse q Message) = do
        return kind.copy source (← parseOption malloc cbor m (node.head level next) level) := by
    intro cbor
    rw [parseOption_copy malloc cbor differs, map_eq_pure_bind]
  rw [funext same]
  exact reads.map (kind.copy source)

/-- Options with other keys are read the same whatever the list is. -/
theorem settled_optionsLoop_copy (kind : ListOption) (level next : Nat) (nodes : List Node)
    (wf : ∀ node ∈ nodes, node.WellFormed) (others : ∀ node ∈ nodes, node.label ≠ some kind.key)
    (m : Message) (a : Nat) (rest : List Delivery) :
    ∃ r, OfType m.type r ∧ ∀ source,
      Reads (fun cbor => (parseOptionsLoop malloc cbor level nodes.length (kind.copy source m) :
        Parse q Message)) (Node.preorders level next nodes ++ rest) a (kind.copyTo source r) := by
  induction nodes generalizing m a with
  | nil => exact ⟨_, ofType_some rfl, fun source => reads_pure (kind.copy source m)⟩
  | cons node nodes ih =>
    have differs := others node (by simp)
    rw [Node.preorders_cons, List.append_assoc]
    cases nodes with
    | nil =>
      obtain ⟨r, reads, type⟩ := parseOption_settled (q := q) malloc level next m
        (wf node (by simp)) rest a
      refine ⟨r, type, fun source => ?_⟩
      have reads' := reads.copy malloc source differs
      cases r with
      | none => exact fails_optionsLoop_cons malloc (by simpa [ListOption.copyTo] using reads')
      | some r =>
        have first : Reads _ _ a (some (kind.copy source r.1, r.2.1, r.2.2)) := reads'
        exact reads_optionsLoop_cons malloc (by simpa using first) (reads_pure _)
    | cons other nodes =>
      have behind := ih (fun node within => wf node (by simp_all))
        fun node within => others node (by simp_all)
      rcases parseOption_inner (q := q) malloc level m (wf node (by simp)) a with
        ⟨x, b, type, reads⟩ | fails
      · obtain ⟨r, type', later⟩ := behind x b
        refine ⟨r, type ▸ type', fun source => ?_⟩
        exact reads_optionsLoop_cons malloc ((reads _).copy malloc source differs) (later source)
      · refine ⟨none, ofType_none _, fun source => ?_⟩
        exact fails_optionsLoop_cons malloc ((fails _).copy malloc source differs)

/-- A list that was read goes into its field. -/
theorem Reads.field {α : Type} {option : Bytes → Parse q Message} {parse : Bytes → Parse q (List α)}
    {f : List α → Message} {es : List Delivery} {free : Bool} {list : Option (List α)}
    (same : ∀ cbor, option cbor = do return f (← parse cbor))
    (reads : Reads parse es a (if free then list.map fun xs => (xs, b, rest) else none)) :
    Reads option es a (if free then (list.map f).map fun x => (x, b, rest) else none) := by
  rw [funext same]
  have read := reads.map f
  cases free with
  | false => exact read
  | true =>
    cases list with
    | none => exact read
    | some xs => exact read

theorem reads_listOption (kind : ListOption) (label : node.label = some kind.key)
    (type : m.type = .queryResponse) (wf : node.WellFormed) (level next nestLevel a : Nat)
    (rest : List Delivery) :
    Reads (fun cbor => (parseOption malloc cbor m (node.head level next) nestLevel :
      Parse q Message)) (node.inside level next ++ rest) a
      (if malloc a (node.children.length * kind.size) then
        (kind.read q node m).map fun x => (x, a + 1, rest) else none) := by
  obtain ⟨value, _, bytes, children⟩ := node
  cases kind with
  | tcList =>
    cases label
    refine Reads.field (fun cbor => ?_)
      (reads_parseTcInfoArray (q := q) malloc wf a rest level next false)
    exact if_pos (by simp [type])
  | requestedTcList =>
    cases label
    refine Reads.field (fun cbor => ?_)
      (reads_parseTcInfoArray (q := q) malloc wf a rest level next true)
    exact if_pos (by simp [type])
  | unneededTcList =>
    cases label
    refine Reads.field (fun cbor => ?_)
      (reads_parseComponentIdArray (q := q) malloc wf a rest level next)
    exact if_pos (by simp [type])

theorem ListOption.read_copy {kind : ListOption} {x : Message}
    (read : kind.read q node m = some x) : x = kind.copy x m := by
  cases kind with
  | tcList =>
    obtain ⟨xs, -, rfl⟩ := Option.map_eq_some_iff.mp read
    rfl
  | requestedTcList =>
    obtain ⟨xs, -, rfl⟩ := Option.map_eq_some_iff.mp read
    rfl
  | unneededTcList =>
    obtain ⟨xs, -, rfl⟩ := Option.map_eq_some_iff.mp read
    rfl

/-- The outcome of the options around a list, given the list: `m'` and `a'` are
what the options in front of it come to, `r` what those behind it make of that. -/
def ListOption.around (q : Qcbor) (malloc : Malloc) (kind : ListOption) (m' : Message) (a' : Nat)
    (r : Option (Message × Nat × List Delivery)) (node : Node) :
    Option (Message × Nat × List Delivery) :=
  if malloc a' (node.children.length * kind.size) then
    (kind.read q node m').bind fun x => kind.copyTo x r
  else none

theorem ListOption.around_none (kind : ListOption) (m' : Message) (a' : Nat) (node : Node) :
    kind.around q malloc m' a' none node = none := by
  simp [ListOption.around, ListOption.copyTo]

theorem ListOption.around_type {kind : ListOption} {type : MessageType} (kept : OfType type r)
    (m' : Message) (a' : Nat) (node : Node) :
    OfType type (kind.around q malloc m' a' r node) := by
  unfold ListOption.around
  split
  · intro x found
    obtain ⟨y, -, copied⟩ := Option.bind_eq_some_iff.mp found
    obtain ⟨z, known, rfl⟩ := Option.map_eq_some_iff.mp copied
    exact (kind.copy_type y z.1).trans (kept z known)
  · exact ofType_none type

/-- A list in the midst of options that have other keys. -/
theorem reads_around (kind : ListOption) (level next : Nat) (before after : List Node)
    (wf : ∀ node ∈ before ++ after, node.WellFormed)
    (others : ∀ node ∈ after, node.label ≠ some kind.key) (type : m.type = .queryResponse)
    (a : Nat) (rest : List Delivery) :
    ∃ m' a' r, OfType .queryResponse r ∧ ∀ node : Node, node.label = some kind.key →
      node.WellFormed →
      Reads (fun cbor => (parseOptionsLoop malloc cbor level (before ++ node :: after).length m :
        Parse q Message)) (Node.preorders level next (before ++ node :: after) ++ rest) a
        (kind.around q malloc m' a' r node) := by
  induction before generalizing m a with
  | nil =>
    obtain ⟨r, kept, later⟩ := settled_optionsLoop_copy (q := q) malloc kind level next
      after (fun node within => wf node (by simpa using within)) others m (a + 1) rest
    refine ⟨m, a, r, type ▸ kept, fun node label wfNode => ?_⟩
    have first := fun next rest => reads_listOption (q := q) (m := m) malloc kind label type wfNode
      level next level a rest
    rw [List.nil_append, Node.preorders_cons, List.append_assoc]
    unfold ListOption.around
    cases free : malloc a (node.children.length * kind.size) with
    | false =>
      simp only [free] at first
      exact fails_optionsLoop_cons malloc (first _ _)
    | true =>
      simp only [free] at first
      cases read : kind.read q node m with
      | none =>
        rw [read] at first
        exact fails_optionsLoop_cons malloc (first _ _)
      | some x =>
        rw [read] at first
        have copied := later x
        rw [← ListOption.read_copy read] at copied
        exact reads_optionsLoop_cons malloc (first _ _) copied
  | cons option before ih =>
    have inner := wf option (by simp)
    have filled : ∀ node, (before ++ node :: after).isEmpty = false := by simp
    rcases parseOption_inner (q := q) malloc level m inner a with ⟨x, b, kept, reads⟩ | fails
    · obtain ⟨m', a', r, type', later⟩ := ih (fun node within => wf node (by simp_all))
        (kept.trans type) b
      refine ⟨m', a', r, type', fun node label wfNode => ?_⟩
      rw [List.cons_append, Node.preorders_cons, filled, List.append_assoc]
      exact reads_optionsLoop_cons malloc (reads _) (later node label wfNode)
    · refine ⟨m, a, none, ofType_none _, fun node label wfNode => ?_⟩
      rw [List.cons_append, Node.preorders_cons, filled, List.append_assoc,
        ListOption.around_none]
      exact fails_optionsLoop_cons malloc (fails _)

end Reading

section Conclusion
variable {a : Nat}

/-- The outcome of the options where the message ends with them. -/
def ended (r : Option (Message × Nat × List Delivery)) : Option (Message × Nat × List Delivery) :=
  r.filter fun x => x.2.2.isEmpty

theorem reads_conclude_response {m : Message} (type : m.type = .queryResponse)
    (es : List Delivery) (a : Nat) :
    Reads (fun _ => (conclude m : Parse q Message)) es a (ended (some (m, a, es))) := by
  have tail : (parseTail m : Parse q Message) = pure m := by
    unfold parseTail
    rw [type]
  have same : (conclude m : Parse q Message) = finishMessage m := by
    rw [conclude, tail, pure_bind]
  rw [same]
  cases es with
  | nil =>
    intro cbor d plays
    exact ⟨d, by simp [exec_finishMessage, plays.finish], plays⟩
  | cons e es =>
    intro cbor d plays
    simp [exec_finishMessage, plays.finish]

theorem Reads.conclude {step : Bytes → Parse q Message} {es : List Delivery}
    {r : Option (Message × Nat × List Delivery)} (reads : Reads step es a r)
    (kept : OfType .queryResponse r) :
    Reads (fun cbor => step cbor >>= Teep.conclude) es a (ended r) := by
  cases r with
  | none => exact reads.bind_none (f := fun _ => Teep.conclude)
  | some r =>
    have first : Reads _ _ a (some (r.1, r.2.1, r.2.2)) := reads
    exact Reads.bind (f := fun _ => Teep.conclude) first
      (reads_conclude_response (kept r rfl) r.2.2 r.2.1)

end Conclusion

end TeepDevice.Teep
