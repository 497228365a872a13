import TeepDevice.Teep.Preorder

/-! The steps of the parser on the items they find. `Reads` gives the outcome of
a step for every decoder that delivers the same items; `Determined` says that
there is one and that it does not depend on what follows. A step that allocates
nothing `Denotes` a function of the data item it reads. -/
namespace TeepDevice.Teep

variable {q : Qcbor} {α β : Type}

/-- One run of a step. -/
def exec (step : Parse q α) (d : q.Decoder) (allocations : Nat) : Option α × q.Decoder × Nat :=
  step.run (d, allocations)

section Exec
variable (d : q.Decoder) (a : Nat)

@[simp] theorem exec_pure (x : α) : exec (pure x : Parse q α) d a = (some x, d, a) := rfl


@[simp] theorem exec_getNext : exec getNext d a = (some (q.getNext d).1, (q.getNext d).2, a) := rfl

@[simp] theorem exec_tell : exec tell d a = (some (q.tell d), d, a) := rfl

theorem exec_allocate (malloc : Malloc) (size : Nat) :
    exec (allocate malloc size : Parse q Unit) d a =
      (if malloc a size then some () else none, d, a + 1) := by
  change exec (guard (malloc a size = true)) d (a + 1) = _
  unfold guard
  cases malloc a size with
  | true => rfl
  | false => rfl

theorem exec_bind_some {step : Parse q α} {f : α → Parse q β} {x : α} {d d' : q.Decoder}
    {a b : Nat} (first : exec step d a = (some x, d', b)) :
    exec (step >>= f) d a = exec (f x) d' b := by
  simp only [exec, OptionT.run, bind, OptionT.bind, OptionT.mk, StateT.bind] at first ⊢
  simp only [first]

theorem exec_bind_none {step : Parse q α} {f : α → Parse q β} {d : q.Decoder} {a : Nat}
    (first : (exec step d a).1 = none) : (exec (step >>= f) d a).1 = none := by
  simp only [exec, OptionT.run, bind, OptionT.bind, OptionT.mk, StateT.bind] at first ⊢
  cases run : step (d, a) with
  | mk x state =>
    rw [run] at first
    cases first
    rfl

theorem exec_bind_congr {step step' : Parse q α} {d d' : q.Decoder} {a a' : Nat}
    (same : exec step d a = exec step' d' a') (f : α → Parse q β) :
    exec (step >>= f) d a = exec (step' >>= f) d' a' := by
  simp only [exec, OptionT.run, bind, OptionT.bind, OptionT.mk, StateT.bind] at same ⊢
  simp only [same]

end Exec

/-- The outcome of a step on every decoder that delivers the items `es`: a value,
the allocations afterwards and the items that are left; or a failure. -/
def Reads (step : Bytes → Parse q α) (es : List Delivery) (a : Nat) :
    Option (α × Nat × List Delivery) → Prop
  | some (x, b, rest) => ∀ cbor d, Plays q cbor es d →
      ∃ d', exec (step cbor) d a = (some x, d', b) ∧ Plays q cbor rest d'
  | none => ∀ cbor d, Plays q cbor es d → (exec (step cbor) d a).1 = none

/-- The step takes exactly the items `es` or fails, whatever follows them. -/
def Determined (step : Bytes → Parse q α) (es : List Delivery) : Prop :=
  ∀ a, (∃ x b, ∀ rest, Reads step (es ++ rest) a (some (x, b, rest))) ∨
    ∀ rest, Reads step (es ++ rest) a none

section Rules
variable {es fs rest : List Delivery} {a b : Nat}
  {step : Bytes → Parse q α} {f : Bytes → α → Parse q β}

theorem reads_pure (x : α) :
    Reads (fun _ => (pure x : Parse q α)) es a (some (x, a, es)) := by
  intro cbor d plays
  exact ⟨d, rfl, plays⟩

theorem reads_failure : Reads (fun _ => (failure : Parse q α)) es a none := by
  intro cbor d plays
  rfl

theorem Reads.bind {x : α} {r : Option (β × Nat × List Delivery)}
    (first : Reads step es a (some (x, b, rest))) (second : Reads (fun cbor => f cbor x) rest b r) :
    Reads (fun cbor => step cbor >>= f cbor) es a r := by
  cases r with
  | none =>
    intro cbor d plays
    obtain ⟨d', run, plays'⟩ := first cbor d plays
    rw [exec_bind_some run]
    exact second cbor d' plays'
  | some r =>
    intro cbor d plays
    obtain ⟨d', run, plays'⟩ := first cbor d plays
    rw [exec_bind_some run]
    exact second cbor d' plays'

theorem Reads.bind_none (first : Reads step es a none) :
    Reads (fun cbor => step cbor >>= f cbor) es a none := by
  intro cbor d plays
  exact exec_bind_none (first cbor d plays)

theorem Reads.map {r : Option (α × Nat × List Delivery)} (reads : Reads step es a r) (g : α → β) :
    Reads (fun cbor => do return g (← step cbor)) es a (r.map fun x => (g x.1, x.2)) := by
  cases r with
  | none => exact reads.bind_none
  | some r => exact Reads.bind (f := fun _ x => pure (g x)) reads (reads_pure _)

theorem reads_getNext (e : Delivery) :
    Reads (fun _ => (getNext : Parse q QcborItem)) (e :: es) a (some (e.item, a, es)) := by
  intro cbor d plays
  exact ⟨(q.getNext d).2, by rw [exec_getNext, plays.1], plays.2.2.2⟩

theorem reads_allocate (es : List Delivery) (a : Nat) (malloc : Malloc) (size : Nat) :
    Reads (fun _ => (allocate malloc size : Parse q Unit)) es a
      (if malloc a size then some ((), a + 1, es) else none) := by
  cases free : malloc a size with
  | true =>
    intro cbor d plays
    exact ⟨d, by simp [exec_allocate, free], plays⟩
  | false =>
    intro cbor d plays
    simp [exec_allocate, free]

end Rules

/-- The step takes exactly the items `es` and allocates nothing; `r` is its value,
if it does not fail. -/
def Denotes (step : Bytes → Parse q α) (es : List Delivery) (r : Option α) : Prop :=
  ∀ a rest, Reads step (es ++ rest) a (r.map fun x => (x, a, rest))

section Denotation
variable {es fs : List Delivery} {step : Bytes → Parse q α} {r : Option α}

theorem denotes_pure (x : α) : Denotes (fun _ => (pure x : Parse q α)) [] (some x) :=
  fun _ _ => reads_pure x

theorem denotes_failure (es : List Delivery) :
    Denotes (fun _ => (failure : Parse q α)) es none :=
  fun _ _ => reads_failure

theorem Denotes.bind {f : Bytes → α → Parse q β} {g : α → Option β} (first : Denotes step es r)
    (second : ∀ x, r = some x → Denotes (fun cbor => f cbor x) fs (g x)) :
    Denotes (fun cbor => step cbor >>= f cbor) (es ++ fs) (r.bind g) := by
  intro a rest
  rw [List.append_assoc]
  cases r with
  | none => exact (first a _).bind_none
  | some x => exact Reads.bind (first a _) (second x rfl a rest)

theorem Denotes.map (first : Denotes step es r) (g : α → β) :
    Denotes (fun cbor => do return g (← step cbor)) es (r.map g) := by
  intro a rest
  have read := (first a rest).map g
  rw [Option.map_map] at read ⊢
  exact read

/-- The head of a node is read and the rest of the step takes what is inside. -/
theorem Denotes.next {f : Bytes → QcborItem → Parse q α} {e : Delivery}
    (inside : Denotes (fun cbor => f cbor e.item) es r) :
    Denotes (fun cbor => getNext >>= f cbor) (e :: es) r :=
  fun a rest => (reads_getNext e).bind (inside a rest)

/-- A loop over as many nodes as it has passes. -/
theorem denotes_times {value : Node → Option α} (level next : Nat) (nodes : List Node)
    (each : ∀ node ∈ nodes, ∀ next, Denotes step (node.preorder level next) (value node)) :
    Denotes (fun cbor => times (step cbor) nodes.length) (Node.preorders level next nodes)
      (nodes.mapM value) := by
  induction nodes with
  | nil => exact denotes_pure []
  | cons node nodes ih =>
    rw [Node.preorders_cons, List.mapM_cons]
    apply (each node (by simp) _).bind (f := fun cbor x => do
      let xs ← times (step cbor) nodes.length
      return x :: xs)
    intro x _
    have others := ih fun other within => each other (by simp [within])
    simpa [Option.map_eq_bind] using others.map fun xs => x :: xs

theorem Denotes.determined (denotes : Denotes step es r) : Determined step es := by
  intro a
  cases r with
  | none => exact Or.inr fun rest => denotes a rest
  | some x => exact Or.inl ⟨x, a, fun rest => denotes a rest⟩

/-- Steps that run alike wherever the items are delivered have the same outcome. -/
theorem Reads.congr {step' : Bytes → Parse q α} {a : Nat}
    {r : Option (α × Nat × List Delivery)}
    (same : ∀ cbor d, Plays q cbor es d → exec (step cbor) d a = exec (step' cbor) d a)
    (reads : Reads step' es a r) : Reads step es a r := by
  cases r with
  | none =>
    intro cbor d plays
    rw [same cbor d plays]
    exact reads cbor d plays
  | some r =>
    intro cbor d plays
    rw [same cbor d plays]
    exact reads cbor d plays

theorem Denotes.congr {step' : Bytes → Parse q α}
    (same : ∀ cbor d a rest, Plays q cbor (es ++ rest) d →
      exec (step cbor) d a = exec (step' cbor) d a)
    (denotes : Denotes step' es r) : Denotes step es r :=
  fun a rest => Reads.congr (fun cbor d plays => same cbor d a rest plays) (denotes a rest)

end Denotation

section Values
variable {level next : Nat} {node : Node} {es rest : List Delivery}

theorem Node.WellFormed.inside_eq (wf : node.WellFormed) (array : ∀ n, node.value ≠ .array n)
    (map : ∀ n, node.value ≠ .map n) : node.inside level next = [] := by
  simp [Node.inside, wf.leaf array map]

/-- The number of a node that holds one. -/
def Node.number (q : Qcbor) (node : Node) : Option Nat :=
  match node.value with
  | .int64 v => q.int64ToUInt32 v
  | _ => none

theorem denotes_parseUint32 (level next : Nat) (wf : node.WellFormed) :
    Denotes (fun _ => (parseUint32 (node.head level next) : Parse q Nat))
      (node.inside level next) (node.number q) := by
  unfold parseUint32 Node.number
  cases value : node.value with
  | int64 v =>
    simp only [Node.head, value, wf.inside_eq (by simp [value]) (by simp [value])]
    cases q.int64ToUInt32 v with
    | none => exact denotes_failure []
    | some n => exact denotes_pure n
  | _ =>
    simp only [Node.head, value]
    exact denotes_failure _

/-- The string of a node that holds one of this kind. -/
def Node.string (binary : Bool) (node : Node) : Option Bytes :=
  match node.value, binary with
  | .byteString b, true => some b
  | .textString b, false => some b
  | _, _ => none

theorem denotes_parseString (level next : Nat) (binary : Bool) (wf : node.WellFormed) :
    Denotes (fun _ => (parseString binary (node.head level next) : Parse q Bytes))
      (node.inside level next) (node.string binary) := by
  unfold parseString Node.string
  cases value : node.value with
  | byteString b =>
    simp only [Node.head, value, wf.inside_eq (by simp [value]) (by simp [value])]
    cases binary with
    | true => exact denotes_pure b
    | false => exact denotes_failure []
  | textString b =>
    simp only [Node.head, value, wf.inside_eq (by simp [value]) (by simp [value])]
    cases binary with
    | true => exact denotes_failure []
    | false => exact denotes_pure b
  | _ =>
    simp only [Node.head, value]
    exact denotes_failure _

end Values

section ComponentIds
variable {level next : Nat} {node : Node} {es rest : List Delivery}

/-- One element of a component id is read. -/
def componentIdElement : Parse q Unit := do
  match (← getNext).value with
  | .byteString _ | .textString _ => return ()
  | _ => failure

/-- An element that a component id may have. -/
def Node.element (node : Node) : Option Unit :=
  match node.value with
  | .byteString _ | .textString _ => some ()
  | _ => none

theorem denotes_componentIdElement (level next : Nat) (wf : node.WellFormed) :
    Denotes (fun _ => componentIdElement (q := q)) (node.preorder level next) node.element := by
  rw [Node.preorder_eq]
  apply Denotes.next
  unfold Node.element
  cases value : node.value with
  | byteString b =>
    simp only [Node.head, value, wf.inside_eq (by simp [value]) (by simp [value])]
    exact denotes_pure ()
  | textString b =>
    simp only [Node.head, value, wf.inside_eq (by simp [value]) (by simp [value])]
    exact denotes_pure ()
  | _ =>
    simp only [Node.head, value]
    exact denotes_failure _

theorem teepParseComponentId_array {cbor : Bytes} {offset n : Nat} {item : QcborItem}
    (value : item.value = .array n) :
    (teepParseComponentId cbor offset item : Parse q Bytes) =
      times componentIdElement n >>= fun _ =>
        tell >>= fun stop => pure (slice cbor offset stop) := by
  simp only [teepParseComponentId, value]
  rfl

theorem teepParseComponentId_other {cbor : Bytes} {offset : Nat} {item : QcborItem}
    (value : ∀ n, item.value ≠ .array n) :
    (teepParseComponentId cbor offset item : Parse q Bytes) = failure := by
  unfold teepParseComponentId
  split
  · rename_i array
    exact absurd array (value _)
  · rfl

/-- A component id is all that was read since `offset`. -/
def readComponentId (cbor : Bytes) : Parse q Bytes := do
  let offset ← tell
  teepParseComponentId cbor offset (← getNext)

theorem exec_tell_getNext (f : Nat → QcborItem → Parse q β) (d : q.Decoder) (a : Nat) :
    exec (tell >>= fun offset => getNext >>= f offset) d a =
      exec (f (q.tell d) (q.getNext d).1) (q.getNext d).2 a := by
  rw [exec_bind_some (exec_tell d a), exec_bind_some (exec_getNext d a)]

theorem reads_componentId {a b n : Nat} {x : List Unit} (value : node.value = .array n)
    (elements : Reads (fun _ => times (componentIdElement (q := q)) n)
      (node.inside level next ++ rest) a (some (x, b, rest))) :
    Reads (q := q) readComponentId (node.preorder level next ++ rest) a
      (some ((node.preorder level next).flatMap Delivery.bytes, b, rest)) := by
  intro cbor d plays
  have inside := plays
  rw [Node.preorder_eq] at inside
  obtain ⟨d', run, later⟩ := elements cbor (q.getNext d).2 inside.2.2.2
  refine ⟨d', ?_, later⟩
  rw [readComponentId, exec_tell_getNext, inside.1, teepParseComponentId_array value,
    exec_bind_some run, exec_bind_some (exec_tell d' b), exec_pure, plays.slice later]

/-- What is read as the component id of a node: all of its bytes, also those in
front of the array. -/
def Node.componentId (node : Node) : Option Bytes :=
  match node.value with
  | .array _ => (node.children.mapM Node.element).map fun _ => node.encoding
  | _ => none

theorem denotes_readComponentId (level next : Nat) (wf : node.WellFormed) :
    Denotes (q := q) readComponentId (node.preorder level next) node.componentId := by
  by_cases array : ∃ n, node.value = .array n
  · obtain ⟨n, value⟩ := array
    have counts := wf.counts
    simp only [value, QcborValue.counts] at counts
    have elements := denotes_times (q := q) (level + 1) next node.children
      fun child within next => denotes_componentIdElement (level + 1) next (wf.inner child within)
    rw [← counts] at elements
    unfold Node.componentId
    simp only [value]
    cases all : node.children.mapM Node.element with
    | some x =>
      intro a rest
      rw [all] at elements
      rw [Option.map_some, ← Node.encoding_preorder level next]
      exact reads_componentId value (elements a rest)
    | none =>
      intro a rest cbor d plays
      rw [all] at elements
      rw [Node.preorder_eq] at plays
      rw [readComponentId, exec_tell_getNext, plays.1, teepParseComponentId_array value]
      exact exec_bind_none (elements a rest cbor _ plays.2.2.2)
  · have none : node.componentId = none := by
      unfold Node.componentId
      split
      · rename_i n value
        exact absurd ⟨n, value⟩ array
      · rfl
    rw [none]
    intro a rest cbor d plays
    rw [Node.preorder_eq] at plays
    rw [readComponentId, exec_tell_getNext, plays.1,
      teepParseComponentId_other fun n value => array ⟨n, value⟩]
    rfl

end ComponentIds

section TrustedComponents
variable {level next : Nat} {node : Node} {es rest : List Delivery}

/-- A step after `tell` and `getNext` that makes no use of the position. -/
theorem Denotes.after_tell {f : Bytes → Nat → QcborItem → Parse q β} {g : Bytes → Parse q β}
    {r : Option β} (same : ∀ cbor offset, f cbor offset (node.head level next) = g cbor)
    (inside : Denotes g (node.inside level next) r) :
    Denotes (fun cbor => tell >>= fun offset => getNext >>= f cbor offset)
      (node.preorder level next) r := by
  rw [Node.preorder_eq]
  refine Denotes.congr ?_ (inside.next (f := fun cbor _ => g cbor))
  intro cbor d a rest plays
  rw [exec_tell_getNext, exec_bind_some (exec_getNext d a), plays.1]
  exact congrArg (fun step => exec step (q.getNext d).2 a) (same cbor (q.tell d))

/-- The slice of an entry's component id starts in front of the label. -/
theorem parseTcInfoEntry_componentId {cbor : Bytes} {requested : Bool} {info : TcInfo}
    {d : q.Decoder} {a : Nat} (label : node.label = some OptionKey.componentId)
    (plays : Plays q cbor (node.preorder level next ++ rest) d) :
    exec (parseTcInfoEntry cbor requested info) d a =
      exec (readComponentId cbor >>= fun id => pure { info with componentId := some id }) d a := by
  have head : (q.getNext d).1.label = some OptionKey.componentId := by
    rw [Node.preorder_eq] at plays
    rw [plays.1, Node.head, label]
  rw [parseTcInfoEntry, exec_tell_getNext]
  simp only [head, if_true]
  exact exec_bind_congr (exec_tell_getNext (teepParseComponentId cbor) d a).symm _

/-- The description of a trusted component with one more entry of its map. -/
def TcInfo.withEntry (q : Qcbor) (info : TcInfo) (node : Node) : Option TcInfo :=
  if node.label = some OptionKey.componentId then
    node.componentId.map fun id => { info with componentId := some id }
  else if node.label = some OptionKey.tcManifestSequenceNumber then
    (node.number q).map fun n => { info with tcManifestSequenceNumber := some n }
  else none

theorem denotes_parseTcInfoEntry (requested : Bool) (info : TcInfo) (wf : node.WellFormed) :
    Denotes (fun cbor => (parseTcInfoEntry cbor requested info : Parse q TcInfo))
      (node.preorder level next) (info.withEntry q node) := by
  have number := denotes_parseUint32 (q := q) level next wf
  unfold TcInfo.withEntry
  cases label : node.label with
  | none =>
    apply Denotes.after_tell (g := fun _ => failure) _ (denotes_failure _)
    intro cbor offset
    simp only [Node.head, label]
  | some key =>
    simp only [Option.some.injEq]
    by_cases id : key = OptionKey.componentId
    · subst id
      exact Denotes.congr (fun _ _ _ _ plays => parseTcInfoEntry_componentId label plays)
        ((denotes_readComponentId level next wf).map fun id => { info with componentId := some id })
    · by_cases sequence : key = OptionKey.tcManifestSequenceNumber
      · simp only [if_neg id, if_pos sequence]
        have stored := number.map fun n => { info with tcManifestSequenceNumber := some n }
        apply Denotes.after_tell _ stored
        intro cbor offset
        simp only [Node.head, label, if_neg id, if_pos sequence]
        rfl
      · simp only [if_neg id, if_neg sequence]
        by_cases binary : key = OptionKey.haveBinary
        · cases requested with
          | false =>
            apply Denotes.after_tell (g := fun _ => failure) _ (denotes_failure _)
            intro cbor offset
            simp [Node.head, label, if_neg id, if_neg sequence]
          | true =>
            -- the number is read, and then the missing `break` leads to the default
            have fails := number.bind (f := fun _ _ => (failure : Parse q TcInfo))
              (g := fun _ => none) fun _ _ => denotes_failure []
            rw [List.append_nil, Option.bind_fun_none] at fails
            apply Denotes.after_tell _ fails
            intro cbor offset
            simp [Node.head, label, if_neg id, if_neg sequence, if_pos binary]
            rfl
        · apply Denotes.after_tell (g := fun _ => failure) _ (denotes_failure _)
          intro cbor offset
          simp only [Node.head, label, if_neg id, if_neg sequence, if_neg binary]

theorem denotes_parseTcInfoEntries (requested : Bool) (nodes : List Node)
    (wf : ∀ node ∈ nodes, node.WellFormed) (info : TcInfo) :
    Denotes (fun cbor => (parseTcInfoEntries cbor requested nodes.length info : Parse q TcInfo))
      (Node.preorders level next nodes) (nodes.foldlM (TcInfo.withEntry q) info) := by
  induction nodes generalizing info with
  | nil => exact denotes_pure info
  | cons node nodes ih =>
    rw [Node.preorders_cons, List.foldlM_cons]
    apply (denotes_parseTcInfoEntry requested info (wf node (by simp))).bind
      (f := fun cbor info => parseTcInfoEntries cbor requested nodes.length info)
    exact fun info _ => ih (fun other within => wf other (by simp [within])) info

/-- One element of a list of trusted components is read. -/
def tcInfoElement (cbor : Bytes) (requested : Bool) : Parse q TcInfo := do
  match (← getNext).value with
  | .map count => parseTcInfoEntries cbor requested count ⟨none, none, none⟩
  | _ => failure

/-- What is read from a map that describes a trusted component. -/
def Node.tcInfo (q : Qcbor) (node : Node) : Option TcInfo :=
  match node.value with
  | .map _ => node.children.foldlM (TcInfo.withEntry q) ⟨none, none, none⟩
  | _ => none

theorem denotes_tcInfoElement (requested : Bool) (wf : node.WellFormed) :
    Denotes (fun cbor => (tcInfoElement cbor requested : Parse q TcInfo))
      (node.preorder level next) (node.tcInfo q) := by
  rw [Node.preorder_eq]
  apply Denotes.next
  unfold Node.tcInfo
  cases value : node.value with
  | map n =>
    have counts := wf.counts
    simp only [value, QcborValue.counts] at counts
    simp only [Node.head, value, counts]
    exact denotes_parseTcInfoEntries requested node.children wf.inner _
  | _ =>
    simp only [Node.head, value]
    exact denotes_failure _

end TrustedComponents

section Lists
variable {level next : Nat} {node : Node} {rest : List Delivery}

/-- The elements of an array. -/
def Node.list (value : Node → Option α) (node : Node) : Option (List α) :=
  match node.value with
  | .array _ => node.children.mapM value
  | _ => none

/-- An option that must be an array and whose elements are read by one step. -/
theorem reads_array (malloc : Malloc) (parse : Bytes → QcborItem → Parse q (List α))
    (size : Nat → Nat) (step : Bytes → Parse q α) {value : Node → Option α}
    (array : ∀ cbor item n, item.value = .array n → parse cbor item = do
      allocate malloc (size n)
      times (step cbor) n)
    (other : ∀ cbor item, (∀ n, item.value ≠ .array n) → parse cbor item = failure)
    (wf : node.WellFormed)
    (each : ∀ child ∈ node.children, ∀ level next,
      Denotes step (child.preorder level next) (value child)) (a : Nat) (rest : List Delivery) :
    Reads (fun cbor => parse cbor (node.head level next)) (node.inside level next ++ rest) a
      (if malloc a (size node.children.length) then
        (node.list value).map fun xs => (xs, a + 1, rest) else none) := by
  unfold Node.list
  by_cases shape : ∃ n, node.value = .array n
  · obtain ⟨n, array'⟩ := shape
    have counts := wf.counts
    rw [array'] at counts
    have parses := fun cbor => array cbor (node.head level next) n array'
    simp only [QcborValue.counts] at counts
    simp only [parses, array', counts]
    have allocated := reads_allocate (q := q) (node.inside level next ++ rest) a malloc
      (size node.children.length)
    have elements := denotes_times (q := q) (level + 1) next node.children
      fun child within next => each child within (level + 1) next
    cases free : malloc a (size node.children.length) with
    | false =>
      rw [free] at allocated
      exact allocated.bind_none (f := fun cbor _ => times (step cbor) node.children.length)
    | true =>
      rw [free] at allocated
      exact allocated.bind (f := fun cbor _ => times (step cbor) node.children.length)
        (elements (a + 1) rest)
  · have fails := fun cbor => other cbor (node.head level next) fun n value => shape ⟨n, value⟩
    simp only [fails]
    cases array' : node.value with
    | array n => exact absurd ⟨n, array'⟩ shape
    | _ => simpa using reads_failure

theorem determined_array {malloc : Malloc} {step : Bytes → Parse q (List α)} {size : Nat}
    {list : Option (List α)}
    (reads : ∀ a rest, Reads step (node.inside level next ++ rest) a
      (if malloc a size then list.map fun xs => (xs, a + 1, rest) else none)) :
    Determined step (node.inside level next) := by
  intro a
  cases free : malloc a size with
  | false => exact Or.inr fun rest => by simpa [free] using reads a rest
  | true =>
    cases list with
    | none => exact Or.inr fun rest => by simpa [free] using reads a rest
    | some xs => exact Or.inl ⟨xs, a + 1, fun rest => by simpa [free] using reads a rest⟩

variable (malloc : Malloc) (wf : node.WellFormed) (a : Nat) (rest : List Delivery)
include wf

theorem reads_parseUint32Array (level next : Nat) :
    Reads (fun _ => (parseUint32Array malloc (node.head level next) : Parse q (List Nat)))
      (node.inside level next ++ rest) a
      (if malloc a (node.children.length * 4) then
        (node.list (Node.number q)).map fun xs => (xs, a + 1, rest) else none) := by
  apply reads_array malloc (fun _ => parseUint32Array malloc) (· * 4)
    (fun _ => getNext >>= parseUint32) _ _ wf
  · intro child within level next
    rw [Node.preorder_eq]
    exact (denotes_parseUint32 level next (wf.inner child within)).next
      (f := fun _ => parseUint32)
  · intro _ item n value
    simp only [parseUint32Array, value]
  · intro _ item other
    unfold parseUint32Array
    split
    · rename_i value
      exact absurd value (other _)
    · rfl

theorem reads_parseBufferArray (level next : Nat) (binary : Bool) :
    Reads (fun _ => (parseBufferArray malloc (node.head level next) binary : Parse q (List Bytes)))
      (node.inside level next ++ rest) a
      (if malloc a (node.children.length * 16) then
        (node.list (Node.string binary)).map fun xs => (xs, a + 1, rest) else none) := by
  apply reads_array malloc (fun _ item => parseBufferArray malloc item binary)
    (· * 16) (fun _ => getNext >>= parseString binary) _ _ wf
  · intro child within level next
    rw [Node.preorder_eq]
    exact (denotes_parseString level next binary (wf.inner child within)).next
      (f := fun _ => parseString binary)
  · intro _ item n value
    simp only [parseBufferArray, value]
  · intro _ item other
    unfold parseBufferArray
    split
    · rename_i value
      exact absurd value (other _)
    · rfl

theorem reads_parseComponentIdArray (level next : Nat) :
    Reads (fun cbor =>
      (parseComponentIdArray malloc cbor (node.head level next) : Parse q (List Bytes)))
      (node.inside level next ++ rest) a
      (if malloc a (node.children.length * 16) then
        (node.list Node.componentId).map fun xs => (xs, a + 1, rest) else none) := by
  apply reads_array malloc (parseComponentIdArray malloc) (· * 16) readComponentId _ _ wf
  · intro child within level next
    exact denotes_readComponentId level next (wf.inner child within)
  · intro cbor item n value
    simp only [parseComponentIdArray, value]
    rfl
  · intro cbor item other
    unfold parseComponentIdArray
    split
    · rename_i value
      exact absurd value (other _)
    · rfl

theorem reads_parseTcInfoArray (level next : Nat) (requested : Bool) :
    Reads (fun cbor =>
      (parseTcInfoArray malloc cbor (node.head level next) requested : Parse q (List TcInfo)))
      (node.inside level next ++ rest) a
      (if malloc a (node.children.length * 32) then
        (node.list (Node.tcInfo q)).map fun xs => (xs, a + 1, rest) else none) := by
  apply reads_array malloc
    (fun cbor item => parseTcInfoArray malloc cbor item requested) (· * 32)
    (fun cbor => tcInfoElement cbor requested) _ _ wf
  · intro child within level next
    exact denotes_tcInfoElement requested (wf.inner child within)
  · intro cbor item n value
    simp only [parseTcInfoArray, value]
    rfl
  · intro cbor item other
    unfold parseTcInfoArray
    split
    · rename_i value
      exact absurd value (other _)
    · rfl

end Lists

end TeepDevice.Teep
