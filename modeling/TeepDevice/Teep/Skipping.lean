import TeepDevice.Teep.Reading

/-! Options that a message type does not use (the default case of `parse_option`
in libteep.c). The loop that skips one ends when the level of the following item
is that of the options, which the last option of a map is not followed by. -/
namespace TeepDevice.Teep

variable {q : Qcbor} (malloc : Malloc)

/-- The options that the parser takes from a message of a type; it skips all others. -/
def usedOptions : MessageType → List Int
  | .queryRequest => [OptionKey.supportedCipherSuits, OptionKey.challenge, OptionKey.ocspData,
      OptionKey.versions, OptionKey.token, OptionKey.supportedFreshnessMechanisms]
  | .queryResponse => [OptionKey.selectedCipherSuit, OptionKey.selectedVersion,
      OptionKey.evidenceFormat, OptionKey.evidence, OptionKey.tcList, OptionKey.requestedTcList,
      OptionKey.unneededTcList, OptionKey.extList, OptionKey.token]
  | .update => [OptionKey.manifestList, OptionKey.token]
  | .success => [OptionKey.msg, OptionKey.suitReports, OptionKey.token]
  | .error => [OptionKey.supportedCipherSuits, OptionKey.versions, OptionKey.errMsg,
      OptionKey.suitReports, OptionKey.token, OptionKey.supportedFreshnessMechanisms]

/-- The option is skipped and the message stays as it is. -/
def skipped (m : Message) (nestLevel : Nat) (option : QcborItem) : Parse q Message := do
  skipOption nestLevel option
  return m

theorem parseOption_unused {cbor : Bytes} {m : Message} {option : QcborItem} {key : Int}
    (nestLevel : Nat) (label : option.label = some key) (unused : key ∉ usedOptions m.type) :
    (parseOption malloc cbor m option nestLevel : Parse q Message) =
      skipped m nestLevel option := by
  cases type : m.type <;>
    simp only [type, usedOptions, List.mem_cons, List.not_mem_nil, or_false, not_or] at unused <;>
    simp [parseOption, parseFor, label, type, unused, skipped]

section Options
variable {m : Message} {es : List Delivery} {level next : Nat} {node : Node}

/-- A step that sets a field of the message from exactly the items of its option. -/
def Sets (m : Message) (step : Bytes → Parse q Message) (es : List Delivery) : Prop :=
  ∀ a, (∃ x b, x.type = m.type ∧ ∀ rest, Reads step (es ++ rest) a (some (x, b, rest))) ∨
    ∀ rest, Reads step (es ++ rest) a none

/-- What the parser does with one option: it is skipped, or its value is read. -/
def SkipsOrSets (m : Message) (option : QcborItem) (nestLevel : Nat)
    (step : Bytes → Parse q Message) (es : List Delivery) : Prop :=
  (∀ cbor, step cbor = skipped m nestLevel option) ∨ Sets m step es

theorem Determined.sets {α : Type} {step : Bytes → Parse q α} (determined : Determined step es)
    {f : α → Message} (type : ∀ x, (f x).type = m.type := by intro _; rfl) :
    Sets m (fun cbor => do return f (← step cbor)) es := by
  intro a
  rcases determined a with ⟨x, b, reads⟩ | fails
  · exact Or.inl ⟨f x, b, type x, fun rest => (reads rest).bind (reads_pure (f x))⟩
  · exact Or.inr fun rest => (fails rest).bind_none

theorem sets_failure (es : List Delivery) :
    Sets m (fun _ => (failure : Parse q Message)) es :=
  fun _ => Or.inr fun _ => reads_failure

variable {option : QcborItem} {nestLevel : Nat}

theorem Sets.parseFor {step : Bytes → Parse q Message} (sets : Sets m step es)
    (types : List MessageType) :
    SkipsOrSets m option nestLevel
      (fun cbor => Teep.parseFor types m nestLevel option (step cbor)) es := by
  unfold Teep.parseFor
  by_cases used : m.type ∈ types
  · simp only [if_pos used]
    exact Or.inr sets
  · simp only [if_neg used]
    exact Or.inl fun _ => rfl

theorem SkipsOrSets.ite {c : Prop} [Decidable c] {step step' : Bytes → Parse q Message}
    (yes : SkipsOrSets m option nestLevel step es) (no : SkipsOrSets m option nestLevel step' es) :
    SkipsOrSets m option nestLevel (fun cbor => if c then step cbor else step' cbor) es := by
  by_cases holds : c
  · simpa [holds] using yes
  · simpa [holds] using no

/-- Every used option is read within its own items. -/
theorem parseOption_cases (next : Nat) (m : Message) (nestLevel : Nat) (wf : node.WellFormed) :
    SkipsOrSets (q := q) m (node.head level next) nestLevel
      (fun cbor => parseOption malloc cbor m (node.head level next) nestLevel)
      (node.inside level next) := by
  unfold parseOption
  cases label : node.label with
  | none =>
    simp only [Node.head, label]
    exact Or.inr (sets_failure _)
  | some key =>
    have head : (node.head level next).label = some key := label
    simp only [head]
    have numbers := determined_array fun a rest =>
      reads_parseUint32Array (q := q) malloc wf a rest level next
    have number := (denotes_parseUint32 (q := q) level next wf).determined
    have string := fun binary => (denotes_parseString (q := q) level next binary wf).determined
    have strings := fun binary => determined_array fun a rest =>
      reads_parseBufferArray (q := q) malloc wf a rest level next binary
    have components := fun requested => determined_array fun a rest =>
      reads_parseTcInfoArray (q := q) malloc wf a rest level next requested
    have ids := determined_array fun a rest =>
      reads_parseComponentIdArray (q := q) malloc wf a rest level next
    refine SkipsOrSets.ite ((numbers.sets).parseFor _) ?_
    refine SkipsOrSets.ite ((string true).sets.parseFor _) ?_
    refine SkipsOrSets.ite ((string true).sets.parseFor _) ?_
    refine SkipsOrSets.ite ((numbers.sets).parseFor _) ?_
    refine SkipsOrSets.ite ((number.sets).parseFor _) ?_
    refine SkipsOrSets.ite ((number.sets).parseFor _) ?_
    refine SkipsOrSets.ite (((string false).sets).parseFor _) ?_
    refine SkipsOrSets.ite ((string true).sets.parseFor _) ?_
    refine SkipsOrSets.ite (((components false).sets).parseFor _) ?_
    refine SkipsOrSets.ite (((components true).sets).parseFor _) ?_
    refine SkipsOrSets.ite ((ids.sets).parseFor _) ?_
    refine SkipsOrSets.ite ((numbers.sets).parseFor _) ?_
    refine SkipsOrSets.ite (((strings true).sets).parseFor _) ?_
    refine SkipsOrSets.ite (((string false).sets).parseFor _) ?_
    refine SkipsOrSets.ite (((string false).sets).parseFor _) ?_
    refine SkipsOrSets.ite (((strings true).sets).parseFor _) ?_
    refine SkipsOrSets.ite (Or.inr (string true).sets) ?_
    refine SkipsOrSets.ite ((numbers.sets).parseFor _) ?_
    exact Or.inl fun _ => rfl

end Options

section Skip
variable {cbor : Bytes} {bottom level : Nat} {es rest : List Delivery} {d d' : q.Decoder}

/-- The loop of the default case, from a level on. -/
def skipLoop (q : Qcbor) (bottom level : Nat) (d : q.Decoder) : Bool × q.Decoder :=
  Loop.eval (skipBody bottom) _ (skipBody_decreasing bottom) (level, d)

theorem skipLoop_done (d : q.Decoder) : skipLoop q bottom bottom d = (true, d) := by
  rw [skipLoop, Loop.eval_unfold]
  simp [skipBody]

theorem skipLoop_next (differs : level ≠ bottom) (plays : Plays q cbor (e :: es) d)
    (some : e.item.value ≠ .none) :
    skipLoop q bottom level d = skipLoop q bottom e.item.nextNestLevel (q.getNext d).2 := by
  rw [skipLoop, Loop.eval_unfold]
  simp [skipBody, differs, plays.1, some, skipLoop]

theorem skipLoop_fails {d : q.Decoder} (differs : level ≠ bottom)
    (nothing : (q.getNext d).1.value = .none) : (skipLoop q bottom level d).1 = false := by
  rw [skipLoop, Loop.eval_unfold]
  simp [skipBody, differs, nothing]

theorem exec_skipOption (bottom : Nat) (option : QcborItem) (d : q.Decoder) (a : Nat) :
    exec (skipOption bottom option) d a =
      (if (skipLoop q bottom option.nextNestLevel d).1 then some () else none,
        (skipLoop q bottom option.nextNestLevel d).2, a) := by
  change exec (guard ((skipLoop q bottom option.nextNestLevel d).1 = true))
    (skipLoop q bottom option.nextNestLevel d).2 a = _
  unfold guard
  cases (skipLoop q bottom option.nextNestLevel d).1 with
  | true => rfl
  | false => rfl

/-- Where the level falls back with the last of the items, the loop takes exactly these. -/
theorem skipLoop_climbs (plays : Plays q cbor (es ++ rest) d)
    (delivered : ∀ e ∈ es, e.item.value ≠ .none) (climbs : Climbs bottom level es) :
    skipLoop q bottom level d = (true, advance q es.length d) := by
  induction es generalizing level d with
  | nil =>
    cases climbs
    exact skipLoop_done d
  | cons e es ih =>
    rw [skipLoop_next climbs.1 plays (delivered e (by simp))]
    exact ih plays.2.2.2 (fun e' within => delivered e' (by simp [within])) climbs.2

/-- The items decide where the loop ends; away from its level it takes some. -/
theorem skipLoop_settled (bottom level : Nat) (es : List Delivery) :
    (∃ rest, (level = bottom ∨ rest.length < es.length) ∧ rest.length ≤ es.length ∧
      ∀ cbor (d : q.Decoder), Plays q cbor es d →
        (skipLoop q bottom level d).1 = true ∧ Plays q cbor rest (skipLoop q bottom level d).2) ∨
    ∀ cbor (d : q.Decoder), Plays q cbor es d → (skipLoop q bottom level d).1 = false := by
  by_cases reached : level = bottom
  · refine Or.inl ⟨es, Or.inl reached, Nat.le_refl _, ?_⟩
    intro cbor d plays
    rw [reached, skipLoop_done]
    exact ⟨rfl, plays⟩
  · induction es generalizing level with
    | nil => exact Or.inr fun cbor d plays => skipLoop_fails reached plays.1
    | cons e es ih =>
      by_cases nothing : e.item.value = .none
      · refine Or.inr fun cbor d plays => skipLoop_fails reached ?_
        rw [plays.1, nothing]
      · by_cases last : e.item.nextNestLevel = bottom
        · refine Or.inl ⟨es, Or.inr (by simp), by simp, fun cbor d plays => ?_⟩
          rw [skipLoop_next reached plays nothing, last, skipLoop_done]
          exact ⟨rfl, plays.2.2.2⟩
        · rcases ih e.item.nextNestLevel last with ⟨rest, shorter, within, ends⟩ | fails
          · refine Or.inl ⟨rest, Or.inr (by simp; omega), by simp; omega, fun cbor d plays => ?_⟩
            rw [skipLoop_next reached plays nothing]
            exact ends cbor _ plays.2.2.2
          · refine Or.inr fun cbor d plays => ?_
            rw [skipLoop_next reached plays nothing]
            exact fails cbor _ plays.2.2.2

/-- A loop that does not find its level within the items reads on behind them. -/
theorem skipLoop_past (plays : Plays q cbor (es ++ rest) d)
    (delivered : ∀ e ∈ es, e.item.value ≠ .none) (differs : level ≠ bottom)
    (never : ∀ e ∈ es, e.item.nextNestLevel ≠ bottom)
    (ends : (skipLoop q bottom level d).1 = true) :
    ∃ left, left.length < rest.length ∧ Plays q cbor left (skipLoop q bottom level d).2 := by
  induction es generalizing level d with
  | nil =>
    rcases skipLoop_settled (q := q) bottom level rest with ⟨left, shorter, _, settled⟩ | fails
    · exact ⟨left, shorter.resolve_left differs, (settled cbor d plays).2⟩
    · rw [fails cbor d plays] at ends
      cases ends
  | cons e es ih =>
    rw [skipLoop_next differs plays (delivered e (by simp))] at ends ⊢
    exact ih plays.2.2.2 (fun e' within => delivered e' (by simp [within]))
      (never e (by simp)) (fun e' within => never e' (by simp [within])) ends

end Skip

/-- A result that is a message has this type. -/
def OfType (type : MessageType) (r : Option (Message × Nat × List Delivery)) : Prop :=
  ∀ x, r = some x → x.1.type = type

/-- The items decide the outcome, and a message keeps the type. -/
def SettledAs (type : MessageType) (step : Bytes → Parse q Message) (es : List Delivery) : Prop :=
  ∀ a, ∃ r, Reads step es a r ∧ OfType type r

theorem ofType_none (type : MessageType) : OfType type none := fun _ h => by cases h

theorem ofType_some {type : MessageType} {x : Message} {b : Nat} {left : List Delivery}
    (same : x.type = type) : OfType type (some (x, b, left)) := by
  intro _ h
  cases h
  exact same

section Insertion
variable {m : Message} {a b : Nat} {level next : Nat} {node : Node} {rest : List Delivery}

theorem reads_skipped (m : Message) (level a : Nat) (wf : node.WellFormed)
    (rest : List Delivery) :
    Reads (fun _ => (skipped m level (node.head level level) : Parse q Message))
      (node.inside level level ++ rest) a (some (m, a, rest)) := by
  intro cbor d plays
  have taken := skipLoop_climbs plays
    (Node.WellFormed.delivered_all _ _ _ wf.inner) (Node.climbs_inside level node)
  refine ⟨advance q (node.inside level level).length d, ?_, plays.advance⟩
  have run := exec_skipOption level (node.head level level) d a
  rw [taken] at run
  rw [skipped, exec_bind_some run, exec_pure]

theorem settled_skipped (m : Message) (level : Nat) (option : QcborItem) (es : List Delivery) :
    SettledAs m.type (fun _ => (skipped m level option : Parse q Message)) es := by
  intro a
  rcases skipLoop_settled (q := q) level option.nextNestLevel es with ⟨rest, _, _, ends⟩ | fails
  · refine ⟨some (m, a, rest), fun cbor d plays => ?_, ofType_some rfl⟩
    obtain ⟨ok, later⟩ := ends cbor d plays
    have run := exec_skipOption level option d a
    rw [ok] at run
    exact ⟨_, by rw [skipped, exec_bind_some run, exec_pure], later⟩
  · refine ⟨none, fun cbor d plays => ?_, ofType_none _⟩
    have run := exec_skipOption level option d a
    rw [fails cbor d plays] at run
    exact exec_bind_none (congrArg Prod.fst run)

/-- An option that is not the last of its map is read or skipped within its own items. -/
theorem parseOption_inner (level : Nat) (m : Message) (wf : node.WellFormed) :
    Sets m (fun cbor => (parseOption malloc cbor m (node.head level level) level : Parse q Message))
      (node.inside level level) := by
  rcases parseOption_cases malloc _ m level wf with skips | sets
  · intro a
    rw [funext skips]
    exact Or.inl ⟨m, a, rfl, reads_skipped m level a wf⟩
  · exact sets

theorem parseOption_settled (level next : Nat) (m : Message) (wf : node.WellFormed)
    (rest : List Delivery) :
    SettledAs m.type (fun cbor => (parseOption malloc cbor m (node.head level next) level :
      Parse q Message)) (node.inside level next ++ rest) := by
  rcases parseOption_cases malloc _ m level wf with skips | sets
  · rw [funext skips]
    exact settled_skipped m level _ _
  · intro a
    rcases sets a with ⟨x, b, type, reads⟩ | fails
    · exact ⟨_, reads rest, ofType_some type⟩
    · exact ⟨_, fails rest, ofType_none _⟩

section Loop
variable {n : Nat} {x : Message} {left : List Delivery} {r : Option (Message × Nat × List Delivery)}

theorem reads_optionsLoop_cons
    (first : Reads (fun cbor => (parseOption malloc cbor m (node.head level next) level :
      Parse q Message)) (node.inside level next ++ rest) a (some (x, b, left)))
    (others : Reads (fun cbor => (parseOptionsLoop malloc cbor level n x : Parse q Message))
      left b r) :
    Reads (fun cbor => (parseOptionsLoop malloc cbor level (n + 1) m : Parse q Message))
      (node.preorder level next ++ rest) a r := by
  rw [Node.preorder_eq]
  exact (reads_getNext _).bind (first.bind others)

theorem fails_optionsLoop_cons
    (first : Reads (fun cbor => (parseOption malloc cbor m (node.head level next) level :
      Parse q Message)) (node.inside level next ++ rest) a none) :
    Reads (fun cbor => (parseOptionsLoop malloc cbor level (n + 1) m : Parse q Message))
      (node.preorder level next ++ rest) a none := by
  rw [Node.preorder_eq]
  exact (reads_getNext _).bind first.bind_none

/-- The options of a map and what follows decide what the loop reads. -/
theorem settled_optionsLoop (level next : Nat) (nodes : List Node)
    (wf : ∀ node ∈ nodes, node.WellFormed) (m : Message) (rest : List Delivery) :
    SettledAs m.type (fun cbor => (parseOptionsLoop malloc cbor level nodes.length m :
      Parse q Message)) (Node.preorders level next nodes ++ rest) := by
  induction nodes generalizing m with
  | nil => exact fun a => ⟨_, reads_pure m, ofType_some rfl⟩
  | cons node nodes ih =>
    intro a
    have first := wf node (by simp)
    rw [Node.preorders_cons, List.append_assoc]
    cases nodes with
    | nil =>
      obtain ⟨r, reads, type⟩ := parseOption_settled (q := q) malloc level next m first
        rest a
      cases r with
      | none => exact ⟨none, fails_optionsLoop_cons malloc (by simpa using reads), ofType_none _⟩
      | some r =>
        have reads' : Reads _ _ a (some (r.1, r.2.1, r.2.2)) := reads
        exact ⟨some r, reads_optionsLoop_cons malloc (by simpa using reads') (reads_pure r.1), type⟩
    | cons other nodes =>
      have others := ih fun node within => wf node (by simp_all)
      rcases parseOption_inner (q := q) malloc level m first a with
        ⟨x, b, type, reads⟩ | fails
      · obtain ⟨r, reads', type'⟩ := others x b
        exact ⟨r, reads_optionsLoop_cons malloc (reads _) reads', type ▸ type'⟩
      · exact ⟨none, fails_optionsLoop_cons malloc (fails _), ofType_none _⟩

/-- With another option behind it, a skipped option makes no difference. -/
theorem optionsLoop_insert (level next : Nat) {pair : Node} {key : Int} (wfPair : pair.WellFormed)
    (label : pair.label = some key) (unused : key ∉ usedOptions m.type)
    (before after : List Node) (wf : ∀ node ∈ before ++ after, node.WellFormed)
    (inner : after ≠ []) (rest : List Delivery) (a : Nat) :
    ∃ r, OfType m.type r ∧
      Reads (fun cbor => (parseOptionsLoop malloc cbor level (before ++ after).length m :
        Parse q Message)) (Node.preorders level next (before ++ after) ++ rest) a r ∧
      Reads (fun cbor => (parseOptionsLoop malloc cbor level (before ++ pair :: after).length m :
        Parse q Message)) (Node.preorders level next (before ++ pair :: after) ++ rest) a r := by
  induction before generalizing m a with
  | nil =>
    obtain ⟨r, reads, type⟩ := settled_optionsLoop (q := q) malloc level next after wf m
      rest a
    refine ⟨r, type, reads, ?_⟩
    have filled : after.isEmpty = false := by simpa using inner
    rw [List.nil_append, Node.preorders_cons, filled, if_neg Bool.false_ne_true,
      List.append_assoc]
    refine reads_optionsLoop_cons malloc ?_ reads
    have skips : ∀ cbor, (parseOption malloc cbor m (pair.head level level) level :
        Parse q Message) = skipped m level (pair.head level level) :=
      fun cbor => parseOption_unused malloc level label unused
    rw [funext skips]
    exact reads_skipped m level a wfPair _
  | cons node before ih =>
    have filled : (before ++ after).isEmpty = false := by simp [inner]
    have filled' : (before ++ pair :: after).isEmpty = false := by simp
    simp only [List.cons_append, Node.preorders_cons, filled, filled', List.append_assoc]
    rcases parseOption_inner (q := q) malloc level m (wf node (by simp)) a with
      ⟨x, b, type, reads⟩ | fails
    · rw [← type] at unused ⊢
      obtain ⟨r, type', left, right⟩ := ih unused (fun node within => wf node (by simp_all)) b
      exact ⟨r, type', reads_optionsLoop_cons malloc (reads _) left,
        reads_optionsLoop_cons malloc (reads _) right⟩
    · exact ⟨none, ofType_none _, fails_optionsLoop_cons malloc (fails _),
        fails_optionsLoop_cons malloc (fails _)⟩

end Loop

end Insertion

section Messages
variable {m : Message} {es : List Delivery} {a : Nat}

/-- The input must end with the message. -/
def finishMessage (m : Message) : Parse q Message := do
  let (d, _) ← get
  guard (q.finish d)
  return m

/-- An integer behind the options. -/
def tailWith (f : Int → Message) : Parse q Message := do
  match (← getNext).value with
  | .int64 v => return f v
  | _ => failure

/-- What follows the options. -/
def conclude (m : Message) : Parse q Message := parseTail m >>= finishMessage

theorem exec_finishMessage (m : Message) (d : q.Decoder) (a : Nat) :
    exec (finishMessage m) d a = (if q.finish d then some m else none, d, a) := by
  change exec (guard (q.finish d = true) >>= fun _ => pure m) d a = _
  unfold guard
  cases q.finish d with
  | true => rfl
  | false => rfl

theorem settled_finishMessage (m : Message) (es : List Delivery) :
    SettledAs m.type (fun _ => (finishMessage m : Parse q Message)) es := by
  intro a
  cases es with
  | nil =>
    refine ⟨some (m, a, []), fun cbor d plays => ⟨d, ?_, plays⟩, ofType_some rfl⟩
    simp [exec_finishMessage, plays.finish]
  | cons e es =>
    refine ⟨none, fun cbor d plays => ?_, ofType_none _⟩
    simp [exec_finishMessage, plays.finish]

theorem settled_tailWith {f : Int → Message} (type : ∀ v, (f v).type = m.type)
    (es : List Delivery) : SettledAs m.type (fun _ => (tailWith f : Parse q Message)) es := by
  intro a
  cases es with
  | nil =>
    refine ⟨none, fun cbor d plays => ?_, ofType_none _⟩
    rw [tailWith, exec_bind_some (exec_getNext d a), plays.1]
    rfl
  | cons e es =>
    cases value : e.item.value with
    | int64 v =>
      refine ⟨some (f v, a, es), (reads_getNext e).bind ?_, ofType_some (type v)⟩
      simp only [value]
      exact reads_pure (f v)
    | _ =>
      refine ⟨none, (reads_getNext e).bind ?_, ofType_none _⟩
      simp only [value]
      exact reads_failure

theorem SettledAs.bind {type : MessageType} {step : Bytes → Parse q Message}
    {f : Message → Parse q Message} (first : SettledAs type step es)
    (second : ∀ x es, x.type = type → SettledAs type (fun _ => f x) es) :
    SettledAs type (fun cbor => step cbor >>= f) es := by
  intro a
  obtain ⟨r, reads, same⟩ := first a
  cases r with
  | none => exact ⟨none, Reads.bind_none (f := fun _ => f) reads, ofType_none _⟩
  | some r =>
    obtain ⟨r', reads', same'⟩ := second r.1 r.2.2 (same r rfl) r.2.1
    exact ⟨r', Reads.bind (f := fun _ => f) reads reads', same'⟩

theorem settled_parseTail (m : Message) (es : List Delivery) :
    SettledAs m.type (fun _ => (parseTail m : Parse q Message)) es := by
  have request := settled_tailWith (q := q) (m := m)
    (f := fun v => { m with dataItemRequested := (v % 2 ^ 64).toNat }) (fun _ => rfl) es
  have error := settled_tailWith (q := q) (m := m)
    (f := fun v => { m with errCode := v }) (fun _ => rfl) es
  unfold parseTail
  split
  · exact request
  · exact error
  · exact fun a => ⟨_, reads_pure m, ofType_some rfl⟩

theorem settled_conclude (m : Message) (es : List Delivery) :
    SettledAs m.type (fun _ => (conclude m : Parse q Message)) es :=
  (settled_parseTail m es).bind fun x es same => same ▸ settled_finishMessage x es

end Messages

section Trees

/-- The options of a message. -/
def Node.options : Node → List Node
  | .mk _ _ _ (_ :: options :: _) => options.children
  | _ => []

/-- A message with one more option at a position of its map, which then starts
with other bytes. -/
def Node.insertOption (tree : Node) (position : Nat) (option : Node) (bytes : Bytes) : Node :=
  match tree with
  | .mk value label head (type :: .mk (.map count) label' _ options :: tail) =>
    .mk value label head (type :: .mk (.map (count + 1)) label' bytes
      (options.take position ++ option :: options.drop position) :: tail)
  | tree => tree

/-- The item that a step finds first decides how it goes on. -/
theorem exec_found {β : Type} {f : QcborItem → Parse q β} {cbor : Bytes} {d : q.Decoder} {a : Nat}
    {e : Delivery} {es : List Delivery} (plays : Plays q cbor (e :: es) d) :
    exec (getNext >>= f) d a = exec (f e.item) (q.getNext d).2 a := by
  rw [exec_bind_some (exec_getNext d a), plays.1]

theorem Reads.next_bind {α β : Type} {f : Bytes → QcborItem → Parse q α}
    {g : Bytes → α → Parse q β} {e : Delivery} {es : List Delivery} {a : Nat}
    {r : Option (β × Nat × List Delivery)}
    (reads : Reads (fun cbor => f cbor e.item >>= g cbor) es a r) :
    Reads (fun cbor => (getNext >>= f cbor) >>= g cbor) (e :: es) a r := by
  cases r with
  | none =>
    intro cbor d plays
    rw [exec_bind_congr (exec_found plays) (g cbor)]
    exact reads cbor _ plays.2.2.2
  | some r =>
    intro cbor d plays
    rw [exec_bind_congr (exec_found plays) (g cbor)]
    exact reads cbor _ plays.2.2.2

theorem exec_at_end {β : Type} {f : QcborItem → Parse q β} {cbor : Bytes} {d : q.Decoder} {a : Nat}
    (plays : Plays q cbor [] d)
    (fails : ∀ item : QcborItem, item.value = .none → f item = failure) :
    (exec (getNext >>= f) d a).1 = none := by
  rw [exec_bind_some (exec_getNext d a), fails _ plays.1]
  rfl

/-- A step that needs a node to read has one. -/
theorem exec_needs {β : Type} {f : QcborItem → Parse q β} {cbor : Bytes} {d : q.Decoder} {a : Nat}
    {x : β} {nodes : List Node} {level next : Nat}
    (plays : Plays q cbor (Node.preorders level next nodes) d)
    (fails : ∀ item : QcborItem, item.value = .none → f item = failure)
    (run : (exec (getNext >>= f) d a).1 = some x) :
    ∃ node others, nodes = node :: others ∧
      Plays q cbor (node.inside level (if others.isEmpty then next else level) ++
        Node.preorders level next others) (q.getNext d).2 ∧
      (exec (f (node.head level (if others.isEmpty then next else level))) (q.getNext d).2 a).1 =
        some x := by
  cases nodes with
  | nil =>
    rw [exec_at_end plays fails] at run
    cases run
  | cons node others =>
    rw [Node.preorders_cons, Node.preorder_eq] at plays
    rw [exec_found plays] at run
    exact ⟨node, others, rfl, plays.2.2.2, run⟩

theorem parseOptions_map {β : Type} {f : Message → Parse q β} {cbor : Bytes} {d : q.Decoder}
    {a : Nat} {m : Message} {x : β} {nodes : List Node} {level next : Nat}
    (wf : ∀ node ∈ nodes, node.WellFormed)
    (plays : Plays q cbor (Node.preorders level next nodes) d)
    (run : (exec (parseOptions malloc cbor m >>= f) d a).1 = some x) :
    ∃ label bytes options tail, nodes = .mk (.map options.length) label bytes options :: tail := by
  have first : ∃ y, (exec (parseOptions malloc cbor m) d a).1 = some y := by
    cases first : (exec (parseOptions malloc cbor m) d a).1 with
    | none =>
      rw [exec_bind_none first] at run
      cases run
    | some y => exact ⟨y, rfl⟩
  obtain ⟨y, first⟩ := first
  obtain ⟨node, others, rfl, -, read⟩ := exec_needs plays (by simp_all) first
  cases node with
  | mk value label bytes options =>
    have counts := (wf _ (List.mem_cons_self ..)).counts
    cases value with
    | map n =>
      have pairs : n = options.length := counts
      subst pairs
      exact ⟨label, bytes, options, others, rfl⟩
    | _ => cases read

/-- Only a message of this shape is accepted. -/
theorem accepted_shape {cbor : Bytes} {tree : Node} {m : Message} {before after : Nat}
    (wf : tree.WellFormed) (delivers : Delivers q cbor tree)
    (accepted : parseTeepMessage q malloc before cbor = (some m, after)) :
    ∃ c v l₀ l₁ l₂ h₀ h₁ h₂ type, ∃ options tail : List Node,
      tree = .mk (.array c) l₀ h₀
        (.mk (.int64 v) l₁ h₁ [] :: .mk (.map options.length) l₂ h₂ options :: tail) ∧
      messageTypeOf v = some type := by
  have run : (exec (parseMessage malloc cbor) (q.init cbor) before).1 = some m :=
    congrArg Prod.fst accepted
  have plays : Plays q cbor (tree.preorder 0 0) (q.init cbor) := delivers
  cases tree with
  | mk value l₀ h₀ children =>
    rw [Node.preorder_eq] at plays
    rw [parseMessage, exec_found plays] at run
    cases value with
    | array c =>
      obtain ⟨first, others, rfl, plays', run'⟩ := exec_needs plays.2.2.2
        (fun item nothing => by simp only [nothing]) run
      cases first with
      | mk value l₁ h₁ inner =>
        cases value with
        | int64 v =>
          have leaf := (wf.inner _ (List.mem_cons_self ..)).counts
          cases List.length_eq_zero_iff.mp leaf
          cases known : messageTypeOf v with
          | none =>
            simp only [Node.head, Node.value, known] at run'
            cases run'
          | some type =>
            simp only [Node.head, Node.value, known] at run'
            have taken := exec_allocate (q.getNext (q.getNext (q.init cbor)).2).2 before malloc 168
            cases free : malloc before 168 with
            | false =>
              rw [exec_bind_none (by rw [taken, free]; rfl)] at run'
              cases run'
            | true =>
              rw [free, if_pos rfl] at taken
              rw [exec_bind_some taken] at run'
              obtain ⟨l₂, h₂, options, tail, rfl⟩ := parseOptions_map malloc
                (fun node within => wf.inner node (List.mem_cons_of_mem _ within)) plays' run'
              exact ⟨c, v, l₀, l₁, l₂, h₀, h₁, h₂, type, options, tail, rfl, known⟩
        | _ => cases run'
    | _ => cases run

/-- A message with these options and what follows them. -/
def messageOf (c : QcborValue) (v : Int) (l₀ l₁ l₂ : Option Int) (h₀ h₁ h₂ : Bytes)
    (options tail : List Node) : Node :=
  .mk c l₀ h₀ (.mk (.int64 v) l₁ h₁ [] :: .mk (.map options.length) l₂ h₂ options :: tail)

section Shape
variable {c : Nat} {v : Int} {l₀ l₁ l₂ : Option Int} {h₀ h₁ h₂ : Bytes} {tail : List Node}
  {type : MessageType}

/-- The level of the item behind the options. -/
def afterOptions (tail : List Node) : Nat := if tail.isEmpty then 0 else 1

/-- The three items in front of the options. -/
def opening (c : Nat) (v : Int) (l₀ l₁ l₂ : Option Int) (h₀ h₁ h₂ : Bytes)
    (options tail : List Node) : List Delivery :=
  [⟨⟨.array c, l₀, 1⟩, h₀⟩, ⟨⟨.int64 v, l₁, 1⟩, h₁⟩,
    ⟨⟨.map options.length, l₂, if options.isEmpty then afterOptions tail else 2⟩, h₂⟩]

theorem preorder_messageOf (options : List Node) :
    (messageOf (.array c) v l₀ l₁ l₂ h₀ h₁ h₂ options tail).preorder 0 0 =
      opening c v l₀ l₁ l₂ h₀ h₁ h₂ options tail ++
        (Node.preorders 2 (afterOptions tail) options ++ Node.preorders 1 0 tail) := by
  simp [messageOf, opening, Node.preorder, Node.preorders, afterOptions]

theorem reads_message {a : Nat} {options : List Node}
    {r : Option (Message × Nat × List Delivery)} (known : messageTypeOf v = some type)
    (reads : malloc a 168 = true → Reads (fun cbor => parseOptionsLoop malloc cbor
      (if options.isEmpty then afterOptions tail else 2) options.length (.zero type) >>=
        conclude (q := q))
      (Node.preorders 2 (afterOptions tail) options ++ Node.preorders 1 0 tail) (a + 1) r) :
    Reads (parseMessage (q := q) malloc)
      ((messageOf (.array c) v l₀ l₁ l₂ h₀ h₁ h₂ options tail).preorder 0 0) a
      (if malloc a 168 then r else none) := by
  rw [preorder_messageOf]
  apply (reads_getNext _).bind
  dsimp only
  apply (reads_getNext _).bind
  simp only [known]
  have allocated := reads_allocate (q := q)
    (⟨⟨.map options.length, l₂, if options.isEmpty then afterOptions tail else 2⟩, h₂⟩ ::
      (Node.preorders 2 (afterOptions tail) options ++ Node.preorders 1 0 tail)) a malloc 168
  cases free : malloc a 168 with
  | false =>
    rw [free] at allocated
    exact allocated.bind_none
  | true =>
    rw [free] at allocated
    apply allocated.bind
    apply Reads.next_bind
    exact reads free

theorem settled_message (options : List Node) (known : messageTypeOf v = some type)
    (wf : ∀ node ∈ options, node.WellFormed) :
    SettledAs type (parseMessage (q := q) malloc)
      ((messageOf (.array c) v l₀ l₁ l₂ h₀ h₁ h₂ options tail).preorder 0 0) := by
  intro a
  have loop : SettledAs type (fun cbor => (parseOptionsLoop malloc cbor
      (if options.isEmpty then afterOptions tail else 2) options.length (.zero type) :
        Parse q Message))
      (Node.preorders 2 (afterOptions tail) options ++ Node.preorders 1 0 tail) := by
    cases options with
    | nil => exact fun a => ⟨_, reads_pure _, ofType_some rfl⟩
    | cons option options => exact settled_optionsLoop malloc 2 _ _ wf (.zero type) _
  have whole := loop.bind fun x es same => same ▸ settled_conclude (q := q) x es
  obtain ⟨r, reads, same⟩ := whole (a + 1)
  refine ⟨_, reads_message malloc known fun _ => reads, ?_⟩
  split
  · exact same
  · exact ofType_none _

/-- A skipped option that another option follows changes nothing. -/
theorem parseMessage_insert {option : Node} {key : Int} {h₂' : Bytes} {a : Nat}
    (known : messageTypeOf v = some type) (wfOption : option.WellFormed)
    (label : option.label = some key) (unused : key ∉ usedOptions type)
    (before behind : List Node) (wf : ∀ node ∈ before ++ behind, node.WellFormed)
    (inner : behind ≠ []) :
    ∃ r, Reads (parseMessage (q := q) malloc)
        ((messageOf (.array c) v l₀ l₁ l₂ h₀ h₁ h₂ (before ++ behind) tail).preorder 0 0) a r ∧
      Reads (parseMessage (q := q) malloc)
        ((messageOf (.array c) v l₀ l₁ l₂ h₀ h₁ h₂' (before ++ option :: behind) tail).preorder 0 0)
        a r := by
  obtain ⟨r, kept, left, right⟩ := optionsLoop_insert (q := q) (m := .zero type) malloc 2
    (afterOptions tail) wfOption label unused before behind wf inner
    (Node.preorders 1 0 tail) (a + 1)
  have filled : (before ++ behind).isEmpty = false := by simp [inner]
  have filled' : (before ++ option :: behind).isEmpty = false := by simp
  cases r with
  | none =>
    refine ⟨_, reads_message malloc known (r := none) fun _ => ?_,
      reads_message malloc known (r := none) fun _ => ?_⟩
    · rw [filled]
      exact left.bind_none
    · rw [filled']
      exact right.bind_none
  | some r =>
    obtain ⟨r', reads, -⟩ := settled_conclude (q := q) r.1 r.2.2 r.2.1
    refine ⟨_, reads_message malloc known (r := r') fun _ => ?_,
      reads_message malloc known (r := r') fun _ => ?_⟩
    · rw [filled]
      exact Reads.bind (f := fun _ => conclude) left reads
    · rw [filled']
      exact Reads.bind (f := fun _ => conclude) right reads

end Shape

end Trees

section Exactness
variable {cbor : Bytes} {first second options e : Delivery} {before rest : List Delivery}

/-- At the option behind the first `before` items, the skip loop consumes the
`inside` items of its value and nothing else. -/
def SkipsExactly (q : Qcbor) (cbor : Bytes) (before inside : Nat) : Prop :=
  let options := (q.getNext (advance q 2 (q.init cbor))).1
  let option := q.getNext (advance q before (q.init cbor))
  ∀ a, exec (skipOption options.nextNestLevel option.1) option.2 a =
    (some (), advance q inside option.2, a)

theorem exec_skipOption_iff {bottom a : Nat} {option : QcborItem} {d d' : q.Decoder} :
    exec (skipOption bottom option) d a = (some (), d', a) ↔
      skipLoop q bottom option.nextNestLevel d = (true, d') := by
  rw [exec_skipOption]
  cases run : skipLoop q bottom option.nextNestLevel d with
  | mk ok last =>
    cases ok with
    | true => simp
    | false => simp

theorem skipsExactly_iff
    (plays : Plays q cbor (first :: second :: options :: (before ++ e :: rest)) (q.init cbor))
    (inside : Nat) :
    ∃ d, Plays q cbor rest d ∧ (SkipsExactly q cbor (3 + before.length) inside ↔
      skipLoop q options.item.nextNestLevel e.item.nextNestLevel d =
        (true, advance q inside d)) := by
  have atOptions : Plays q cbor (options :: (before ++ e :: rest)) (advance q 2 (q.init cbor)) :=
    plays.2.2.2.2.2.2
  have atOption : Plays q cbor (e :: rest)
      (advance q (options :: before).length (advance q 2 (q.init cbor))) := atOptions.2.2.2.advance
  rw [← advance_add] at atOption
  have position : 2 + (options :: before).length = 3 + before.length := by
    rw [List.length_cons]
    omega
  rw [position] at atOption
  refine ⟨_, atOption.2.2.2, ?_⟩
  simp only [SkipsExactly, exec_skipOption_iff]
  rw [atOption.1]
  have level : (q.getNext (advance q 2 (q.init cbor))).1 = options.item := atOptions.1
  rw [level]
  exact forall_const Nat

end Exactness

section Insertions
variable {cbor cbor' bytes : Bytes} {m : Message} {key : Int} {allocations after : Nat}
variable {c : Nat} {v : Int} {l₀ l₁ l₂ : Option Int} {h₀ h₁ h₂ : Bytes} {option : Node}
  {before behind tail : List Node}

/-- The items of a message around one of its options. -/
theorem preorder_around :
    (messageOf (.array c) v l₀ l₁ l₂ h₀ h₁ h₂ (before ++ option :: behind) tail).preorder 0 0 =
      ⟨⟨.array c, l₀, 1⟩, h₀⟩ :: ⟨⟨.int64 v, l₁, 1⟩, h₁⟩ ::
        ⟨⟨.map (before ++ option :: behind).length, l₂, 2⟩, h₂⟩ ::
          (Node.preorders 2 2 before ++
            ⟨option.head 2 (if behind.isEmpty then afterOptions tail else 2), option.bytes⟩ ::
            (option.inside 2 (if behind.isEmpty then afterOptions tail else 2) ++
              (Node.preorders 2 (afterOptions tail) behind ++ Node.preorders 1 0 tail))) := by
  have filled : (before ++ option :: behind).isEmpty = false := by simp
  rw [preorder_messageOf, opening, filled, Node.preorders_append, Node.preorders_cons,
    Node.preorder_eq]
  simp

theorem skipsExactly_inner (wf : option.WellFormed) (inner : behind ≠ [])
    (delivers : Delivers q cbor
      (messageOf (.array c) v l₀ l₁ l₂ h₀ h₁ h₂ (before ++ option :: behind) tail)) :
    SkipsExactly q cbor (3 + Node.items before) (Node.items option.children) := by
  have filled : behind.isEmpty = false := by simpa using inner
  rw [Delivers, preorder_around, filled, if_neg Bool.false_ne_true] at delivers
  obtain ⟨d, plays, exactly⟩ := skipsExactly_iff delivers (Node.items option.children)
  rw [Node.length_preorders] at exactly
  rw [exactly, skipLoop_climbs plays (Node.WellFormed.delivered_all _ _ _ wf.inner)
    (Node.climbs_inside 2 option), Node.inside, Node.length_preorders]

/-- The last option of a map is not followed by an item on its level. -/
theorem not_skipsExactly_last (wf : option.WellFormed)
    (delivers : Delivers q cbor
      (messageOf (.array c) v l₀ l₁ l₂ h₀ h₁ h₂ (before ++ [option]) tail)) :
    ¬ SkipsExactly q cbor (3 + Node.items before) (Node.items option.children) := by
  intro exact'
  rw [Delivers, preorder_around, List.isEmpty_nil, if_pos rfl] at delivers
  obtain ⟨d, plays, exactly⟩ := skipsExactly_iff delivers (Node.items option.children)
  rw [Node.length_preorders] at exactly
  have run := exactly.mp exact'
  have below : afterOptions tail < 2 := by
    unfold afterOptions
    split <;> omega
  have never : ∀ e ∈ option.preorder 2 (afterOptions tail), e.item.nextNestLevel ≠ 2 := by
    intro e member
    rcases Node.levels 2 (afterOptions tail) option e member with same | deeper
    · omega
    · omega
  rw [Node.preorder_eq] at never
  obtain ⟨left, shorter, plays'⟩ := skipLoop_past plays
    (Node.WellFormed.delivered_all _ _ _ wf.inner) (never _ (List.mem_cons_self ..))
    (fun e member => never e (List.mem_cons_of_mem _ member)) (by rw [run])
  rw [run, ← Node.length_preorders 3 (afterOptions tail) option.children] at plays'
  have lengths := (Plays.advance plays).length_unique plays'
  omega

/-- A description of the whole message gives the answer of `parse_teep_message`. -/
theorem parseTeepMessage_reads {tree : Node} {r : Option (Message × Nat × List Delivery)}
    (delivers : Delivers q cbor tree)
    (reads : Reads (parseMessage (q := q) malloc) (tree.preorder 0 0) allocations r)
    (m : Message) (after : Nat) :
    parseTeepMessage q malloc allocations cbor = (some m, after) ↔
      ∃ left, r = some (m, after, left) := by
  have outcome : parseTeepMessage q malloc allocations cbor =
      ((exec (parseMessage malloc cbor) (q.init cbor) allocations).1,
        (exec (parseMessage malloc cbor) (q.init cbor) allocations).2.2) := rfl
  rw [outcome]
  cases r with
  | none =>
    have fails := reads cbor (q.init cbor) delivers
    rw [fails]
    simp
  | some r =>
    obtain ⟨d, run, -⟩ := reads cbor (q.init cbor) delivers
    rw [run]
    constructor
    · intro same
      cases same
      exact ⟨r.2.2, rfl⟩
    · rintro ⟨left, same⟩
      cases same
      rfl

theorem skipped_option_ignored_iff (tree option : Node) (position : Nat) (wf : tree.WellFormed)
    (delivers : Delivers q cbor tree)
    (accepted : parseTeepMessage q malloc allocations cbor = (some m, after))
    (wfOption : option.WellFormed) (label : option.label = some key)
    (unused : key ∉ usedOptions m.type) (within : position ≤ tree.options.length)
    (delivers' : Delivers q cbor' (tree.insertOption position option bytes)) :
    (parseTeepMessage q malloc allocations cbor' = (some m, after) ∧
      SkipsExactly q cbor' (3 + Node.items (tree.options.take position))
        (Node.items option.children)) ↔
      position < tree.options.length := by
  obtain ⟨c, v, l₀, l₁, l₂, h₀, h₁, h₂, type, options, tail, rfl, known⟩ :=
    accepted_shape malloc wf delivers accepted
  have wfOptions : ∀ node ∈ options, node.WellFormed :=
    (wf.inner (.mk (.map options.length) l₂ h₂ options) (by simp [Node.children])).inner
  change position ≤ options.length at within
  have inserted : (messageOf (.array c) v l₀ l₁ l₂ h₀ h₁ h₂ options tail).insertOption position
      option bytes = messageOf (.array c) v l₀ l₁ l₂ h₀ h₁ bytes
        (options.take position ++ option :: options.drop position) tail := by
    have pairs : options.length + 1 =
        (options.take position ++ option :: options.drop position).length := by
      simp
      omega
    simp only [messageOf, Node.insertOption, pairs]
  rw [messageOf] at inserted
  rw [inserted] at delivers'
  change (_ ∧ SkipsExactly q cbor' (3 + Node.items (options.take position)) _) ↔
    position < options.length
  constructor
  · rintro ⟨-, exact'⟩
    by_contra last
    have all : options.drop position = [] := List.drop_eq_nil_of_le (by omega)
    rw [all] at delivers'
    exact not_skipsExactly_last wfOption delivers' exact'
  · intro inner
    have some : options.drop position ≠ [] := by
      intro none
      have all := List.drop_eq_nil_iff.mp none
      omega
    refine ⟨?_, skipsExactly_inner wfOption some delivers'⟩
    have settled : SettledAs type (parseMessage (q := q) malloc)
        ((messageOf (.array c) v l₀ l₁ l₂ h₀ h₁ h₂ options tail).preorder 0 0) :=
      settled_message malloc options known wfOptions
    obtain ⟨r, whole, same⟩ := settled allocations
    obtain ⟨left, rfl⟩ := (parseTeepMessage_reads malloc delivers whole m after).mp accepted
    have typed : m.type = type := same _ rfl
    rw [typed] at unused
    have around : ∀ node ∈ options.take position ++ options.drop position, node.WellFormed := by
      simpa using wfOptions
    obtain ⟨r, reads, reads'⟩ : ∃ r, Reads (parseMessage (q := q) malloc)
        ((messageOf (.array c) v l₀ l₁ l₂ h₀ h₁ h₂ (options.take position ++
          options.drop position) tail).preorder 0 0) allocations r ∧
        Reads (parseMessage (q := q) malloc)
          ((messageOf (.array c) v l₀ l₁ l₂ h₀ h₁ bytes (options.take position ++
            option :: options.drop position) tail).preorder 0 0) allocations r :=
      parseMessage_insert malloc known wfOption label unused _ _ around some
    rw [List.take_append_drop] at reads
    exact (parseTeepMessage_reads malloc delivers' reads' _ _).mpr
      ((parseTeepMessage_reads malloc delivers reads _ _).mp accepted)

end Insertions

section Update

/-- An Update with a token and no manifests. -/
def updateWithToken : Node :=
  .mk (.array 2) none [0x82]
    [.mk (.int64 3) none [0x03] [],
      .mk (.map 1) none [0xA1]
        [.mk (.byteString [0xAA]) (some OptionKey.token) [0x14, 0x41, 0xAA] []]]

theorem updateWithToken_wellFormed : updateWithToken.WellFormed := by
  have leaf : ∀ {value label bytes}, value.counts 0 →
      Node.WellFormed (.mk value label bytes []) := fun counts => .intro counts (by simp)
  refine .intro rfl ?_
  simp only [List.mem_cons, List.not_mem_nil, or_false, forall_eq_or_imp, forall_eq]
  refine ⟨leaf rfl, .intro rfl ?_⟩
  simp only [List.mem_cons, List.not_mem_nil, or_false, forall_eq]
  exact leaf rfl

/-- The option 99, with an integer and an empty array in its value. -/
def nestedOption : Node :=
  .mk (.array 2) (some 99) [0x18, 0x63, 0x82]
    [.mk (.int64 0) none [0x00] [], .mk (.array 0) none [0x80] []]

theorem nestedOption_wellFormed : nestedOption.WellFormed := by
  refine .intro rfl ?_
  simp only [List.mem_cons, List.not_mem_nil, or_false, forall_eq_or_imp, forall_eq]
  exact ⟨.intro rfl (by simp), .intro rfl (by simp)⟩

theorem skipped_option_ignored_iff_nested :
    (parseTeepMessage referenceQcbor (fun _ _ => true) 0
        [0x82, 0x03, 0xA2, 0x18, 0x63, 0x82, 0x00, 0x80, 0x14, 0x41, 0xAA] =
      (some { Message.zero .update with token := some [0xAA] }, 1) ∧
      SkipsExactly referenceQcbor
        [0x82, 0x03, 0xA2, 0x18, 0x63, 0x82, 0x00, 0x80, 0x14, 0x41, 0xAA] 3 2) ↔ 0 < 1 :=
  have delivers : Delivers referenceQcbor [0x82, 0x03, 0xA1, 0x14, 0x41, 0xAA]
      updateWithToken := by decide
  have delivers' : Delivers referenceQcbor
      [0x82, 0x03, 0xA2, 0x18, 0x63, 0x82, 0x00, 0x80, 0x14, 0x41, 0xAA]
      (updateWithToken.insertOption 0 nestedOption [0xA2]) := by decide
  skipped_option_ignored_iff (fun _ _ => true) updateWithToken nestedOption 0
    updateWithToken_wellFormed delivers (by decide) nestedOption_wellFormed rfl (by decide)
    (by decide) delivers'

/-- Behind the last option of the same Update, an unknown option with the value
0 makes the parser reject the message. -/
theorem last_skipped_option_rejected :
    (updateWithToken.WellFormed ∧
      (Node.mk (.int64 0) (some 99) [0x18, 0x63, 0x00] []).WellFormed) ∧
    Delivers referenceQcbor [0x82, 0x03, 0xA1, 0x14, 0x41, 0xAA] updateWithToken ∧
      Delivers referenceQcbor [0x82, 0x03, 0xA2, 0x14, 0x41, 0xAA, 0x18, 0x63, 0x00]
        (updateWithToken.insertOption 1 (.mk (.int64 0) (some 99) [0x18, 0x63, 0x00] []) [0xA2]) ∧
      99 ∉ usedOptions .update ∧
      parseTeepMessage referenceQcbor (fun _ _ => true) 0 [0x82, 0x03, 0xA1, 0x14, 0x41, 0xAA] =
        (some { Message.zero .update with token := some [0xAA] }, 1) ∧
      parseTeepMessage referenceQcbor (fun _ _ => true) 0
        [0x82, 0x03, 0xA2, 0x14, 0x41, 0xAA, 0x18, 0x63, 0x00] = (none, 1) :=
  ⟨⟨updateWithToken_wellFormed, .intro rfl (by simp)⟩, by decide⟩

end Update

end TeepDevice.Teep
