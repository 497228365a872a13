import TeepDevice.Tcbor.Integers

/-! Nested traversals: contexts opened inside each other, read and closed again.
The items that the open contexts still announce, taken together, are the counter
of `tcbor_primitive_skip`. -/
namespace TeepDevice.Tcbor

/-- The typed readers of items without children. -/
inductive Scalar where
  | uint | nint | int | bstr | tstr | null | bool
  deriving DecidableEq, Repr

def Scalar.read (ctx : Context) : Scalar → Bool × Context
  | uint => ((readUint ctx).1.isSome, (readUint ctx).2)
  | nint => ((readNint ctx).1.isSome, (readNint ctx).2)
  | int => ((readInt ctx).1.isSome, (readInt ctx).2)
  | bstr => ((readBstr ctx).1.isSome, (readBstr ctx).2)
  | tstr => ((readTstr ctx).1.isSome, (readTstr ctx).2)
  | null => ((readNull ctx).1.isSome, (readNull ctx).2)
  | bool => ((readBool ctx).1.isSome, (readBool ctx).2)

inductive Operation where
  | scalar (reader : Scalar)
  | tag
  | skip (count : Nat)
  | subobject
  | array
  | map
  | close
  deriving DecidableEq, Repr

/-- A call on the innermost of the open contexts, which come innermost first. A
child is opened in front of its parent; closing it needs that parent. -/
def Operation.call : Operation → List Context → Bool × List Context
  | _, [] => (false, [])
  | scalar reader, ctx :: outer => ((reader.read ctx).1, (reader.read ctx).2 :: outer)
  | tag, ctx :: outer => ((readTag ctx).1.isSome, (readTag ctx).2 :: outer)
  | skip count, ctx :: outer => ((Tcbor.skip ctx count).1, (Tcbor.skip ctx count).2 :: outer)
  | subobject, ctx :: outer => ((readSubobject ctx).1.isSome, (readSubobject ctx).2 :: outer)
  | array, ctx :: outer =>
    match readArray ctx with
    | (none, ctx) => (false, ctx :: outer)
    | (some child, ctx) => (true, child :: ctx :: outer)
  | map, ctx :: outer =>
    match readMap ctx with
    | (none, ctx) => (false, ctx :: outer)
    | (some child, ctx) => (true, child :: ctx :: outer)
  | close, [ctx] => (false, [ctx])
  | close, child :: parent :: outer =>
    match Tcbor.close parent child with
    | (false, parent) => (false, child :: parent :: outer)
    | (true, parent) => (true, parent :: outer)

/-- The contexts after calls that all succeed. -/
def traverse : List Operation → List Context → Option (List Context)
  | [], contexts => some contexts
  | op :: ops, contexts =>
    match op.call contexts with
    | (false, _) => none
    | (true, contexts) => traverse ops contexts

/-- The contexts after calls that succeed or fail. -/
def attempt (ops : List Operation) (contexts : List Context) : List Context :=
  ops.foldl (fun contexts op => (op.call contexts).2) contexts

/-- The reads of a context are within what it announces. -/
def Context.Within (ctx : Context) : Prop := ctx.index ≤ ctx.count ∧ ctx.count < 2 ^ 64

/-- The items all the open contexts still announce. -/
def pending : List Context → Nat
  | [] => 0
  | ctx :: outer => (ctx.count - ctx.index) + pending outer

/-- Where the innermost context stands. -/
def cursor : List Context → Bytes
  | [] => []
  | ctx :: _ => ctx.r

/-- Whatever completes the items pending behind completes those pending before. -/
def Consumes (before after : List Context) : Prop :=
  ∀ items rest, Sequence (pending after) items → cursor after = items ++ rest →
    ∃ items', Sequence (pending before) items' ∧ cursor before = items' ++ rest

section Within
variable {ctx after : Context}

theorem Context.Within.remaining (within : ctx.Within) : Remaining ctx (ctx.count - ctx.index) :=
  ⟨Nat.add_sub_cancel' within.1, within.2⟩

theorem Context.Within.sub64 (within : ctx.Within) :
    Tcbor.sub64 ctx.count ctx.index = ctx.count - ctx.index := by
  obtain ⟨le, fits⟩ := within
  unfold Tcbor.sub64 wrap64
  omega

theorem Context.Within.ended (within : ctx.Within) (ended : isEndOfContext ctx = true) :
    ctx.count - ctx.index = 0 :=
  within.remaining.isEndOfContext_iff.mp ended

theorem SamePlace.within {failed : Context} (place : SamePlace failed ctx) (within : ctx.Within) :
    failed.Within := by
  obtain ⟨-, index, count⟩ := place
  unfold Context.Within at within ⊢
  omega

theorem within_advance (within : ctx.Within) (some : 0 < ctx.count - ctx.index) (r : Bytes) :
    (ctx.advance r).Within := by
  unfold Context.Within at within ⊢
  simp only [Context.advance]
  omega

theorem within_openContext (parent : Context) {count : Nat} (fits : count < 2 ^ 64) :
    (openContext parent count).Within :=
  ⟨Nat.zero_le _, fits⟩

end Within

section Calls
variable {ctx after : Context}

/-- One item was read, and nothing else. -/
def Takes (ctx after : Context) : Prop :=
  0 < ctx.count - ctx.index ∧ ∃ item, Item item ∧ ctx.r = item ++ after.r ∧
    after = ctx.advance after.r

theorem Takes.within (takes : Takes ctx after) (within : ctx.Within) : after.Within := by
  obtain ⟨some, item, -, -, behind⟩ := takes
  rw [behind]
  exact within_advance within some after.r

theorem Takes.consumes (takes : Takes ctx after) (outer : List Context) :
    Consumes (ctx :: outer) (after :: outer) := by
  obtain ⟨some, item, isItem, same, behind⟩ := takes
  intro items rest present reads
  simp only [pending, cursor] at present reads ⊢
  have fewer : after.count - after.index = ctx.count - ctx.index - 1 := by
    rw [behind]
    simp only [Context.advance]
    omega
  rw [fewer] at present
  have total : ctx.count - ctx.index + pending outer =
      1 + (ctx.count - ctx.index - 1 + pending outer) := by omega
  refine ⟨item ++ items, ?_, by rw [same, reads, List.append_assoc]⟩
  rw [total]
  exact ((sequence_one).mpr isItem).append present

theorem readMatching_takes {α : Type} {accept : Any → Bool} {give : Any → Context → α}
    (scalar : ∀ any, accept any = true → any.majorType < 4 ∨ any.majorType = 7)
    (within : ctx.Within) (read : (readMatching accept give ctx).1.isSome = true) :
    Takes ctx (readMatching accept give ctx).2 := by
  have untagged (any : Any) (accepted : accept any = true) : any.isTag = false := by
    rcases scalar any accepted with low | high
    · exact isTag_of_majorType rfl (by omega)
    · exact isTag_of_majorType high (by decide)
  obtain ⟨x, found⟩ := Option.isSome_iff_exists.mp read
  obtain ⟨some, head, any, isHead, accepted, same, behind, -⟩ :=
    (readMatching_iff within.remaining untagged).mp (Prod.ext found rfl)
  exact ⟨some, head, isHead.item (children_of_scalar (scalar any accepted)), same, behind⟩

theorem readMatching_stays {α : Type} {accept : Any → Bool} {give : Any → Context → α}
    (read : (readMatching accept give ctx).1.isSome = false) :
    SamePlace (readMatching accept give ctx).2 ctx :=
  readMatching_none (Prod.ext (Option.not_isSome_iff_eq_none.mp (by simp [read])) rfl)

theorem scalar_takes (reader : Scalar) (within : ctx.Within)
    (read : (reader.read ctx).1 = true) : Takes ctx (reader.read ctx).2 := by
  cases reader with
  | uint => exact readMatching_takes (fun any h => by simp_all [Any.isUint]) within read
  | nint => exact readMatching_takes (fun any h => by simp_all [Any.isNint]) within read
  | bstr => exact readMatching_takes (fun any h => by simp_all [Any.isBstr]) within read
  | tstr => exact readMatching_takes (fun any h => by simp_all [Any.isTstr]) within read
  | null => exact readMatching_takes (fun _ h => .inr (majorType_of_isNull h)) within read
  | bool => exact readMatching_takes (fun _ h => .inr (majorType_of_isBool h)) within read
  | int =>
    obtain ⟨i, found⟩ := Option.isSome_iff_exists.mp read
    obtain ⟨some, head, any, isHead, value, same, behind⟩ :=
      (readInt_iff within.remaining).mp (Prod.ext found rfl)
    refine ⟨some, head, isHead.item ?_, same, behind⟩
    rcases Any.intValue_cases value with uint | nint
    · exact children_of_isUint uint
    · exact children_of_isNint nint

theorem scalar_stays (reader : Scalar) (read : (reader.read ctx).1 = false) :
    SamePlace (reader.read ctx).2 ctx := by
  cases reader with
  | int => exact readInt_none (by simpa [Scalar.read] using read)
  | uint => exact readMatching_stays read
  | nint => exact readMatching_stays read
  | bstr => exact readMatching_stays read
  | tstr => exact readMatching_stays read
  | null => exact readMatching_stays read
  | bool => exact readMatching_stays read

theorem scalar_within (reader : Scalar) (within : ctx.Within) : (reader.read ctx).2.Within := by
  cases read : (reader.read ctx).1 with
  | true => exact (scalar_takes reader within read).within within
  | false => exact (scalar_stays reader read).within within

/-- A tag is read and its item still to come. -/
theorem readTag_some {v : Nat} (within : ctx.Within) (read : readTag ctx = (some v, after)) :
    0 < ctx.count - ctx.index ∧ ∃ head any, Head head any ∧ any.isTag = true ∧
      ctx.r = head ++ after.r ∧ after = { ctx with r := after.r, error := .ok } := by
  obtain ⟨any, found, tag, -⟩ := readMatching_some read
  obtain ⟨some, head, isHead, same, behind⟩ := (readAny_iff within.remaining).mp found
  rw [if_pos tag] at behind
  exact ⟨some, head, any, isHead, tag, same, behind⟩

theorem children_of_isTag {any : Any} (tag : any.isTag = true) : any.children = 1 := by
  simp [Any.children, tag]

theorem readTag_consumes {v : Nat} (within : ctx.Within) (read : readTag ctx = (some v, after))
    (outer : List Context) : Consumes (ctx :: outer) (after :: outer) := by
  obtain ⟨some, head, any, isHead, tag, same, behind⟩ := readTag_some within read
  intro items rest present reads
  simp only [pending, cursor] at present reads ⊢
  have still : after.count - after.index = ctx.count - ctx.index := by rw [behind]
  obtain ⟨n, total⟩ : ∃ n, ctx.count - ctx.index + pending outer = n + 1 :=
    ⟨ctx.count - ctx.index + pending outer - 1, by omega⟩
  rw [still, total] at present
  refine ⟨head ++ items, ?_, by rw [same, reads, List.append_assoc]⟩
  rw [total]
  exact (sequence_succ).mpr ⟨head, any, items, isHead, rfl, by rwa [children_of_isTag tag]⟩

/-- The child opened behind a head announces the head's children. -/
structure Opens (ctx child after : Context) : Prop where
  some : 0 < ctx.count - ctx.index
  behind : after = ctx.advance after.r
  opened : ∃ head any, Head head any ∧ ctx.r = head ++ child.r ∧ any.children < 2 ^ 64 ∧
    child = openContext after any.children

theorem readArray_opens {child : Context} (within : ctx.Within)
    (read : readArray ctx = (some child, after)) : Opens ctx child after := by
  obtain ⟨some, head, any, isHead, array, same, behind, rfl⟩ :=
    (readArray_iff within.remaining).mp read
  have children := children_of_isArray array
  exact ⟨some, behind, head, any, isHead, same, children ▸ isHead.value_lt, by rw [children]⟩

theorem readMap_opens {child : Context} (within : ctx.Within)
    (read : readMap ctx = (some child, after)) : Opens ctx child after := by
  obtain ⟨some, head, any, isHead, map, fits, same, behind, rfl⟩ :=
    (readMap_iff within.remaining).mp read
  have children := children_of_isMap map
  exact ⟨some, behind, head, any, isHead, same, children ▸ fits, by rw [children]⟩

theorem readMap_none (read : readMap ctx = (none, after)) : SamePlace after ctx := by
  unfold readMap at read
  repeat' split at read
  all_goals cases read
  · exact fail_samePlace _ _
  · exact fail_samePlace _ _
  · exact fail_samePlace _ _

variable {child : Context}

theorem Opens.within (opens : Opens ctx child after) (within : ctx.Within) :
    child.Within ∧ after.Within := by
  obtain ⟨head, any, -, -, fits, rfl⟩ := opens.opened
  refine ⟨within_openContext after fits, ?_⟩
  rw [opens.behind]
  exact within_advance within opens.some after.r

theorem Opens.consumes (opens : Opens ctx child after) (outer : List Context) :
    Consumes (ctx :: outer) (child :: after :: outer) := by
  obtain ⟨head, any, isHead, same, -, rfl⟩ := opens.opened
  intro items rest present reads
  simp only [pending, cursor, openContext, Nat.sub_zero] at present reads ⊢
  have some := opens.some
  have fewer : after.count - after.index = ctx.count - ctx.index - 1 := by
    rw [opens.behind]
    simp only [Context.advance]
    omega
  have total : ctx.count - ctx.index + pending outer =
      ctx.count - ctx.index - 1 + pending outer + 1 := by omega
  rw [fewer, Nat.add_comm] at present
  refine ⟨head ++ items, ?_, ?_⟩
  · rw [total]
    exact (sequence_succ).mpr ⟨head, any, items, isHead, rfl, present⟩
  · rw [same, openContext_r, reads, List.append_assoc]

theorem skip_within (count : Nat) (within : ctx.Within) : (skip ctx count).2.Within := by
  unfold skip
  rw [within.sub64]
  split
  · exact within
  · rename_i enough
    split
    · exact within
    · unfold Context.Within at within ⊢
      dsimp only
      omega

theorem skip_consumes {count : Nat} (within : ctx.Within) (read : skip ctx count = (true, after))
    (outer : List Context) : Consumes (ctx :: outer) (after :: outer) := by
  obtain ⟨-, same, index⟩ := skip_true read
  have enough : count ≤ ctx.count - ctx.index := by
    unfold skip at read
    rw [within.sub64] at read
    split at read
    · cases read
    · omega
  have fits : count < 2 ^ 64 := by
    have bound := within.2
    omega
  obtain ⟨skipped, present, front⟩ := skip_sound fits read
  intro items rest behind reads
  simp only [pending, cursor] at behind reads ⊢
  have fewer : after.count - after.index = ctx.count - ctx.index - count := by omega
  have total : ctx.count - ctx.index + pending outer =
      count + (ctx.count - ctx.index - count + pending outer) := by omega
  rw [fewer] at behind
  refine ⟨skipped ++ items, ?_, by rw [front, reads, List.append_assoc]⟩
  rw [total]
  exact present.append behind

theorem readSubobject_skip : (readSubobject ctx).2 = (skip ctx 1).2 ∧
    (readSubobject ctx).1.isSome = (skip ctx 1).1 := by
  unfold readSubobject
  rcases skip ctx 1 with ⟨ok, after⟩
  cases ok with
  | true => exact ⟨rfl, rfl⟩
  | false => exact ⟨rfl, rfl⟩

theorem close_false (more : isEndOfContext child = false) :
    (close ctx child).1 = false ∧ SamePlace (close ctx child).2 ctx := by
  simp [close, more, SamePlace]

theorem close_ended (ended : isEndOfContext child = true) :
    close ctx child = (true, { ctx with r := child.r }) := by
  simp [close, ended]

theorem close_within (within : ctx.Within) : (close ctx child).2.Within := by
  unfold close
  split
  · exact within
  · exact within

theorem close_consumes (within : child.Within) (closed : close ctx child = (true, after))
    (outer : List Context) : Consumes (child :: ctx :: outer) (after :: outer) := by
  obtain ⟨ended, rfl⟩ := (close_iff within.remaining).mp closed
  intro items rest present reads
  simp only [pending, cursor] at present reads ⊢
  rw [ended, Nat.zero_add]
  exact ⟨items, present, reads⟩

end Calls

section Runs

/-- Whether it succeeds or not, a call keeps every open context within bounds. -/
theorem call_within (op : Operation) {contexts : List Context}
    (within : ∀ ctx ∈ contexts, ctx.Within) : ∀ ctx ∈ (op.call contexts).2, ctx.Within := by
  cases contexts with
  | nil => exact within
  | cons ctx outer =>
    obtain ⟨here, others⟩ := List.forall_mem_cons.mp within
    cases op with
    | scalar reader => exact List.forall_mem_cons.mpr ⟨scalar_within reader here, others⟩
    | tag =>
      refine List.forall_mem_cons.mpr ⟨?_, others⟩
      rcases read : readTag ctx with ⟨found, after⟩
      cases found with
      | none => exact (readMatching_none read).within here
      | some v =>
        obtain ⟨-, -, -, -, -, -, behind⟩ := readTag_some here read
        dsimp only
        rw [behind]
        exact here
    | skip count => exact List.forall_mem_cons.mpr ⟨skip_within count here, others⟩
    | subobject =>
      refine List.forall_mem_cons.mpr ⟨?_, others⟩
      rw [(readSubobject_skip).1]
      exact skip_within 1 here
    | array =>
      rcases read : readArray ctx with ⟨found, after⟩
      cases found with
      | none =>
        simpa [Operation.call, read] using ⟨(readMatching_none read).within here, others⟩
      | some child =>
        have both := (readArray_opens here read).within here
        simpa [Operation.call, read] using ⟨both.1, both.2, others⟩
    | map =>
      rcases read : readMap ctx with ⟨found, after⟩
      cases found with
      | none => simpa [Operation.call, read] using ⟨(readMap_none read).within here, others⟩
      | some child =>
        have both := (readMap_opens here read).within here
        simpa [Operation.call, read] using ⟨both.1, both.2, others⟩
    | close =>
      cases outer with
      | nil => exact within
      | cons parent outer =>
        obtain ⟨around, others⟩ := List.forall_mem_cons.mp others
        have kept : (close parent ctx).2.Within := close_within around
        rcases closed : close parent ctx with ⟨ok, after⟩
        rw [closed] at kept
        cases ok with
        | true => simpa [Operation.call, closed] using ⟨kept, others⟩
        | false => simpa [Operation.call, closed] using ⟨here, kept, others⟩

theorem call_consumes {op : Operation} {contexts after : List Context}
    (within : ∀ ctx ∈ contexts, ctx.Within) (done : op.call contexts = (true, after)) :
    Consumes contexts after := by
  cases contexts with
  | nil =>
    simp [Operation.call] at done
  | cons ctx outer =>
    have here := within ctx (List.mem_cons_self ..)
    cases op with
    | scalar reader =>
      obtain ⟨ok, rfl⟩ := Prod.mk.inj done
      exact (scalar_takes reader here ok).consumes outer
    | tag =>
      obtain ⟨ok, rfl⟩ := Prod.mk.inj done
      obtain ⟨v, found⟩ := Option.isSome_iff_exists.mp ok
      exact readTag_consumes here (Prod.ext found rfl) outer
    | skip count =>
      obtain ⟨ok, rfl⟩ := Prod.mk.inj done
      exact skip_consumes here (Prod.ext ok rfl) outer
    | subobject =>
      obtain ⟨ok, rfl⟩ := Prod.mk.inj done
      rw [(readSubobject_skip).2] at ok
      rw [(readSubobject_skip).1]
      exact skip_consumes here (Prod.ext ok rfl) outer
    | array =>
      rcases read : readArray ctx with ⟨found, behind⟩
      cases found with
      | none => simp [Operation.call, read] at done
      | some child =>
        simp only [Operation.call, read, Prod.mk.injEq, true_and] at done
        subst done
        exact (readArray_opens here read).consumes outer
    | map =>
      rcases read : readMap ctx with ⟨found, behind⟩
      cases found with
      | none => simp [Operation.call, read] at done
      | some child =>
        simp only [Operation.call, read, Prod.mk.injEq, true_and] at done
        subst done
        exact (readMap_opens here read).consumes outer
    | close =>
      cases outer with
      | nil => simp [Operation.call] at done
      | cons parent outer =>
        rcases closed : close parent ctx with ⟨ok, behind⟩
        cases ok with
        | false => simp [Operation.call, closed] at done
        | true =>
          simp only [Operation.call, closed, Prod.mk.injEq, true_and] at done
          subst done
          exact close_consumes here closed outer

theorem attempt_within (ops : List Operation) {contexts : List Context}
    (within : ∀ ctx ∈ contexts, ctx.Within) : ∀ ctx ∈ attempt ops contexts, ctx.Within := by
  induction ops generalizing contexts with
  | nil => exact within
  | cons op ops ih => exact ih (call_within op within)

theorem traverse_consumes {ops : List Operation} {contexts after : List Context}
    (within : ∀ ctx ∈ contexts, ctx.Within) (done : traverse ops contexts = some after) :
    Consumes contexts after ∧ ∀ ctx ∈ after, ctx.Within := by
  induction ops generalizing contexts with
  | nil =>
    cases done
    exact ⟨fun items rest present reads => ⟨items, present, reads⟩, within⟩
  | cons op ops ih =>
    have kept := call_within op within
    rcases called : op.call contexts with ⟨ok, between⟩
    simp only [traverse, called] at done
    rw [called] at kept
    cases ok with
    | false => cases done
    | true =>
      obtain ⟨later, bounds⟩ := ih kept done
      refine ⟨fun items rest present reads => ?_, bounds⟩
      obtain ⟨items', present', reads'⟩ := later items rest present reads
      exact call_consumes within called items' rest present' reads'

/-- What the child of an array or map head was read up to is the rest of the item
that started at the head. -/
theorem traversed_item {p child opened ended : Context} {ops : List Operation} (within : p.Within)
    (opens : Opens p child opened) (done : traverse ops [child] = some [ended])
    (end_ : isEndOfContext ended = true) :
    ∃ item, Item item ∧ p.r = item ++ ended.r := by
  have inside : ∀ ctx ∈ [child], ctx.Within := List.forall_mem_singleton.mpr (opens.within within).1
  obtain ⟨consumes, bounds⟩ := traverse_consumes inside done
  have last : ended.count - ended.index = 0 := (bounds ended (List.mem_singleton_self _)).ended end_
  have nothing : Sequence (pending [ended]) [] := by
    simp only [pending, last]
    exact (sequence_zero).mpr rfl
  obtain ⟨content, present, reads⟩ := consumes [] ended.r nothing rfl
  obtain ⟨head, any, isHead, same, -, rfl⟩ := opens.opened
  simp only [pending, cursor, openContext, Nat.sub_zero, Nat.add_zero] at present reads
  refine ⟨head ++ content, (item_iff).mpr ⟨head, any, content, isHead, present, rfl⟩, ?_⟩
  rw [same, openContext_r, reads, List.append_assoc]

/-- A traversal of an array or a map, however nested, ends where skipping the item
ends; no context on the way is read beyond what it announces, and only a child at
its end can be closed. -/
theorem traversal_ends_where_skip_ends (p : Context) {child opened : Context}
    (more : p.index < p.count) (fits : p.count < 2 ^ 64) (short : p.r.length < 2 ^ 63)
    (opens : readArray p = (some child, opened) ∨ readMap p = (some child, opened)) :
    (∀ ops ended, traverse ops [child] = some [ended] → isEndOfContext ended = true →
      ∃ closed skipped, close opened ended = (true, closed) ∧ skip p 1 = (true, skipped) ∧
        SamePlace closed skipped) ∧
    (∀ ops, ∀ ctx ∈ attempt ops [p], ctx.index ≤ ctx.count ∧
      sub64 ctx.count ctx.index = ctx.count - ctx.index) ∧
    ∀ parent inner, isEndOfContext inner = false →
      (close parent inner).1 = false ∧ SamePlace (close parent inner).2 parent := by
  have within : p.Within := ⟨Nat.le_of_lt more, fits⟩
  have opens : Opens p child opened := opens.elim (readArray_opens within) (readMap_opens within)
  refine ⟨?_, ?_, fun parent inner => close_false⟩
  · intro ops ended done end_
    obtain ⟨item, isItem, same⟩ := traversed_item within opens done end_
    have skipped := skip_one_at within.remaining opens.some short isItem same
    refine ⟨_, _, close_ended end_, skipped, rfl, ?_, ?_⟩
    · rw [opens.behind]
      rfl
    · rw [opens.behind]
      rfl
  · intro ops ctx member
    have bounds := attempt_within ops (List.forall_mem_singleton.mpr within) ctx member
    exact ⟨bounds.1, bounds.sub64⟩

/-- `[1, 24(h'05'), {2: "a"}]`, with a byte behind it. -/
def nestedContext : Context :=
  ⟨[0x83, 0x01, 0xD8, 0x18, 0x41, 0x05, 0xA1, 0x02, 0x61, 0x61, 0x00], 0, 1, .ok⟩

/-- The last element is read by a grandchild. -/
theorem traversal_ends_where_skip_ends_nested :
    ∃ closed skipped,
      close { nestedContext with r := nestedContext.r.drop 1, index := 1 } ⟨[0x00], 3, 3, .ok⟩ =
        (true, closed) ∧ skip nestedContext 1 = (true, skipped) ∧ SamePlace closed skipped := by
  have opens : readArray nestedContext =
      (some ⟨nestedContext.r.drop 1, 0, 3, .ok⟩,
        { nestedContext with r := nestedContext.r.drop 1, index := 1 }) := by decide +kernel
  exact (traversal_ends_where_skip_ends nestedContext (by decide) (by decide) (by decide)
    (.inl opens)).1
    [.scalar .uint, .tag, .scalar .bstr, .map, .scalar .uint, .scalar .tstr, .close] _
    (by decide +kernel) (by decide)

end Runs

end TeepDevice.Tcbor
