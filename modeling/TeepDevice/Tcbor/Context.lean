import TeepDevice.Tcbor.Primitive

/-! Reading contexts of teecbor.h: a cursor with the items read and the items
announced. A reader returns its value, if any, with the context it leaves. -/
namespace TeepDevice.Tcbor

/-- Subtraction of two `uint64_t`. -/
def sub64 (a b : Nat) : Nat := wrap64 (2 ^ 64 - b + a)

/-- The conversion `(int)v` of a 64-bit value, wrapping as gcc does. -/
def toInt32 (v : Nat) : Int := Int.bmod v (2 ^ 32)

/-- The conversion `(uint64_t)r` of an `int`. -/
def ofInt (r : Int) : Nat := (r % 2 ^ 64).toNat

structure Context where
  r : Bytes
  index : Nat
  count : Nat
  error : Error
  deriving DecidableEq, Repr

/-- `tcbor_fail`: everything but the error goes back to the saved context. -/
def fail (ctx saved : Context) : Context :=
  { ctx with r := saved.r, index := saved.index, count := saved.count }

def isEndOfContext (c : Context) : Bool := c.index == c.count

def toplevel (r : Range) : Context := ⟨r.getD [], 0, 1, .ok⟩

def openContext (parent : Context) (count : Nat) : Context := ⟨parent.r, 0, count, .ok⟩

def close (parent child : Context) : Bool × Context :=
  if isEndOfContext child then (true, { parent with r := child.r })
  else (false, { parent with error := .endOfContext })

def readAny (ctx : Context) : Option Any × Context :=
  if isEndOfContext ctx then (none, { ctx with error := .endOfContext })
  else
    match primitiveReadAny ctx.r with
    | .error e => (none, { ctx with error := e })
    | .ok (any, r) =>
      (some any, { ctx with
        r := r, index := if any.isTag then ctx.index else ctx.index + 1, error := .ok })

def skip (ctx : Context) (count : Nat) : Bool × Context :=
  if sub64 ctx.count ctx.index < count then (false, { ctx with error := .endOfContext })
  else
    match primitiveSkip ctx.r count with
    | .error e => (false, { ctx with error := e })
    | .ok r =>
      (true, { ctx with
        r := r, index := ctx.index + count, error := if count = 0 then ctx.error else .ok })

def skipAll (ctx : Context) : Bool × Context := skip ctx (sub64 ctx.count ctx.index)

/-- `tcbor_read_subobject`: the bytes of the next item, tags included. -/
def readSubobject (ctx : Context) : Option Bytes × Context :=
  match skip ctx 1 with
  | (false, ctx) => (none, ctx)
  | (true, after) => (some (ctx.r.take (ctx.r.length - after.r.length)), after)

/-- The body the typed `tcbor_read_*` functions share: one item, a test on its
head, and what is handed out of it. -/
def readMatching {α : Type} (accept : Any → Bool) (give : Any → Context → α) (ctx : Context) :
    Option α × Context :=
  match readAny ctx with
  | (none, after) => (none, fail after ctx)
  | (some any, after) =>
    if accept any then (some (give any after), after)
    else (none, fail { after with error := .notMatch } ctx)

def readUint : Context → Option Nat × Context := readMatching Any.isUint fun any _ => any.value
def readNint : Context → Option Nat × Context := readMatching Any.isNint fun any _ => any.value
def readBstr : Context → Option Bytes × Context := readMatching Any.isBstr fun any _ => any.bytes
def readTstr : Context → Option Bytes × Context := readMatching Any.isTstr fun any _ => any.bytes
def readNull : Context → Option Unit × Context := readMatching Any.isNull fun _ _ => ()
def readBool : Context → Option Bool × Context := readMatching Any.isBool fun any _ => any.isTrue
def readTag : Context → Option Nat × Context := readMatching Any.isTag fun any _ => any.value
def readArray : Context → Option Context × Context :=
  readMatching Any.isArray fun any after => openContext after any.value

/-- `tcbor_read_map` alone refuses a head whose doubled count overflows. -/
def readMap (ctx : Context) : Option Context × Context :=
  match readAny ctx with
  | (none, after) => (none, fail after ctx)
  | (some any, after) =>
    if any.isMap then
      if wrap64 (any.value + any.value) < any.value then
        (none, fail { after with error := .overflow } ctx)
      else (some (openContext after (wrap64 (any.value + any.value))), after)
    else (none, fail { after with error := .notMatch } ctx)

/-- `tcbor_read_int`; the value is rebuilt and compared to see that it fits. -/
def readInt (ctx : Context) : Option Int × Context :=
  match readUint ctx with
  | (some v, after) =>
    if ofInt (toInt32 v) ≠ v then (none, fail after ctx) else (some (toInt32 v), after)
  | (none, failed) =>
    match readNint failed with
    | (some v, after) =>
      if ofInt (-toInt32 (2 ^ 64 - 1 - v) - 1) ≠ v then (none, fail after ctx)
      else (some (toInt32 (2 ^ 64 - 1 - v)), after)
    | (none, failed) => (none, fail { failed with error := .notMatch } ctx)

section Progress

/-- Two contexts at the same place; only the error may differ. -/
def SamePlace (a b : Context) : Prop := a.r = b.r ∧ a.index = b.index ∧ a.count = b.count

theorem fail_samePlace (ctx saved : Context) : SamePlace (fail ctx saved) saved :=
  ⟨rfl, rfl, rfl⟩

theorem readAny_some {ctx after : Context} {any : Any} (h : readAny ctx = (some any, after)) :
    isEndOfContext ctx = false ∧ primitiveReadAny ctx.r = .ok (any, after.r) ∧
      after.count = ctx.count ∧
      after.index = (if any.isTag then ctx.index else ctx.index + 1) := by
  unfold readAny at h
  split at h
  · cases h
  · rename_i open_
    split at h
    · cases h
    · rename_i read
      cases h
      exact ⟨by simpa using open_, read, rfl, rfl⟩

theorem readAny_length {ctx after : Context} {any : Any} (h : readAny ctx = (some any, after)) :
    after.r.length < ctx.r.length :=
  primitiveReadAny_length (readAny_some h).2.1

variable {α : Type} {accept : Any → Bool} {give : Any → Context → α}

theorem readMatching_some {ctx after : Context} {x : α}
    (h : readMatching accept give ctx = (some x, after)) :
    ∃ any, readAny ctx = (some any, after) ∧ accept any = true ∧ give any after = x := by
  unfold readMatching at h
  split at h
  · cases h
  · rename_i any next read
    split at h
    · rename_i accepted
      cases h
      exact ⟨any, read, accepted, rfl⟩
    · cases h

theorem readMatching_of_accept {ctx after : Context} {any : Any}
    (read : readAny ctx = (some any, after)) (accepted : accept any = true) :
    readMatching accept give ctx = (some (give any after), after) := by
  simp only [readMatching, read, accepted, if_true]

theorem readMatching_of_refuse {ctx after : Context} {any : Any}
    (read : readAny ctx = (some any, after)) (refused : ¬ accept any = true) :
    (readMatching accept give ctx).1 = none := by
  simp only [readMatching, read, if_neg refused]

theorem readMatching_none {ctx after : Context}
    (h : readMatching accept give ctx = (none, after)) : SamePlace after ctx := by
  unfold readMatching at h
  split at h
  · cases h
    exact fail_samePlace _ _
  · split at h
    · cases h
    · cases h
      exact fail_samePlace _ _

theorem readMatching_length {ctx after : Context} {x : α}
    (h : readMatching accept give ctx = (some x, after)) : after.r.length < ctx.r.length := by
  obtain ⟨any, read, -, -⟩ := readMatching_some h
  exact readAny_length read

theorem readMap_some {ctx after map : Context} (h : readMap ctx = (some map, after)) :
    ∃ any, readAny ctx = (some any, after) ∧ any.isMap = true ∧
      map = openContext after (wrap64 (any.value + any.value)) := by
  unfold readMap at h
  split at h
  · cases h
  · rename_i any next read
    split at h
    · rename_i isMap
      split at h
      · cases h
      · cases h
        exact ⟨any, read, isMap, rfl⟩
    · cases h

theorem readMap_length {ctx after map : Context} (h : readMap ctx = (some map, after)) :
    map.r.length < ctx.r.length := by
  obtain ⟨any, read, -, rfl⟩ := readMap_some h
  have shorter : after.r.length < ctx.r.length := readAny_length read
  exact shorter

theorem readArray_length {ctx after array : Context} (h : readArray ctx = (some array, after)) :
    array.r.length < ctx.r.length := by
  obtain ⟨any, read, -, rfl⟩ := readMatching_some h
  have shorter : after.r.length < ctx.r.length := readAny_length read
  exact shorter

theorem readInt_length {ctx after : Context} {r : Int} (h : readInt ctx = (some r, after)) :
    after.r.length < ctx.r.length := by
  unfold readInt at h
  split at h
  · rename_i read
    split at h
    · exact absurd (Prod.mk.inj h).1 (by simp)
    · exact (Prod.mk.inj h).2 ▸ readMatching_length read
  · rename_i failed first
    split at h
    · rename_i read
      split at h
      · exact absurd (Prod.mk.inj h).1 (by simp)
      · have shorter := readMatching_length read
        rw [(readMatching_none first).1] at shorter
        exact (Prod.mk.inj h).2 ▸ shorter
    · exact absurd (Prod.mk.inj h).1 (by simp)

theorem skip_true {ctx after : Context} {count : Nat} (h : skip ctx count = (true, after)) :
    primitiveSkip ctx.r count = .ok after.r ∧ after.count = ctx.count ∧
      after.index = ctx.index + count := by
  unfold skip at h
  split at h
  · cases h
  · split at h
    · cases h
    · rename_i skipped
      cases h
      exact ⟨skipped, rfl, rfl⟩

theorem skip_length {ctx after : Context} {count : Nat} (h : skip ctx count = (true, after)) :
    after.r.length ≤ ctx.r.length :=
  (primitiveSkip_length (skip_true h).1).1

theorem close_true {parent child after : Context} (h : close parent child = (true, after)) :
    after.r = child.r := by
  unfold close at h
  split at h
  · cases h
    rfl
  · cases h

theorem readSubobject_length {ctx after : Context} {x : Bytes}
    (h : readSubobject ctx = (some x, after)) : after.r.length < ctx.r.length := by
  unfold readSubobject at h
  split at h
  · cases h
  · rename_i skipped
    cases h
    exact (primitiveSkip_length (skip_true skipped).1).2 Nat.one_pos

end Progress

section Items
variable {α : Type}

def itemsFuel (read : Context → Option α × Context) : Nat → Context → List (Option α)
  | 0, ctx => if isEndOfContext ctx then [] else [none]
  | fuel + 1, ctx =>
    if isEndOfContext ctx then []
    else
      match read ctx with
      | (none, _) => [none]
      | (some x, after) => some x :: itemsFuel read fuel after

/-- Everything `read` takes from a context up to its end, left to right; `none`
is the place of the first failure and ends the list. -/
def items (read : Context → Option α × Context) (ctx : Context) : List (Option α) :=
  itemsFuel read ctx.r.length ctx

/-- A reader that consumes bytes whenever it succeeds. -/
def Consuming (read : Context → Option α × Context) : Prop :=
  ∀ ctx after x, read ctx = (some x, after) → after.r.length < ctx.r.length

theorem itemsFuel_enough {read : Context → Option α × Context} (consuming : Consuming read)
    {n m : Nat} {ctx : Context} (hn : ctx.r.length ≤ n) (hm : ctx.r.length ≤ m) :
    itemsFuel read n ctx = itemsFuel read m ctx := by
  induction n generalizing m ctx with
  | zero =>
    cases m with
    | zero => rfl
    | succ m =>
      simp only [itemsFuel]
      split
      · rfl
      · split
        · rfl
        · rename_i x after taken
          have shorter := consuming ctx after x taken
          omega
  | succ n ih =>
    simp only [itemsFuel]
    cases m with
    | zero =>
      simp only [itemsFuel]
      split
      · rfl
      · split
        · rfl
        · rename_i x after taken
          have shorter := consuming ctx after x taken
          omega
    | succ m =>
      simp only [itemsFuel]
      split
      · rfl
      · split
        · rfl
        · rename_i x after taken
          have shorter := consuming ctx after x taken
          rw [ih (by omega : after.r.length ≤ n) (by omega : after.r.length ≤ m)]

theorem items_unfold {read : Context → Option α × Context} (consuming : Consuming read)
    (ctx : Context) :
    items read ctx =
      if isEndOfContext ctx then []
      else
        match read ctx with
        | (none, _) => [none]
        | (some x, after) => some x :: items read after := by
  rw [items, itemsFuel_enough consuming (Nat.le_refl _) (Nat.le_succ _)]
  simp only [itemsFuel]
  split
  · rfl
  · split
    · rfl
    · rename_i x after taken
      have shorter := consuming ctx after x taken
      rw [items, itemsFuel_enough consuming (Nat.le_of_lt shorter) (Nat.le_refl _)]

end Items

end TeepDevice.Tcbor
