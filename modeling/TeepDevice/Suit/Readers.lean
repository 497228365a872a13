import TeepDevice.Tcbor.Traversal
import TeepDevice.Suit.Runner

/-! The readers of a context as their callers see them: a `bool`, the context and
the output behind the call. A reader that fails changes neither the place nor the
output, and so alternatives can be tried in any order. -/
namespace TeepDevice.Suit
open Tcbor

def readKeyAndBstr (ctx : Context) (key : Nat) : Option Bytes × Context :=
  match matchKey ctx key with
  | (false, after) => (none, fail after ctx)
  | (true, value) =>
    match readBstr value with
    | (some bytes, after) => (some bytes, after)
    | (none, after) => (none, fail after ctx)

/-- The readers of teecbor.h and the three of suit-parser.c with their arguments. -/
inductive Reader where
  | any
  | skip (count : UInt64)
  | subobject
  | uint | nint | int | bstr | tstr | array | map | null | bool | tag
  | matchKey (key : Nat)
  | keyAndUint (key : Nat)
  | keyAndBstr (key : Nat)
  deriving DecidableEq, Repr

/-- What the variable behind `dst` holds. -/
inductive Output where
  | any (head : Any)
  | number (v : Nat)
  | int (i : Int)
  | bytes (bytes : Bytes)
  | context (child : Context)
  | flag (b : Bool)
  deriving DecidableEq, Repr

structure Reading where
  returned : Bool
  ctx : Context
  dst : Output
  deriving DecidableEq, Repr

/-- A value that was read goes to `dst`. -/
def Reading.giving {α : Type} (output : α → Output) (dst : Output) :
    Option α × Context → Reading
  | (some x, ctx) => ⟨true, ctx, output x⟩
  | (none, ctx) => ⟨false, ctx, dst⟩

def Reader.call (ctx : Context) (dst : Output) : Reader → Reading
  | any => .giving .any dst (readAny ctx)
  | skip count => ⟨(Tcbor.skip ctx count.toNat).1, (Tcbor.skip ctx count.toNat).2, dst⟩
  | subobject => .giving .bytes dst (readSubobject ctx)
  | uint => .giving .number dst (readUint ctx)
  | nint => .giving .number dst (readNint ctx)
  | int => .giving .int dst (readInt ctx)
  | bstr => .giving .bytes dst (readBstr ctx)
  | tstr => .giving .bytes dst (readTstr ctx)
  | array => .giving .context dst (readArray ctx)
  | map => .giving .context dst (readMap ctx)
  | null => .giving (fun _ => dst) dst (readNull ctx)
  | bool => .giving .flag dst (readBool ctx)
  | tag => .giving .number dst (readTag ctx)
  | matchKey key => ⟨(Suit.matchKey ctx key).1, (Suit.matchKey ctx key).2, dst⟩
  | keyAndUint key => .giving .number dst (readKeyAndUint ctx key)
  | keyAndBstr key => .giving .bytes dst (readKeyAndBstr ctx key)

/-- One head that passes a test. -/
def OneHead (accept : Any → Bool) (bytes : Bytes) : Prop :=
  ∃ any, Head bytes any ∧ accept any = true

/-- The key of a pair and the head behind it. -/
def KeyAnd (key : Nat) (accept : Any → Bool) (bytes : Bytes) : Prop :=
  ∃ first second, bytes = first ++ second ∧
    OneHead (fun any => any.isUint && any.value == key) first ∧ OneHead accept second

/-- What a reader consumes when it succeeds, and how many counted items that is. -/
def Reader.Consumes : Reader → Nat → Bytes → Prop
  | any, k, bytes => ∃ any, Head bytes any ∧ k = if any.isTag then 0 else 1
  | skip count, k, bytes => k = count.toNat ∧ Sequence count.toNat bytes
  | subobject, k, bytes => k = 1 ∧ Item bytes
  | uint, k, bytes => k = 1 ∧ OneHead Any.isUint bytes
  | nint, k, bytes => k = 1 ∧ OneHead Any.isNint bytes
  | int, k, bytes => k = 1 ∧ OneHead (fun any => any.intValue.isSome) bytes
  | bstr, k, bytes => k = 1 ∧ OneHead Any.isBstr bytes
  | tstr, k, bytes => k = 1 ∧ OneHead Any.isTstr bytes
  | array, k, bytes => k = 1 ∧ OneHead Any.isArray bytes
  | map, k, bytes => k = 1 ∧ OneHead Any.isMap bytes
  | null, k, bytes => k = 1 ∧ OneHead Any.isNull bytes
  | bool, k, bytes => k = 1 ∧ OneHead Any.isBool bytes
  | tag, k, bytes => k = 0 ∧ OneHead Any.isTag bytes
  | matchKey key, k, bytes => k = 1 ∧ OneHead (fun any => any.isUint && any.value == key) bytes
  | keyAndUint key, k, bytes => k = 2 ∧ KeyAnd key Any.isUint bytes
  | keyAndBstr key, k, bytes => k = 2 ∧ KeyAnd key Any.isBstr bytes

/-- A context that moved behind these bytes and so many of its items. -/
structure Passes (ctx after : Context) (k : Nat) (bytes : Bytes) : Prop where
  r : ctx.r = bytes ++ after.r
  index : after.index = ctx.index + k
  count : after.count = ctx.count
  within : ctx.Within → after.Within

/-- What a call has to come to. -/
structure Reader.Right (reader : Reader) (ctx : Context) (dst : Output) (reading : Reading) :
    Prop where
  failed : reading.returned = false → SamePlace reading.ctx ctx ∧ reading.dst = dst
  succeeded : reading.returned = true →
    ∃ k bytes, reader.Consumes k bytes ∧ Passes ctx reading.ctx k bytes

section Calls
variable {ctx after : Context} {dst : Output}

theorem Passes.trans {last : Context} {k m : Nat} {first second : Bytes}
    (moves : Passes ctx after k first) (more : Passes after last m second) :
    Passes ctx last (k + m) (first ++ second) where
  r := by rw [moves.r, more.r, List.append_assoc]
  index := by rw [more.index, moves.index, Nat.add_assoc]
  count := more.count.trans moves.count
  within := more.within ∘ moves.within

/-- One head further: a tag is not counted. -/
theorem readAny_moves {any : Any} (read : readAny ctx = (some any, after)) :
    ∃ head, Head head any ∧ Passes ctx after (if any.isTag then 0 else 1) head := by
  obtain ⟨more, primitive, count, index⟩ := readAny_some read
  obtain ⟨head, isHead, split⟩ := (primitiveReadAny_ok_iff).mp primitive
  have counted : after.index = ctx.index + if any.isTag then 0 else 1 := by
    rw [index]
    cases any.isTag <;> rfl
  refine ⟨head, isHead, split, counted, count, fun within => ?_⟩
  have notEnd : ctx.index ≠ ctx.count := by simpa [isEndOfContext] using more
  unfold Context.Within at within ⊢
  rw [counted, count]
  split <;> omega

theorem readMatching_moves {α : Type} {accept : Any → Bool} {give : Any → Context → α} {x : α}
    (untagged : ∀ any, accept any = true → any.isTag = false)
    (read : readMatching accept give ctx = (some x, after)) :
    ∃ head, OneHead accept head ∧ Passes ctx after 1 head := by
  obtain ⟨any, found, accepted, -⟩ := readMatching_some read
  obtain ⟨head, isHead, moves⟩ := readAny_moves found
  rw [untagged any accepted] at moves
  exact ⟨head, ⟨any, isHead, accepted⟩, moves⟩

theorem skip_moves {count : UInt64} (read : Tcbor.skip ctx count.toNat = (true, after)) :
    ∃ bytes, Sequence count.toNat bytes ∧ Passes ctx after count.toNat bytes := by
  obtain ⟨items, present, split⟩ := skip_sound count.toNat_lt read
  obtain ⟨-, counted, index⟩ := skip_true read
  refine ⟨items, present, split, index, counted, fun within => ?_⟩
  have stays := skip_within count.toNat within
  rw [read] at stays
  exact stays

theorem skip_false {count : Nat} (read : (Tcbor.skip ctx count).1 = false) :
    SamePlace (Tcbor.skip ctx count).2 ctx := by
  unfold Tcbor.skip at read ⊢
  split at read
  · rename_i less
    rw [if_pos less]
    exact ⟨rfl, rfl, rfl⟩
  · rename_i enough
    rw [if_neg enough]
    split at read
    · exact ⟨rfl, rfl, rfl⟩
    · cases read

theorem readAny_none (read : readAny ctx = (none, after)) : SamePlace after ctx := by
  unfold readAny at read
  split at read
  · cases read
    exact ⟨rfl, rfl, rfl⟩
  · split at read
    · cases read
      exact ⟨rfl, rfl, rfl⟩
    · cases read

theorem matchKey_true {key : Nat} (read : Suit.matchKey ctx key = (true, after)) :
    ∃ head, OneHead (fun any => any.isUint && any.value == key) head ∧
      Passes ctx after 1 head := by
  unfold Suit.matchKey at read
  split at read
  · rename_i k next found
    split at read
    · rename_i same
      cases read
      obtain ⟨any, one, uint, value⟩ := readMatching_some found
      obtain ⟨head, isHead, moves⟩ := readAny_moves one
      rw [isTag_of_isUint uint] at moves
      refine ⟨head, ⟨any, isHead, ?_⟩, moves⟩
      simp only [uint, value, same, beq_self_eq_true, Bool.and_self]
    · cases read
  · cases read

theorem matchKey_false {key : Nat} (read : Suit.matchKey ctx key = (false, after)) :
    SamePlace after ctx := by
  unfold Suit.matchKey at read
  split at read
  · split at read
    · cases read
    · cases read
      exact fail_samePlace _ _
  · cases read
    exact fail_samePlace _ _

/-- The body that `read_key_and_uint` and `read_key_and_bstr` share. -/
def readKeyAnd {α : Type} (read : Context → Option α × Context) (ctx : Context) (key : Nat) :
    Option α × Context :=
  match Suit.matchKey ctx key with
  | (false, after) => (none, fail after ctx)
  | (true, value) =>
    match read value with
    | (some x, after) => (some x, after)
    | (none, after) => (none, fail after ctx)

theorem readKeyAndUint_eq (key : Nat) :
    readKeyAndUint ctx key = readKeyAnd readUint ctx key := by
  unfold readKeyAndUint readKeyAnd
  rcases Suit.matchKey ctx key with ⟨matched, value⟩
  cases matched with
  | false => rfl
  | true =>
    dsimp only
    rcases readUint value with ⟨x, after⟩
    cases x <;> rfl

theorem readKeyAndBstr_eq (key : Nat) :
    readKeyAndBstr ctx key = readKeyAnd readBstr ctx key := by
  unfold readKeyAndBstr readKeyAnd
  rcases Suit.matchKey ctx key with ⟨matched, value⟩
  cases matched with
  | false => rfl
  | true =>
    dsimp only
    rcases readBstr value with ⟨x, after⟩
    cases x <;> rfl

theorem readKeyAnd_some {α : Type} {accept : Any → Bool} {give : Any → Context → α} {key : Nat}
    {x : α} (untagged : ∀ any, accept any = true → any.isTag = false)
    (read : readKeyAnd (readMatching accept give) ctx key = (some x, after)) :
    ∃ bytes, KeyAnd key accept bytes ∧ Passes ctx after 2 bytes := by
  unfold readKeyAnd at read
  split at read
  · cases read
  · rename_i value matched
    split at read
    · rename_i found
      cases read
      obtain ⟨first, isKey, moves⟩ := matchKey_true matched
      obtain ⟨second, isValue, more⟩ := readMatching_moves untagged found
      exact ⟨first ++ second, ⟨first, second, rfl, isKey, isValue⟩, moves.trans more⟩
    · cases read

theorem readKeyAnd_none {α : Type} {reader : Context → Option α × Context} {key : Nat}
    (read : readKeyAnd reader ctx key = (none, after)) : SamePlace after ctx := by
  unfold readKeyAnd at read
  split at read
  · cases read
    exact fail_samePlace _ _
  · split at read
    · cases read
    · cases read
      exact fail_samePlace _ _

/-- A reader that hands out a value: what it has to do with one and without. -/
theorem Reader.right_giving {α : Type} {reader : Reader} {output : α → Output}
    {result : Option α × Context}
    (stays : result.1 = none → SamePlace result.2 ctx)
    (moves : ∀ x, result.1 = some x →
      ∃ k bytes, reader.Consumes k bytes ∧ Passes ctx result.2 k bytes) :
    reader.Right ctx dst (.giving output dst result) := by
  obtain ⟨x, after⟩ := result
  cases x with
  | none => exact ⟨fun _ => ⟨stays rfl, rfl⟩, nofun⟩
  | some x => exact ⟨nofun, fun _ => moves x rfl⟩

/-- The typed readers of untagged heads. -/
theorem Reader.right_matching {α : Type} {reader : Reader} {accept : Any → Bool}
    {give : Any → Context → α} {output : α → Output}
    (untagged : ∀ any, accept any = true → any.isTag = false)
    (consumes : ∀ bytes, OneHead accept bytes → reader.Consumes 1 bytes) :
    reader.Right ctx dst (.giving output dst (readMatching accept give ctx)) := by
  apply Reader.right_giving
  · exact fun failed => readMatching_none (Prod.ext failed rfl)
  · intro x found
    obtain ⟨head, one, moves⟩ := readMatching_moves untagged (Prod.ext found rfl)
    exact ⟨1, head, consumes head one, moves⟩

theorem Reader.right_bool {reader : Reader} {result : Bool × Context}
    (stays : result.1 = false → SamePlace result.2 ctx)
    (moves : result.1 = true → ∃ k bytes, reader.Consumes k bytes ∧ Passes ctx result.2 k bytes) :
    reader.Right ctx dst ⟨result.1, result.2, dst⟩ :=
  ⟨fun failed => ⟨stays failed, rfl⟩, moves⟩

theorem isTag_of_intValue {any : Any} (h : any.intValue.isSome = true) : any.isTag = false := by
  obtain ⟨i, value⟩ := Option.isSome_iff_exists.mp h
  rcases Any.intValue_cases value with uint | nint
  · exact isTag_of_isUint uint
  · exact isTag_of_isNint nint

theorem right_any : Reader.any.Right ctx dst (Reader.any.call ctx dst) := by
  apply Reader.right_giving
  · exact fun failed => readAny_none (Prod.ext failed rfl)
  · intro any found
    obtain ⟨head, isHead, moves⟩ := readAny_moves (Prod.ext found rfl)
    exact ⟨_, head, ⟨any, isHead, rfl⟩, moves⟩

theorem right_skip (count : UInt64) :
    (Reader.skip count).Right ctx dst ((Reader.skip count).call ctx dst) := by
  apply Reader.right_bool skip_false
  intro read
  obtain ⟨bytes, present, moves⟩ := skip_moves (Prod.ext read rfl)
  exact ⟨_, bytes, ⟨rfl, present⟩, moves⟩

theorem right_subobject : Reader.subobject.Right ctx dst (Reader.subobject.call ctx dst) := by
  have same := @readSubobject_skip ctx
  apply Reader.right_giving
  · intro failed
    rw [same.1]
    apply skip_false
    rw [← same.2, failed]
    rfl
  · intro item found
    have read : (Tcbor.skip ctx 1).1 = true := by
      rw [← same.2, found]
      rfl
    obtain ⟨bytes, present, moves⟩ := @skip_moves ctx _ 1 (Prod.ext read rfl)
    rw [same.1]
    exact ⟨1, bytes, ⟨rfl, (sequence_one).mp present⟩, moves⟩

theorem right_int : Reader.int.Right ctx dst (Reader.int.call ctx dst) := by
  apply Reader.right_giving readInt_none
  intro i found
  obtain ⟨any, read, value⟩ := readInt_eq_some_iff.mp (Prod.ext found rfl)
  obtain ⟨head, isHead, moves⟩ := readAny_moves read
  have isInt : any.intValue.isSome = true := by rw [value, Option.isSome_some]
  rw [isTag_of_intValue isInt] at moves
  exact ⟨1, head, ⟨rfl, any, isHead, isInt⟩, moves⟩

theorem right_map : Reader.map.Right ctx dst (Reader.map.call ctx dst) := by
  apply Reader.right_giving
  · exact fun failed => readMap_none (Prod.ext failed rfl)
  · intro child found
    obtain ⟨any, read, isMap, -⟩ := readMap_some (Prod.ext found rfl)
    obtain ⟨head, isHead, moves⟩ := readAny_moves read
    rw [isTag_of_isMap isMap] at moves
    exact ⟨1, head, ⟨rfl, any, isHead, isMap⟩, moves⟩

/-- A tag moves the context but not its index. -/
theorem right_tag : Reader.tag.Right ctx dst (Reader.tag.call ctx dst) := by
  apply Reader.right_giving
  · exact fun failed => readMatching_none (Prod.ext failed rfl)
  · intro v found
    obtain ⟨any, read, isTag, -⟩ := readMatching_some (Prod.ext found rfl)
    obtain ⟨head, isHead, moves⟩ := readAny_moves read
    rw [isTag] at moves
    exact ⟨0, head, ⟨rfl, any, isHead, isTag⟩, moves⟩

theorem right_matchKey (key : Nat) :
    (Reader.matchKey key).Right ctx dst ((Reader.matchKey key).call ctx dst) := by
  apply Reader.right_bool
  · exact fun failed => matchKey_false (Prod.ext failed rfl)
  · intro read
    obtain ⟨head, isKey, moves⟩ := matchKey_true (Prod.ext read rfl)
    exact ⟨1, head, ⟨rfl, isKey⟩, moves⟩

theorem right_keyAnd {α : Type} {accept : Any → Bool} {give : Any → Context → α}
    {output : α → Output} (reader : Reader) (key : Nat)
    (untagged : ∀ any, accept any = true → any.isTag = false)
    (consumes : ∀ bytes, KeyAnd key accept bytes → reader.Consumes 2 bytes) :
    reader.Right ctx dst (.giving output dst (readKeyAnd (readMatching accept give) ctx key)) := by
  apply Reader.right_giving
  · exact fun failed => readKeyAnd_none (Prod.ext failed rfl)
  · intro x found
    obtain ⟨bytes, pair, moves⟩ := readKeyAnd_some untagged (Prod.ext found rfl)
    exact ⟨2, bytes, consumes bytes pair, moves⟩

/-- Every reader, in every context. -/
theorem reader_right (reader : Reader) (ctx : Context) (dst : Output) :
    reader.Right ctx dst (reader.call ctx dst) := by
  cases reader with
  | any => exact right_any
  | skip count => exact right_skip count
  | subobject => exact right_subobject
  | uint => exact Reader.right_matching (fun _ => isTag_of_isUint) fun _ one => ⟨rfl, one⟩
  | nint => exact Reader.right_matching (fun _ => isTag_of_isNint) fun _ one => ⟨rfl, one⟩
  | int => exact right_int
  | bstr => exact Reader.right_matching (fun _ => isTag_of_isBstr) fun _ one => ⟨rfl, one⟩
  | tstr =>
    refine Reader.right_matching (fun _ isTstr => ?_) fun _ one => ⟨rfl, one⟩
    exact isTag_of_majorType (beq_iff_eq.mp isTstr) (by decide)
  | array => exact Reader.right_matching (fun _ => isTag_of_isArray) fun _ one => ⟨rfl, one⟩
  | map => exact right_map
  | null =>
    refine Reader.right_matching (fun _ isNull => ?_) fun _ one => ⟨rfl, one⟩
    exact isTag_of_majorType (majorType_of_isNull isNull) (by decide)
  | bool =>
    refine Reader.right_matching (fun _ isBool => ?_) fun _ one => ⟨rfl, one⟩
    exact isTag_of_majorType (majorType_of_isBool isBool) (by decide)
  | tag => exact right_tag
  | matchKey key => exact right_matchKey key
  | keyAndUint key =>
    rw [Reader.call, readKeyAndUint_eq]
    exact right_keyAnd (.keyAndUint key) key (fun _ => isTag_of_isUint) fun _ pair => ⟨rfl, pair⟩
  | keyAndBstr key =>
    rw [Reader.call, readKeyAndBstr_eq]
    exact right_keyAnd (.keyAndBstr key) key (fun _ => isTag_of_isBstr) fun _ pair => ⟨rfl, pair⟩

end Calls

/-- A typed reader among others that are tried: its test and what it gives. -/
structure Alternative (α : Type) where
  accept : Any → Bool
  give : Any → Context → α

def Alternative.read {α : Type} (alternative : Alternative α) : Context → Option α × Context :=
  readMatching alternative.accept alternative.give

/-- The readers one after another, on the context that the one before left. -/
def firstOf {α : Type} : List (Alternative α) → Context → Option α × Context
  | [], ctx => (none, ctx)
  | alternative :: rest, ctx =>
    match alternative.read ctx with
    | (some x, after) => (some x, after)
    | (none, failed) => firstOf rest failed

section Alternatives
variable {α : Type} {alternatives order : List (Alternative α)} {ctx : Context}

/-- No head is for both. -/
def Apart (a b : Alternative α) : Prop := ∀ any, ¬ (a.accept any = true ∧ b.accept any = true)

/-- The whole result of a read depends on the place only. -/
theorem readAny_eq_of_samePlace {a b : Context} (same : SamePlace a b) :
    readAny a = readAny b := by
  obtain ⟨r, index, count, error⟩ := a
  obtain ⟨r', index', count', error'⟩ := b
  obtain ⟨rfl, rfl, rfl⟩ := same
  rfl

/-- A reader whose test fails leaves the place, and only its error. -/
theorem Alternative.read_eq (alternative : Alternative α) : alternative.read ctx =
    match readAny ctx with
    | (none, after) => (none, fail after ctx)
    | (some any, after) =>
      if alternative.accept any then (some (alternative.give any after), after)
      else (none, fail { after with error := .notMatch } ctx) := by
  unfold Alternative.read readMatching
  rcases readAny ctx with ⟨any, after⟩
  cases any <;> rfl

theorem firstOf_unreadable {after : Context} (nonempty : alternatives ≠ [])
    (read : readAny ctx = (none, after)) :
    firstOf alternatives ctx = (none, fail after ctx) := by
  induction alternatives generalizing ctx after with
  | nil => exact absurd rfl nonempty
  | cons alternative rest ih =>
    simp only [firstOf, alternative.read_eq, read]
    have again : readAny (fail after ctx) = (none, after) :=
      (readAny_eq_of_samePlace (fail_samePlace after ctx)).trans read
    cases rest with
    | nil => rfl
    | cons => exact ih (List.cons_ne_nil _ _) again

theorem firstOf_read {any : Any} {after : Context} (nonempty : alternatives ≠ [])
    (read : readAny ctx = (some any, after)) :
    firstOf alternatives ctx =
      match alternatives.find? (fun alternative => alternative.accept any) with
      | some alternative => (some (alternative.give any after), after)
      | none => (none, fail { after with error := .notMatch } ctx) := by
  induction alternatives generalizing ctx with
  | nil => exact absurd rfl nonempty
  | cons alternative rest ih =>
    simp only [firstOf, alternative.read_eq, read, List.find?_cons]
    cases accepted : alternative.accept any with
    | true => rfl
    | false =>
      have again : readAny (fail { after with error := .notMatch } ctx) = (some any, after) :=
        (readAny_eq_of_samePlace (fail_samePlace _ ctx)).trans read
      simp only [Bool.false_eq_true, if_false]
      cases rest with
      | nil => rfl
      | cons => exact ih (List.cons_ne_nil _ _) again

theorem Apart.symm {a b : Alternative α} (apart : Apart a b) : Apart b a :=
  fun any both => apart any both.symm

/-- At most one of the alternatives is found, whatever the order. -/
theorem find?_perm (perm : order.Perm alternatives) (apart : alternatives.Pairwise Apart)
    (any : Any) : order.find? (fun alternative => alternative.accept any) =
      alternatives.find? (fun alternative => alternative.accept any) := by
  induction perm with
  | nil => rfl
  | cons a perm ih =>
    rw [List.find?_cons, List.find?_cons, ih (List.pairwise_cons.mp apart).2]
  | swap a b rest =>
    -- only here does the order matter, if one head were for both
    have notBoth := (List.pairwise_cons.mp apart).1 b List.mem_cons_self any
    simp only [List.find?_cons]
    cases first : a.accept any with
    | true =>
      have second : b.accept any = false :=
        Bool.eq_false_iff.mpr fun second => notBoth ⟨first, second⟩
      rw [second]
    | false => rfl
  | trans perm₁ perm₂ ih₁ ih₂ =>
    rw [ih₁ (perm₂.symm.pairwise apart Apart.symm), ih₂ apart]

/-- Alternatives that exclude each other can be tried in any order. -/
theorem firstOf_perm (perm : order.Perm alternatives)
    (apart : alternatives.Pairwise Apart) : firstOf order ctx = firstOf alternatives ctx := by
  by_cases nonempty : alternatives = []
  · subst nonempty
    rw [perm.eq_nil]
  · have nonempty' : order ≠ [] := by
      rintro rfl
      exact nonempty perm.nil_eq.symm
    cases read : readAny ctx with
    | mk any after =>
      cases any with
      | none => rw [firstOf_unreadable nonempty read, firstOf_unreadable nonempty' read]
      | some any =>
        rw [firstOf_read nonempty read, firstOf_read nonempty' read, find?_perm perm apart]

end Alternatives

/-- `run_sequence_step` on the selected objects, trying the readers in some order. -/
def selectionFrom (order : List (Alternative Selection)) (selected : Bytes) : Selection :=
  (firstOf order (toplevel (some selected))).1.getD .unreadable

def selectionAlternatives : List (Alternative Selection) :=
  [⟨Any.isBool, fun any _ => .bool any.isTrue⟩, ⟨Any.isUint, fun any _ => .uint any.value⟩,
    ⟨Any.isArray, fun any after => .array (openContext after any.value)⟩]

inductive IntHead where
  | uint (v : Nat)
  | nint (v : Nat)

/-- `tcbor_read_int`, trying its two readers in some order. -/
def readIntFrom (order : List (Alternative IntHead)) (ctx : Context) : Option Int × Context :=
  match firstOf order ctx with
  | (some (.uint v), after) =>
    if ofInt (toInt32 v) ≠ v then (none, fail after ctx) else (some (toInt32 v), after)
  | (some (.nint v), after) =>
    if ofInt (-toInt32 (2 ^ 64 - 1 - v) - 1) ≠ v then (none, fail after ctx)
    else (some (toInt32 (2 ^ 64 - 1 - v)), after)
  | (none, failed) => (none, fail { failed with error := .notMatch } ctx)

def intAlternatives : List (Alternative IntHead) :=
  [⟨Any.isUint, fun any _ => .uint any.value⟩, ⟨Any.isNint, fun any _ => .nint any.value⟩]

theorem apart_of_majorType {α : Type} {a b : Alternative α} {n m : Nat}
    (first : ∀ any, a.accept any = true → any.majorType = n)
    (second : ∀ any, b.accept any = true → any.majorType = m) (other : n ≠ m) : Apart a b :=
  fun any both => other ((first any both.1).symm.trans (second any both.2))

theorem selectionAlternatives_apart : selectionAlternatives.Pairwise Apart := by
  have bool (any : Any) (h : any.isBool = true) : any.majorType = 7 := majorType_of_isBool h
  have uint (any : Any) (h : any.isUint = true) : any.majorType = 0 := beq_iff_eq.mp h
  have array (any : Any) (h : any.isArray = true) : any.majorType = 4 := beq_iff_eq.mp h
  simp only [selectionAlternatives, List.pairwise_cons, List.mem_cons, List.not_mem_nil, or_false,
    forall_eq_or_imp, forall_eq, false_implies, implies_true, List.Pairwise.nil, and_true]
  exact ⟨⟨apart_of_majorType bool uint (by decide), apart_of_majorType bool array (by decide)⟩,
    apart_of_majorType uint array (by decide)⟩

theorem intAlternatives_apart : intAlternatives.Pairwise Apart := by
  have uint (any : Any) (h : any.isUint = true) : any.majorType = 0 := beq_iff_eq.mp h
  have nint (any : Any) (h : any.isNint = true) : any.majorType = 1 := beq_iff_eq.mp h
  simp only [intAlternatives, List.pairwise_cons, List.mem_cons, List.not_mem_nil, or_false,
    forall_eq, false_implies, implies_true, List.Pairwise.nil, and_true]
  exact apart_of_majorType uint nint (by decide)

theorem readMatching_map {α β : Type} {accept : Any → Bool} (give : Any → Context → α) (f : α → β)
    (ctx : Context) : readMatching accept (fun any after => f (give any after)) ctx =
      ((readMatching accept give ctx).1.map f, (readMatching accept give ctx).2) := by
  unfold readMatching
  rcases readAny ctx with ⟨any, after⟩
  cases any with
  | none => rfl
  | some any =>
    dsimp only
    cases accept any <;> rfl

/-- In the order of the source this is what the model of the runner does. -/
theorem selectionFrom_source (selected : Bytes) :
    selectionFrom selectionAlternatives selected = readSelection selected := by
  have first (ctx : Context) := @readMatching_map _ _ Any.isBool (fun any _ => any.isTrue)
    Selection.bool ctx
  have second (ctx : Context) := @readMatching_map _ _ Any.isUint (fun any _ => any.value)
    Selection.uint ctx
  have third (ctx : Context) := @readMatching_map _ _ Any.isArray
    (fun any after => openContext after any.value) Selection.array ctx
  have readsBool : readBool = readMatching Any.isBool fun any _ => any.isTrue := rfl
  have readsUint : readUint = readMatching Any.isUint fun any _ => any.value := rfl
  have readsArray : readArray = readMatching Any.isArray
    fun any after => openContext after any.value := rfl
  simp only [readSelection, selectionFrom, selectionAlternatives, firstOf, Alternative.read, first,
    second, third, ← readsBool, ← readsUint, ← readsArray]
  rcases readBool (toplevel (some selected)) with ⟨flag, ctx⟩
  cases flag with
  | some flag => rfl
  | none =>
    dsimp only [Option.map]
    rcases readUint ctx with ⟨index, ctx⟩
    cases index with
    | some index => rfl
    | none =>
      dsimp only
      rcases readArray ctx with ⟨array, ctx⟩
      cases array <;> rfl

theorem readIntFrom_source (ctx : Context) : readIntFrom intAlternatives ctx = readInt ctx := by
  have first (ctx : Context) := @readMatching_map _ _ Any.isUint (fun any _ => any.value)
    IntHead.uint ctx
  have second (ctx : Context) := @readMatching_map _ _ Any.isNint (fun any _ => any.value)
    IntHead.nint ctx
  have readsUint : readUint = readMatching Any.isUint fun any _ => any.value := rfl
  have readsNint : readNint = readMatching Any.isNint fun any _ => any.value := rfl
  simp only [readInt, readIntFrom, intAlternatives, firstOf, Alternative.read, first, second,
    ← readsUint, ← readsNint]
  rcases readUint ctx with ⟨v, after⟩
  cases v with
  | some v => rfl
  | none =>
    dsimp only [Option.map]
    rcases readNint after with ⟨v, after⟩
    cases v <;> rfl

/-- Every reader restores the cursor when it fails and counts what it consumes when
it succeeds, contexts in range stay in range, and the order of the alternatives of
`run_sequence_step` and `tcbor_read_int` does not matter. -/
theorem readers_restore (ctx : Context) :
    (∀ (reader : Reader) (dst : Output), reader.Right ctx dst (reader.call ctx dst)) ∧
      (∀ selected order, order.Perm selectionAlternatives →
        selectionFrom order selected = readSelection selected) ∧
      ∀ order, order.Perm intAlternatives → readIntFrom order ctx = readInt ctx := by
  refine ⟨fun reader dst => reader_right reader ctx dst, ?_, ?_⟩
  · intro selected order perm
    rw [← selectionFrom_source, selectionFrom, selectionFrom,
      firstOf_perm perm selectionAlternatives_apart]
  · intro order perm
    rw [← readIntFrom_source, readIntFrom, readIntFrom, firstOf_perm perm intAlternatives_apart]

/-- A negative integer, with the readers the other way round. -/
theorem readers_restore_swapped :
    readIntFrom intAlternatives.reverse (toplevel (some [0x38, 0x63])) =
        (some (-100), ⟨[], 1, 1, .ok⟩) ∧
      readIntFrom intAlternatives.reverse (toplevel (some [0x38, 0x63])) =
        readInt (toplevel (some [0x38, 0x63])) :=
  ⟨by decide +kernel, (readers_restore (toplevel (some [0x38, 0x63]))).2.2 _ (List.reverse_perm _)⟩

end TeepDevice.Suit
