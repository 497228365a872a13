import TeepDevice.Tcbor.Primitive

/-! The QCBOR library as the TEEP code uses it. It is not part of the
repository, so it is a parameter; the one fact the code relies on for its loops
to end is that an item that was read has consumed input. -/
namespace TeepDevice.Teep

/-- `uDataType` of a decoded item with the arm of `val` it selects. -/
inductive QcborValue where
  | none
  | int64 (v : Int)
  | byteString (b : Bytes)
  | textString (b : Bytes)
  | array (count : Nat)
  | map (count : Nat)
  | other
  deriving DecidableEq, Repr

/-- `QCBORItem`; `label` is absent unless `uLabelType` is `QCBOR_TYPE_INT64`. -/
structure QcborItem where
  value : QcborValue
  label : Option Int
  nextNestLevel : Nat
  deriving DecidableEq, Repr

/-- The calls made on a `QCBOREncodeContext`, in order. -/
inductive EncodeOp where
  | openArray
  | closeArray
  | openMap
  | closeMap
  | addInt64 (v : Int)
  | addUInt64 (v : Nat)
  | addSZString (s : Bytes)
  | addBytesToMapN (label : Int) (b : Bytes)
  | openArrayInMapN (label : Int)
  deriving DecidableEq, Repr

/-- `encode` is the whole of `QCBOREncode_Init` on a buffer, the given calls and
`QCBOREncode_Finish`: the buffer afterwards, and the length on success. -/
structure Qcbor where
  Decoder : Type
  init : Bytes → Decoder
  getNext : Decoder → QcborItem × Decoder
  finish : Decoder → Bool
  tell : Decoder → Nat
  int64ToUInt32 : Int → Option Nat
  encode : List EncodeOp → Bytes → Bytes × Option Nat
  remaining : Decoder → Nat
  consumes : ∀ d, (getNext d).1.value ≠ .none → remaining (getNext d).2 < remaining d

section Reference
open Tcbor

/-- An executable decoder for well-formed definite-length input: the bytes left,
the bytes consumed and, innermost first, the open maps (true) and arrays with
the entries they still expect. -/
structure ReferenceDecoder where
  rest : Bytes
  consumed : Nat
  levels : List (Bool × Nat)
  failed : Bool

def ReferenceDecoder.failing (d : ReferenceDecoder) : QcborItem × ReferenceDecoder :=
  (⟨.none, none, 0⟩, { d with failed := true })

/-- Levels whose last entry was just read are left. -/
def ascend : List (Bool × Nat) → List (Bool × Nat)
  | (inMap, n + 2) :: levels => (inMap, n + 1) :: levels
  | _ :: levels => ascend levels
  | [] => []

def referenceValue (any : Any) : QcborValue :=
  if any.isUint then if any.value < 2 ^ 63 then .int64 any.value else .other
  else if any.isNint then if any.value < 2 ^ 63 then .int64 (-1 - any.value) else .other
  else if any.isBstr then .byteString any.bytes
  else if any.isTstr then .textString any.bytes
  else if any.isArray then .array any.value
  else if any.isMap then .map any.value
  else .other

def entries : QcborValue → Option (Bool × Nat)
  | .array (n + 1) => some (false, n + 1)
  | .map (n + 1) => some (true, n + 1)
  | _ => none

/-- The label in front of an entry of a map. -/
def referenceLabel (d : ReferenceDecoder) : Option (Option Int × Bytes) :=
  match d.levels with
  | (true, _) :: _ =>
    match primitiveReadAny d.rest with
    | .error _ => none
    | .ok (any, rest) =>
      match referenceValue any with
      | .int64 v => some (some v, rest)
      | _ => some (none, rest)
  | _ => some (none, d.rest)

def referenceGetNext (d : ReferenceDecoder) : QcborItem × ReferenceDecoder :=
  if d.failed then d.failing
  else
    match referenceLabel d with
    | none => d.failing
    | some (label, rest) =>
      match primitiveReadAny rest with
      | .error _ => d.failing
      | .ok (any, rest) =>
        let levels :=
          match entries (referenceValue any) with
          | some level => level :: d.levels
          | none => ascend d.levels
        (⟨referenceValue any, label, levels.length⟩,
          ⟨rest, d.consumed + (d.rest.length - rest.length), levels, false⟩)

/-- The shortest head for a major type and an argument below 2^64. -/
def referenceHead (major n : Nat) : Bytes :=
  let byte (k : Nat) : UInt8 := UInt8.ofNat (n / 256 ^ k)
  let first (ai : Nat) : UInt8 := UInt8.ofNat (major * 32 + ai)
  if n < 24 then [first n]
  else if n < 2 ^ 8 then [first 24, byte 0]
  else if n < 2 ^ 16 then [first 25, byte 1, byte 0]
  else if n < 2 ^ 32 then [first 26, byte 3, byte 2, byte 1, byte 0]
  else [first 27, byte 7, byte 6, byte 5, byte 4, byte 3, byte 2, byte 1, byte 0]

def referenceInt (v : Int) : Bytes :=
  if v < 0 then referenceHead 1 (-1 - v).toNat else referenceHead 0 v.toNat

/-- Encoding with the open containers on a stack, innermost first: whether it
is a map, its entries so far and the bytes of its contents. -/
def referenceEncode : List EncodeOp → List (Bool × Nat × Bytes) → Option Bytes
  | [], [(_, _, out)] => some out
  | [], _ => none
  | op :: ops, levels =>
    let put (b : Bytes) : Option Bytes :=
      match levels with
      | [] => none
      | (inMap, n, out) :: levels => referenceEncode ops ((inMap, n + 1, out ++ b) :: levels)
    match op with
    | .openArray => referenceEncode ops ((false, 0, []) :: levels)
    | .openMap => referenceEncode ops ((true, 0, []) :: levels)
    | .openArrayInMapN label =>
      match levels with
      | [] => none
      | (inMap, n, out) :: levels =>
        referenceEncode ops ((false, 0, []) :: (inMap, n, out ++ referenceInt label) :: levels)
    | .addInt64 v => put (referenceInt v)
    | .addUInt64 v => put (referenceHead 0 v)
    | .addSZString s => put (referenceHead 3 s.length ++ s)
    | .addBytesToMapN label b => put (referenceInt label ++ referenceHead 2 b.length ++ b)
    | .closeArray | .closeMap =>
      match levels with
      | (closed, n, out) :: (inMap, m, outer) :: levels =>
        let head := referenceHead (if closed then 5 else 4) n
        referenceEncode ops ((inMap, m + 1, outer ++ head ++ out) :: levels)
      | _ => none

theorem referenceLabel_length {d : ReferenceDecoder} {label : Option Int} {rest : Bytes}
    (read : referenceLabel d = some (label, rest)) : rest.length ≤ d.rest.length := by
  unfold referenceLabel at read
  split at read
  · split at read
    · cases read
    · rename_i any after taken
      have shorter := Nat.le_of_lt (primitiveReadAny_length taken)
      split at read
      · cases read
        exact shorter
      · cases read
        exact shorter
  · cases read
    exact Nat.le_refl _

/-- QCBOR on the messages of this protocol. -/
def referenceQcbor : Qcbor where
  Decoder := ReferenceDecoder
  init b := ⟨b, 0, [], false⟩
  getNext := referenceGetNext
  finish d := !d.failed && d.rest.isEmpty && d.levels.isEmpty
  tell := ReferenceDecoder.consumed
  int64ToUInt32 v := if 0 ≤ v ∧ v < 2 ^ 32 then some v.toNat else none
  encode ops buffer :=
    match referenceEncode ops [(false, 0, [])] with
    | none => (buffer, none)
    | some b =>
      if b.length ≤ buffer.length then (b ++ buffer.drop b.length, some b.length)
      else (buffer, none)
  remaining d := d.rest.length
  consumes := by
    intro d read
    unfold referenceGetNext at read ⊢
    split
    · rename_i failed
      rw [if_pos failed] at read
      exact absurd rfl read
    · rename_i fine
      rw [if_neg fine] at read
      split
      · rename_i unlabelled
        rw [unlabelled] at read
        exact absurd rfl read
      · rename_i label rest labelled
        rw [labelled] at read
        dsimp only at read
        split
        · rename_i unread
          rw [unread] at read
          exact absurd rfl read
        · rename_i any after taken
          exact Nat.lt_of_lt_of_le (primitiveReadAny_length taken) (referenceLabel_length labelled)

end Reference

end TeepDevice.Teep
