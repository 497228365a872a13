import TeepDevice.Agent.ComponentIds
import TeepDevice.Memory

/-! How `parse_component_id` prints the file name of a component: a pointer
that walks through the 64-byte field, each `snprintf` storing a terminator where
the next one starts. -/
namespace TeepDevice.Agent
open Tcbor Suit

/-- `snprintf` of a finished text at an offset of a field. -/
def snprintf (field : Bytes) (p size : Nat) (text : Bytes) : Option Bytes :=
  Memory.write field p (text.take (size - 1) ++ [0])

/-- One pass of the loop over the UUID, with the field and the pointer. -/
def printByte (field : Bytes) (p i : Nat) (b : UInt8) : Option (Bytes × Nat) :=
  (snprintf field p 3 (hexByte b)).bind fun field =>
    if i = 3 ∨ i = 5 ∨ i = 7 ∨ i = 9 then
      (Memory.write field (p + 2) [0x2D]).map fun field => (field, p + 2 + 1)
    else some (field, p + 2)

def printUuid (field : Bytes) (p i : Nat) : Bytes → Option (Bytes × Nat)
  | [] => some (field, p)
  | b :: rest => (printByte field p i b).bind fun (field, p) => printUuid field p (i + 1) rest

/-- The statements of `parse_component_id` that fill `dst->filename`. -/
def printFilename (field uuid : Bytes) : Option Bytes :=
  (printUuid field 0 0 uuid).bind fun (field, p) => snprintf field p 4 taExtension

/-- What one pass adds to the name. -/
def printed (i : Nat) (b : UInt8) : Bytes :=
  hexByte b ++ if i = 3 ∨ i = 5 ∨ i = 7 ∨ i = 9 then [0x2D] else []

/-- The value of a lower-case hex digit. -/
def digitOf (c : UInt8) : Option Nat :=
  if lowerCase.idxOf c < 16 then some (lowerCase.idxOf c) else none

/-- The bytes whose digits a text holds, two for each. -/
def readHex : Bytes → Option Bytes
  | [] => some []
  | [_] => none
  | high :: low :: rest =>
    match digitOf high, digitOf low, readHex rest with
    | some high, some low, some bytes => some (UInt8.ofNat (16 * high + low) :: bytes)
    | _, _, _ => none

def printedFrom (i : Nat) : Bytes → Bytes
  | [] => []
  | b :: rest => printed i b ++ printedFrom (i + 1) rest

section Walk
variable {uuid field : Bytes}

theorem length_hexByte (b : UInt8) : (hexByte b).length = 2 := rfl

theorem length_printed (i : Nat) (b : UInt8) : (printed i b).length ≤ 3 := by
  unfold printed
  split
  · exact Nat.le_refl 3
  · exact Nat.le_succ 2

theorem length_printedFrom (i : Nat) (uuid : Bytes) :
    (printedFrom i uuid).length ≤ 3 * uuid.length := by
  induction uuid generalizing i with
  | nil => exact Nat.le_refl 0
  | cons b uuid ih =>
    have first := length_printed i b
    have others := ih (i + 1)
    rw [printedFrom, List.length_append, List.length_cons]
    omega

theorem filenameOf_printedFrom (uuid : Bytes) :
    filenameOf uuid = printedFrom 0 uuid ++ taExtension := by
  have same (i : Nat) : (uuid.zipIdx i).flatMap (fun place => printed place.2 place.1) =
      printedFrom i uuid := by
    induction uuid generalizing i with
    | nil => rfl
    | cons b uuid ih =>
      rw [List.zipIdx_cons, List.flatMap_cons, ih]
      rfl
  rw [← same 0]
  rfl

/-- One pass stores its text behind what is there; of what lies behind the text
at most the first byte is touched. -/
theorem printByte_behind (done rest : Bytes) (i : Nat) (b : UInt8) (room : 3 ≤ rest.length) :
    ∃ rest', printByte (done ++ rest) done.length i b =
        some (done ++ printed i b ++ rest', (done ++ printed i b).length) ∧
      (printed i b).length + rest'.length = rest.length ∧
      rest'.drop 1 = rest.drop ((printed i b).length + 1) := by
  have digits : snprintf (done ++ rest) done.length 3 (hexByte b) =
      some ((done ++ hexByte b) ++ ([0] ++ rest.drop 3)) := by
    have long : (hexByte b ++ [0]).length = 3 := rfl
    have stored := Memory.write_behind done rest (hexByte b ++ [0]) (long ▸ room)
    rw [List.append_assoc] at stored
    rw [List.append_assoc]
    exact stored
  have place : done.length + 2 = (done ++ hexByte b).length := by
    rw [List.length_append, length_hexByte]
  rw [printByte, digits, Option.bind_some, place]
  unfold printed
  split
  · have hyphen := Memory.write_behind (done ++ hexByte b) ([0] ++ rest.drop 3) [0x2D]
      (Nat.le_add_left 1 _)
    rw [hyphen, Option.map_some]
    refine ⟨rest.drop 3, ?_, ?_, ?_⟩
    · simp only [List.append_assoc, List.length_append, List.length_singleton, Nat.add_assoc]
      rfl
    · rw [List.length_drop]
      exact Nat.add_sub_cancel' room
    · rw [List.drop_drop]
      rfl
  · refine ⟨[0] ++ rest.drop 3, ?_, ?_, rfl⟩
    · rw [List.append_nil]
    · rw [List.append_nil, length_hexByte, List.length_append, List.length_drop,
        List.length_singleton]
      omega

theorem printUuid_behind (uuid done rest : Bytes) (i : Nat)
    (room : 3 * uuid.length ≤ rest.length) :
    ∃ rest', printUuid (done ++ rest) done.length i uuid =
        some (done ++ printedFrom i uuid ++ rest', (done ++ printedFrom i uuid).length) ∧
      (printedFrom i uuid).length + rest'.length = rest.length ∧
      rest'.drop 1 = rest.drop ((printedFrom i uuid).length + 1) := by
  induction uuid generalizing done rest i with
  | nil =>
    refine ⟨rest, ?_, Nat.zero_add _, rfl⟩
    rw [printedFrom, List.append_nil]
    rfl
  | cons b uuid ih =>
    rw [List.length_cons] at room
    obtain ⟨middle, stored, count, behind⟩ := printByte_behind done rest i b (by omega)
    have short := length_printed i b
    obtain ⟨rest', stored', count', behind'⟩ := ih (done ++ printed i b) middle (i + 1)
      (by omega)
    refine ⟨rest', ?_, ?_, ?_⟩
    · rw [printUuid, stored, Option.bind_some, printedFrom, ← List.append_assoc]
      exact stored'
    · rw [printedFrom, List.length_append]
      omega
    · rw [printedFrom, List.length_append, behind', Nat.add_comm _ 1, ← List.drop_drop, behind,
        List.drop_drop]
      congr 1
      omega

/-- The printed field: the name with its terminator, and behind it what was
there before. -/
theorem printFilename_eq (fits : 3 * uuid.length + 4 ≤ field.length) :
    printFilename field uuid =
      some (filenameOf uuid ++ 0 :: field.drop ((filenameOf uuid).length + 1)) := by
  obtain ⟨rest', stored, count, behind⟩ := printUuid_behind uuid [] field 0 (by omega)
  have short := length_printedFrom 0 uuid
  have room : (taExtension ++ [0]).length ≤ rest'.length := by
    change 4 ≤ rest'.length
    omega
  have last := Memory.write_behind (printedFrom 0 uuid) rest' (taExtension ++ [0]) room
  have after : rest'.drop (taExtension ++ [0]).length =
      field.drop ((printedFrom 0 uuid ++ taExtension).length + 1) := by
    change rest'.drop (1 + 3) = _
    rw [← List.drop_drop, behind, List.drop_drop, List.length_append]
    rfl
  have walked : printUuid field 0 0 uuid =
      some (printedFrom 0 uuid ++ rest', (printedFrom 0 uuid).length) := stored
  rw [printFilename, walked, Option.bind_some, filenameOf_printedFrom, ← after, List.append_assoc]
  exact last

end Walk

section Text
variable {uuid : Bytes} {c : UInt8}

theorem digitOf_lowerCase : ∀ n < 16, digitOf (lowerCase.getD n 0) = some n := by decide

theorem lowerCase_getD : ∀ n < 16, lowerCase.getD n 0 ∈ lowerCase := by decide

theorem lowerCase_apart : 0x2D ∉ lowerCase ∧ 0x2E ∉ lowerCase := by decide

theorem nibbles (b : UInt8) : b.toNat / 16 < 16 ∧ b.toNat % 16 < 16 := by
  have small := b.toNat_lt
  omega

theorem readHex_hexText (bytes : Bytes) : readHex (hexText bytes) = some bytes := by
  induction bytes with
  | nil => rfl
  | cons b bytes ih =>
    obtain ⟨high, low⟩ := nibbles b
    have whole : 16 * (b.toNat / 16) + b.toNat % 16 = b.toNat := Nat.div_add_mod _ 16
    rw [hexText, List.flatMap_cons]
    change readHex (_ :: _ :: hexText bytes) = _
    rw [readHex, digitOf_lowerCase _ high, digitOf_lowerCase _ low, ih]
    simp only [whole, UInt8.ofNat_toNat]

theorem mem_hexText {bytes : Bytes} (digit : c ∈ hexText bytes) : c ∈ lowerCase := by
  obtain ⟨b, -, digit⟩ := List.mem_flatMap.mp digit
  obtain ⟨high, low⟩ := nibbles b
  rw [List.mem_cons, List.mem_singleton] at digit
  rcases digit with rfl | rfl
  · exact lowerCase_getD _ high
  · exact lowerCase_getD _ low

theorem hexText_append (xs ys : Bytes) : hexText (xs ++ ys) = hexText xs ++ hexText ys :=
  List.flatMap_append

theorem mem_uuidText (member : c ∈ uuidText uuid) : c ∈ lowerCase ∨ c = 0x2D := by
  simp only [uuidText, List.mem_append, List.mem_cons] at member
  rcases member with digit | rfl | digit | rfl | digit | rfl | digit | rfl | digit
  all_goals first
    | exact .inl (mem_hexText digit)
    | exact .inr rfl

theorem filter_hexText (bytes : Bytes) : (hexText bytes).filter (· ≠ 0x2D) = hexText bytes :=
  List.filter_eq_self.mpr fun _ digit =>
    decide_eq_true (ne_of_mem_of_not_mem (mem_hexText digit) (lowerCase_apart).1)

/-- Without its hyphens the text of a UUID is its hex text. -/
theorem filter_uuidText (uuid : Bytes) : (uuidText uuid).filter (· ≠ 0x2D) = hexText uuid := by
  have parts : uuid = uuid.take 4 ++ ((uuid.drop 4).take 2 ++ ((uuid.drop 6).take 2 ++
      ((uuid.drop 8).take 2 ++ uuid.drop 10))) := by
    have last := List.take_append_drop 2 (uuid.drop 8)
    have third := List.take_append_drop 2 (uuid.drop 6)
    have second := List.take_append_drop 2 (uuid.drop 4)
    rw [List.drop_drop] at last third second
    rw [last, third, second, List.take_append_drop]
  have hyphen (text : Bytes) : (0x2D :: text).filter (· ≠ 0x2D) = text.filter (· ≠ 0x2D) :=
    List.filter_cons_of_neg (by decide)
  rw [uuidText]
  simp only [List.filter_append, hyphen, filter_hexText]
  rw [← hexText_append, ← hexText_append, ← hexText_append, ← hexText_append, ← parts]

theorem readHex_uuidText (uuid : Bytes) :
    readHex ((uuidText uuid).filter (· ≠ 0x2D)) = some uuid := by
  rw [filter_uuidText, readHex_hexText]

theorem count_dots (uuid : Bytes) : (uuidText uuid ++ taExtension).count 0x2E = 1 := by
  rw [List.count_append, List.count_eq_zero.mpr]
  · rfl
  · intro dot
    rcases mem_uuidText dot with digit | hyphen
    · exact (lowerCase_apart).2 digit
    · cases hyphen

end Text

/-- A file name of a component with this UUID: it fits its field, it is made of
digits, hyphens and the suffix, and the digits are those of the UUID. -/
structure Faithful (uuid filename : Bytes) : Prop where
  printed : ∀ field : Bytes, field.length = 64 → ∃ after, printFilename field uuid = some after ∧
    after.length = 64 ∧ Memory.cString after = some filename
  text : ∃ stem, filename = stem ++ taExtension ∧ (∀ c ∈ stem, c ∈ lowerCase ∨ c = 0x2D) ∧
    readHex (stem.filter (· ≠ 0x2D)) = some uuid
  inside : 0x2F ∉ filename ∧ ¬ [0x2E, 0x2E] <:+: filename

section Names
variable {uuid uuid' : Bytes}

theorem not_mem_filenameOf (uuid16 : uuid.length = 16) {c : UInt8} (other : c ∉ lowerCase)
    (hyphen : c ≠ 0x2D) (suffix : c ∉ taExtension) : c ∉ filenameOf uuid := by
  rw [filenameOf_uuidText uuid16, List.mem_append]
  rintro (member | member)
  · rcases mem_uuidText member with digit | same
    · exact other digit
    · exact hyphen same
  · exact suffix member

theorem faithful_filenameOf (uuid16 : uuid.length = 16) : Faithful uuid (filenameOf uuid) := by
  have noSlash : 0x2F ∉ filenameOf uuid :=
    not_mem_filenameOf uuid16 (by decide) (by decide) (by decide)
  have noNul : 0 ∉ filenameOf uuid :=
    not_mem_filenameOf uuid16 (by decide) (by decide) (by decide)
  refine ⟨?_, ⟨uuidText uuid, filenameOf_uuidText uuid16, ?_, readHex_uuidText uuid⟩, noSlash, ?_⟩
  · intro field field64
    have short := length_printedFrom 0 uuid
    refine ⟨_, printFilename_eq (by omega), ?_, Memory.cString_append noNul _⟩
    have suffix : taExtension.length = 3 := rfl
    rw [filenameOf_printedFrom, List.length_append, List.length_cons, List.length_drop,
      List.length_append, suffix, field64]
    omega
  · exact fun c member => mem_uuidText member
  · rw [filenameOf_uuidText uuid16]
    intro dots
    have two := dots.sublist.count_le 0x2E
    rw [count_dots] at two
    exact absurd two (by decide)

theorem Faithful.injective {filename : Bytes} (first : Faithful uuid filename)
    (second : Faithful uuid' filename) : uuid = uuid' := by
  obtain ⟨stem, split, -, digits⟩ := first.text
  obtain ⟨stem', split', -, digits'⟩ := second.text
  cases List.append_cancel_right (split.symm.trans split')
  exact Option.some.inj (digits.symm.trans digits')

theorem parseComponentId_path {beyond : Beyond} {id : Component} {dst path : ComponentPath}
    (accepted : parseComponentId beyond id dst = (true, path)) :
    path.uuid.length = 16 ∧ path.filename = filenameOf path.uuid := by
  obtain ⟨idCbor⟩ := id
  -- a missing id is read like an empty one
  have read : parseComponentId beyond ⟨some (idCbor.getD [])⟩ dst = (true, path) := by
    cases idCbor with
    | none => exact accepted
    | some bytes => exact accepted
  obtain ⟨-, -, uuid, -, -, -, -, uuid16, -, rfl⟩ := parseComponentId_true read
  exact ⟨uuid16, rfl⟩

end Names

/-- An id of this device. -/
def deviceId (uuid : Bytes) : Component :=
  ⟨some (0x84 :: 0x4B :: deviceName ++ 0x48 :: storageName ++ 0x50 :: uuid ++ 0x42 :: taSuffix)⟩

def lowestUuid : Bytes := List.replicate 16 0x00
def highestUuid : Bytes := List.replicate 16 0xFF

end TeepDevice.Agent
