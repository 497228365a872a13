import TeepDevice.Agent.Store
import TeepDevice.Tcbor.Pairs

/-! Which component ids `parse_component_id` accepts. Its comparisons are as
long as the strings of the id, so a string that is too short is compared with a
part of the literal, and one that is too long with what lies behind it. -/
namespace TeepDevice.Agent
open Tcbor Suit

/-- The bytes start with the head of an array of `n` elements, the first of which
are untagged byte strings with these contents. -/
def Leads (bytes : Bytes) (n : Nat) (strings : List Bytes) : Prop :=
  ∃ (head : Bytes) (any : Any) (items : List Bytes) (rest : Bytes), Head head any ∧
    any.isArray = true ∧ any.value = n ∧ strings.length ≤ n ∧
    items.map bstrOf = strings.map some ∧ bytes = head ++ (items.flatten ++ rest)

/-- The cursor behind these strings of such an array. -/
def ReadSoFar (bytes : Bytes) (n : Nat) (strings : List Bytes) (array : Context) : Prop :=
  ∃ (head : Bytes) (any : Any) (items : List Bytes) (left : Nat), Head head any ∧
    any.isArray = true ∧ any.value = n ∧ Remaining array left ∧ strings.length + left = n ∧
    items.map bstrOf = strings.map some ∧ bytes = head ++ (items.flatten ++ array.r)

section Strings
variable {bytes : Bytes} {n : Nat} {strings : List Bytes} {array after : Context}

theorem flatten_unique {xs ys : List Bytes} {s t : Bytes} (items : ∀ x ∈ xs, Item x)
    (items' : ∀ y ∈ ys, Item y) (count : xs.length = ys.length)
    (same : xs.flatten ++ s = ys.flatten ++ t) : xs = ys ∧ s = t := by
  induction xs generalizing ys with
  | nil =>
    cases List.eq_nil_of_length_eq_zero count.symm
    exact ⟨rfl, same⟩
  | cons x xs ih =>
    cases ys with
    | nil => cases count
    | cons y ys =>
      obtain ⟨here, there⟩ := List.forall_mem_cons.mp items
      obtain ⟨here', there'⟩ := List.forall_mem_cons.mp items'
      simp only [List.flatten_cons, List.append_assoc] at same
      obtain ⟨rfl, behind⟩ := here.unique here' same
      obtain ⟨rfl, rest⟩ := ih there there' (Nat.succ.inj count) behind
      exact ⟨rfl, rest⟩

theorem bstrs_items {items : List Bytes} (bstrs : items.map bstrOf = strings.map some) :
    ∀ item ∈ items, Item item := by
  intro item member
  have mapped : bstrOf item ∈ strings.map some := bstrs ▸ List.mem_map_of_mem member
  obtain ⟨content, -, bstr⟩ := List.mem_map.mp mapped
  exact bstrOf_item bstr.symm

theorem ReadSoFar.leads (at_ : ReadSoFar bytes n strings array) : Leads bytes n strings := by
  obtain ⟨head, any, items, left, read, isArray, value, -, count, bstrs, same⟩ := at_
  exact ⟨head, any, items, array.r, read, isArray, value, by omega, bstrs, same⟩

/-- The array is opened exactly when the bytes start with the head of one. -/
theorem readArray_some {ctx : Context}
    (read : readArray (toplevel (some bytes)) = (some array, ctx)) :
    ∃ n, ReadSoFar bytes n [] array := by
  obtain ⟨-, head, any, isHead, isArray, same, -, rfl⟩ :=
    (readArray_iff (remaining_toplevel _)).mp read
  have few := isHead.value_lt
  exact ⟨any.value, head, any, [], any.value, isHead, isArray, rfl,
    remaining_openContext ctx few, Nat.zero_add _, rfl, same⟩

theorem Leads.opens (leads : Leads bytes n strings) :
    ∃ array ctx, readArray (toplevel (some bytes)) = (some array, ctx) ∧
      ReadSoFar bytes n [] array := by
  obtain ⟨head, any, items, rest, read, isArray, rfl, -, bstrs, rfl⟩ := leads
  have opened := readArray_at (remaining_toplevel (some (head ++ (items.flatten ++ rest))))
    Nat.one_pos read isArray rfl
  exact ⟨_, _, opened, head, any, [], any.value, read, isArray, rfl,
    remaining_openContext _ read.value_lt, Nat.zero_add _, rfl, rfl⟩

/-- A string that was read is the next one. -/
theorem ReadSoFar.push (at_ : ReadSoFar bytes n strings array) {b : Bytes}
    (read : readBstr array = (some b, after)) : ReadSoFar bytes n (strings ++ [b]) after := by
  obtain ⟨head, any, items, left, isHead, isArray, value, remaining, count, bstrs, same⟩ := at_
  obtain ⟨some, item, bstr, behind, moved⟩ := (readBstr_bstrOf remaining).mp read
  refine ⟨head, any, items ++ [item], left - 1, isHead, isArray, value,
    remaining.behind some moved, ?_, ?_, ?_⟩
  · rw [List.length_append, List.length_singleton]
    omega
  · rw [List.map_append, List.map_append, bstrs, List.map_singleton, List.map_singleton, bstr]
  · rw [same, behind, List.flatten_append, List.flatten_singleton, List.append_assoc]

/-- A string that is there is read. -/
theorem ReadSoFar.next (at_ : ReadSoFar bytes n strings array) {b : Bytes} {more : List Bytes}
    (leads : Leads bytes n (strings ++ b :: more)) :
    ∃ after, readBstr array = (some b, after) ∧ ReadSoFar bytes n (strings ++ [b]) after := by
  have so := at_
  obtain ⟨head, any, items, left, isHead, isArray, value, remaining, count, bstrs, same⟩ := at_
  obtain ⟨head', any', items', rest, isHead', -, -, enough, bstrs', same'⟩ := leads
  obtain ⟨rfl, same⟩ := isHead.unique isHead' (same.symm.trans same')
  rw [List.map_append] at bstrs'
  obtain ⟨front, back, rfl, fronts, backs⟩ := List.map_eq_append_iff.mp bstrs'
  rw [List.map_cons] at backs
  obtain ⟨item, others, rfl, bstr, -⟩ := List.map_eq_cons_iff.mp backs
  have lengths : items.length = front.length := by
    have one := congrArg List.length bstrs
    have two := congrArg List.length fronts
    simp only [List.length_map] at one two
    omega
  simp only [List.flatten_append, List.flatten_cons, List.append_assoc] at same
  obtain ⟨-, behind⟩ := flatten_unique (bstrs_items bstrs) (bstrs_items fronts) lengths same
  have some : 0 < left := by
    rw [List.length_append, List.length_cons] at enough
    omega
  have read := readBstr_at remaining some bstr behind
  exact ⟨_, read, so.push read⟩

theorem ReadSoFar.close_iff (at_ : ReadSoFar bytes n strings array) (ctx : Context) :
    (close ctx array).1 = true ↔ n = strings.length := by
  obtain ⟨-, -, -, left, -, -, -, remaining, count, -⟩ := at_
  unfold close
  split
  · rename_i ended
    have none := remaining.isEndOfContext_iff.mp ended
    exact ⟨fun _ => by omega, fun _ => rfl⟩
  · rename_i going
    constructor
    · intro closed
      cases closed
    · intro all
      exact absurd (remaining.isEndOfContext_iff.mpr (by omega)) going

/-- The array holds as many elements as were read when it can be closed. -/
theorem ReadSoFar.leads_closed (at_ : ReadSoFar bytes n strings array) {ctx : Context}
    (closed : (close ctx array).1 = true) : Leads bytes strings.length strings := by
  have all := (at_.close_iff ctx).mp closed
  exact all ▸ at_.leads

theorem Leads.shorter {more : List Bytes} (leads : Leads bytes n (strings ++ more)) :
    Leads bytes n strings := by
  obtain ⟨head, any, items, rest, isHead, isArray, value, enough, bstrs, same⟩ := leads
  rw [List.map_append] at bstrs
  obtain ⟨front, back, rfl, fronts, -⟩ := List.map_eq_append_iff.mp bstrs
  rw [List.length_append] at enough
  refine ⟨head, any, front, back.flatten ++ rest, isHead, isArray, value, by omega, fronts, ?_⟩
  rw [same, List.flatten_append, List.append_assoc]

theorem Leads.first {device : Bytes} (leads : Leads bytes n (device :: strings)) :
    Leads bytes n [device] :=
  Leads.shorter leads

theorem Leads.second {device storage : Bytes}
    (leads : Leads bytes n (device :: storage :: strings)) : Leads bytes n [device, storage] :=
  Leads.shorter leads

theorem Leads.unique {others : List Bytes} {m : Nat} (leads : Leads bytes n strings)
    (leads' : Leads bytes m others) (count : strings.length = others.length) :
    n = m ∧ strings = others := by
  obtain ⟨head, any, items, rest, isHead, -, value, -, bstrs, same⟩ := leads
  obtain ⟨head', any', items', rest', isHead', -, value', -, bstrs', same'⟩ := leads'
  obtain ⟨rfl, same⟩ := isHead.unique isHead' (same.symm.trans same')
  have lengths : items.length = items'.length := by
    have one := congrArg List.length bstrs
    have two := congrArg List.length bstrs'
    simp only [List.length_map] at one two
    omega
  obtain ⟨rfl, -⟩ := flatten_unique (bstrs_items bstrs) (bstrs_items bstrs') lengths same
  refine ⟨value.symm.trans value', ?_⟩
  exact (List.map_inj_right fun _ _ => Option.some.inj).mp (bstrs.symm.trans bstrs')

end Strings

section Comparing
variable (beyond : Beyond)

/-- As long as a range does not reach past the NUL of the literal, comparing over
its length finds out whether the literal with its NUL starts with it. -/
theorem memcmpEqual_iff_start {literal range : Bytes} (fits : range.length ≤ literal.length + 1) :
    memcmpEqual beyond literal range = true ↔ range <+: literal ++ [0] := by
  have compared : (List.range range.length).map (fun i =>
      (literal ++ [0]).getD i (beyond literal (i - literal.length - 1))) =
      (literal ++ [0]).take range.length := by
    apply List.ext_getElem
    · simp only [List.length_map, List.length_range, List.length_take, List.length_append,
        List.length_singleton]
      omega
    · intro i less less'
      have there : i < (literal ++ [0]).length := by
        rw [List.length_append, List.length_singleton]
        rw [List.length_map, List.length_range] at less
        omega
      rw [List.getElem_map, List.getElem_range, List.getElem_take, List.getD_eq_getElem?_getD,
        List.getElem?_eq_getElem there, Option.getD_some]
  unfold memcmpEqual
  rw [compared, beq_iff_eq, List.prefix_iff_eq_take]

theorem memcmpEqual_self (literal : Bytes) : memcmpEqual beyond literal literal = true :=
  (memcmpEqual_iff_start beyond (Nat.le_succ _)).mpr (List.prefix_append _ _)

end Comparing

/-- The literal and the range of each `memcmp` that `parse_component_id` makes. -/
def comparisons (beyond : Beyond) (component : Component) : List (Bytes × Bytes) :=
  match readArray (toplevel component.idCbor) with
  | (none, _) => []
  | (some array, _) =>
    match readBstr array with
    | (none, _) => []
    | (some device, array) =>
      (deviceName, device) ::
      if !memcmpEqual beyond deviceName device then []
      else
        match readBstr array with
        | (none, _) => []
        | (some storage, array) =>
          (storageName, storage) ::
          if !memcmpEqual beyond storageName storage then []
          else
            match readBstr array with
            | (none, _) => []
            | (some uuid, array) =>
              if uuid.length ≠ 16 then []
              else
                match readBstr array with
                | (none, _) => []
                | (some suffix, _) => [(taSuffix, suffix)]

/-- Which strings are compared with which literal. -/
inductive Compared (beyond : Beyond) (bytes : Bytes) : Bytes × Bytes → Prop
  | device {n : Nat} {device : Bytes} (leads : Leads bytes n [device]) :
      Compared beyond bytes (deviceName, device)
  | storage {n : Nat} {device storage : Bytes} (leads : Leads bytes n [device, storage])
      (same : memcmpEqual beyond deviceName device = true) :
      Compared beyond bytes (storageName, storage)
  | suffix {n : Nat} {device storage uuid suffix : Bytes}
      (leads : Leads bytes n [device, storage, uuid, suffix])
      (same : memcmpEqual beyond deviceName device = true)
      (same' : memcmpEqual beyond storageName storage = true) (uuid16 : uuid.length = 16) :
      Compared beyond bytes (taSuffix, suffix)

section Parsing
variable {beyond : Beyond} {bytes : Bytes} {dst path : ComponentPath}

theorem parseComponentId_true (accepted : parseComponentId beyond ⟨some bytes⟩ dst = (true, path)) :
    ∃ device storage uuid suffix : Bytes, Leads bytes 4 [device, storage, uuid, suffix] ∧
      memcmpEqual beyond deviceName device = true ∧
      memcmpEqual beyond storageName storage = true ∧ uuid.length = 16 ∧
      memcmpEqual beyond taSuffix suffix = true ∧ path = ⟨uuid, filenameOf uuid⟩ := by
  unfold parseComponentId at accepted
  split at accepted
  · cases accepted
  rename_i array ctx opened
  obtain ⟨n, start⟩ := readArray_some opened
  split at accepted
  · cases accepted
  rename_i device array₁ first
  have at₁ := start.push first
  split at accepted
  · cases accepted
  rename_i named
  split at accepted
  · cases accepted
  rename_i storage array₂ second
  have at₂ := at₁.push second
  split at accepted
  · cases accepted
  rename_i stored
  split at accepted
  · cases accepted
  rename_i uuid array₃ third
  have at₃ := at₂.push third
  split at accepted
  · cases accepted
  rename_i uuid16
  split at accepted
  · cases accepted
  rename_i suffix array₄ fourth
  have at₄ := at₃.push fourth
  split at accepted
  · cases accepted
  rename_i suffixed
  injection accepted with closed paths
  exact ⟨device, storage, uuid, suffix, at₄.leads_closed closed, by simpa using named,
    by simpa using stored, not_not.mp uuid16, by simpa using suffixed, paths.symm⟩

theorem parseComponentId_accepts {device storage uuid suffix : Bytes}
    (leads : Leads bytes 4 [device, storage, uuid, suffix])
    (named : memcmpEqual beyond deviceName device = true)
    (stored : memcmpEqual beyond storageName storage = true) (uuid16 : uuid.length = 16)
    (suffixed : memcmpEqual beyond taSuffix suffix = true) :
    parseComponentId beyond ⟨some bytes⟩ dst = (true, ⟨uuid, filenameOf uuid⟩) := by
  obtain ⟨array, ctx, opened, start⟩ := leads.opens
  obtain ⟨array₁, first, at₁⟩ := start.next leads
  obtain ⟨array₂, second, at₂⟩ := at₁.next leads
  obtain ⟨array₃, third, at₃⟩ := at₂.next leads
  obtain ⟨array₄, fourth, at₄⟩ := at₃.next leads
  have closed := (at₄.close_iff ctx).mpr rfl
  simp [parseComponentId, opened, first, named, second, stored, third, uuid16, fourth, suffixed,
    closed]

theorem mem_comparisons_iff {compared : Bytes × Bytes} :
    compared ∈ comparisons beyond ⟨some bytes⟩ ↔ Compared beyond bytes compared := by
  constructor
  · intro made
    unfold comparisons at made
    split at made
    · cases made
    rename_i array ctx opened
    obtain ⟨n, start⟩ := readArray_some opened
    split at made
    · cases made
    rename_i device array₁ first
    have at₁ := start.push first
    rcases List.mem_cons.mp made with rfl | made
    · exact .device at₁.leads
    split at made
    · cases made
    rename_i named
    split at made
    · cases made
    rename_i storage array₂ second
    have at₂ := at₁.push second
    rcases List.mem_cons.mp made with rfl | made
    · exact .storage at₂.leads (by simpa using named)
    split at made
    · cases made
    rename_i stored
    split at made
    · cases made
    rename_i uuid array₃ third
    have at₃ := at₂.push third
    split at made
    · cases made
    rename_i uuid16
    split at made
    · cases made
    rename_i suffix array₄ fourth
    rcases List.mem_singleton.mp made with rfl
    exact .suffix (at₃.push fourth).leads (by simpa using named) (by simpa using stored)
      (not_not.mp uuid16)
  · intro compared
    cases compared with
    | device leads =>
      obtain ⟨array, ctx, opened, start⟩ := leads.opens
      obtain ⟨array₁, first, -⟩ := start.next leads
      simp [comparisons, opened, first]
    | storage leads named =>
      obtain ⟨array, ctx, opened, start⟩ := leads.opens
      obtain ⟨array₁, first, at₁⟩ := start.next leads
      obtain ⟨array₂, second, -⟩ := at₁.next leads
      simp [comparisons, opened, first, named, second]
    | suffix leads named stored uuid16 =>
      obtain ⟨array, ctx, opened, start⟩ := leads.opens
      obtain ⟨array₁, first, at₁⟩ := start.next leads
      obtain ⟨array₂, second, at₂⟩ := at₁.next leads
      obtain ⟨array₃, third, at₃⟩ := at₂.next leads
      obtain ⟨array₄, fourth, -⟩ := at₃.next leads
      simp [comparisons, opened, first, named, second, stored, third, uuid16, fourth]

end Parsing

/-- The id of this device whose third string is `uuid`. -/
def OurId (bytes uuid : Bytes) : Prop :=
  Leads bytes 4 [deviceName, storageName, uuid, taSuffix] ∧ uuid.length = 16

def lowerCase : Bytes :=
  [0x30, 0x31, 0x32, 0x33, 0x34, 0x35, 0x36, 0x37, 0x38, 0x39, 0x61, 0x62, 0x63, 0x64, 0x65, 0x66]

def hexText (bytes : Bytes) : Bytes :=
  bytes.flatMap fun b => [lowerCase.getD (b.toNat / 16) 0, lowerCase.getD (b.toNat % 16) 0]

/-- The text of a UUID: 8-4-4-4-12 digits. -/
def uuidText (uuid : Bytes) : Bytes :=
  hexText (uuid.take 4) ++ 0x2D :: (hexText ((uuid.drop 4).take 2) ++ 0x2D ::
    (hexText ((uuid.drop 6).take 2) ++ 0x2D :: (hexText ((uuid.drop 8).take 2) ++ 0x2D ::
      hexText (uuid.drop 10))))

def taExtension : Bytes := [0x2E, 0x74, 0x61]

theorem hexDigit_lowerCase : ∀ n < 16, hexDigit n = lowerCase.getD n 0 := by decide

theorem hexByte_hexText (b : UInt8) : hexByte b = hexText [b] := by
  have high := hexDigit_lowerCase (b.toNat / 16) (by have := b.toNat_lt; omega)
  have low := hexDigit_lowerCase (b.toNat % 16) (by omega)
  rw [hexByte, high, low]
  rfl

theorem filenameOf_uuidText {uuid : Bytes} (uuid16 : uuid.length = 16) :
    filenameOf uuid = uuidText uuid ++ taExtension := by
  obtain ⟨byte, rfl⟩ : ∃ byte : Fin 16 → UInt8, uuid = List.ofFn byte :=
    ⟨fun i => uuid[i], by
      apply List.ext_getElem
      · rw [List.length_ofFn, uuid16]
      · intro i less less'
        rw [List.getElem_ofFn]
        rfl⟩
  simp only [filenameOf, hexByte_hexText]
  rfl

/-- This device's ids are accepted and no others, none of the comparisons goes
past the NUL of its literal, and the path of an accepted id is its own. -/
structure RightId (beyond : Beyond) (id : Range) (dst : ComponentPath) : Prop where
  ours : (parseComponentId beyond ⟨id⟩ dst).1 = true ↔ ∃ uuid, OurId (id.getD []) uuid
  within : ∀ compared ∈ comparisons beyond ⟨id⟩, compared.2.length ≤ compared.1.length + 1
  path : ∀ uuid, OurId (id.getD []) uuid →
    (parseComponentId beyond ⟨id⟩ dst).2 = ⟨uuid, uuidText uuid ++ taExtension⟩

/-- Every string that is reached is at most as long as the literal with its NUL,
and an id whose strings their literals all start with has the literals. -/
structure Unambiguous (bytes : Bytes) : Prop where
  device : ∀ n device, Leads bytes n [device] → device.length ≤ deviceName.length + 1
  storage : ∀ n device storage, Leads bytes n [device, storage] → device <+: deviceName ++ [0] →
    storage.length ≤ storageName.length + 1
  suffix : ∀ n device storage uuid suffix, Leads bytes n [device, storage, uuid, suffix] →
    device <+: deviceName ++ [0] → storage <+: storageName ++ [0] → uuid.length = 16 →
    suffix.length ≤ taSuffix.length + 1
  literal : ∀ device storage uuid suffix, Leads bytes 4 [device, storage, uuid, suffix] →
    device <+: deviceName ++ [0] → storage <+: storageName ++ [0] → uuid.length = 16 →
    suffix <+: taSuffix ++ [0] →
    device = deviceName ∧ storage = storageName ∧ suffix = taSuffix

section Rightness
variable {beyond : Beyond} {bytes uuid : Bytes} {dst : ComponentPath}

theorem OurId.accepted (our : OurId bytes uuid) :
    parseComponentId beyond ⟨some bytes⟩ dst = (true, ⟨uuid, uuidText uuid ++ taExtension⟩) := by
  obtain ⟨leads, uuid16⟩ := our
  rw [← filenameOf_uuidText uuid16]
  exact parseComponentId_accepts leads (memcmpEqual_self beyond _) (memcmpEqual_self beyond _)
    uuid16 (memcmpEqual_self beyond _)

/-- The strings that were compared fit, one after the other. -/
theorem Unambiguous.prefixes (sound : Unambiguous bytes) {n : Nat} {device storage suffix : Bytes}
    (leads : Leads bytes n [device, storage, uuid, suffix]) (uuid16 : uuid.length = 16)
    (named : memcmpEqual beyond deviceName device = true)
    (stored : memcmpEqual beyond storageName storage = true)
    (suffixed : memcmpEqual beyond taSuffix suffix = true) :
    device <+: deviceName ++ [0] ∧ storage <+: storageName ++ [0] ∧ suffix <+: taSuffix ++ [0] := by
  have fits := sound.device n device leads.first
  have first := (memcmpEqual_iff_start beyond fits).mp named
  have fits' := sound.storage n device storage leads.second first
  have second := (memcmpEqual_iff_start beyond fits').mp stored
  have fits'' := sound.suffix n device storage uuid suffix leads first second uuid16
  exact ⟨first, second, (memcmpEqual_iff_start beyond fits'').mp suffixed⟩

theorem Unambiguous.ours (sound : Unambiguous bytes)
    (accepted : (parseComponentId beyond ⟨some bytes⟩ dst).1 = true) :
    ∃ uuid, OurId bytes uuid := by
  obtain ⟨device, storage, uuid, suffix, leads, named, stored, uuid16, suffixed, -⟩ :=
    parseComponentId_true (Prod.ext accepted rfl)
  obtain ⟨first, second, fourth⟩ := sound.prefixes leads uuid16 named stored suffixed
  have same := sound.literal device storage uuid suffix leads first second uuid16 fourth
  obtain ⟨rfl, rfl, rfl⟩ := same
  exact ⟨uuid, leads, uuid16⟩

theorem Unambiguous.within (sound : Unambiguous bytes) {compared : Bytes × Bytes}
    (made : compared ∈ comparisons beyond ⟨some bytes⟩) :
    compared.2.length ≤ compared.1.length + 1 := by
  cases (mem_comparisons_iff).mp made with
  | device leads => exact sound.device _ _ leads
  | storage leads named =>
    have fits := sound.device _ _ leads.first
    exact sound.storage _ _ _ leads ((memcmpEqual_iff_start beyond fits).mp named)
  | suffix leads named stored uuid16 =>
    have fits := sound.device _ _ leads.first
    have first := (memcmpEqual_iff_start beyond fits).mp named
    have fits' := sound.storage _ _ _ leads.second first
    have second := (memcmpEqual_iff_start beyond fits').mp stored
    exact sound.suffix _ _ _ _ _ leads first second uuid16

theorem RightId.unambiguous (right : RightId beyond (some bytes) dst) : Unambiguous bytes := by
  have compared {literal range : Bytes} (made : Compared beyond bytes (literal, range)) :
      range.length ≤ literal.length + 1 := right.within _ ((mem_comparisons_iff).mpr made)
  have device : ∀ n device, Leads bytes n [device] → device.length ≤ deviceName.length + 1 :=
    fun _ _ leads => compared (.device leads)
  have named {n : Nat} {name : Bytes} {more : List Bytes} (leads : Leads bytes n (name :: more))
      (first : name <+: deviceName ++ [0]) : memcmpEqual beyond deviceName name = true :=
    (memcmpEqual_iff_start beyond (device n name leads.first)).mpr first
  have storage : ∀ n device storage, Leads bytes n [device, storage] →
      device <+: deviceName ++ [0] → storage.length ≤ storageName.length + 1 :=
    fun _ _ _ leads first => compared (.storage leads (named leads first))
  have stored {n : Nat} {name range : Bytes} {more : List Bytes}
      (leads : Leads bytes n (name :: range :: more)) (first : name <+: deviceName ++ [0])
      (second : range <+: storageName ++ [0]) : memcmpEqual beyond storageName range = true := by
    have fits := storage n name range leads.second first
    exact (memcmpEqual_iff_start beyond fits).mpr second
  have suffix : ∀ n device storage uuid suffix, Leads bytes n [device, storage, uuid, suffix] →
      device <+: deviceName ++ [0] → storage <+: storageName ++ [0] → uuid.length = 16 →
      suffix.length ≤ taSuffix.length + 1 :=
    fun _ _ _ _ _ leads first second uuid16 =>
      compared (.suffix leads (named leads first) (stored leads first second) uuid16)
  refine ⟨device, storage, suffix, ?_⟩
  intro device storage uuid text leads first second uuid16 fourth
  have fits := suffix _ _ _ _ _ leads first second uuid16
  have taken : parseComponentId beyond ⟨some bytes⟩ dst = (true, ⟨uuid, filenameOf uuid⟩) :=
    parseComponentId_accepts leads (named leads first) (stored leads first second) uuid16
      ((memcmpEqual_iff_start beyond fits).mpr fourth)
  obtain ⟨_, ours, -⟩ := right.ours.mp (congrArg Prod.fst taken)
  obtain ⟨-, same⟩ := leads.unique ours rfl
  simp only [List.cons.injEq] at same
  exact ⟨same.1, same.2.1, same.2.2.2.1⟩

theorem Unambiguous.right (sound : Unambiguous bytes) : RightId beyond (some bytes) dst := by
  refine ⟨⟨sound.ours, ?_⟩, fun _ => sound.within, ?_⟩
  · rintro ⟨uuid, our⟩
    exact congrArg Prod.fst our.accepted
  · intro uuid our
    exact congrArg Prod.snd our.accepted

end Rightness

theorem componentId_right_iff (beyond : Beyond) (id : Range) (dst : ComponentPath) :
    RightId beyond id dst ↔ Unambiguous (id.getD []) := by
  cases id with
  | none =>
    -- a missing id is read like an empty one
    constructor
    · intro right
      have right' : RightId beyond (some []) dst := ⟨right.ours, right.within, right.path⟩
      exact right'.unambiguous
    · intro sound
      have right' : RightId beyond (some []) dst := sound.right
      exact ⟨right'.ours, right'.within, right'.path⟩
  | some bytes => exact ⟨RightId.unambiguous, Unambiguous.right⟩

/-- An id whose three names are empty. -/
def namelessId : Bytes := [0x84, 0x40, 0x40, 0x50] ++ List.replicate 16 0xAB ++ [0x40]

theorem nameless_id_accepted : ¬ RightId (fun _ _ => 0) (some namelessId) ⟨[], []⟩ := by
  intro right
  have leads : Leads namelessId 4 [[], [], List.replicate 16 0xAB, []] :=
    ⟨[0x84], _, [[0x40], [0x40], 0x50 :: List.replicate 16 0xAB, [0x40]], [], rfl, rfl, rfl,
      by decide, by decide, by decide⟩
  obtain ⟨named, -, -⟩ := right.unambiguous.literal _ _ _ _ leads (List.nil_prefix)
    List.nil_prefix (by decide) List.nil_prefix
  cases named

end TeepDevice.Agent
