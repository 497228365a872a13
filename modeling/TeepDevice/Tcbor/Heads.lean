import TeepDevice.BigEndian
import TeepDevice.Tcbor.Grammar

/-! The definite-length heads of CBOR and what `tcbor_primitive_read_any` makes of
any bytes: a head is read, cut short, or wrong whatever comes after it. -/
namespace TeepDevice.Tcbor

/-- Where the argument of a head is: in the first byte, or in the one, two, four
or eight bytes behind it. -/
inductive Width where
  | immediate
  | following (k : Fin 4)
  deriving DecidableEq, Repr

namespace Width

/-- The low five bits of the first byte. -/
def additional : Width → Nat → Nat
  | immediate, argument => argument
  | following k, _ => 24 + k

def Fits : Width → Nat → Prop
  | immediate, argument => argument < 24
  | following k, argument => argument < 256 ^ 2 ^ k.val

instance (width : Width) (argument : Nat) : Decidable (width.Fits argument) :=
  match width with
  | immediate => inferInstanceAs (Decidable (argument < 24))
  | following k => inferInstanceAs (Decidable (argument < 256 ^ 2 ^ k.val))

def argumentBytes : Width → Nat → Bytes
  | immediate, _ => []
  | following k, argument => BigEndian.encode (2 ^ k.val) argument

theorem additional_lt {width : Width} {argument : Nat} (fits : width.Fits argument) :
    width.additional argument < 28 := by
  cases width with
  | immediate => exact Nat.lt_trans fits (by decide)
  | following k =>
    have few := k.isLt
    simp only [additional]
    omega

/-- The narrowest width for an argument below `2 ^ 64`. -/
def shortest (argument : Nat) : Width :=
  if argument < 24 then .immediate
  else .following
    (if argument < 0x100 then 0 else if argument < 0x10000 then 1
      else if argument < 0x100000000 then 2 else 3)

theorem shortest_fits {argument : Nat} (fits : argument < 2 ^ 64) :
    (shortest argument).Fits argument := by
  unfold shortest
  split
  · rename_i immediate
    exact immediate
  · repeat' split
    · rename_i one
      exact one
    · rename_i two
      exact two
    · rename_i four
      exact four
    · exact fits

theorem length_argumentBytes (width : Width) (argument : Nat) :
    (width.argumentBytes argument).length =
      match width with
      | immediate => 0
      | following k => 2 ^ k.val := by
  cases width with
  | immediate => rfl
  | following k => exact BigEndian.encode_length _ _

/-- Every width that fits takes at least as many bytes. -/
theorem shortest_least {width : Width} {argument : Nat} (fits : width.Fits argument) :
    ((shortest argument).argumentBytes argument).length ≤
      (width.argumentBytes argument).length := by
  unfold shortest
  split
  · exact Nat.zero_le _
  · rename_i long
    cases width with
    | immediate => exact absurd fits long
    | following k =>
      rw [length_argumentBytes, length_argumentBytes]
      apply Nat.pow_le_pow_right (by decide)
      obtain ⟨k, few⟩ := k
      have four : k = 0 ∨ k = 1 ∨ k = 2 ∨ k = 3 := by omega
      rcases four with rfl | rfl | rfl | rfl
      · have bound : argument < 0x100 := fits
        rw [if_pos bound]
        exact Nat.le_refl 0
      · have bound : argument < 0x10000 := fits
        rw [if_pos bound]
        split
        · exact Nat.zero_le 1
        · exact Nat.le_refl 1
      · have bound : argument < 0x100000000 := fits
        rw [if_pos bound]
        repeat' split
        · exact Nat.zero_le 2
        · exact Nat.le_succ 1
        · exact Nat.le_refl 2
      · exact Nat.le_of_lt_succ (Fin.isLt _)

end Width

/-- A definite-length head; the content of a string counts as part of it. -/
structure DefiniteHead where
  majorType : Fin 8
  width : Width
  argument : Nat
  content : Bytes
  fits : width.Fits argument
  simple : majorType = 7 → width = .following 0 → 32 ≤ argument
  announced : content.length = if majorType = 2 ∨ majorType = 3 then argument else 0

namespace DefiniteHead

/-- The head of an unsigned integer. -/
def uint (width : Width) (argument : Nat) (fits : width.Fits argument) : DefiniteHead where
  majorType := 0
  width := width
  argument := argument
  content := []
  fits := fits
  simple := nofun
  announced := rfl

/-- The head of a byte string with its content. -/
def bstr (width : Width) (content : Bytes) (fits : width.Fits content.length) : DefiniteHead where
  majorType := 2
  width := width
  argument := content.length
  content := content
  fits := fits
  simple := nofun
  announced := rfl

variable (head : DefiniteHead)

def header : UInt8 := UInt8.ofNat (head.majorType * 32 + head.width.additional head.argument)

def encoding : Bytes := head.header :: (head.width.argumentBytes head.argument ++ head.content)

def any : Any :=
  ⟨head.header, if head.majorType = 2 ∨ head.majorType = 3 then 0 else head.argument,
    head.content⟩

/-- The integer a head stands for, if it is one. -/
def integer : Option Int :=
  if head.majorType = 0 then some head.argument
  else if head.majorType = 1 then some (-1 - head.argument)
  else none

theorem header_toNat :
    head.header.toNat = head.majorType * 32 + head.width.additional head.argument := by
  have info := Width.additional_lt head.fits
  have major := head.majorType.isLt
  rw [header, UInt8.toNat_ofNat']
  omega

theorem header_majorType : head.header.toNat / 32 = head.majorType := by
  have info := Width.additional_lt head.fits
  rw [header_toNat]
  omega

theorem header_additional :
    head.header.toNat % 32 = head.width.additional head.argument := by
  have info := Width.additional_lt head.fits
  rw [header_toNat]
  omega

theorem encoding_ne_nil : head.encoding ≠ [] := List.cons_ne_nil _ _

end DefiniteHead

section Arguments

/-- What the switch over the low five bits leaves in `value` and in `p`. -/
def readValue (info : Nat) (p : Bytes) : Option (Nat × Bytes) :=
  if 24 ≤ info then readArgument (2 ^ (info - 24)) 0 p else some (info, p)

theorem readArgument_append (bytes q : Bytes) (value : Nat) :
    readArgument bytes.length value (bytes ++ q) =
      some (value * 256 ^ bytes.length + BigEndian.decode bytes, q) := by
  induction bytes generalizing value with
  | nil => simp [readArgument, BigEndian.decode]
  | cons b bytes ih =>
    simp only [List.length_cons, List.cons_append, readArgument, ih, BigEndian.decode]
    rw [Nat.add_mul, Nat.pow_succ, Nat.mul_assoc, Nat.mul_comm 256, Nat.add_assoc]

theorem readArgument_none {n value : Nat} {p : Bytes} :
    readArgument n value p = none ↔ p.length < n := by
  induction n generalizing value p with
  | zero => simp [readArgument]
  | succ n ih =>
    cases p with
    | nil => simp [readArgument]
    | cons b p => simp [readArgument, ih]

theorem readValue_append {width : Width} {argument : Nat} (fits : width.Fits argument)
    (q : Bytes) :
    readValue (width.additional argument) (width.argumentBytes argument ++ q) =
      some (argument, q) := by
  cases width with
  | immediate =>
    have short : ¬ 24 ≤ argument := Nat.not_le.mpr fits
    simp [readValue, Width.additional, Width.argumentBytes, short]
  | following k =>
    have long : 24 ≤ 24 + k.val := Nat.le_add_right 24 k
    have read := readArgument_append (BigEndian.encode (2 ^ k.val) argument) q 0
    rw [BigEndian.encode_length, BigEndian.decode_encode_of_lt fits] at read
    simp [readValue, Width.additional, Width.argumentBytes, long, read]

/-- Whatever value was read has a width whose bytes were taken. -/
theorem readValue_some {info value : Nat} {p q : Bytes} (definite : info < 28)
    (read : readValue info p = some (value, q)) :
    ∃ width : Width, width.Fits value ∧ width.additional value = info ∧
      p = width.argumentBytes value ++ q := by
  unfold readValue at read
  split at read
  · rename_i long
    obtain ⟨k, rfl⟩ := Nat.exists_eq_add_of_le long
    rw [Nat.add_sub_cancel_left] at read
    obtain ⟨taken, rfl, length, -⟩ := readArgument_split read
    have whole := readArgument_append taken q 0
    rw [length, read] at whole
    cases whole
    have few : k < 4 := by omega
    refine ⟨.following ⟨k, few⟩, ?_, rfl, ?_⟩
    · have bound := BigEndian.decode_lt taken
      rw [length] at bound
      simpa [Width.Fits] using bound
    · have back := BigEndian.encode_decode taken
      rw [length] at back
      simp [Width.argumentBytes, back]
  · rename_i short
    cases read
    exact ⟨.immediate, Nat.not_le.mp short, rfl, rfl⟩

/-- An argument cut short goes on with bytes `0xFF`, for which no value is reserved. -/
theorem readValue_none {info : Nat} {p : Bytes} (definite : info < 28)
    (short : readValue info p = none) :
    ∃ (width : Width) (value : Nat) (more : Bytes), more ≠ [] ∧ width.Fits value ∧
      width.additional value = info ∧ p ++ more = width.argumentBytes value ∧
      (width = .following 0 → 32 ≤ value) := by
  unfold readValue at short
  split at short
  · rename_i long
    obtain ⟨k, rfl⟩ := Nat.exists_eq_add_of_le long
    rw [Nat.add_sub_cancel_left] at short
    have missing := (readArgument_none).mp short
    have few : k < 4 := by omega
    generalize padding : List.replicate (2 ^ k - p.length) (0xFF : UInt8) = more
    have rest : more.length = 2 ^ k - p.length := by simp [← padding]
    have length : (p ++ more).length = 2 ^ k := by
      simp only [List.length_append, rest]
      omega
    refine ⟨.following ⟨k, few⟩, BigEndian.decode (p ++ more), more, ?_, ?_, rfl, ?_, ?_⟩
    · intro none
      rw [none, List.length_nil] at rest
      omega
    · have bound := BigEndian.decode_lt (p ++ more)
      rw [length] at bound
      exact bound
    · have back := BigEndian.encode_decode (p ++ more)
      rw [length] at back
      exact back.symm
    · intro one
      obtain rfl : k = 0 := congrArg Fin.val (Width.following.inj one)
      have none : p = [] := List.length_eq_zero_iff.mp (by omega)
      subst none
      simp [← padding, BigEndian.decode]
  · cases short

end Arguments

section Law

/-- Where `r` stands after the call; it is moved by a successful read only. -/
def rangeAfter (s : Bytes) : Bytes :=
  match primitiveReadAny s with
  | .ok (_, rest) => rest
  | .error _ => s

theorem primitiveReadAny_cons (header : UInt8) (p : Bytes) :
    primitiveReadAny (header :: p) =
      if header.toNat % 32 = 31 then .error .notSupported
      else if 28 ≤ header.toNat % 32 then .error .malformed
      else
        match readValue (header.toNat % 32) p with
        | none => .error .needData
        | some (value, p) =>
          if header.toNat / 32 = 7 ∧ header.toNat % 32 = 24 ∧ value < 32 then .error .malformed
          else if header.toNat / 32 = 2 ∨ header.toNat / 32 = 3 then
            if p.length < value then .error .needData
            else .ok (⟨header, 0, p.take value⟩, p.drop value)
          else .ok (⟨header, value, []⟩, p) := rfl

theorem string_iff {n : Nat} (majorType : Fin 8) (same : n = majorType) :
    (majorType = 2 ∨ majorType = 3) ↔ (n = 2 ∨ n = 3) := by
  subst same
  revert majorType
  decide

/-- Every definite-length head is read, and nothing behind it. -/
theorem primitiveReadAny_encoding (head : DefiniteHead) (rest : Bytes) :
    primitiveReadAny (head.encoding ++ rest) = .ok (head.any, rest) := by
  have info := Width.additional_lt head.fits
  have open_ : ¬ head.header.toNat % 32 = 31 := by
    rw [head.header_additional]
    omega
  have reserved : ¬ 28 ≤ head.header.toNat % 32 := by
    rw [head.header_additional]
    omega
  have value : readValue (head.header.toNat % 32)
      (head.width.argumentBytes head.argument ++ (head.content ++ rest)) =
        some (head.argument, head.content ++ rest) := by
    rw [head.header_additional]
    exact readValue_append head.fits _
  have allowed : ¬ (head.header.toNat / 32 = 7 ∧ head.header.toNat % 32 = 24 ∧
      head.argument < 32) := by
    rintro ⟨major, one, small⟩
    rw [head.header_majorType] at major
    rw [head.header_additional] at one
    have fits := head.fits
    cases width : head.width with
    | immediate =>
      rw [width] at one fits
      simp only [Width.additional, Width.Fits] at one fits
      omega
    | following k =>
      rw [width] at one
      obtain rfl : k = 0 := by
        simp only [Width.additional] at one
        omega
      have least := head.simple (by omega) width
      omega
  have string := string_iff head.majorType head.header_majorType
  have announced := head.announced
  simp only [DefiniteHead.encoding, List.cons_append, List.append_assoc, primitiveReadAny_cons,
    open_, reserved, if_false, value, allowed, ← string]
  split
  · rename_i isString
    rw [if_pos isString] at announced
    have enough : ¬ (head.content ++ rest).length < head.argument := by
      simp only [List.length_append]
      omega
    simp only [enough, if_false, DefiniteHead.any, isString, if_true,
      List.take_left' announced, List.drop_left' announced]
  · rename_i other
    rw [if_neg other] at announced
    have none := List.length_eq_zero_iff.mp announced
    simp [DefiniteHead.any, other, none]

/-- What a call on `s` with this answer says about `s` and everything that starts
with `s`. -/
def Decoded (s : Bytes) : Except Error (Any × Bytes) → Prop
  | .ok (any, rest) => rangeAfter s = rest ∧ rest.length < s.length ∧
      (∃ head : DefiniteHead, any = head.any ∧ s = head.encoding ++ rest) ∧
      ∀ more, primitiveReadAny (s ++ more) = .ok (any, rest ++ more)
  | .error .needData => rangeAfter s = s ∧
      ∃ more, more ≠ [] ∧ ∃ read, primitiveReadAny (s ++ more) = .ok read
  | .error e => (e = .malformed ∨ e = .notSupported) ∧ rangeAfter s = s ∧
      ∀ more, primitiveReadAny (s ++ more) = .error e

theorem decoded_head (head : DefiniteHead) (rest : Bytes) :
    Decoded (head.encoding ++ rest) (.ok (head.any, rest)) := by
  have read := primitiveReadAny_encoding head
  refine ⟨by simp [rangeAfter, read], ?_, ⟨head, rfl, rfl⟩, ?_⟩
  · have some := List.length_pos_iff.mpr head.encoding_ne_nil
    rw [List.length_append]
    omega
  · intro more
    rw [List.append_assoc, read]

/-- Bytes that can be completed to a head were too few. -/
theorem decoded_short {s more : Bytes} (short : primitiveReadAny s = .error .needData)
    (some : more ≠ []) (head : DefiniteHead) (whole : s ++ more = head.encoding) :
    Decoded s (.error .needData) := by
  refine ⟨by simp [rangeAfter, short], more, some, (head.any, []), ?_⟩
  rw [whole, ← List.append_nil head.encoding]
  exact primitiveReadAny_encoding head []

theorem decoded_wrong {s : Bytes} {e : Error} (wrong : e = .malformed ∨ e = .notSupported)
    (stable : ∀ more, primitiveReadAny (s ++ more) = .error e) : Decoded s (.error e) := by
  have here := stable []
  rw [List.append_nil] at here
  have still : rangeAfter s = s := by simp [rangeAfter, here]
  rcases wrong with rfl | rfl
  · exact ⟨.inl rfl, still, stable⟩
  · exact ⟨.inr rfl, still, stable⟩

variable {header : UInt8} {width : Width} {value : Nat} {p q : Bytes}

/-- The head with a given first byte. -/
theorem exists_head (fits : width.Fits value)
    (info : width.additional value = header.toNat % 32)
    (allowed : ¬ (header.toNat / 32 = 7 ∧ header.toNat % 32 = 24 ∧ value < 32))
    (content : Bytes) (announced : content.length =
      if header.toNat / 32 = 2 ∨ header.toNat / 32 = 3 then value else 0) :
    ∃ head : DefiniteHead, head.encoding = header :: (width.argumentBytes value ++ content) ∧
      head.any = ⟨header, if header.toNat / 32 = 2 ∨ header.toNat / 32 = 3 then 0 else value,
        content⟩ := by
  have byte := header.toNat_lt
  have major : header.toNat / 32 < 8 := by omega
  have string := string_iff ⟨header.toNat / 32, major⟩ rfl
  have same : UInt8.ofNat (header.toNat / 32 * 32 + width.additional value) = header := by
    apply UInt8.toNat_inj.mp
    rw [UInt8.toNat_ofNat']
    omega
  refine ⟨⟨⟨header.toNat / 32, major⟩, width, value, content, fits, ?_, ?_⟩, ?_, ?_⟩
  · rintro seven rfl
    have seven : header.toNat / 32 = 7 := congrArg Fin.val seven
    have one : header.toNat % 32 = 24 := info.symm
    omega
  · simpa only [string] using announced
  · simp only [DefiniteHead.encoding, DefiniteHead.header, same]
  · simp only [DefiniteHead.any, DefiniteHead.header, same, string]

theorem readValue_more {info : Nat} (definite : info < 28)
    (read : readValue info p = some (value, q)) (more : Bytes) :
    readValue info (p ++ more) = some (value, q ++ more) := by
  obtain ⟨width, fits, rfl, rfl⟩ := readValue_some definite read
  rw [List.append_assoc]
  exact readValue_append fits _

/-- The argument is cut short. -/
theorem decoded_no_argument (definite : header.toNat % 32 < 28)
    (short : readValue (header.toNat % 32) p = none) :
    Decoded (header :: p) (.error .needData) := by
  obtain ⟨width, value, more, some, fits, info, whole, reserved⟩ := readValue_none definite short
  have allowed : ¬ (header.toNat / 32 = 7 ∧ header.toNat % 32 = 24 ∧ value < 32) := by
    rintro ⟨-, one, small⟩
    have least := reserved ?_
    · omega
    · cases width with
      | immediate =>
        simp only [Width.Fits, Width.additional] at fits info
        omega
      | following k =>
        simp only [Width.additional] at info
        have zero : k = 0 := by omega
        rw [zero]
  obtain ⟨content, announced⟩ : ∃ content : Bytes, content.length =
      if header.toNat / 32 = 2 ∨ header.toNat / 32 = 3 then value else 0 :=
    ⟨List.replicate _ 0, List.length_replicate⟩
  obtain ⟨head, encoding, -⟩ := exists_head fits info allowed content announced
  have completed : (header :: p) ++ (more ++ content) = head.encoding := by
    rw [encoding, ← whole, List.append_assoc, List.cons_append]
  have open_ : ¬ header.toNat % 32 = 31 := by omega
  have reserved : ¬ 28 ≤ header.toNat % 32 := by omega
  apply decoded_short ?_ (by simp [some]) head completed
  rw [primitiveReadAny_cons, if_neg open_, if_neg reserved, short]

/-- The argument is there; what it announces decides. -/
theorem decoded_argument (definite : header.toNat % 32 < 28)
    (read : readValue (header.toNat % 32) p = some (value, q)) :
    Decoded (header :: p) (primitiveReadAny (header :: p)) := by
  have open_ : ¬ header.toNat % 32 = 31 := by omega
  have reserved : ¬ 28 ≤ header.toNat % 32 := by omega
  have call (more : Bytes) : primitiveReadAny (header :: p ++ more) =
      if header.toNat / 32 = 7 ∧ header.toNat % 32 = 24 ∧ value < 32 then .error .malformed
      else if header.toNat / 32 = 2 ∨ header.toNat / 32 = 3 then
        if (q ++ more).length < value then .error .needData
        else .ok (⟨header, 0, (q ++ more).take value⟩, (q ++ more).drop value)
      else .ok (⟨header, value, []⟩, q ++ more) := by
    rw [List.cons_append, primitiveReadAny_cons, if_neg open_, if_neg reserved,
      readValue_more definite read more]
  have here := call []
  rw [List.append_nil, List.append_nil] at here
  obtain ⟨width, fits, info, rfl⟩ := readValue_some definite read
  by_cases small : header.toNat / 32 = 7 ∧ header.toNat % 32 = 24 ∧ value < 32
  · rw [here, if_pos small]
    refine decoded_wrong (.inl rfl) ?_
    intro more
    rw [call, if_pos small]
  have announces := exists_head fits info small
  by_cases string : header.toNat / 32 = 2 ∨ header.toNat / 32 = 3
  · simp only [string, if_true] at announces
    by_cases short : q.length < value
    · rw [if_neg small, if_pos string, if_pos short] at here
      obtain ⟨head, encoding, -⟩ :=
        announces (q ++ List.replicate (value - q.length) 0) (by simp; omega)
      have completed : (header :: (width.argumentBytes value ++ q)) ++
          List.replicate (value - q.length) 0 = head.encoding := by
        rw [encoding, List.cons_append, List.append_assoc]
      rw [here]
      refine decoded_short here ?_ head completed
      intro none
      have missing := congrArg List.length none
      simp only [List.length_replicate, List.length_nil] at missing
      omega
    · rw [if_neg small, if_pos string, if_neg short] at here
      obtain ⟨head, encoding, any⟩ := announces (q.take value) (by simp; omega)
      have whole : header :: (width.argumentBytes value ++ q) =
          head.encoding ++ q.drop value := by
        rw [encoding, List.cons_append, List.append_assoc, List.take_append_drop]
      rw [here, ← any, whole]
      exact decoded_head head (q.drop value)
  · simp only [string, if_false] at announces
    rw [if_neg small, if_neg string] at here
    obtain ⟨head, encoding, any⟩ := announces [] rfl
    have whole : header :: (width.argumentBytes value ++ q) = head.encoding ++ q := by
      rw [encoding, List.append_nil, List.cons_append]
    rw [here, ← any, whole]
    exact decoded_head head q

/-- Every call reads a definite-length head, or needs more bytes to read one, or
finds the first bytes wrong whatever comes behind them; and every definite-length
head is read. -/
theorem primitiveReadAny_decodes :
    (∀ s, Decoded s (primitiveReadAny s)) ∧
      ∀ (head : DefiniteHead) (rest : Bytes),
        primitiveReadAny (head.encoding ++ rest) = .ok (head.any, rest) := by
  refine ⟨?_, primitiveReadAny_encoding⟩
  intro s
  cases s with
  | nil => exact ⟨rfl, [0x00], by decide, (⟨0x00, 0, []⟩, []), by decide +kernel⟩
  | cons header p =>
    by_cases indefinite : header.toNat % 32 = 31
    · rw [primitiveReadAny_cons, if_pos indefinite]
      refine decoded_wrong (.inr rfl) ?_
      intro more
      rw [List.cons_append, primitiveReadAny_cons, if_pos indefinite]
    · by_cases reserved : 28 ≤ header.toNat % 32
      · rw [primitiveReadAny_cons, if_neg indefinite, if_pos reserved]
        refine decoded_wrong (.inl rfl) ?_
        intro more
        rw [List.cons_append, primitiveReadAny_cons, if_neg indefinite, if_pos reserved]
      · have definite : header.toNat % 32 < 28 := by omega
        cases read : readValue (header.toNat % 32) p with
        | none =>
          rw [primitiveReadAny_cons, if_neg indefinite, if_neg reserved, read]
          exact decoded_no_argument definite read
        | some argument => exact decoded_argument definite read

end Law

end TeepDevice.Tcbor
