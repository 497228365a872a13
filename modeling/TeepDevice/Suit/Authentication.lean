import TeepDevice.Suit.Digest
import TeepDevice.Suit.Fields

/-! What a successful `suit_authenticate_envelope` says about the envelope. -/
namespace TeepDevice.Suit
open Tcbor

/-- The byte string that is hashed: the manifest member with its own head. -/
def bstrEncoding (b : Bytes) : Bytes := digestHead b.length ++ b

/-- An untagged array of byte strings, the digest first and then the blocks. -/
def WrapperReads (wrapper digestBstr : Bytes) (blocks : List Bytes) : Prop :=
  ∃ (head : Bytes) (any : Any) (first : Bytes) (items : List Bytes) (trailing : Bytes),
    Head head any ∧ any.isArray = true ∧ any.value = items.length + 1 ∧
    bstrOf first = some digestBstr ∧ items.map bstrOf = blocks.map some ∧
    wrapper = head ++ (first ++ (items.flatten ++ trailing))

def BlockVerifies (crypto : Crypto) (keyPem : String) (digestBstr block : Bytes) : Prop :=
  headIs (fun any => any.isTag && any.value == cborTagCoseSign1) block = true ∧
    crypto.verifyDetached keyPem block digestBstr = true

def DigestReads (digestBstr : Bytes) (algorithm : Int) (bytes : Bytes) : Prop :=
  ∃ item trailing, DigestItem item algorithm bytes ∧ digestBstr = item ++ trailing

/-- The chain from the key to the manifest: the blocks sign the digest, and the
digest is that of the manifest member. -/
structure Authentic (crypto : Crypto) (envelopeBstr : Bytes) (keyPem : String)
    (digestBstr : Bytes) (blocks : List Bytes) (manifestBstr : Range) : Prop where
  wrapper : ∃ wrapper, suitEnvelopeGetFieldByKey (some envelopeBstr) Label.authenticationWrapper =
    some (some wrapper) ∧ WrapperReads wrapper digestBstr blocks
  signed : blocks ≠ []
  verified : ∀ block ∈ blocks, BlockVerifies crypto keyPem digestBstr block
  manifest : suitEnvelopeGetFieldByKey (some envelopeBstr) Label.manifest = some manifestBstr
  hashed : ∃ digest, DigestReads digestBstr digestAlgSha256 digest ∧
    crypto.sha256 (bstrEncoding (manifestBstr.getD [])) = some digest

section Encoding

theorem readArgument_bigEndian (n len value : Nat) (b : Bytes) :
    readArgument n value
        ((List.range n).reverse.map (fun i => UInt8.ofNat (len / 256 ^ i % 256)) ++ b) =
      some (value * 256 ^ n + len % 256 ^ n, b) := by
  induction n generalizing value with
  | zero => simp [readArgument, Nat.mod_one]
  | succ n ih =>
    rw [List.range_succ]
    simp only [List.reverse_append, List.reverse_singleton, List.map_cons,
      List.cons_append, List.nil_append, readArgument]
    rw [ih]
    have byte : (UInt8.ofNat (len / 256 ^ n % 256)).toNat = len / 256 ^ n % 256 := by
      rw [UInt8.toNat_ofNat']
      exact Nat.mod_eq_of_lt (by omega)
    have digits : len % 256 ^ (n + 1) = 256 ^ n * (len / 256 ^ n % 256) + len % 256 ^ n := by
      rw [Nat.pow_succ, Nat.mod_mul]
      omega
    rw [byte, digits]
    simp only [Option.some.injEq, Prod.mk.injEq, and_true]
    rw [Nat.pow_succ, Nat.add_mul, Nat.mul_assoc, Nat.mul_comm 256, Nat.mul_comm (256 ^ n) (_ % _)]
    omega

theorem primitiveReadAny_bstr {header : UInt8} {p b : Bytes}
    (major : header.toNat / 32 = 2) (definite : header.toNat % 32 < 28)
    (argument : (if 24 ≤ header.toNat % 32
      then readArgument (2 ^ (header.toNat % 32 - 24)) 0 p
      else some (header.toNat % 32, p)) = some (b.length, b)) :
    primitiveReadAny (header :: p) = .ok (⟨header, 0, b⟩, []) := by
  have open_ : ¬ header.toNat % 32 = 31 := by omega
  have reserved : ¬ 28 ≤ header.toNat % 32 := by omega
  simp [primitiveReadAny, major, open_, reserved, argument]

theorem primitiveReadAny_long {k : Nat} (width : k ≤ 3) {b : Bytes}
    (fits : b.length < 256 ^ 2 ^ k) :
    primitiveReadAny (UInt8.ofNat (0x40 + 24 + k) ::
      ((List.range (2 ^ k)).reverse.map (fun i => UInt8.ofNat (b.length / 256 ^ i % 256)) ++ b)) =
      .ok (⟨UInt8.ofNat (0x40 + 24 + k), 0, b⟩, []) := by
  have header : (UInt8.ofNat (0x40 + 24 + k)).toNat = 88 + k := by
    rw [UInt8.toNat_ofNat']
    omega
  apply primitiveReadAny_bstr
  · omega
  · omega
  · have long : 24 ≤ (88 + k) % 32 := by omega
    have exponent : (88 + k) % 32 - 24 = k := by omega
    rw [header, if_pos long, exponent, readArgument_bigEndian, Nat.mod_eq_of_lt fits, Nat.zero_mul,
      Nat.zero_add]

/-- The head that is hashed in front of the manifest is the head of a byte string
of its length. -/
theorem bstrOf_bstrEncoding (b : Bytes) (fits : b.length < 2 ^ 64) :
    bstrOf (bstrEncoding b) = some b := by
  have read : ∃ header, primitiveReadAny (bstrEncoding b) = .ok (⟨header, 0, b⟩, []) ∧
      header.toNat / 32 = 2 := by
    unfold bstrEncoding digestHead
    split
    · rename_i short
      have header : (UInt8.ofNat (0x40 + b.length)).toNat = 64 + b.length := by
        rw [UInt8.toNat_ofNat']
        omega
      refine ⟨UInt8.ofNat (0x40 + b.length), primitiveReadAny_bstr (by omega) (by omega) ?_,
        by omega⟩
      have immediate : ¬ 24 ≤ (64 + b.length) % 32 := by omega
      have value : (64 + b.length) % 32 = b.length := by omega
      rw [header, if_neg immediate, value]
      rfl
    · generalize size : (if b.length < 0x100 then 0 else if b.length < 0x10000 then 1
        else if b.length < 0x100000000 then 2 else 3) = k
      have width : k ≤ 3 ∧ b.length < 256 ^ 2 ^ k := by
        repeat' split at size
        all_goals
          subst size
          refine ⟨by decide, ?_⟩
          simp only [Nat.reducePow]
          omega
      have header : (UInt8.ofNat (0x40 + 24 + k)).toNat = 88 + k := by
        rw [UInt8.toNat_ofNat']
        omega
      exact ⟨_, primitiveReadAny_long width.1 width.2, by omega⟩
  obtain ⟨header, reads, major⟩ := read
  exact (bstrOf_eq_some_iff).mpr ⟨_, reads, beq_iff_eq.mpr major, rfl⟩

end Encoding

section Blocks
variable {crypto : Crypto} {keyPem : String} {digestBstr : Bytes}

theorem verifyAuthBlock_iff {block : Bytes} :
    verifyAuthBlock crypto block digestBstr keyPem = true ↔
      BlockVerifies crypto keyPem digestBstr block := by
  have notEnd : isEndOfContext (toplevel (some block)) = false := rfl
  unfold BlockVerifies verifyAuthBlock readTag readMatching
  simp only [readAny, notEnd, Bool.false_eq_true, if_false, headIs]
  cases read : primitiveReadAny block with
  | error e => simp [toplevel, read]
  | ok found =>
    obtain ⟨any, rest⟩ := found
    simp only [toplevel, Option.getD_some, read]
    cases any.isTag with
    | false => simp
    | true =>
      by_cases sign1 : any.value = cborTagCoseSign1
      · simp [sign1]
      · simp [sign1]

theorem authBlocks_sound {n : Nat} {array array' : Context} {authenticated authenticated' : Bool}
    (left : Remaining array n)
    (h : Loop.eval (authBlocksBody crypto digestBstr keyPem) _
      (authBlocksBody_decreasing crypto digestBstr keyPem) (array, authenticated) =
        some (array', authenticated')) :
    ∃ (items : List Bytes) (blocks : List Bytes), items.length = n ∧
      items.map bstrOf = blocks.map some ∧
      (∀ block ∈ blocks, BlockVerifies crypto keyPem digestBstr block) ∧
      array.r = items.flatten ++ array'.r ∧
      (authenticated || !blocks.isEmpty) = authenticated' := by
  induction n generalizing array authenticated with
  | zero =>
    have ended := left.isEndOfContext_iff.mpr rfl
    rw [Loop.eval_unfold] at h
    simp only [authBlocksBody, ended, if_true] at h
    cases h
    exact ⟨[], [], rfl, rfl, by simp, rfl, by simp⟩
  | succ n ih =>
    rw [Loop.eval_unfold] at h
    cases read : readBstr array with
    | mk found next =>
      cases found with
      | none =>
        simp only [authBlocksBody, left.notEnd, Bool.false_eq_true, if_false, read] at h
        cases h
      | some block =>
        obtain ⟨-, item, bstr, same, behind⟩ := (readBstr_bstrOf left).mp read
        simp only [authBlocksBody, left.notEnd, Bool.false_eq_true, if_false, read] at h
        split at h
        · rename_i s' pass
          split at pass
          · rename_i verified
            cases pass
            have left' : Remaining next n := by
              rw [behind]
              exact left.advance next.r
            obtain ⟨items, blocks, count, bstrs, all, rest, so⟩ := ih left' h
            refine ⟨item :: items, block :: blocks, by simp [count], by simp [bstr, bstrs], ?_,
              by rw [same, rest, List.flatten_cons, List.append_assoc], by simpa using so⟩
            intro b mem
            rcases List.mem_cons.mp mem with rfl | mem
            · exact (verifyAuthBlock_iff).mp verified
            · exact all b mem
          · cases pass
        · rename_i out pass
          split at pass
          · cases pass
          · cases pass
            cases h

theorem authBlocks_complete {n : Nat} {array : Context} {authenticated : Bool}
    {items blocks : List Bytes} {trailing : Bytes} (left : Remaining array n)
    (count : items.length = n) (bstrs : items.map bstrOf = blocks.map some)
    (all : ∀ block ∈ blocks, BlockVerifies crypto keyPem digestBstr block)
    (starts : array.r = items.flatten ++ trailing) :
    ∃ array', Loop.eval (authBlocksBody crypto digestBstr keyPem) _
      (authBlocksBody_decreasing crypto digestBstr keyPem) (array, authenticated) =
        some (array', authenticated || !blocks.isEmpty) ∧ Remaining array' 0 := by
  induction n generalizing array authenticated items blocks with
  | zero =>
    have ended := left.isEndOfContext_iff.mpr rfl
    rw [List.length_eq_zero_iff] at count
    subst count
    obtain rfl : blocks = [] := by simpa using bstrs.symm
    rw [Loop.eval_unfold]
    refine ⟨array, ?_, left⟩
    simp [authBlocksBody, ended]
  | succ n ih =>
    cases items with
    | nil => cases count
    | cons item items =>
      cases blocks with
      | nil => cases bstrs
      | cons block blocks =>
        simp only [List.map_cons, List.cons.injEq] at bstrs
        rw [List.flatten_cons, List.append_assoc] at starts
        have read := readBstr_at left (Nat.succ_pos n) bstrs.1 starts
        have verified := (verifyAuthBlock_iff).mpr (all block List.mem_cons_self)
        have later : ∃ array', Loop.eval (authBlocksBody crypto digestBstr keyPem) _
            (authBlocksBody_decreasing crypto digestBstr keyPem)
            (array.advance (items.flatten ++ trailing), true) =
              some (array', true || !blocks.isEmpty) ∧ Remaining array' 0 :=
          ih (left.advance _) (Nat.succ.inj count) bstrs.2
            (fun b mem => all b (List.mem_cons_of_mem block mem)) rfl
        obtain ⟨array', loop, ended⟩ := later
        refine ⟨array', ?_, ended⟩
        rw [Loop.eval_unfold]
        simp only [authBlocksBody, left.notEnd, Bool.false_eq_true, if_false, read, verified,
          if_true, loop]
        simp

end Blocks

theorem verifyDigest_iff {crypto : Crypto} {digestBstr : Bytes} {manifestBstr : Range}
    (short : digestBstr.length < 2 ^ 63) :
    verifyDigest crypto digestBstr manifestBstr = true ↔
      ∃ digest, DigestReads digestBstr digestAlgSha256 digest ∧
        crypto.sha256 (bstrEncoding (manifestBstr.getD [])) = some digest := by
  have left := remaining_toplevel (some digestBstr)
  unfold verifyDigest
  constructor
  · intro h
    split at h
    · rename_i after digest read
      obtain ⟨-, item, algorithm, bytes, isDigest, same, -, written⟩ :=
        (readDigest_iff left short).mp read
      cases written
      split at h
      · rename_i sha
        split at h
        · cases h
        · rename_i hashed hash
          rw [beq_iff_eq, Option.some.injEq] at h
          subst h
          simp only at sha
          subst sha
          exact ⟨bytes, ⟨item, after.r, isDigest, same⟩, hash⟩
      · cases h
    · cases h
  · rintro ⟨digest, ⟨item, trailing, isDigest, rfl⟩, hash⟩
    have read : readDigest (toplevel (some (item ++ trailing))) ⟨0, none⟩ =
        (true, (toplevel (some (item ++ trailing))).advance trailing,
          some ⟨digestAlgSha256, some digest⟩) :=
      (readDigest_iff left short).mpr ⟨Nat.one_pos, item, _, digest, isDigest, rfl, rfl, rfl⟩
    have hash' : crypto.sha256 (digestHead (manifestBstr.getD []).length ++ manifestBstr.getD []) =
        some digest := hash
    simp only [read, if_true, hash', beq_self_eq_true]

theorem readBstr_content {ctx after : Context} {b : Bytes} (h : readBstr ctx = (some b, after)) :
    b.length ≤ ctx.r.length := by
  obtain ⟨any, read, -, rfl⟩ := readMatching_some h
  exact primitiveReadAny_bytes (readAny_some read).2.1

theorem suitAuthenticateEnvelope_sound {crypto : Crypto} {envelopeBstr : Bytes} {keyPem : String}
    (short : envelopeBstr.length < 2 ^ 63)
    (h : suitAuthenticateEnvelope crypto envelopeBstr keyPem = true) :
    ∃ digestBstr blocks manifestBstr,
      Authentic crypto envelopeBstr keyPem digestBstr blocks manifestBstr := by
  unfold suitAuthenticateEnvelope at h
  split at h
  · cases h
  rename_i wrapper field
  have left := remaining_toplevel wrapper
  split at h
  · cases h
  rename_i array ctx opened
  obtain ⟨-, head, any, read, isArray, same, -, rfl⟩ := (readArray_iff left).mp opened
  have left₀ := remaining_openContext ctx read.value_lt
  split at h
  · cases h
  rename_i digestBstr array₁ readBstr_eq
  obtain ⟨one, first, bstr, same₁, behind₁⟩ := (readBstr_bstrOf left₀).mp readBstr_eq
  have left₁ := left₀.behind one behind₁
  split at h
  · cases h
  rename_i array₂ authenticated loop
  obtain ⟨items, blocks, count, bstrs, all, rest, so⟩ := authBlocks_sound left₁ loop
  simp only [Bool.and_eq_true] at h
  obtain ⟨⟨-, signed⟩, digest⟩ := h
  split at digest
  · cases digest
  rename_i manifestBstr manifestField
  cases wrapper with
  | none =>
    have none : head ++ ctx.r = [] := same.symm
    have positive := read.length_pos
    rw [(List.append_eq_nil_iff.mp none).1] at positive
    cases positive
  | some wrapper =>
    have bounded : digestBstr.length < 2 ^ 63 := by
      have inner := readBstr_content readBstr_eq
      have outer := suitEnvelopeGetField_length field
      have taken : wrapper = head ++ ctx.r := same
      simp only [openContext_r] at inner
      rw [taken, List.length_append] at outer
      omega
    refine ⟨digestBstr, blocks, manifestBstr, ⟨wrapper, field, head, any, first, items, array₂.r,
      read, isArray, by omega, bstr, bstrs, ?_⟩, ?_, all, manifestField,
      (verifyDigest_iff bounded).mp digest⟩
    · rw [← rest, ← same₁]
      exact same
    · rintro rfl
      rw [signed] at so
      cases so

theorem suitAuthenticateEnvelope_complete {crypto : Crypto} {envelopeBstr digestBstr : Bytes}
    {keyPem : String} {blocks : List Bytes} {manifestBstr : Range}
    (short : envelopeBstr.length < 2 ^ 63)
    (authentic : Authentic crypto envelopeBstr keyPem digestBstr blocks manifestBstr) :
    suitAuthenticateEnvelope crypto envelopeBstr keyPem = true := by
  obtain ⟨⟨wrapper, field, head, any, first, items, trailing, read, isArray, count, bstr, bstrs,
    same⟩, signed, all, manifestField, hashed⟩ := authentic
  have left := remaining_toplevel (some wrapper)
  have opened := readArray_at left Nat.one_pos read isArray same
  have left₀ := remaining_openContext
    ((toplevel (some wrapper)).advance (first ++ (items.flatten ++ trailing))) read.value_lt
  have readBstr_eq := readBstr_at left₀ (by omega) bstr rfl
  have left₁ := left₀.next count (items.flatten ++ trailing)
  have loop : ∃ array', Loop.eval (authBlocksBody crypto digestBstr keyPem) _
      (authBlocksBody_decreasing crypto digestBstr keyPem)
      ((openContext ((toplevel (some wrapper)).advance (first ++ (items.flatten ++ trailing)))
        any.value).advance (items.flatten ++ trailing), false) =
        some (array', false || !blocks.isEmpty) ∧ Remaining array' 0 :=
    authBlocks_complete left₁ rfl bstrs all rfl
  obtain ⟨array₂, looped, left₂⟩ := loop
  have some_block : blocks.isEmpty = false := by
    cases blocks with
    | nil => exact absurd rfl signed
    | cons block blocks => rfl
  have bounded : digestBstr.length < 2 ^ 63 := by
    have inner := readBstr_content readBstr_eq
    have outer := suitEnvelopeGetField_length field
    simp only [openContext_r, Context.advance_r, List.length_append] at inner
    rw [same] at outer
    simp only [List.length_append] at outer
    omega
  have digest := (verifyDigest_iff bounded).mpr hashed
  simp only [suitAuthenticateEnvelope, field, opened, readBstr_eq, looped, close_at left₂,
    some_block, manifestField, digest]
  rfl

/-- Authentication succeeds exactly on an authentic envelope, whatever members are
repeated, unknown or missing, and the manifest parsed out of it is the one whose
encoding as a byte string was hashed. -/
theorem suitAuthenticateEnvelope_iff (crypto : Crypto) (envelopeBstr : Bytes) (keyPem : String)
    (short : envelopeBstr.length < 2 ^ 63) :
    (suitAuthenticateEnvelope crypto envelopeBstr keyPem = true ↔
      ∃ digestBstr blocks manifestBstr,
        Authentic crypto envelopeBstr keyPem digestBstr blocks manifestBstr) ∧
    (∀ digestBstr blocks manifestBstr,
      Authentic crypto envelopeBstr keyPem digestBstr blocks manifestBstr →
      bstrOf (bstrEncoding (manifestBstr.getD [])) = some (manifestBstr.getD []) ∧
      ∀ ret,
        (suitEnvelopeGetManifest (some envelopeBstr) ret).1 =
          (suitManifestParse manifestBstr ret).1 ∧
        ((suitManifestParse manifestBstr ret).1 = true →
          (suitEnvelopeGetManifest (some envelopeBstr) ret).2 =
            { (suitManifestParse manifestBstr ret).2 with
              envelopeBstr := some envelopeBstr })) := by
  constructor
  · constructor
    · exact suitAuthenticateEnvelope_sound short
    · rintro ⟨digestBstr, blocks, manifestBstr, authentic⟩
      exact suitAuthenticateEnvelope_complete short authentic
  · intro digestBstr blocks manifestBstr authentic
    constructor
    · apply bstrOf_bstrEncoding
      cases manifestBstr with
      | none => exact Nat.two_pow_pos 64
      | some manifestBstr =>
        have bounded := suitEnvelopeGetField_length authentic.manifest
        simp only [Option.getD_some]
        omega
    · intro ret
      unfold suitEnvelopeGetManifest
      simp only [authentic.manifest]
      cases parsed : suitManifestParse manifestBstr ret with
      | mk ok m =>
        cases ok with
        | false => simp
        | true => simp

/-- One block under tag 18 over `[-16, h'EE']`, and the manifest member `h'A0'`. -/
theorem suitAuthenticateEnvelope_iff_signed : ∃ digestBstr blocks manifestBstr,
    Authentic ⟨fun _ _ _ => true, fun _ => some [0xEE]⟩
      [0xD8, 0x6B, 0xA2, 0x02, 0x49, 0x82, 0x44, 0x82, 0x2F, 0x41, 0xEE, 0x42, 0xD2, 0x00,
        0x03, 0x41, 0xA0] "key" digestBstr blocks manifestBstr :=
  (suitAuthenticateEnvelope_iff _ _ "key" (by decide)).1.mp (by decide +kernel)

end TeepDevice.Suit
