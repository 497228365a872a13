import TeepDevice.BigEndian
import TeepDevice.Memory
import TeepDevice.Tcbor.Primitive

/-! ECDSA signatures of COSE over Mbed TLS: `t_cose_crypto_sign` and
`t_cose_crypto_verify`. What t_cose and Mbed TLS do is a parameter; the two
functions only choose the arguments and lay out the numbers of a signature. -/
namespace TeepDevice.Cose

/-- `t_cose_err_t`, as far as it is returned here. -/
inductive TCoseErr where
  | success | unsupportedSigningAlg | incorrectKeyForLib | emptyKey | sigFail | sigVerify
  | insufficientMemory
deriving DecidableEq, Repr

inductive CryptoLib where
  | unidentified | openssl | psa
deriving DecidableEq, Repr

/-- `mbedtls_md_type_t`: no other hash is asked for. -/
inductive MdType where
  | sha256
deriving DecidableEq, Repr

structure EcpKeypair (Group Point : Type) where
  grp : Group
  d : Nat
  q : Point

/-- `struct t_cose_key`, whose pointer may be null. -/
structure TCoseKey (Group Point : Type) where
  cryptoLib : CryptoLib
  keyPtr : Option (EcpKeypair Group Point)

/-- The algorithms' numbers in COSE. -/
def algorithmEs256 : Int := -7
def algorithmEs384 : Int := -35
def algorithmEs512 : Int := -36

/-- What the functions call: `none` and `false` are results other than zero. -/
structure Library (Group Point : Type) where
  algorithmIsEcdsa : Int → Bool
  hasEs384 : Bool
  hasEs512 : Bool
  modulus : Group → Nat
  publicKey : Group → Nat → Point
  mpiSize : Nat → Nat
  mpiWriteBinary : Nat → Nat → Option Bytes
  mpiReadBinary : Bytes → Option Nat
  ecdsaSignDet : Group → Nat → Bytes → MdType → Option (Nat × Nat)
  ecdsaVerify : Group → Bytes → Point → Nat → Nat → Bool

/-- What is relied on: a signature verifies under the public key, and numbers
are written in a fixed width and read back. -/
structure Library.Lawful {Group Point : Type} (lib : Library Group Point) : Prop where
  signed {grp d hash mdType r s} (made : lib.ecdsaSignDet grp d hash mdType = some (r, s)) :
    lib.ecdsaVerify grp hash (lib.publicKey grp d) r s = true
  written {n size bytes} : lib.mpiWriteBinary n size = some bytes ↔
    n < 256 ^ size ∧ bytes = BigEndian.encode size n
  inverse {n size bytes} (written : lib.mpiWriteBinary n size = some bytes) :
    lib.mpiReadBinary bytes = some n

section Functions
variable {Group Point : Type} (lib : Library Group Point)

/-- A modulus has at most `MBEDTLS_MPI_MAX_SIZE` bytes, so that no `unsigned`
wraps around. -/
def keyConvertAndSize (key : TCoseKey Group Point) :
    Except TCoseErr (EcpKeypair Group Point × Nat) :=
  if key.cryptoLib ≠ .unidentified then .error .incorrectKeyForLib
  else
    match key.keyPtr with
    | none => .error .emptyKey
    | some keypair => .ok (keypair, lib.mpiSize (lib.modulus keypair.grp))

/-- The `switch` of `t_cose_crypto_sign`. -/
def signMdType (algorithmId : Int) : Option MdType :=
  if algorithmId = algorithmEs256 then some .sha256
  else if lib.hasEs384 && algorithmId = algorithmEs384 then some .sha256
  else if lib.hasEs512 && algorithmId = algorithmEs512 then some .sha256
  else none

/-- `mbedtls_mpi_write_binary` to a place in a buffer. A store outside of it
fails here; the callers have checked the length. -/
def writeBinary (buffer : Bytes) (at_ n size : Nat) : Option Bytes :=
  (lib.mpiWriteBinary n size).bind (Memory.write buffer at_)

/-- A return value, what is in the buffer, and `*signature` if it was set. -/
structure Signed where
  returnValue : TCoseErr
  signatureBuffer : Bytes
  signature : Option Bytes
deriving DecidableEq, Repr

def tCoseCryptoSign (algorithmId : Int) (signingKey : TCoseKey Group Point)
    (hash buffer : Bytes) : Signed :=
  if lib.algorithmIsEcdsa algorithmId = false then ⟨.unsupportedSigningAlg, buffer, none⟩
  else
    match signMdType lib algorithmId with
    | none => ⟨.unsupportedSigningAlg, buffer, none⟩
    | some mdType =>
      match keyConvertAndSize lib signingKey with
      | .error e => ⟨e, buffer, none⟩
      | .ok (keypair, keySize) =>
        match lib.ecdsaSignDet keypair.grp keypair.d hash mdType with
        | none => ⟨.sigFail, buffer, none⟩
        | some (r, _) =>
          if buffer.length < keySize * 2 then ⟨.sigFail, buffer, none⟩
          else
            match writeBinary lib buffer 0 r keySize with
            | none => ⟨.sigFail, buffer, none⟩
            | some buffer =>
              -- the second call writes `r` again, not `s`
              match writeBinary lib buffer keySize r keySize with
              | none => ⟨.sigFail, buffer, none⟩
              | some buffer => ⟨.success, buffer, some (buffer.take (keySize * 2))⟩

def tCoseCryptoVerify (algorithmId : Int) (verificationKey : TCoseKey Group Point)
    (_kid hash signature : Bytes) : TCoseErr :=
  if lib.algorithmIsEcdsa algorithmId = false then .unsupportedSigningAlg
  else
    match keyConvertAndSize lib verificationKey with
    | .error e => e
    | .ok (keypair, keySize) =>
      if signature.length ≠ keySize * 2 then .sigVerify
      else
        match lib.mpiReadBinary (signature.take keySize) with
        | none => .insufficientMemory
        | some r =>
          match lib.mpiReadBinary ((signature.drop keySize).take keySize) with
          | none => .insufficientMemory
          | some s =>
            if lib.ecdsaVerify keypair.grp hash keypair.q r s then .success else .sigVerify

/-- The signature is `r` and then `s`, each in as many bytes as the key, and it
verifies. -/
structure Verifies (algorithmId : Int) (key : TCoseKey Group Point) (hash signature : Bytes) :
    Prop where
  halves : ∃ mdType keypair keySize r s, signMdType lib algorithmId = some mdType ∧
    keyConvertAndSize lib key = .ok (keypair, keySize) ∧
    lib.ecdsaSignDet keypair.grp keypair.d hash mdType = some (r, s) ∧
    r < 256 ^ keySize ∧ s < 256 ^ keySize ∧ signature.length = 2 * keySize ∧
    signature = BigEndian.encode keySize r ++ BigEndian.encode keySize s
  accepted : ∀ kid, tCoseCryptoVerify lib algorithmId key kid hash signature = .success

/-- What a call of `t_cose_crypto_sign` has to come to. -/
def SignThenVerify (algorithmId : Int) (key : TCoseKey Group Point) (hash buffer : Bytes) : Prop :=
  (tCoseCryptoSign lib algorithmId key hash buffer).returnValue = .success →
    ∃ signature, (tCoseCryptoSign lib algorithmId key hash buffer).signature = some signature ∧
      Verifies lib algorithmId key hash signature

/-- The call gets as far as two numbers, and `r` has a place in the buffer. -/
structure Reaches (algorithmId : Int) (key : TCoseKey Group Point) (hash buffer : Bytes)
    (keypair : EcpKeypair Group Point) (keySize r s : Nat) : Prop where
  ecdsa : lib.algorithmIsEcdsa algorithmId = true
  numbers : ∃ mdType, signMdType lib algorithmId = some mdType ∧
    lib.ecdsaSignDet keypair.grp keypair.d hash mdType = some (r, s)
  key : keyConvertAndSize lib key = .ok (keypair, keySize)
  room : keySize * 2 ≤ buffer.length
  fits : r < 256 ^ keySize

end Functions

section Results
variable {Group Point : Type} {lib : Library Group Point} {algorithmId : Int}
  {key : TCoseKey Group Point} {hash buffer : Bytes}
  {keypair : EcpKeypair Group Point} {keySize r s : Nat}

theorem keyConvertAndSize_eq (converted : keyConvertAndSize lib key = .ok (keypair, keySize)) :
    key.keyPtr = some keypair := by
  unfold keyConvertAndSize at converted
  split at converted
  · cases converted
  · split at converted
    · cases converted
    · rename_i pointer
      cases converted
      exact pointer

/-- A number that fits is stored in front of the rest. -/
theorem writeBinary_behind (lawful : lib.Lawful) {n size : Nat} (fits : n < 256 ^ size)
    (written rest : Bytes) (room : size ≤ rest.length) :
    writeBinary lib (written ++ rest) written.length n size =
      some (written ++ (BigEndian.encode size n ++ rest.drop size)) := by
  have stored : lib.mpiWriteBinary n size = some (BigEndian.encode size n) :=
    lawful.written.mpr ⟨fits, rfl⟩
  have placed := Memory.write_behind written rest (BigEndian.encode size n)
  rw [BigEndian.encode_length] at placed
  rw [writeBinary, stored, Option.bind_some, placed room]

/-- Both halves of the signature are `r`. -/
theorem sign_reaches (lawful : lib.Lawful)
    (reaches : Reaches lib algorithmId key hash buffer keypair keySize r s) :
    tCoseCryptoSign lib algorithmId key hash buffer =
      ⟨.success, BigEndian.encode keySize r ++ (BigEndian.encode keySize r ++
        buffer.drop (keySize * 2)),
        some (BigEndian.encode keySize r ++ BigEndian.encode keySize r)⟩ := by
  obtain ⟨ecdsa, ⟨mdType, chosen, made⟩, converted, room, fits⟩ := reaches
  have first := writeBinary_behind lawful fits [] buffer (by omega)
  have second := writeBinary_behind lawful fits (BigEndian.encode keySize r) (buffer.drop keySize)
    (by rw [List.length_drop]; omega)
  rw [List.drop_drop, ← Nat.mul_two, BigEndian.encode_length] at second
  simp only [List.nil_append, List.length_nil] at first
  have both : (BigEndian.encode keySize r ++ BigEndian.encode keySize r).length = keySize * 2 := by
    rw [List.length_append, BigEndian.encode_length, Nat.mul_two]
  have front : List.take (keySize * 2) (BigEndian.encode keySize r ++
      (BigEndian.encode keySize r ++ buffer.drop (keySize * 2))) =
        BigEndian.encode keySize r ++ BigEndian.encode keySize r := by
    rw [← List.append_assoc, ← both, List.take_left]
  simp only [tCoseCryptoSign, ecdsa, chosen, converted, made, first, second, front,
    if_neg (Nat.not_lt.mpr room), Bool.true_eq_false, if_false]

theorem reaches_of_sign (lawful : lib.Lawful)
    (signed : (tCoseCryptoSign lib algorithmId key hash buffer).returnValue = .success) :
    ∃ keypair keySize r s, Reaches lib algorithmId key hash buffer keypair keySize r s := by
  unfold tCoseCryptoSign at signed
  split at signed
  · cases signed
  rename_i ecdsa
  split at signed
  · cases signed
  rename_i mdType chosen
  split at signed
  · rename_i e converted
    rw [show e = .success from signed] at converted
    unfold keyConvertAndSize at converted
    split at converted
    · cases converted
    · split at converted <;> cases converted
  rename_i keypair keySize converted
  split at signed
  · cases signed
  rename_i r s made
  split at signed
  · cases signed
  rename_i room
  split at signed
  · cases signed
  rename_i buffer₁ first
  obtain ⟨bytes, stored, -⟩ := Option.bind_eq_some_iff.mp first
  exact ⟨keypair, keySize, r, s, (Bool.not_eq_false _).mp ecdsa, ⟨mdType, chosen, made⟩,
    converted, Nat.not_lt.mp room, (lawful.written.mp stored).1⟩

/-- A signature of two numbers is judged by them. -/
theorem verify_halves (lawful : lib.Lawful) (ecdsa : lib.algorithmIsEcdsa algorithmId = true)
    (converted : keyConvertAndSize lib key = .ok (keypair, keySize))
    (first : r < 256 ^ keySize) (second : s < 256 ^ keySize) (kid : Bytes) :
    tCoseCryptoVerify lib algorithmId key kid hash
        (BigEndian.encode keySize r ++ BigEndian.encode keySize s) =
      if lib.ecdsaVerify keypair.grp hash keypair.q r s then .success else .sigVerify := by
  have length : (BigEndian.encode keySize r ++ BigEndian.encode keySize s).length =
      keySize * 2 := by
    rw [List.length_append, BigEndian.encode_length, BigEndian.encode_length, Nat.mul_two]
  have half (n : Nat) : (BigEndian.encode keySize n).length = keySize :=
    BigEndian.encode_length keySize n
  have readR : lib.mpiReadBinary (BigEndian.encode keySize r) = some r :=
    lawful.inverse (lawful.written.mpr ⟨first, rfl⟩)
  have readS : lib.mpiReadBinary (BigEndian.encode keySize s) = some s :=
    lawful.inverse (lawful.written.mpr ⟨second, rfl⟩)
  simp only [tCoseCryptoVerify, ecdsa, converted, length, List.take_left' (half r),
    List.drop_left' (half r), List.take_of_length_le (Nat.le_of_eq (half s)), readR, readS,
    ne_eq, not_true_eq_false, Bool.true_eq_false, if_false]

/-- Equal halves are what is written. -/
theorem sign_verify_of_agree (lawful : lib.Lawful)
    (pair : ∀ keypair, key.keyPtr = some keypair →
      keypair.q = lib.publicKey keypair.grp keypair.d)
    (agree : ∀ keypair keySize r s,
      Reaches lib algorithmId key hash buffer keypair keySize r s → r = s) :
    SignThenVerify lib algorithmId key hash buffer := by
  intro signed
  obtain ⟨keypair, keySize, r, s, reaches⟩ := reaches_of_sign lawful signed
  cases agree keypair keySize r s reaches
  rw [sign_reaches lawful reaches]
  obtain ⟨ecdsa, ⟨mdType, chosen, made⟩, converted, -, fits⟩ := reaches
  refine ⟨_, rfl,
    ⟨mdType, keypair, keySize, r, r, chosen, converted, made, fits, fits, ?_, rfl⟩, ?_⟩
  · rw [List.length_append, BigEndian.encode_length, Nat.two_mul]
  · intro kid
    have verified := lawful.signed made
    rw [← pair keypair (keyConvertAndSize_eq converted)] at verified
    rw [verify_halves lawful ecdsa converted fits fits, verified, if_pos rfl]

/-- A signature in the right format has `s` in its second half. -/
theorem agree_of_sign_verify (lawful : lib.Lawful)
    (verifies : SignThenVerify lib algorithmId key hash buffer)
    (reaches : Reaches lib algorithmId key hash buffer keypair keySize r s) : r = s := by
  unfold SignThenVerify at verifies
  rw [sign_reaches lawful reaches] at verifies
  obtain ⟨signature, set, halves, -⟩ := verifies rfl
  cases set
  obtain ⟨ecdsa, ⟨mdType, chosen, made⟩, converted, -, fits⟩ := reaches
  obtain ⟨mdType', keypair', keySize', r', s', chosen', converted', made', fits', fits₂, -,
    format⟩ := halves
  cases chosen.symm.trans chosen'
  cases converted.symm.trans converted'
  cases made.symm.trans made'
  have same := List.append_cancel_left format
  rw [← BigEndian.decode_encode_of_lt fits, same, BigEndian.decode_encode_of_lt fits₂]

/-- A signature is right exactly when its two numbers are equal, wherever the
function gets as far as writing them. -/
theorem sign_then_verify_iff (lawful : lib.Lawful)
    (pair : ∀ keypair, key.keyPtr = some keypair →
      keypair.q = lib.publicKey keypair.grp keypair.d) :
    SignThenVerify lib algorithmId key hash buffer ↔
      ∀ keypair keySize r s,
        Reaches lib algorithmId key hash buffer keypair keySize r s → r = s := by
  constructor
  · intro verifies keypair keySize r s reaches
    exact agree_of_sign_verify lawful verifies reaches
  · exact sign_verify_of_agree lawful pair

end Results

section Example

/-- The prime of P-256, the key of the test `SuitTest.sign_verify`, the hash that is
signed there, and the deterministic signature of it. -/
def p256 : Nat := 0xFFFFFFFF00000001000000000000000000000000FFFFFFFFFFFFFFFFFFFFFFFF

def testKeypair : EcpKeypair Nat (Nat × Nat) where
  grp := p256
  d := 0x42CA70F3E064598CE538BB6988D434906B8EF3BF77B862DA69E5B8D37C5D7E61
  q := (0xC4C26649E57E64C49B71C7EEEFEA3F1ACC3E2214DCAFDB4CF4C44D77EA67561E,
    0x261EB328CD68D669616431DA4E10766948A2D3A21D54B0861781FF8FA0FB6233)

def testKey : TCoseKey Nat (Nat × Nat) := ⟨.unidentified, some testKeypair⟩

def testHash : Bytes := (List.range 32).map UInt8.ofNat

def testR : Nat := 0xEB78C15ADBD05481E9F0841575C336DC2C4F76F21E5B1F164A4AA3FF59C459EA

def testS : Nat := 0xD157631058647E316EB6ADCED8857786C4DFFEB92283DFC05EC8170861484103

/-- The library on this key and this hash. -/
def testLibrary : Library Nat (Nat × Nat) where
  algorithmIsEcdsa id := id = algorithmEs256 || id = algorithmEs384 || id = algorithmEs512
  hasEs384 := true
  hasEs512 := true
  modulus grp := grp
  publicKey _ _ := testKeypair.q
  mpiSize n := if n = 0 then 0 else n.log2 / 8 + 1
  mpiWriteBinary n size := if n < 256 ^ size then some (BigEndian.encode size n) else none
  mpiReadBinary bytes := some (BigEndian.decode bytes)
  ecdsaSignDet grp d hash _ :=
    if grp = p256 ∧ d = testKeypair.d ∧ hash = testHash then some (testR, testS) else none
  ecdsaVerify grp hash q r s :=
    grp = p256 ∧ hash = testHash ∧ q = testKeypair.q ∧ r = testR ∧ s = testS

theorem testLibrary_lawful : testLibrary.Lawful where
  signed {grp d hash mdType r s} made := by
    simp only [testLibrary] at made ⊢
    split at made
    · rename_i input
      obtain ⟨sameR, sameS⟩ := Prod.mk.inj (Option.some.inj made)
      exact decide_eq_true ⟨input.1, input.2.2, trivial, sameR.symm, sameS.symm⟩
    · cases made
  written {n size bytes} := by
    simp only [testLibrary]
    split
    · rename_i fits
      exact ⟨fun made => ⟨fits, (Option.some.inj made).symm⟩, fun made => congrArg some made.2.symm⟩
    · rename_i tooLong
      exact ⟨nofun, fun made => absurd made.1 tooLong⟩
  inverse {n size bytes} written := by
    simp only [testLibrary] at written ⊢
    split at written
    · rename_i fits
      cases written
      rw [BigEndian.decode_encode_of_lt fits]
    · cases written

theorem testKey_pair (keypair : EcpKeypair Nat (Nat × Nat))
    (pointer : testKey.keyPtr = some keypair) :
    keypair.q = testLibrary.publicKey keypair.grp keypair.d := by
  cases pointer
  rfl

/-- At the test's key and hash. -/
theorem sign_then_verify_p256 :
    SignThenVerify testLibrary algorithmEs256 testKey testHash (List.replicate 64 0) ↔
      ∀ keypair keySize r s, Reaches testLibrary algorithmEs256 testKey testHash
        (List.replicate 64 0) keypair keySize r s → r = s :=
  sign_then_verify_iff testLibrary_lawful testKey_pair

/-- The signature of the test's hash has `r` in both halves, and it is refused. -/
theorem signature_refused :
    testLibrary.Lawful ∧ testKeypair.q = testLibrary.publicKey testKeypair.grp testKeypair.d ∧
      ∃ signature, signature = BigEndian.encode 32 testR ++ BigEndian.encode 32 testR ∧
        tCoseCryptoSign testLibrary algorithmEs256 testKey testHash (List.replicate 64 0) =
          ⟨.success, signature, some signature⟩ ∧
        (∀ kid, tCoseCryptoVerify testLibrary algorithmEs256 testKey kid testHash signature =
          .sigVerify) ∧
        ¬ SignThenVerify testLibrary algorithmEs256 testKey testHash (List.replicate 64 0) := by
  have size : testLibrary.mpiSize p256 = 32 := by decide +kernel
  have converted : keyConvertAndSize testLibrary testKey = .ok (testKeypair, 32) :=
    congrArg (fun size => Except.ok (testKeypair, size)) size
  have reaches : Reaches testLibrary algorithmEs256 testKey testHash (List.replicate 64 0)
      testKeypair 32 testR testS :=
    ⟨by decide +kernel, ⟨.sha256, by decide +kernel, by decide +kernel⟩, converted,
      by decide +kernel, by decide +kernel⟩
  have signed := sign_reaches testLibrary_lawful reaches
  refine ⟨testLibrary_lawful, rfl, _, rfl, signed, fun kid => ?_, fun verifies => ?_⟩
  · rw [verify_halves testLibrary_lawful reaches.ecdsa reaches.key reaches.fits reaches.fits]
    decide +kernel
  · have agree := agree_of_sign_verify testLibrary_lawful verifies reaches
    exact absurd agree (by decide +kernel)

end Example

end TeepDevice.Cose
