import TeepDevice.Memory
import TeepDevice.Suit.Authentication
import TeepDevice.Tcbor.Heads

/-! The head that `verify_digest` stores in `buf` before it hashes the manifest.
It is the shortest head of a byte string of that length. -/
namespace TeepDevice.Suit
open Tcbor

/-- The loop of `verify_digest` that counts `i` down to zero. -/
def storeArgument (len : Nat) : Nat → Bytes × Nat → Option (Bytes × Nat)
  | 0, buffer => some buffer
  | i + 1, (buf, n) =>
    (Memory.write buf n [UInt8.ofNat (len >>> (i * 8) &&& 0xFF)]).bind fun buf =>
      storeArgument len i (buf, n + 1)

/-- `buf[n++] |= bits`, where `buf[n]` was just set to `0x40`. -/
def storeHead (buf : Bytes) (bits : Nat) : Option (Bytes × Nat) :=
  (Memory.write buf 0 [0x40]).bind fun buf =>
    (Memory.write buf 0 [buf.headD 0 ||| UInt8.ofNat bits]).map fun buf => (buf, 1)

/-- The buffer of `verify_digest` and the number of bytes stored in it. -/
def storeDigestHead (buf : Bytes) (len : Nat) : Option (Bytes × Nat) :=
  if len < 24 then storeHead buf len
  else
    let k :=
      if len < 0x100 then 0 else if len < 0x10000 then 1 else if len < 0x100000000 then 2 else 3
    (storeHead buf (24 + k)).bind (storeArgument len (1 <<< k))

/-- The bytes that are hashed: `buf[0..n)` and the manifest. -/
def hashedBytes (buf manifest : Bytes) : Option Bytes :=
  (storeDigestHead buf manifest.length).map fun (buf, n) => buf.take n ++ manifest

section Store
variable {buf done rest manifest : Bytes} {len : Nat}

theorem shifted_byte (len i : Nat) :
    UInt8.ofNat (len >>> (i * 8) &&& 0xFF) = UInt8.ofNat (len / 256 ^ i % 256) := by
  have low : len / 256 ^ i &&& 2 ^ 8 - 1 = len / 256 ^ i % 2 ^ 8 :=
    Nat.and_two_pow_sub_one_eq_mod _ 8
  rw [Nat.shiftRight_eq_div_pow, Nat.mul_comm, Nat.pow_mul]
  exact congrArg UInt8.ofNat low

theorem storeArgument_behind (len i : Nat) (done rest : Bytes) (room : i ≤ rest.length) :
    storeArgument len i (done ++ rest, done.length) =
      some (done ++ (BigEndian.encode i len ++ rest.drop i), done.length + i) := by
  induction i generalizing done rest with
  | zero => rfl
  | succ i ih =>
    have stored := Memory.write_behind done rest [UInt8.ofNat (len >>> (i * 8) &&& 0xFF)]
      (Nat.le_trans (Nat.le_add_left 1 i) room)
    have next := ih (done ++ [UInt8.ofNat (len >>> (i * 8) &&& 0xFF)]) (rest.drop 1) (by
      rw [List.length_drop]
      omega)
    rw [storeArgument, stored, Option.bind_some, ← List.append_assoc]
    rw [List.length_append, List.length_singleton, List.drop_drop] at next
    rw [List.length_singleton, next, BigEndian.encode, shifted_byte]
    simp only [List.append_assoc, List.nil_append, List.cons_append, Nat.add_assoc,
      Nat.add_comm 1 i]

theorem head_bits :
    ∀ bits < 28, (0x40 : UInt8) ||| UInt8.ofNat bits = UInt8.ofNat (0x40 + bits) := by
  decide

theorem storeHead_eq {bits : Nat} (small : bits < 28) (room : 1 ≤ buf.length) :
    storeHead buf bits = some ([UInt8.ofNat (0x40 + bits)] ++ buf.drop 1, 1) := by
  have first := Memory.write_behind [] buf [(0x40 : UInt8)] room
  have again := Memory.write_behind [] ([0x40] ++ buf.drop 1) [UInt8.ofNat (0x40 + bits)]
    (Nat.le_add_left 1 _)
  rw [List.nil_append, List.nil_append, List.length_nil, List.length_singleton] at first again
  rw [storeHead, first, Option.bind_some, List.singleton_append, List.headD_cons,
    head_bits bits small, ← List.singleton_append, again]
  rfl

/-- What is stored is the head of a byte string of the shortest width. -/
theorem storeDigestHead_eq (nine : buf.length = 9) (len : Nat) :
    storeDigestHead buf len =
      some (UInt8.ofNat (0x40 + (Width.shortest len).additional len) ::
        ((Width.shortest len).argumentBytes len ++
          buf.drop (1 + ((Width.shortest len).argumentBytes len).length)),
        1 + ((Width.shortest len).argumentBytes len).length) := by
  have some' : 1 ≤ buf.length := by omega
  unfold storeDigestHead Width.shortest
  split
  · rename_i short
    rw [storeHead_eq (Nat.lt_trans short (by decide)) some']
    rfl
  · generalize index : (if len < 0x100 then 0 else if len < 0x10000 then 1
      else if len < 0x100000000 then 2 else 3 : Fin 4) = k
    have value : (if len < 0x100 then 0 else if len < 0x10000 then 1
        else if len < 0x100000000 then 2 else 3 : Nat) = k.val := by
      rw [← index]
      repeat' split
      all_goals rfl
    have eight : 2 ^ k.val ≤ 2 ^ 3 := Nat.pow_le_pow_right (by decide) (by omega)
    have room : 2 ^ k.val ≤ (buf.drop 1).length := by
      rw [List.length_drop]
      omega
    have stored := storeArgument_behind len (2 ^ k.val) [UInt8.ofNat (0x40 + (24 + k.val))]
      (buf.drop 1) room
    rw [List.length_singleton, List.drop_drop] at stored
    dsimp only
    rw [value, storeHead_eq (by omega) some', Option.bind_some, Nat.one_shiftLeft, stored]
    simp only [Width.additional, Width.argumentBytes, BigEndian.encode_length,
      List.singleton_append]

theorem encode_range (n len : Nat) :
    (List.range n).reverse.map (fun i => UInt8.ofNat (len / 256 ^ i % 256)) =
      BigEndian.encode n len := by
  induction n with
  | zero => rfl
  | succ n ih =>
    rw [List.range_succ, List.reverse_append, List.map_append, ih]
    rfl

theorem digestHead_shortest (len : Nat) :
    digestHead len = UInt8.ofNat (0x40 + (Width.shortest len).additional len) ::
      (Width.shortest len).argumentBytes len := by
  unfold digestHead Width.shortest
  split
  · rfl
  · dsimp only
    repeat' split
    all_goals
      rw [encode_range]
      rfl

end Store

section Canonical
variable {buf manifest : Bytes}

/-- The byte string as a head of the shortest width. -/
def bstrHead (manifest : Bytes) (fits : manifest.length < 2 ^ 64) : DefiniteHead :=
  .bstr (.shortest manifest.length) manifest (Width.shortest_fits fits)

/-- The bytes are read as this byte string, and no others that are read as it
are fewer. -/
structure CanonicalBstr (hashed manifest : Bytes) : Prop where
  decodes : ∃ any, primitiveReadAny hashed = .ok (any, []) ∧ any.isBstr = true ∧
    any.bytes = manifest
  shortest : ∀ other any rest, primitiveReadAny other = .ok (any, rest) → any.isBstr = true →
    any.bytes = manifest → hashed.length + rest.length ≤ other.length

theorem bstrHead_canonical (fits : manifest.length < 2 ^ 64) :
    CanonicalBstr (bstrHead manifest fits).encoding manifest := by
  constructor
  · have read := primitiveReadAny_encoding (bstrHead manifest fits) []
    rw [List.append_nil] at read
    exact ⟨_, read, beq_iff_eq.mpr (bstrHead manifest fits).header_majorType, rfl⟩
  · intro other any rest read isBstr content
    have decoded := (primitiveReadAny_decodes).1 other
    rw [read] at decoded
    obtain ⟨-, -, ⟨head, rfl, rfl⟩, -⟩ := decoded
    have major : head.majorType = 2 := by
      have same : head.header.toNat / 32 = 2 := beq_iff_eq.mp isBstr
      rw [head.header_majorType] at same
      exact Fin.ext same
    have content : head.content = manifest := content
    have argument := head.announced
    rw [if_pos (.inl major), content] at argument
    have least := Width.shortest_least head.fits
    rw [← argument] at least
    simp only [DefiniteHead.encoding, bstrHead, DefiniteHead.bstr, List.length_cons,
      List.length_append, content, ← argument]
    omega

theorem CanonicalBstr.injective {hashed manifest' : Bytes} (first : CanonicalBstr hashed manifest)
    (second : CanonicalBstr hashed manifest') : manifest' = manifest := by
  obtain ⟨any, read, -, content⟩ := first.decodes
  obtain ⟨any', read', -, content'⟩ := second.decodes
  obtain ⟨rfl, -⟩ := Prod.mk.inj (Except.ok.inj (read.symm.trans read'))
  exact content'.symm.trans content

theorem storeDigestHead_fits (nine : buf.length = 9) (len : Nat) :
    ∃ after n, storeDigestHead buf len = some (after, n) ∧ n ≤ 9 ∧ after.length = 9 ∧
      after.take n = digestHead len := by
  refine ⟨_, _, storeDigestHead_eq nine len, ?_⟩
  have eight : ((Width.shortest len).argumentBytes len).length ≤ 8 := by
    rw [Width.length_argumentBytes]
    split
    · exact Nat.zero_le 8
    · rename_i k _
      exact Nat.pow_le_pow_right Nat.two_pos (Nat.le_of_lt_succ k.isLt)
  refine ⟨by omega, ?_, ?_⟩
  · simp only [List.length_cons, List.length_append, List.length_drop]
    omega
  · rw [digestHead_shortest, Nat.add_comm 1, List.take_succ_cons, List.take_left]

theorem hashedBytes_encoding (nine : buf.length = 9) (fits : manifest.length < 2 ^ 64) :
    hashedBytes buf manifest = some (bstrHead manifest fits).encoding := by
  obtain ⟨after, n, stored, -, -, head⟩ := storeDigestHead_fits nine manifest.length
  have same : digestHead manifest.length ++ manifest = (bstrHead manifest fits).encoding := by
    rw [digestHead_shortest]
    rfl
  rw [hashedBytes, stored, ← same, ← head]
  rfl

end Canonical

/-- What `verify_digest` hashes is the shortest encoding of the manifest as a
byte string, its head never overruns `buf`, and no other manifest has it. -/
theorem hashedBytes_canonical {buf manifest : Bytes} (nine : buf.length = 9)
    (fits : manifest.length < 2 ^ 64) :
    ∃ after n hashed, storeDigestHead buf manifest.length = some (after, n) ∧ n ≤ 9 ∧
      hashedBytes buf manifest = some hashed ∧ hashed = after.take n ++ manifest ∧
      hashed = digestHead manifest.length ++ manifest ∧ CanonicalBstr hashed manifest ∧
      ∀ buf' manifest' : Bytes, buf'.length = 9 → manifest'.length < 2 ^ 64 →
        hashedBytes buf' manifest' = some hashed → manifest' = manifest := by
  obtain ⟨after, n, stored, small, -, head⟩ := storeDigestHead_fits nine manifest.length
  have encoding := hashedBytes_encoding nine fits
  have split : hashedBytes buf manifest = some (after.take n ++ manifest) := by
    rw [hashedBytes, stored]
    rfl
  have same := Option.some.inj (encoding.symm.trans split)
  refine ⟨after, n, _, stored, small, encoding, same, head ▸ same, bstrHead_canonical fits, ?_⟩
  intro buf' manifest' nine' fits' equal
  have encoding' := hashedBytes_encoding nine' fits'
  have canonical := bstrHead_canonical fits'
  rw [Option.some.inj (encoding'.symm.trans equal)] at canonical
  exact (bstrHead_canonical fits).injective canonical

/-- The first length whose head has an argument byte. -/
theorem hashedBytes_canonical_24 :
    ∃ after n hashed, storeDigestHead (List.replicate 9 0xFF) 24 = some (after, n) ∧ n ≤ 9 ∧
      hashedBytes (List.replicate 9 0xFF) (List.replicate 24 0xAA) = some hashed ∧
      hashed = after.take n ++ List.replicate 24 0xAA ∧
      hashed = digestHead 24 ++ List.replicate 24 0xAA ∧
      CanonicalBstr hashed (List.replicate 24 0xAA) ∧
      ∀ buf' manifest' : Bytes, buf'.length = 9 → manifest'.length < 2 ^ 64 →
        hashedBytes buf' manifest' = some hashed → manifest' = List.replicate 24 0xAA :=
  @hashedBytes_canonical (List.replicate 9 0xFF) (List.replicate 24 0xAA) (by decide) (by decide)

end TeepDevice.Suit
