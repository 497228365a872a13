import TeepDevice.Suit.Manifest

/-! Envelope fields, authentication and the manifest context (suit-parser.c,
suit-context.c). Signature verification and SHA-256 are parameters. -/
namespace TeepDevice.Suit
open Tcbor

/-- What mbedtls and t_cose answer: the detached COSE_Sign1 check of an
authentication block under a PEM key, and the digest unless a call fails. -/
structure Crypto where
  verifyDetached : String → Bytes → Bytes → Bool
  sha256 : Bytes → Option Bytes

def cborTagCoseSign1 : Nat := 18
def envelopeTag : Nat := 107
def digestAlgSha256 : Int := -16

/-- State of the loop of `suit_envelope_get_field`: the map and the last value. -/
def getFieldBody (useTstr : Bool) (key : Nat) (keyTstr : Range) :
    Context × Range → (Context × Range) ⊕ Option Range
  | (map, field) =>
    if isEndOfContext map then .inr (some field)
    else
      match readAny map with
      | (none, _) => .inr none
      | (some k, map) =>
        if k.isTag then .inr none
        else if (k.isUint && !useTstr && k.value == key) ||
            (k.isTstr && useTstr && some k.bytes == keyTstr) then
          match readBstr map with
          | (none, _) => .inr none
          | (some value, map) => .inl (map, some value)
        else
          match skip map 1 with
          | (false, _) => .inr none
          | (true, map) => .inl (map, field)

theorem getFieldBody_decreasing (useTstr : Bool) (key : Nat) (keyTstr : Range) :
    Loop.Decreasing (getFieldBody useTstr key keyTstr) (fun st => st.1.r.length) := by
  rintro ⟨map, field⟩ ⟨map', field'⟩ h
  simp only [getFieldBody] at h
  split at h
  · cases h
  · split at h
    · cases h
    · rename_i k rest read
      have shorter := readAny_length read
      split at h
      · cases h
      · split at h
        · split at h
          · cases h
          · rename_i value
            cases h
            exact Nat.lt_trans (readMatching_length value) shorter
        · split at h
          · cases h
          · rename_i passed
            cases h
            exact Nat.lt_of_le_of_lt (skip_length passed) shorter

def fieldLabel (key : Nat) : Bool :=
  key == Label.delegation || key == Label.authenticationWrapper || key == Label.manifest ||
  key == Label.dependencyResolution || key == Label.payloadFetch || key == Label.install ||
  key == Label.text || key == Label.coswid

/-- `suit_envelope_get_field`: `none` for false, `some none` for a null range. -/
def suitEnvelopeGetField (envelopeBstr : Range) (useTstr : Bool) (key : Nat) (keyTstr : Range) :
    Option Range :=
  if !useTstr && !fieldLabel key then none
  else
    match readTag (toplevel envelopeBstr) with
    | (none, _) => none
    | (some tag, ctx) =>
      if tag ≠ envelopeTag then none
      else
        match readMap ctx with
        | (none, _) => none
        | (some map, _) =>
          Loop.eval (getFieldBody useTstr key keyTstr) _
            (getFieldBody_decreasing useTstr key keyTstr) (map, none)

def suitEnvelopeGetFieldByName (envelopeBstr keyTstr : Range) : Option Range :=
  suitEnvelopeGetField envelopeBstr true Label.delegation keyTstr

def suitEnvelopeGetFieldByKey (envelopeBstr : Range) (key : Nat) : Option Range :=
  suitEnvelopeGetField envelopeBstr false key none

def verifyAuthBlock (crypto : Crypto) (authBlock digestBstr : Bytes) (keyPem : String) : Bool :=
  match readTag (toplevel (some authBlock)) with
  | (none, _) => false
  | (some tag, _) =>
    if tag = cborTagCoseSign1 then crypto.verifyDetached keyPem authBlock digestBstr else false

/-- The `buf[0..n)` of `verify_digest`: a byte-string head for `len` bytes. -/
def digestHead (len : Nat) : Bytes :=
  if len < 24 then [UInt8.ofNat (0x40 + len)]
  else
    let k :=
      if len < 0x100 then 0 else if len < 0x10000 then 1 else if len < 0x100000000 then 2 else 3
    UInt8.ofNat (0x40 + 24 + k) ::
      (List.range (2 ^ k)).reverse.map fun i => UInt8.ofNat (len / 256 ^ i % 256)

def verifyDigest (crypto : Crypto) (digestBstr : Bytes) (manifestBstr : Range) : Bool :=
  match readDigest (toplevel (some digestBstr)) ⟨0, none⟩ with
  | (true, _, some digest) =>
    if digest.algorithmId = digestAlgSha256 then
      match crypto.sha256 (digestHead (manifestBstr.getD []).length ++ manifestBstr.getD []) with
      | none => false
      | some manifestDigest => digest.bytes == some manifestDigest
    else false
  | _ => false

/-- The loop of `suit_authenticate_envelope` over the authentication blocks. -/
def authBlocksBody (crypto : Crypto) (digestBstr : Bytes) (keyPem : String) :
    Context × Bool → (Context × Bool) ⊕ Option (Context × Bool)
  | (array, authenticated) =>
    if isEndOfContext array then .inr (some (array, authenticated))
    else
      match readBstr array with
      | (none, _) => .inr none
      | (some authBlock, array) =>
        if verifyAuthBlock crypto authBlock digestBstr keyPem then .inl (array, true)
        else .inr none

theorem authBlocksBody_decreasing (crypto : Crypto) (digestBstr : Bytes) (keyPem : String) :
    Loop.Decreasing (authBlocksBody crypto digestBstr keyPem) (fun st => st.1.r.length) := by
  rintro ⟨array, authenticated⟩ ⟨array', authenticated'⟩ h
  simp only [authBlocksBody] at h
  split at h
  · cases h
  · split at h
    · cases h
    · rename_i read
      split at h
      · cases h
        exact readMatching_length read
      · cases h

def suitAuthenticateEnvelope (crypto : Crypto) (envelopeBstr : Bytes) (keyPem : String) : Bool :=
  match suitEnvelopeGetFieldByKey (some envelopeBstr) Label.authenticationWrapper with
  | none => false
  | some wrapper =>
    match readArray (toplevel wrapper) with
    | (none, _) => false
    | (some array, ctx) =>
      match readBstr array with
      | (none, _) => false
      | (some digestBstr, array) =>
        match Loop.eval (authBlocksBody crypto digestBstr keyPem) _
            (authBlocksBody_decreasing crypto digestBstr keyPem) (array, false) with
        | none => false
        | some (array, authenticated) =>
          (close ctx array).1 && authenticated &&
            match suitEnvelopeGetFieldByKey (some envelopeBstr) Label.manifest with
            | none => false
            | some manifestBstr => verifyDigest crypto digestBstr manifestBstr

/-- `suit_envelope_get_manifest`, into a result with earlier contents. -/
def suitEnvelopeGetManifest (envelopeBstr : Range) (ret : Manifest) : Bool × Manifest :=
  match suitEnvelopeGetFieldByKey envelopeBstr Label.manifest with
  | none => (false, ret)
  | some manifestBstr =>
    match suitManifestParse manifestBstr ret with
    | (false, m) => (false, m)
    | (true, m) => (true, { m with envelopeBstr := envelopeBstr })

def manifestMax : Nat := 8

/-- `suit_context_t`; a slot keeps what an earlier parse left in it. -/
structure SuitContext where
  nManifest : Nat
  manifests : Nat → Manifest

def suitContextInit : SuitContext := ⟨0, fun _ => .zero⟩

def SuitContext.write (p : SuitContext) (i : Nat) (m : Manifest) : SuitContext :=
  { p with manifests := fun j => if j = i then m else p.manifests j }

def suitContextAddEnvelope (p : SuitContext) (envelopeBstr : Range) : Bool × SuitContext :=
  if p.nManifest = manifestMax then (false, p)
  else
    match suitEnvelopeGetManifest envelopeBstr (p.manifests p.nManifest) with
    | (false, m) => (false, p.write p.nManifest m)
    | (true, m) => (true, { p.write p.nManifest m with nManifest := p.nManifest + 1 })

def suitContextGetRootManifest (p : SuitContext) : Option Manifest :=
  if p.nManifest = 0 then none else some (p.manifests 0)

end TeepDevice.Suit
