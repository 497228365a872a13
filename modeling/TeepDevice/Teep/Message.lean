import TeepDevice.Loop
import TeepDevice.Teep.Qcbor

/-! TEEP messages and their parser (libteep.h, libteep.c). Every allocation may
fail; the parser counts them so that an oracle can tell which ones do. -/
namespace TeepDevice.Teep

inductive MessageType where
  | queryRequest | queryResponse | update | success | error
  deriving DecidableEq, Repr

def MessageType.code : MessageType → Int
  | .queryRequest => 1
  | .queryResponse => 2
  | .update => 3
  | .success => 5
  | .error => 6

def messageTypeOf (v : Int) : Option MessageType :=
  [.queryRequest, .queryResponse, .update, .success, .error].find? fun type => type.code == v

namespace OptionKey

abbrev supportedCipherSuits : Int := 1
abbrev challenge : Int := 2
abbrev versions : Int := 3
abbrev ocspData : Int := 4
abbrev selectedCipherSuit : Int := 5
abbrev selectedVersion : Int := 6
abbrev evidence : Int := 7
abbrev tcList : Int := 8
abbrev extList : Int := 9
abbrev manifestList : Int := 10
abbrev msg : Int := 11
abbrev errMsg : Int := 12
abbrev evidenceFormat : Int := 13
abbrev requestedTcList : Int := 14
abbrev unneededTcList : Int := 15
abbrev componentId : Int := 16
abbrev tcManifestSequenceNumber : Int := 17
abbrev haveBinary : Int := 18
abbrev suitReports : Int := 19
abbrev token : Int := 20
abbrev supportedFreshnessMechanisms : Int := 21

end OptionKey

structure TcInfo where
  componentId : Option Bytes
  tcManifestSequenceNumber : Option Nat
  haveBinary : Option Nat
  deriving DecidableEq, Repr

/-- `struct teep_message`, the arms of its union side by side under one name
where two arms share a field; an option that was not read is `none`. -/
structure Message where
  type : MessageType
  token : Option Bytes
  supportedCipherSuits : Option (List Nat)
  supportedFreshnessMechanisms : Option (List Nat)
  versions : Option (List Nat)
  challenge : Option Bytes
  ocspData : Option Bytes
  dataItemRequested : Nat
  selectedCipherSuit : Option Nat
  selectedVersion : Option Nat
  evidenceFormat : Option Bytes
  evidence : Option Bytes
  tcList : Option (List TcInfo)
  requestedTcList : Option (List TcInfo)
  unneededTcList : Option (List Bytes)
  extList : Option (List Nat)
  manifestList : Option (List Bytes)
  msg : Option Bytes
  errMsg : Option Bytes
  suitReports : Option (List Bytes)
  errCode : Int
  deriving DecidableEq, Repr

/-- A message after `memset`. -/
def Message.zero (type : MessageType) : Message where
  type := type
  token := none
  supportedCipherSuits := none
  supportedFreshnessMechanisms := none
  versions := none
  challenge := none
  ocspData := none
  dataItemRequested := 0
  selectedCipherSuit := none
  selectedVersion := none
  evidenceFormat := none
  evidence := none
  tcList := none
  requestedTcList := none
  unneededTcList := none
  extList := none
  manifestList := none
  msg := none
  errMsg := none
  suitReports := none
  errCode := 0

/-- Whether the allocation with this number and size succeeds. -/
abbrev Malloc := Nat → Nat → Bool

/-- A parser step over the decoder and the number of allocations so far; the
number survives a failure. -/
abbrev Parse (q : Qcbor) := OptionT (StateM (q.Decoder × Nat))

section Parser
variable {q : Qcbor} (malloc : Malloc)

def getNext : Parse q QcborItem := do
  let (d, allocations) ← get
  set ((q.getNext d).2, allocations)
  return (q.getNext d).1

def tell : Parse q Nat := do
  let (d, _) ← get
  return q.tell d

def allocate (size : Nat) : Parse q Unit := do
  let (d, allocations) ← get
  set (d, allocations + 1)
  guard (malloc allocations size)

def times {α : Type} (step : Parse q α) : Nat → Parse q (List α)
  | 0 => return []
  | n + 1 => do
    let x ← step
    let xs ← times step n
    return x :: xs

def parseUint32 (item : QcborItem) : Parse q Nat :=
  match item.value with
  | .int64 v =>
    match q.int64ToUInt32 v with
    | some n => return n
    | none => failure
  | _ => failure

def parseUint32Array (option : QcborItem) : Parse q (List Nat) :=
  match option.value with
  | .array len => do
    allocate malloc (len * 4)
    times (do parseUint32 (← getNext)) len
  | _ => failure

def parseUint32Option (option : QcborItem) : Parse q Nat := parseUint32 option

def parseString (binary : Bool) (item : QcborItem) : Parse q Bytes :=
  match item.value, binary with
  | .byteString b, true => return b
  | .textString b, false => return b
  | _, _ => failure

def parseBufferArray (option : QcborItem) (binary : Bool) : Parse q (List Bytes) :=
  match option.value with
  | .array len => do
    allocate malloc (len * 16)
    times (do parseString binary (← getNext)) len
  | _ => failure

/-- `QCBORDecode_Slice`. -/
def slice (cbor : Bytes) (start stop : Nat) : Bytes := (cbor.take stop).drop start

/-- `teep_parse_component_id` for an item that was read at `offset`. -/
def teepParseComponentId (cbor : Bytes) (offset : Nat) (componentId : QcborItem) : Parse q Bytes :=
  match componentId.value with
  | .array len => do
    let _ ← times (do
      match (← getNext).value with
      | .byteString _ | .textString _ => return ()
      | _ => failure) len
    return slice cbor offset (← tell)
  | _ => failure

/-- One entry of a map of `parse_tc_info_array`. The case of `have-binary` has
no `break`: it ends in the default, which fails. -/
def parseTcInfoEntry (cbor : Bytes) (requested : Bool) (info : TcInfo) : Parse q TcInfo := do
  let offset ← tell
  let item ← getNext
  match item.label with
  | none => failure
  | some label =>
    if label = OptionKey.componentId then
      return { info with componentId := some (← teepParseComponentId cbor offset item) }
    else if label = OptionKey.tcManifestSequenceNumber then
      return { info with tcManifestSequenceNumber := some (← parseUint32Option item) }
    else if label = OptionKey.haveBinary then
      if !requested then failure
      else
        let _ ← parseUint32Option item
        failure
    else failure

def parseTcInfoEntries (cbor : Bytes) (requested : Bool) : Nat → TcInfo → Parse q TcInfo
  | 0, info => return info
  | n + 1, info => do parseTcInfoEntries cbor requested n (← parseTcInfoEntry cbor requested info)

def parseTcInfoArray (cbor : Bytes) (option : QcborItem) (requested : Bool) :
    Parse q (List TcInfo) :=
  match option.value with
  | .array len => do
    allocate malloc (len * 32)
    times (do
      match (← getNext).value with
      | .map count => parseTcInfoEntries cbor requested count ⟨none, none, none⟩
      | _ => failure) len
  | _ => failure

def parseComponentIdArray (cbor : Bytes) (option : QcborItem) : Parse q (List Bytes) :=
  match option.value with
  | .array len => do
    allocate malloc (len * 16)
    times (do
      let offset ← tell
      teepParseComponentId cbor offset (← getNext)) len
  | _ => failure

/-- One pass of the loop that skips a nested option. -/
def skipBody (nestLevel : Nat) : Nat × q.Decoder → (Nat × q.Decoder) ⊕ (Bool × q.Decoder)
  | (level, d) =>
    if level = nestLevel then .inr (true, d)
    else if (q.getNext d).1.value = .none then .inr (false, (q.getNext d).2)
    else .inl ((q.getNext d).1.nextNestLevel, (q.getNext d).2)

theorem skipBody_decreasing (nestLevel : Nat) :
    Loop.Decreasing (skipBody (q := q) nestLevel) (fun st => q.remaining st.2) := by
  rintro ⟨level, d⟩ ⟨level', d'⟩ h
  simp only [skipBody] at h
  split at h
  · cases h
  · split at h
    · cases h
    · rename_i read
      cases h
      exact q.consumes d read

/-- The default case of `parse_option`. -/
def skipOption (nestLevel : Nat) (option : QcborItem) : Parse q Unit := do
  let (d, allocations) ← get
  let (ok, d) := Loop.eval (skipBody nestLevel) _ (skipBody_decreasing nestLevel)
    (option.nextNestLevel, d)
  set (d, allocations)
  guard ok

/-- The cases of `parse_option` that hold for the message types in `types`; a
message of another type skips the option. -/
def parseFor (types : List MessageType) (m : Message) (nestLevel : Nat) (option : QcborItem)
    (parse : Parse q Message) : Parse q Message :=
  if m.type ∈ types then parse
  else do
    skipOption nestLevel option
    return m

def parseOption (cbor : Bytes) (m : Message) (option : QcborItem) (nestLevel : Nat) :
    Parse q Message :=
  match option.label with
  | none => failure
  | some label =>
    if label = OptionKey.supportedCipherSuits then
      parseFor [.queryRequest, .error] m nestLevel option do
        return { m with supportedCipherSuits := some (← parseUint32Array malloc option) }
    else if label = OptionKey.challenge then
      parseFor [.queryRequest] m nestLevel option do
        return { m with challenge := some (← parseString true option) }
    else if label = OptionKey.ocspData then
      parseFor [.queryRequest] m nestLevel option do
        return { m with ocspData := some (← parseString true option) }
    else if label = OptionKey.versions then
      parseFor [.queryRequest, .error] m nestLevel option do
        return { m with versions := some (← parseUint32Array malloc option) }
    else if label = OptionKey.selectedCipherSuit then
      parseFor [.queryResponse] m nestLevel option do
        return { m with selectedCipherSuit := some (← parseUint32Option option) }
    else if label = OptionKey.selectedVersion then
      parseFor [.queryResponse] m nestLevel option do
        return { m with selectedVersion := some (← parseUint32Option option) }
    else if label = OptionKey.evidenceFormat then
      parseFor [.queryResponse] m nestLevel option do
        return { m with evidenceFormat := some (← parseString false option) }
    else if label = OptionKey.evidence then
      parseFor [.queryResponse] m nestLevel option do
        return { m with evidence := some (← parseString true option) }
    else if label = OptionKey.tcList then
      parseFor [.queryResponse] m nestLevel option do
        return { m with tcList := some (← parseTcInfoArray malloc cbor option false) }
    else if label = OptionKey.requestedTcList then
      parseFor [.queryResponse] m nestLevel option do
        return { m with requestedTcList := some (← parseTcInfoArray malloc cbor option true) }
    else if label = OptionKey.unneededTcList then
      parseFor [.queryResponse] m nestLevel option do
        return { m with unneededTcList := some (← parseComponentIdArray malloc cbor option) }
    else if label = OptionKey.extList then
      parseFor [.queryResponse] m nestLevel option do
        return { m with extList := some (← parseUint32Array malloc option) }
    else if label = OptionKey.manifestList then
      parseFor [.update] m nestLevel option do
        return { m with manifestList := some (← parseBufferArray malloc option true) }
    else if label = OptionKey.msg then
      parseFor [.success] m nestLevel option do
        return { m with msg := some (← parseString false option) }
    else if label = OptionKey.errMsg then
      parseFor [.error] m nestLevel option do
        return { m with errMsg := some (← parseString false option) }
    else if label = OptionKey.suitReports then
      parseFor [.success, .error] m nestLevel option do
        return { m with suitReports := some (← parseBufferArray malloc option true) }
    else if label = OptionKey.token then do
      return { m with token := some (← parseString true option) }
    else if label = OptionKey.supportedFreshnessMechanisms then
      parseFor [.queryRequest, .error] m nestLevel option do
        return { m with supportedFreshnessMechanisms := some (← parseUint32Array malloc option) }
    else do
      skipOption nestLevel option
      return m

def parseOptionsLoop (cbor : Bytes) (nestLevel : Nat) : Nat → Message → Parse q Message
  | 0, m => return m
  | n + 1, m => do
    let option ← getNext
    parseOptionsLoop cbor nestLevel n (← parseOption malloc cbor m option nestLevel)

def parseOptions (cbor : Bytes) (m : Message) : Parse q Message := do
  let options ← getNext
  match options.value with
  | .map count => parseOptionsLoop malloc cbor options.nextNestLevel count m
  | _ => failure

/-- The value after the options that two message types have. -/
def parseTail (m : Message) : Parse q Message :=
  match m.type with
  | .queryRequest => do
    match (← getNext).value with
    | .int64 v => return { m with dataItemRequested := (v % 2 ^ 64).toNat }
    | _ => failure
  | .error => do
    match (← getNext).value with
    | .int64 v => return { m with errCode := v }
    | _ => failure
  | _ => return m

def parseMessage (cbor : Bytes) : Parse q Message := do
  match (← getNext).value with
  | .array _ =>
    match (← getNext).value with
    | .int64 v =>
      match messageTypeOf v with
      | none => failure
      | some type =>
        allocate malloc 168
        let m ← parseTail (← parseOptions malloc cbor (.zero type))
        let (d, _) ← get
        guard (q.finish d)
        return m
    | _ => failure
  | _ => failure

/-- `parse_teep_message`, with the number of allocations before and after. -/
def parseTeepMessage (q : Qcbor) (malloc : Malloc) (allocations : Nat) (cbor : Bytes) :
    Option Message × Nat :=
  let (m, _, allocations) := (parseMessage (q := q) malloc cbor).run (q.init cbor, allocations)
  (m, allocations)

end Parser

end TeepDevice.Teep
