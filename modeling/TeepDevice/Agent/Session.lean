import TeepDevice.Agent.Store
import TeepDevice.Teep.Encoder

/-! The TEEP agent (teep-agent-ta.c): its session, the handling of replies and
downloads, and the tasks it hands to the broker. What the C code leaves
undefined ends a run with a `Fault`. -/
namespace TeepDevice.Agent
open Tcbor Suit Teep

inductive AgentState where
  | init | postingInitialRequest | postingQueryResponse | postingSuccess | postingError
  | initRunner | runSuitRunner | fetchComponent | finish
  deriving DecidableEq, Repr

inductive BrokerCommand where
  | httpPost | httpGet | finish
  deriving DecidableEq, Repr

def teepMaxUriLen : Nat := 512
def teepMaxMessageLen : Nat := 2048

/-- `struct broker_task`; the two arrays keep whatever was in them. -/
structure BrokerTask where
  command : BrokerCommand
  uri : Bytes
  postData : Bytes
  postDataLen : Nat
  deriving DecidableEq, Repr

/-- `id` is the string in the 128-byte field, without its terminator. -/
structure ManifestRequest where
  requested : Bool
  unneeded : Bool
  id : Bytes
  deriving DecidableEq, Repr

/-- `struct suit_manifest_storage`: no pointer yet, a live copy, or a pointer to
memory that was freed when the next allocation failed. -/
inductive Slot where
  | null
  | stored (envelope : Bytes)
  | dangling
  deriving DecidableEq, Repr

/-- `struct teep_agent_session`; `requests` holds the first `n_requests` entries. -/
structure Session where
  state : AgentState
  tamUri : Bytes
  onGoingTask : Bool
  taskBuffer : BrokerTask
  token : Option Bytes
  requests : List ManifestRequest
  dataItemRequested : Nat
  suitContext : SuitContext
  suitRunner : Runner AgentUser Unit

/-- A reply that was parsed, or a message built for the TAM with its length if
it was encoded. -/
inductive Event where
  | received (message : Option Message)
  | posted (type : MessageType) (ops : List EncodeOp) (length : Option Nat)
  deriving DecidableEq, Repr

/-- A TA instance with its session, the global manifest slots, the number of
allocations made and what passed between agent and TAM (history only). -/
structure Ta where
  session : Session
  suitManifests : Nat → Slot
  allocations : Nat
  history : List Event

inductive Fault where
  | nullManifest | uriOverflow | doubleFree | useAfterFree | nullCopy | overRead | outOfFuel
  deriving DecidableEq, Repr

/-- Everything outside the agent's own code that it depends on. -/
structure Platform where
  qcbor : Qcbor
  crypto : Crypto
  malloc : Malloc
  installTa : InstallTa
  beyond : Beyond
  wild : Digest → Range
  frames : Frames
  ownStrncpy : Bool

def tcSingerPubkey : String :=
  "-----BEGIN PUBLIC KEY-----\n" ++
  "MFkwEwYHKoZIzj0CAQYIKoZIzj0DAQcDQgAExMJmSeV+ZMSbccfu7+o/Gsw+IhTc\n" ++
  "r9tM9MRNd+pnVh4mHrMozWjWaWFkMdpOEHZpSKLToh1UsIYXgf+PoPtiMw==\n" ++
  "-----END PUBLIC KEY-----\n"

abbrev teeSuccess : Nat := 0
abbrev teeErrorBadFormat : Nat := 0xFFFF0005
abbrev teeErrorBadParameters : Nat := 0xFFFF0006
abbrev teeErrorBadState : Nat := 0xFFFF0007
abbrev teeErrorNotImplemented : Nat := 0xFFFF0009

/-- `teep_agent_session_create` on memory with the given contents. -/
def sessionCreate (memory : Session) : Session :=
  { memory with
    state := .init
    onGoingTask := false
    token := none
    requests := []
    suitContext := suitContextInit }

/-- A fresh TA instance with one session and no history. -/
def Ta.start (memory : Session) : Ta :=
  let session := sessionCreate memory
  let user := { session.suitRunner.effects.user with stores := [] }
  let effects := { session.suitRunner.effects with user := user }
  let suitRunner := { session.suitRunner with effects := effects }
  ⟨{ session with suitRunner := suitRunner }, fun _ => .null, 0, []⟩

/-- `strncpy` as called here, with `n` one less than the size of the field: the
C library's, or the one of tools.c, which terminates instead of padding. -/
def strncpy (own : Bool) (dst src : Bytes) (n : Nat) : Bytes :=
  let copied := (src.take n).takeWhile (· ≠ 0)
  if own then
    let written := if copied.length < n then copied ++ [0] else copied
    (written ++ dst.drop written.length).set n 0
  else copied ++ List.replicate (n - copied.length) 0 ++ dst.drop n

section Session
variable (p : Platform)

def Ta.setState (ta : Ta) (state : AgentState) : Ta :=
  { ta with session := { ta.session with state := state } }

def Ta.record (ta : Ta) (event : Event) : Ta := { ta with history := ta.history ++ [event] }

def teepError (ta : Ta) : Ta := ta.setState .postingError

/-- The entries of a TA list whose number of commas is known. -/
def splitTaList : Nat → Bytes → List ManifestRequest
  | 0, _ => []
  | n + 1, s =>
    let (requested, unneeded, s) :=
      match s with
      | 0x2B :: s => (true, false, s)
      | 0x2D :: s => (false, true, s)
      | s => (false, false, s)
    ⟨requested, unneeded, (s.takeWhile (· ≠ 0x2C)).take 127⟩ ::
      splitTaList n ((s.dropWhile (· ≠ 0x2C)).drop 1)

/-- `set_dev_option` for a value without its terminator. -/
def setDevOption (ta : Ta) (option : Nat) (value : Bytes) : Ta × Nat :=
  if ta.session.state ≠ .init then (ta, teeErrorBadState)
  else if option = 0 then
    if teepMaxUriLen < value.length + 1 then (ta, teeErrorBadParameters)
    else
      ({ ta with session := { ta.session with
          tamUri := strncpy p.ownStrncpy ta.session.tamUri (value ++ [0]) (teepMaxUriLen - 1) } },
        teeSuccess)
  else if option = 1 then
    if value = [] then (ta, teeSuccess)
    else if 16 < value.count 0x2C + 1 then (ta, teeErrorBadParameters)
    else
      ({ ta with session := { ta.session with
          requests := splitTaList (value.count 0x2C + 1) value } }, teeSuccess)
  else (ta, teeErrorBadParameters)

def storeBstr (ta : Ta) (index : Nat) (buf : Bytes) : Except Fault (Bool × Ta) :=
  let put (slot : Slot) : Ta :=
    { ta with
      suitManifests := fun i => if i = index then slot else ta.suitManifests i
      allocations := ta.allocations + 1 }
  match ta.suitManifests index with
  | .dangling => .error .doubleFree
  | slot =>
    if p.malloc ta.allocations buf.length then .ok (true, put (.stored buf))
    else .ok (false, put (if slot = .null then .null else .dangling))

def storeSuitEnvelope (ta : Ta) (index : Nat) (envelope : Bytes) : Except Fault (Bool × Ta) :=
  if index < 2 then
    if suitAuthenticateEnvelope p.crypto envelope tcSingerPubkey then storeBstr p ta index envelope
    else .ok (false, ta)
  else .ok (false, ta)

/-- The first loop over the manifest list. -/
def storeSuitEnvelopes : Nat → List Bytes → Ta → Except Fault (Bool × Ta)
  | _, [], ta => .ok (true, ta)
  | index, envelope :: rest, ta =>
    match storeSuitEnvelope p ta index envelope with
    | .error fault => .error fault
    | .ok (false, ta) => .ok (false, ta)
    | .ok (true, ta) => storeSuitEnvelopes (index + 1) rest ta

/-- The second loop, from the slot below `count` down. -/
def addStoredEnvelopes (slots : Nat → Slot) : Nat → SuitContext → Except Fault (Bool × SuitContext)
  | 0, context => .ok (true, context)
  | count + 1, context =>
    match slots count with
    | .dangling => .error .useAfterFree
    | .null =>
      match suitContextAddEnvelope context none with
      | (false, context) => .ok (false, context)
      | (true, context) => addStoredEnvelopes slots count context
    | .stored envelope =>
      match suitContextAddEnvelope context (some envelope) with
      | (false, context) => .ok (false, context)
      | (true, context) => addStoredEnvelopes slots count context

/-- The case `TEEP_QUERY_REQUEST`. The token is copied without looking at the
result of `malloc`. -/
def handleQueryRequest (ta : Ta) (m : Message) : Except Fault Ta :=
  if ta.session.state ≠ .postingInitialRequest then .ok (teepError ta)
  else
    let token := m.token.getD []
    let accept (copy : Option Bytes) : Ta :=
      { ta with
        session := { ta.session with
          state := .postingQueryResponse
          token := copy
          dataItemRequested := m.dataItemRequested }
        allocations := ta.allocations + 1 }
    if p.malloc ta.allocations token.length then .ok (accept (some token))
    else if token = [] then .ok (accept none)
    else .error .nullCopy

/-- The case `TEEP_UPDATE`. -/
def handleUpdate (ta : Ta) (m : Message) : Except Fault Ta :=
  if ta.session.state ≠ .postingQueryResponse then .ok (teepError ta)
  else
    let manifestList := m.manifestList.getD []
    match storeSuitEnvelopes p 0 manifestList ta with
    | .error fault => .error fault
    | .ok (false, ta) => .ok ta
    | .ok (true, ta) =>
      match addStoredEnvelopes ta.suitManifests manifestList.length ta.session.suitContext with
      | .error fault => .error fault
      | .ok (added, context) =>
        let ta := { ta with session := { ta.session with suitContext := context } }
        if added then .ok (ta.setState .initRunner) else .ok (teepError ta)

def handleTamMessage (ta : Ta) (buffer : Bytes) : Except Fault (Ta × Nat) :=
  if buffer = [] then .ok (ta.setState .finish, teeSuccess)
  else if ta.session.state = .postingError then .ok (ta.setState .finish, teeErrorBadFormat)
  else
    let (message, allocations) := parseTeepMessage p.qcbor p.malloc ta.allocations buffer
    let ta := { ta.record (.received message) with allocations := allocations }
    match message with
    | none => .ok (teepError ta, teeErrorBadFormat)
    | some m =>
      let handled : Except Fault Ta :=
        match m.type with
        | .queryResponse | .success | .error => .ok (teepError ta)
        | .queryRequest => handleQueryRequest p ta m
        | .update => handleUpdate p ta m
      match handled with
      | .error fault => .error fault
      | .ok ta => .ok (ta, teeSuccess)

def handleComponentDownload (ta : Ta) (buffer : Bytes) : Ta × Nat :=
  if ta.session.state ≠ .fetchComponent then (teepError ta, teeErrorBadState)
  else
    let runner := ta.session.suitRunner
    let user := runner.effects.user
    let stored := (storeComponent p.installTa user user.fetchComponentPath buffer).2
    let runner := { runner with effects := { runner.effects with user := stored } }
    ({ ta with session := { ta.session with
        state := .runSuitRunner
        suitRunner := suitRunnerResume (suitCallbacks p.beyond p.installTa) runner } },
      teeSuccess)

def Ta.clearTask (ta : Ta) : Ta := { ta with session := { ta.session with onGoingTask := false } }

def brokerTaskDone (ta : Ta) (buffer : Bytes) : Except Fault (Ta × Nat) :=
  if !ta.session.onGoingTask then .ok (ta, teeErrorBadState)
  else
    match ta.session.taskBuffer.command with
    | .finish => .ok (ta, teeErrorBadState)
    | .httpPost =>
      match handleTamMessage p ta buffer with
      | .error fault => .error fault
      | .ok (ta, ret) => .ok (ta.clearTask, ret)
    | .httpGet =>
      match handleComponentDownload p ta buffer with
      | (ta, ret) => .ok (ta.clearTask, ret)

/-- `items & flag`, for a flag of one bit. -/
def hasItem (items bit : Nat) : Bool := items.testBit bit

def queryResponseOps (session : Session) : List EncodeOp :=
  let enc := addToken (openOptions (addHeader messageEncoderInit .queryResponse)) session.token
  let items := session.dataItemRequested
  let add (enc : MessageEncoder) (use : ManifestRequest → Bool)
      (put : MessageEncoder → Bytes → MessageEncoder) : MessageEncoder :=
    session.requests.foldl (fun enc m => if use m then put enc m.id else enc) enc
  let enc :=
    if hasItem items 0 then enc
    else if hasItem items 1 then
      let enc := closeTcList (add (openTcList enc) (fun m => !m.requested && !m.unneeded)
        addTcToTcList)
      let enc := closeRequestedTcList (add (openRequestedTcList enc) ManifestRequest.requested
        addTcToRequestedTcList)
      closeUnneededTcList (add (openUnneededTcList enc) ManifestRequest.unneeded
        addTcToUnneededTcList)
    else enc
  messageEncoderFinish (closeOptions enc)

def successOps (session : Session) : List EncodeOp :=
  messageEncoderFinish (closeOptions (addToken (openOptions (addHeader messageEncoderInit .success))
    session.token))

def errorOps (session : Session) : List EncodeOp :=
  messageEncoderFinish (addErrCode (closeOptions (addToken (openOptions (addHeader
    messageEncoderInit .error)) session.token)) 42)

/-- The task of a POST, before its data. -/
def postTask (session : Session) : BrokerTask :=
  { session.taskBuffer with
    command := .httpPost
    uri := strncpy p.ownStrncpy session.taskBuffer.uri session.tamUri (teepMaxUriLen - 1) }

def Ta.setTask (ta : Ta) (task : BrokerTask) : Ta :=
  { ta with session := { ta.session with onGoingTask := true, taskBuffer := task } }

/-- A message is built into the task; if that fails the length stays that of the
whole buffer. -/
def postMessage (ta : Ta) (type : MessageType) (ops : List EncodeOp) : Ta :=
  let task := postTask p ta.session
  let (buffer, length) := p.qcbor.encode ops task.postData
  (ta.setTask { task with
    postData := buffer, postDataLen := length.getD teepMaxMessageLen }).record
      (.posted type ops length)

/-- One pass of the loop of `query_next_broker_task`. -/
def queryBody (fuel : Nat) (ta : Ta) : Ta ⊕ Except Fault Ta :=
  match ta.session.state with
  | .init => .inl (ta.setState .postingInitialRequest)
  | .postingInitialRequest =>
    .inr (.ok (ta.setTask { postTask p ta.session with postDataLen := 0 }))
  | .postingQueryResponse =>
    .inr (.ok (postMessage p ta .queryResponse (queryResponseOps ta.session)))
  | .postingSuccess => .inr (.ok (postMessage p ta .success (successOps ta.session)))
  | .postingError => .inr (.ok (postMessage p ta .error (errorOps ta.session)))
  | .initRunner =>
    match suitRunnerInit p.wild ta.session.suitContext .install
        ta.session.suitRunner.effects.user with
    | none => .inr (.error .nullManifest)
    | some runner =>
      .inl { ta with session := { ta.session with state := .runSuitRunner, suitRunner := runner } }
  | .runSuitRunner =>
    match suitRunnerRun (suitCallbacks p.beyond p.installTa) p.frames fuel
        ta.session.suitRunner with
    | none => .inr (.error .outOfFuel)
    | some runner =>
      let ta := { ta with session := { ta.session with suitRunner := runner } }
      if suitRunnerFinished runner then .inl (ta.setState .postingSuccess)
      else if suitRunnerSuspended runner then .inl (ta.setState .fetchComponent)
      else .inl (teepError ta)
  | .fetchComponent =>
    let uri := ta.session.suitRunner.effects.user.fetchUri.getD []
    if teepMaxUriLen < uri.length then .inr (.error .uriOverflow)
    else
      .inr (.ok (ta.setTask { ta.session.taskBuffer with
        command := .httpGet
        uri := uri ++ List.replicate (teepMaxUriLen - uri.length) 0
        postDataLen := 0 }))
  | .finish =>
    .inr (.ok (ta.setTask { ta.session.taskBuffer with
      command := .finish
      uri := ta.session.taskBuffer.uri.set 0 0
      postDataLen := 0 }))

/-- How many passes a state is away from a task. -/
def AgentState.passes : AgentState → Nat
  | .initRunner => 2
  | .init | .runSuitRunner => 1
  | _ => 0

theorem queryBody_decreasing (fuel : Nat) :
    Loop.Decreasing (queryBody p fuel) (fun ta => ta.session.state.passes) := by
  intro ta ta' h
  dsimp only
  unfold queryBody at h
  split at h
  · rename_i state
    cases h
    rw [state]
    exact Nat.zero_lt_one
  · cases h
  · cases h
  · cases h
  · cases h
  · rename_i state
    split at h
    · cases h
    · cases h
      rw [state]
      exact Nat.one_lt_two
  · rename_i state
    rw [state]
    split at h
    · cases h
    · dsimp only at h
      split at h
      · cases h
        exact Nat.zero_lt_one
      · split at h
        · cases h
          exact Nat.zero_lt_one
        · cases h
          exact Nat.zero_lt_one
  · dsimp only at h
    split at h
    · cases h
    · cases h
  · cases h

def queryNextBrokerTask (fuel : Nat) (ta : Ta) : Except Fault Ta :=
  if ta.session.onGoingTask then .ok ta
  else Loop.eval (queryBody p fuel) _ (queryBody_decreasing p fuel) ta

end Session

/-- The commands of `TA_InvokeCommandEntryPoint`; a query comes with the sizes
of the two output buffers. -/
inductive Command where
  | setDevOption (option : Nat) (value : Bytes)
  | brokerTaskDone (buffer : Bytes)
  | queryNextBrokerTask (uriSize postDataSize : Nat)
  | other (id : Nat)
  deriving DecidableEq, Repr

/-- The return value and, where a task was copied out, the task. -/
structure Response where
  result : Nat
  task : Option (BrokerCommand × Bytes × Bytes)
  deriving DecidableEq, Repr

/-- The string that starts at `uri`; it may run on into `post_data`. -/
def taskString (task : BrokerTask) : Option Bytes :=
  if 0 ∈ task.uri ++ task.postData then some ((task.uri ++ task.postData).takeWhile (· ≠ 0))
  else none

def copyoutTask (task : BrokerTask) (uriSize postDataSize : Nat) : Except Fault Response :=
  match taskString task with
  | none => .error .overRead
  | some uri =>
    if uriSize < uri.length + 1 then .ok ⟨teeErrorBadParameters, none⟩
    else if postDataSize < task.postDataLen then .ok ⟨teeErrorBadParameters, none⟩
    else .ok ⟨teeSuccess, some (task.command, uri ++ [0], task.postData.take task.postDataLen)⟩

/-- `TA_InvokeCommandEntryPoint`. The fuel bounds the passes of one run of the
SUIT runner. -/
def invokeCommand (p : Platform) (fuel : Nat) (ta : Ta) : Command → Except Fault (Ta × Response)
  | .setDevOption option value =>
    match value.getLast? with
    | none => .error .overRead
    | some last =>
      if last ≠ 0 then .ok (ta, ⟨teeErrorBadParameters, none⟩)
      else
        match setDevOption p ta option (value.takeWhile (· ≠ 0)) with
        | (ta, result) => .ok (ta, ⟨result, none⟩)
  | .brokerTaskDone buffer =>
    match brokerTaskDone p ta buffer with
    | .error fault => .error fault
    | .ok (ta, result) => .ok (ta, ⟨result, none⟩)
  | .queryNextBrokerTask uriSize postDataSize =>
    match queryNextBrokerTask p fuel ta with
    | .error fault => .error fault
    | .ok ta =>
      match copyoutTask ta.session.taskBuffer uriSize postDataSize with
      | .error fault => .error fault
      | .ok response => .ok (ta, response)
  | .other _ => .ok (ta, ⟨teeErrorNotImplemented, none⟩)

end TeepDevice.Agent
