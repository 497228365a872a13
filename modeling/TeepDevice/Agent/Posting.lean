import Mathlib.Algebra.GroupWithZero.Nat
import TeepDevice.Agent.Authenticated
import TeepDevice.Agent.Messages

/-! What is in the task of a POST. A message that does not fit the buffer of the
task leaves the size of the buffer as its length. -/
namespace TeepDevice.Agent
open Tcbor Suit Teep Transition

variable {p : Platform}

section Sizes

/-- The size of a head with this argument. -/
def headSize (n : Nat) : Nat :=
  if n < 24 then 1
  else if n < 2 ^ 8 then 2
  else if n < 2 ^ 16 then 3
  else if n < 2 ^ 32 then 5
  else 9

def stringSize (n : Nat) : Nat := headSize n + n

def tokenSize : Option Bytes → Nat
  | none => 0
  | some token => 1 + stringSize token.length

/-- A list of ids, each with so many bytes in front. -/
def listSize (entry : Nat) (ids : List Bytes) : Nat :=
  1 + headSize ids.length + (ids.map fun id => entry + stringSize id.length).sum

def messageSize (session : Session) : MessageType → Nat
  | .queryResponse => 3 + tokenSize session.token +
    if hasItem session.dataItemRequested 0 then 0
    else if hasItem session.dataItemRequested 1 then
      listSize 0 (idsOf ManifestRequest.installed session.requests) +
        listSize 3 (idsOf ManifestRequest.requested session.requests) +
        listSize 1 (idsOf ManifestRequest.unneeded session.requests)
    else 0
  | .success => 3 + tokenSize session.token
  | _ => 5 + tokenSize session.token

@[simp] theorem referenceHead_length (major n : Nat) :
    (referenceHead major n).length = headSize n := by
  unfold referenceHead headSize
  repeat' split
  all_goals rfl

@[simp] theorem textNode_length (s : Bytes) :
    (textNode s).encoding.length = stringSize s.length := by
  simp [textNode, Node.encoding, Node.encodings, stringSize]

@[simp] theorem bytesNode_length (label : Option Int) (b : Bytes) :
    (bytesNode label b).encoding.length = (labelBytes label).length + stringSize b.length := by
  simp [bytesNode, Node.encoding, Node.encodings, stringSize]

@[simp] theorem arrayNode_length (label : Option Int) (children : List Node) :
    (arrayNode label children).encoding.length =
      (labelBytes label).length + headSize children.length + (Node.encodings children).length := by
  simp [arrayNode, Node.encoding, Nat.add_assoc]

@[simp] theorem mapNode_length (label : Option Int) (children : List Node) :
    (mapNode label children).encoding.length =
      (labelBytes label).length + headSize children.length + (Node.encodings children).length := by
  simp [mapNode, Node.encoding, Nat.add_assoc]

@[simp] theorem encodings_length (nodes : List Node) :
    (Node.encodings nodes).length = (nodes.map fun node => node.encoding.length).sum := by
  induction nodes with
  | nil => rfl
  | cons node nodes ih => simp [Node.encodings, ih]

/-- The message of a type, as a data item. -/
def messageNode (session : Session) : MessageType → Node
  | .queryResponse => messageTree .queryResponse (queryResponseNodes session) []
  | .success => messageTree .success (tokenNodes session.token) []
  | _ => messageTree .error (tokenNodes session.token) [intNode 42]

theorem treeOf_messageOps (session : Session) (type : MessageType) :
    treeOf (messageOps session type) = some (messageNode session type) := by
  cases type with
  | queryResponse => exact treeOf_queryResponseOps session
  | success => exact treeOf_successOps session
  | _ => exact treeOf_errorOps session

theorem requestedNode_length (id : Bytes) :
    (requestedNode id).encoding.length = 3 + stringSize id.length := by
  have label : (labelBytes (some OptionKey.componentId)).length = 1 := by decide
  have map : (labelBytes none).length = 0 := rfl
  simp [requestedNode, label, map, headSize]
  omega

theorem unneededNode_length (id : Bytes) :
    (unneededNode id).encoding.length = 1 + stringSize id.length := by
  simp [unneededNode, labelBytes, headSize]

theorem tcList_short : (labelBytes (some OptionKey.tcList)).length = 1 := by decide

theorem requestedTcList_short : (labelBytes (some OptionKey.requestedTcList)).length = 1 := by
  decide

theorem unneededTcList_short : (labelBytes (some OptionKey.unneededTcList)).length = 1 := by
  decide

theorem list_length {label : Int} (short : (labelBytes (some label)).length = 1) {entry : Nat}
    {node : Bytes → Node} (each : ∀ id, (node id).encoding.length = entry + stringSize id.length)
    (ids : List Bytes) :
    (arrayNode (some label) (ids.map node)).encoding.length = listSize entry ids := by
  simp [listSize, short, each, Function.comp_def]

theorem tokenNodes_length (token : Option Bytes) :
    (Node.encodings (tokenNodes token)).length = tokenSize token := by
  have label : (labelBytes (some OptionKey.token)).length = 1 := by decide
  cases token with
  | none => rfl
  | some b => simp [tokenNodes, tokenSize, label]

theorem listNodes_length (requests : List ManifestRequest) :
    (Node.encodings (listNodes requests)).length =
      listSize 0 (idsOf ManifestRequest.installed requests) +
        listSize 3 (idsOf ManifestRequest.requested requests) +
        listSize 1 (idsOf ManifestRequest.unneeded requests) := by
  have text (id : Bytes) : (textNode id).encoding.length = 0 + stringSize id.length := by
    simp
  have installed := list_length tcList_short text (idsOf ManifestRequest.installed requests)
  have requested := list_length requestedTcList_short requestedNode_length
    (idsOf ManifestRequest.requested requests)
  have unneeded := list_length unneededTcList_short unneededNode_length
    (idsOf ManifestRequest.unneeded requests)
  simp only [listNodes, Node.encodings, List.length_append, installed, requested, unneeded,
    List.length_nil]
  omega

/-- The map of a message has so few options that its head is one byte. -/
theorem messageTree_length (type : MessageType) {options tail : List Node}
    (few : options.length ≤ 4) (short : tail.length ≤ 1) :
    (messageTree type options tail).encoding.length =
      3 + (Node.encodings options).length + (Node.encodings tail).length := by
  have code : (intNode type.code).encoding.length = 1 := by
    cases type <;> decide
  have outer : headSize (tail.length + 1 + 1) = 1 := if_pos (by omega)
  have inner : headSize options.length = 1 := if_pos (by omega)
  simp [messageTree, labelBytes, code, outer, inner]
  omega

theorem messageNode_length (session : Session) (type : MessageType) :
    (messageNode session type).encoding.length = messageSize session type := by
  have token := tokenNodes_length session.token
  have one : (tokenNodes session.token).length ≤ 1 := by
    cases session.token <;> simp [tokenNodes]
  have error : (Node.encodings [intNode 42]).length = 2 := by decide
  have other (type : MessageType) :
      (messageTree type (tokenNodes session.token) []).encoding.length =
        3 + tokenSize session.token := by
    rw [messageTree_length type (by omega) (by simp), token]
    rfl
  have failed : (messageTree .error (tokenNodes session.token) [intNode 42]).encoding.length =
      5 + tokenSize session.token := by
    rw [messageTree_length .error (by omega) (by simp), token, error]
    omega
  cases type with
  | queryResponse =>
    have lists := listNodes_length session.requests
    simp only [messageNode, messageSize, queryResponseNodes]
    split
    · simpa using other .queryResponse
    · split
      · rw [messageTree_length _ (by simp [listNodes]; omega) (by simp), Node.encodings_append,
          List.length_append, token, lists]
        simp [Node.encodings]
        omega
      · simpa using other .queryResponse
  | success => exact other .success
  | _ => exact failed

theorem messageNode_eq {state : AgentState} {type : MessageType} (posts : state.posts = some type)
    (session : Session) :
    ∃ options, messageNode session type = messageTree type options (errorCode type) ∧
      ∀ node ∈ options, node.WellFormed := by
  cases state with
  | postingQueryResponse =>
    cases posts
    exact ⟨_, rfl, queryResponseNodes_wellFormed session⟩
  | postingSuccess =>
    cases posts
    exact ⟨_, rfl, tokenNodes_wellFormed session.token⟩
  | postingError =>
    cases posts
    exact ⟨_, rfl, tokenNodes_wellFormed session.token⟩
  | _ => cases posts

end Sizes

section Outstanding

/-- The type, the calls and the length of the last message that was built. -/
def lastPosted : List Event → Option (MessageType × List EncodeOp × Option Nat) :=
  latest fun event =>
    match event with
    | .posted type ops length => some (type, ops, length)
    | .received _ => none

@[simp] theorem lastPosted_posted (history : List Event) (type : MessageType)
    (ops : List EncodeOp) (length : Option Nat) :
    lastPosted (history ++ [.posted type ops length]) = some (type, ops, length) := by
  simp [lastPosted, latest_concat]

/-- The data of an outstanding POST with a message come from the encoder, which
found something in the array before. -/
def Built (p : Platform) (ta : Ta) : Prop :=
  ta.session.onGoingTask = true → ∀ type, ta.session.state.posts = some type →
    ∃ buffer length, buffer.length = teepMaxMessageLen ∧
      p.qcbor.encode (messageOps ta.session type) buffer =
        (ta.session.taskBuffer.postData, length) ∧
      ta.session.taskBuffer.postDataLen = length.getD teepMaxMessageLen ∧
      lastPosted ta.history = some (type, messageOps ta.session type, length)

/-- The array keeps its size, and what is in it is built. -/
structure Posting (p : Platform) (ta : Ta) : Prop where
  array : ta.session.taskBuffer.postData.length = teepMaxMessageLen
  built : Built p ta

theorem Built.of_idle {ta : Ta} (idle : ta.session.onGoingTask = false) : Built p ta := by
  intro busy
  rw [idle] at busy
  cases busy

theorem Built.of_quiet {ta : Ta} (quiet : ta.session.state.posts = none) : Built p ta := by
  intro _ type posts
  rw [quiet] at posts
  cases posts

theorem encodes_size {q : Qcbor} (encodes : Encodes q) (session : Session) (type : MessageType)
    (buffer : Bytes) : (q.encode (messageOps session type) buffer).1.length = buffer.length := by
  have produced := encodes _ _ (treeOf_messageOps session type) buffer
  split at produced
  · simp [produced]
    omega
  · exact produced.2

theorem queryBody_quiet {fuel : Nat} {ta next : Ta} (quiet : ta.session.state.posts = none)
    (pass : queryBody p fuel ta = .inr (.ok next)) :
    next.session.taskBuffer.postData = ta.session.taskBuffer.postData ∧
      next.session.state = ta.session.state := by
  cases queryBody_handsOut pass with
  | posted state =>
    rw [state] at quiet
    cases quiet
  | initial | fetch | finish => exact ⟨rfl, rfl⟩

theorem postMessage_posting {ta : Ta} {type : MessageType} (encodes : Encodes p.qcbor)
    (array : ta.session.taskBuffer.postData.length = teepMaxMessageLen)
    (posts : ta.session.state.posts = some type) :
    Posting p (postMessage p ta type (messageOps ta.session type)) := by
  constructor
  · have size := encodes_size encodes ta.session type ta.session.taskBuffer.postData
    rw [array] at size
    exact size
  · intro _ type' posts'
    cases posts.symm.trans posts'
    exact ⟨_, _, array, rfl, rfl, lastPosted_posted _ _ _ _⟩

theorem pass_posting {fuel : Nat} {ta next : Ta} (encodes : Encodes p.qcbor)
    (array : ta.session.taskBuffer.postData.length = teepMaxMessageLen)
    (pass : queryBody p fuel ta = .inr (.ok next)) : Posting p next := by
  cases posts : ta.session.state.posts with
  | none =>
    obtain ⟨same, state⟩ := queryBody_quiet posts pass
    constructor
    · rw [same]
      exact array
    · apply Built.of_quiet
      rw [state]
      exact posts
  | some type =>
    cases queryBody_hands pass with
    | silent _ quiet =>
      rw [posts] at quiet
      cases quiet
    | posted state =>
      cases posts.symm.trans state
      exact postMessage_posting encodes array posts

theorem tamOutcome_taskBuffer {ta next : Ta} {buffer : Bytes} {result : Nat}
    (outcome : TamOutcome p ta buffer next result) :
    next.session.taskBuffer = ta.session.taskBuffer := by
  cases outcome <;> rfl

theorem handleComponentDownload_taskBuffer (ta : Ta) (buffer : Bytes) :
    (handleComponentDownload p ta buffer).1.session.taskBuffer = ta.session.taskBuffer := by
  unfold handleComponentDownload
  split <;> rfl

theorem step_posting {ta ta' : Ta} {command : Command} (encodes : Encodes p.qcbor)
    (posting : Posting p ta) (step : Step p ta command ta') : Posting p ta' := by
  cases step_outcome step with
  | unchanged => exact posting
  | configured state => exact ⟨posting.array, .of_quiet (by simp [state, AgentState.posts])⟩
  | replied _ _ outcome =>
    refine ⟨?_, .of_idle rfl⟩
    have same := tamOutcome_taskBuffer outcome
    exact same ▸ posting.array
  | downloaded =>
    refine ⟨?_, .of_idle rfl⟩
    have same := handleComponentDownload_taskBuffer (p := p) ta
    exact (same _).symm ▸ posting.array
  | @queried fuel _ _ _ idle query =>
    refine query_rule (fun s => s.session.taskBuffer.postData.length = teepMaxMessageLen)
      (Posting p) ?_ ?_ posting.array idle query
    · intro s next array _ pass
      obtain ⟨state, runner, rfl⟩ := pass_same pass
      exact array
    · intro s next array _ pass
      exact pass_posting encodes array pass

theorem run_posting {memory : Session} {commands : List Command} {ta : Ta}
    (encodes : Encodes p.qcbor)
    (array : memory.taskBuffer.postData.length = teepMaxMessageLen)
    (run : Run (Step p) (Ta.start memory) commands ta) : Posting p ta :=
  run.invariant (Posting p) (fun _ _ _ posting step => step_posting encodes posting step)
    ⟨array, .of_idle rfl⟩

end Outstanding

section Queried

/-- A query leaves what the messages are built from. -/
theorem query_messageSize {fuel : Nat} {ta ta' : Ta}
    (query : queryNextBrokerTask p fuel ta = .ok ta') :
    messageSize ta'.session = messageSize ta.session := by
  cases idle : ta.session.onGoingTask with
  | true =>
    rw [queryNextBrokerTask, if_pos idle] at query
    cases query
    rfl
  | false =>
    obtain ⟨state, runner, -, outcome⟩ := query_hands idle query
    cases outcome with
    | silent => rfl
    | posted => rfl

theorem task_posts {state : AgentState} (task : state.task = some .httpPost)
    (later : state ≠ .postingInitialRequest) : ∃ type, state.posts = some type := by
  cases state with
  | postingInitialRequest => exact absurd rfl later
  | postingQueryResponse | postingSuccess | postingError => exact ⟨_, rfl⟩
  | _ => cases task

/-- The data are one message, for an Error with its code, and their length is
the one that the encoder gave for the last message. -/
structure CompletePost (history : List Event) (type : MessageType) (data : Bytes) : Prop where
  message : ∃ options, (messageTree type options (errorCode type)).WellFormed ∧
    data = (messageTree type options (errorCode type)).encoding
  finished : ∃ ops, lastPosted history = some (type, ops, some data.length)

theorem built_complete_iff {ta : Ta} {type : MessageType} (encodes : Encodes p.qcbor)
    (busy : ta.session.onGoingTask = true) (posts : ta.session.state.posts = some type)
    (built : Built p ta) :
    CompletePost ta.history type
        (ta.session.taskBuffer.postData.take ta.session.taskBuffer.postDataLen) ↔
      messageSize ta.session type ≤ teepMaxMessageLen := by
  obtain ⟨buffer, length, array, encoded, counted, last⟩ := built busy type posts
  have produced := encodes _ _ (treeOf_messageOps ta.session type) buffer
  rw [messageNode_length, array, encoded] at produced
  constructor
  · intro complete
    by_contra large
    rw [if_neg large] at produced
    obtain ⟨ops, finished⟩ := complete.finished
    have failed : length = none := produced.1
    rw [last, failed] at finished
    cases finished
  · intro fits
    rw [if_pos fits] at produced
    obtain ⟨options, same, wf⟩ := messageNode_eq posts ta.session
    obtain ⟨bytes, found⟩ := Prod.mk.inj produced
    have size := messageNode_length ta.session type
    have data : ta.session.taskBuffer.postData.take ta.session.taskBuffer.postDataLen =
        (messageNode ta.session type).encoding := by
      rw [counted, bytes, found, Option.getD_some, ← size, List.take_left]
    rw [data]
    refine ⟨⟨options, ?_, ?_⟩, messageOps ta.session type, ?_⟩
    · exact messageTree_wellFormed wf type (errorCode_wellFormed type)
    · rw [same]
    · rw [last, found, size]

theorem copyoutTask_copies {task : BrokerTask} {uriSize postDataSize result : Nat}
    {command : BrokerCommand} {uri data : Bytes}
    (copied : copyoutTask task uriSize postDataSize = .ok ⟨result, some (command, uri, data)⟩) :
    command = task.command ∧ data = task.postData.take task.postDataLen := by
  unfold copyoutTask at copied
  split at copied
  · cases copied
  · split at copied
    · cases copied
    · split at copied
      · cases copied
      · simp only [Except.ok.injEq, Response.mk.injEq, Option.some.injEq, Prod.mk.injEq] at copied
        exact ⟨copied.2.1.symm, copied.2.2.2.symm⟩

theorem post_complete_iff {memory : Session} {commands : List Command} {ta ta' : Ta}
    {fuel uriSize postDataSize result : Nat} {uri data : Bytes} (encodes : Encodes p.qcbor)
    (array : memory.taskBuffer.postData.length = teepMaxMessageLen)
    (run : Run (Step p) (Ta.start memory) commands ta)
    (queried : invokeCommand p fuel ta (.queryNextBrokerTask uriSize postDataSize) =
      .ok (ta', ⟨result, some (.httpPost, uri, data)⟩))
    (later : ta'.session.state ≠ .postingInitialRequest) :
    ∃ type, ta'.session.state.posts = some type ∧
      (CompletePost ta'.history type data ↔ messageSize ta.session type ≤ teepMaxMessageLen) := by
  have run' := Run.snoc run ⟨fuel, _, queried⟩
  have posting := run_posting encodes array run'
  have matching := run_taskMatches run'
  obtain ⟨query, copied⟩ := invokeCommand_query queried
  have busy := query_busy query
  obtain ⟨command, same⟩ := copyoutTask_copies copied
  have task := matching busy
  rw [← command] at task
  obtain ⟨type, posts⟩ := task_posts task later
  refine ⟨type, posts, ?_⟩
  rw [same, ← query_messageSize query]
  exact built_complete_iff encodes busy posts posting.built

end Queried

section Tokens

/-- The README's QueryRequest with another token. -/
def requestWithToken (token : Bytes) : Bytes :=
  readmeQueryRequest.take 15 ++ referenceHead 2 token.length ++ token ++ readmeQueryRequest.drop 24

def tokenCommands (token : Bytes) : List Command :=
  [query, .brokerTaskDone (requestWithToken token)]

/-- What the query behind that request comes to. -/
def queryWithToken (token : Bytes) : Option (Ta × Response) :=
  (exec (execStep readmePlatform 0 fun _ _ => True) (Ta.start blankMemory)
    (tokenCommands token)).bind fun ta => (invokeCommand readmePlatform 0 ta query).toOption

theorem queryWithToken_run {token : Bytes} {ta' : Ta} {response : Response}
    (queried : queryWithToken token = some (ta', response)) :
    ∃ ta, Run (Step readmePlatform) (Ta.start blankMemory) (tokenCommands token) ta ∧
      invokeCommand readmePlatform 0 ta query = .ok (ta', response) := by
  obtain ⟨ta, executed, done⟩ := Option.bind_eq_some_iff.mp queried
  refine ⟨ta, (exec_run executed).of_guarded, ?_⟩
  cases invoked : invokeCommand readmePlatform 0 ta query with
  | error fault =>
    rw [invoked] at done
    cases done
  | ok result =>
    rw [invoked] at done
    cases done
    rfl

theorem post_complete_iff_readme :
    ∃ ta ta' uri, Run (Step readmePlatform) (Ta.start blankMemory) (tokenCommands [0x77]) ta ∧
      invokeCommand readmePlatform 0 ta query = .ok (ta', ⟨teeSuccess, some (.httpPost, uri,
        [0x82, 0x02, 0xA4, 0x14, 0x41, 0x77, 0x08, 0x80, 0x0E, 0x80, 0x0F, 0x80])⟩) ∧
      ∃ type, ta'.session.state.posts = some type ∧
        (CompletePost ta'.history type
            [0x82, 0x02, 0xA4, 0x14, 0x41, 0x77, 0x08, 0x80, 0x0E, 0x80, 0x0F, 0x80] ↔
          messageSize ta.session type ≤ teepMaxMessageLen) := by
  have reached : (queryWithToken [0x77]).map (fun r => (r.1.session.state, r.2)) =
      some (.postingQueryResponse, ⟨teeSuccess, some (.httpPost, [0],
        [0x82, 0x02, 0xA4, 0x14, 0x41, 0x77, 0x08, 0x80, 0x0E, 0x80, 0x0F, 0x80])⟩) := by
    decide +kernel
  obtain ⟨⟨ta', response⟩, queried, last⟩ := Option.map_eq_some_iff.mp reached
  obtain ⟨state, rfl⟩ := Prod.mk.inj last
  obtain ⟨ta, run, done⟩ := queryWithToken_run queried
  have later : ta'.session.state ≠ .postingInitialRequest := by
    rw [state]
    decide
  exact ⟨ta, ta', _, run, done, post_complete_iff referenceQcbor_encodes (by decide +kernel) run
    done later⟩

/-- With a token of 2036 bytes the QueryResponse has one byte too many, and the
task has the whole buffer as its data. -/
theorem post_not_complete :
    ∃ ta ta' uri data,
      Run (Step readmePlatform) (Ta.start blankMemory) (tokenCommands (List.replicate 2036 0)) ta ∧
      invokeCommand readmePlatform 0 ta query =
        .ok (ta', ⟨teeSuccess, some (.httpPost, uri, data)⟩) ∧
      ta'.session.state = .postingQueryResponse ∧ data = List.replicate teepMaxMessageLen 0 ∧
      ¬ CompletePost ta'.history .queryResponse data := by
  have reached : (queryWithToken (List.replicate 2036 0)).map
      (fun r => (r.1.session.state, r.2, (lastPosted r.1.history).map fun last => last.2.2)) =
      some (.postingQueryResponse, ⟨teeSuccess, some (.httpPost, [0],
        List.replicate teepMaxMessageLen 0)⟩, some none) := by
    decide +kernel
  obtain ⟨⟨ta', response⟩, queried, last⟩ := Option.map_eq_some_iff.mp reached
  obtain ⟨state, rest⟩ := Prod.mk.inj last
  obtain ⟨rfl, failed⟩ := Prod.mk.inj rest
  obtain ⟨ta, run, done⟩ := queryWithToken_run queried
  refine ⟨ta, ta', _, _, run, done, state, rfl, fun complete => ?_⟩
  obtain ⟨ops, finished⟩ := complete.finished
  rw [finished] at failed
  cases failed

end Tokens

end TeepDevice.Agent
