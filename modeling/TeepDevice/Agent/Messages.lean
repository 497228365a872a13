import TeepDevice.Agent.Session
import TeepDevice.Teep.Building

/-! The messages that the agent builds (build_query_response, build_success and
build_error), as data items. -/
namespace TeepDevice.Agent
open Teep

def ManifestRequest.installed (request : ManifestRequest) : Bool :=
  !request.requested && !request.unneeded

def requestedNode (id : Bytes) : Node :=
  mapNode none [arrayNode (some OptionKey.componentId) [textNode id]]

def unneededNode (id : Bytes) : Node := arrayNode none [textNode id]

/-- The ids of the requests of one kind, in order. -/
def idsOf (use : ManifestRequest → Bool) (requests : List ManifestRequest) : List Bytes :=
  (requests.filter use).map ManifestRequest.id

/-- The three lists of trusted components. -/
def listNodes (requests : List ManifestRequest) : List Node :=
  [arrayNode (some OptionKey.tcList)
      ((idsOf ManifestRequest.installed requests).map textNode),
    arrayNode (some OptionKey.requestedTcList)
      ((idsOf ManifestRequest.requested requests).map requestedNode),
    arrayNode (some OptionKey.unneededTcList)
      ((idsOf ManifestRequest.unneeded requests).map unneededNode)]

def queryResponseNodes (session : Session) : List Node :=
  tokenNodes session.token ++
    if hasItem session.dataItemRequested 0 then []
    else if hasItem session.dataItemRequested 1 then listNodes session.requests
    else []

section Lists

theorem foldl_add (use : ManifestRequest → Bool) {put : MessageEncoder → Bytes → MessageEncoder}
    (appends : ∀ enc ta, put enc ta = enc ++ put [] ta) (requests : List ManifestRequest)
    (enc : MessageEncoder) :
    requests.foldl (fun enc m => if use m then put enc m.id else enc) enc =
      enc ++ (requests.filter use).flatMap fun m => put [] m.id := by
  induction requests generalizing enc with
  | nil => simp
  | cons m requests ih =>
    rw [List.foldl_cons, ih]
    cases used : use m with
    | true => simp [used, appends enc m.id]
    | false => simp [used]

/-- The calls for one list: the entries that belong to it in an array. -/
def listOps (label : Int) (use : ManifestRequest → Bool)
    (put : MessageEncoder → Bytes → MessageEncoder) (requests : List ManifestRequest) :
    List EncodeOp :=
  .openArrayInMapN label :: ((requests.filter use).flatMap fun m => put [] m.id) ++ [.closeArray]

theorem appends_list (put : MessageEncoder → Bytes → MessageEncoder) {node : Bytes → Node}
    (each : ∀ ta, Appends (put [] ta) [node ta]) (label : Int) (use : ManifestRequest → Bool)
    (requests : List ManifestRequest) :
    Appends (listOps label use put requests)
      [arrayNode (some label) ((idsOf use requests).map node)] := by
  have entries := Appends.flatMap (fun m : ManifestRequest => each m.id) (requests.filter use)
  have nodes : (requests.filter use).flatMap (fun m => [node m.id]) =
      (idsOf use requests).map node := by
    rw [← List.map_eq_flatMap, idsOf, List.map_map]
    rfl
  rw [nodes] at entries
  exact entries.arrayInMap label

def optionOps (session : Session) : List EncodeOp :=
  addToken [] session.token ++
    if hasItem session.dataItemRequested 0 then []
    else if hasItem session.dataItemRequested 1 then
      listOps OptionKey.tcList ManifestRequest.installed addTcToTcList session.requests ++
        listOps OptionKey.requestedTcList ManifestRequest.requested addTcToRequestedTcList
          session.requests ++
        listOps OptionKey.unneededTcList ManifestRequest.unneeded addTcToUnneededTcList
          session.requests
    else []

theorem queryResponseOps_eq (session : Session) :
    queryResponseOps session = messageEncoderFinish (closeOptions
      (openOptions (addHeader messageEncoderInit .queryResponse) ++ optionOps session) ++ []) := by
  have installed := foldl_add ManifestRequest.installed
    (fun enc ta => (rfl : addTcToTcList enc ta = _)) session.requests
  have requested := foldl_add ManifestRequest.requested
    (fun enc ta => (rfl : addTcToRequestedTcList enc ta = _)) session.requests
  have unneeded := foldl_add ManifestRequest.unneeded
    (fun enc ta => (rfl : addTcToUnneededTcList enc ta = _)) session.requests
  unfold ManifestRequest.installed at installed
  unfold queryResponseOps optionOps
  simp only [installed, requested, unneeded, addToken_eq (openOptions _) session.token]
  split
  · simp
  · split
    · simp [listOps, openTcList, closeTcList, openRequestedTcList, closeRequestedTcList,
        openUnneededTcList, closeUnneededTcList]
      rfl
    · simp

end Lists

theorem appends_options (session : Session) :
    Appends (optionOps session) (queryResponseNodes session) := by
  refine (appends_token session.token).append ?_
  split
  · exact appends_nil
  · split
    · have tc := appends_list addTcToTcList appends_text OptionKey.tcList
        ManifestRequest.installed session.requests
      have requested := appends_list addTcToRequestedTcList
        (fun ta => ((appends_text ta).arrayInMap OptionKey.componentId).map)
        OptionKey.requestedTcList ManifestRequest.requested session.requests
      have unneeded := appends_list addTcToUnneededTcList (fun ta => (appends_text ta).array)
        OptionKey.unneededTcList ManifestRequest.unneeded session.requests
      exact (tc.append requested).append unneeded
    · exact appends_nil

theorem treeOf_queryResponseOps (session : Session) :
    treeOf (queryResponseOps session) =
      some (messageTree .queryResponse (queryResponseNodes session) []) := by
  rw [queryResponseOps_eq]
  exact appends_message _ (appends_options session) appends_nil

theorem treeOf_successOps (session : Session) :
    treeOf (successOps session) = some (messageTree .success (tokenNodes session.token) []) := by
  have built := appends_message .success (appends_token session.token) appends_nil
  rw [List.append_nil, ← addToken_eq] at built
  exact built

theorem treeOf_errorOps (session : Session) :
    treeOf (errorOps session) =
      some (messageTree .error (tokenNodes session.token) [intNode 42]) := by
  have code : Appends [.addUInt64 42] [intNode 42] := fun _ _ => rfl
  have built := appends_message .error (appends_token session.token) code
  rw [← addToken_eq] at built
  exact built

/-- The item behind the options of a message. -/
def errorCode : MessageType → List Node
  | .error => [intNode 42]
  | _ => []

section WellFormed

theorem idArray_wellFormed (label : Option Int) (id : Bytes) :
    (arrayNode label [textNode id]).WellFormed := by
  apply arrayNode_wellFormed
  simpa using textNode_wellFormed id

theorem requestedNode_wellFormed (id : Bytes) : (requestedNode id).WellFormed := by
  apply mapNode_wellFormed
  simpa using idArray_wellFormed _ id

theorem unneededNode_wellFormed (id : Bytes) : (unneededNode id).WellFormed :=
  idArray_wellFormed none id

theorem entries_wellFormed {node : Bytes → Node} (each : ∀ id, (node id).WellFormed)
    (label : Option Int) (ids : List Bytes) : (arrayNode label (ids.map node)).WellFormed := by
  apply arrayNode_wellFormed
  intro child member
  obtain ⟨id, -, rfl⟩ := List.mem_map.mp member
  exact each id

theorem listNodes_wellFormed (requests : List ManifestRequest) :
    ∀ node ∈ listNodes requests, node.WellFormed := by
  intro node member
  simp only [listNodes, List.mem_cons, List.not_mem_nil, or_false] at member
  rcases member with rfl | rfl | rfl
  · exact entries_wellFormed textNode_wellFormed _ _
  · exact entries_wellFormed requestedNode_wellFormed _ _
  · exact entries_wellFormed unneededNode_wellFormed _ _

theorem queryResponseNodes_wellFormed (session : Session) :
    ∀ node ∈ queryResponseNodes session, node.WellFormed := by
  intro node member
  rcases List.mem_append.mp member with token | list
  · exact tokenNodes_wellFormed session.token node token
  · split at list
    · cases list
    · split at list
      · exact listNodes_wellFormed session.requests node list
      · cases list

theorem errorCode_wellFormed (type : MessageType) :
    ∀ node ∈ errorCode type, node.WellFormed := by
  cases type with
  | error => simpa [errorCode] using intNode_wellFormed 42
  | _ => simp [errorCode]

end WellFormed

end TeepDevice.Agent
