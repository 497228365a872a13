import TeepDevice.Suit.Runner

/-! Where components go (ta-store.c) and the callbacks the agent gives to the
SUIT runner (teep-agent-ta.c). -/
namespace TeepDevice.Agent
open Tcbor Suit

/-- `struct component_path`, less the two strings that are only traced. -/
structure ComponentPath where
  uuid : Bytes
  filename : Bytes
  deriving DecidableEq, Repr

/-- A call of `store_component` with what it returned, as history. -/
structure Stored where
  filename : Bytes
  image : Bytes
  ok : Bool
  deriving DecidableEq, Repr

/-- The part of the session that the callbacks write through `user`. -/
structure AgentUser where
  fetchUri : Range
  fetchComponentPath : ComponentPath
  stores : List Stored
  deriving DecidableEq, Repr

/-- What the platform's storage answers, given all earlier calls. -/
abbrev InstallTa := List Stored → Bytes → Bytes → Bool

/-- What lies in memory behind a string literal. -/
abbrev Beyond := Bytes → Nat → UInt8

/-- `memcmp` of a range with a literal, over the length of the range. -/
def memcmpEqual (beyond : Beyond) (literal range : Bytes) : Bool :=
  range == (List.range range.length).map fun i =>
    (literal ++ [0]).getD i (beyond literal (i - literal.length - 1))

def deviceName : Bytes := [0x54, 0x45, 0x45, 0x50, 0x2D, 0x44, 0x65, 0x76, 0x69, 0x63, 0x65]
def storageName : Bytes := [0x53, 0x65, 0x63, 0x75, 0x72, 0x65, 0x46, 0x53]
def taSuffix : Bytes := [0x74, 0x61]

def hexDigit (n : Nat) : UInt8 := UInt8.ofNat (if n < 10 then 0x30 + n else 0x57 + n)

def hexByte (b : UInt8) : Bytes := [hexDigit (b.toNat / 16), hexDigit (b.toNat % 16)]

/-- The file name `parse_component_id` prints. -/
def filenameOf (uuid : Bytes) : Bytes :=
  (uuid.zipIdx.flatMap fun (b, i) =>
    hexByte b ++ if i = 3 ∨ i = 5 ∨ i = 7 ∨ i = 9 then [0x2D] else []) ++ [0x2E, 0x74, 0x61]

def parseComponentId (beyond : Beyond) (component : Component) (dst : ComponentPath) :
    Bool × ComponentPath :=
  match readArray (toplevel component.idCbor) with
  | (none, _) => (false, dst)
  | (some array, ctx) =>
    match readBstr array with
    | (none, _) => (false, dst)
    | (some device, array) =>
      if !memcmpEqual beyond deviceName device then (false, dst)
      else
        match readBstr array with
        | (none, _) => (false, dst)
        | (some storage, array) =>
          if !memcmpEqual beyond storageName storage then (false, dst)
          else
            match readBstr array with
            | (none, _) => (false, dst)
            | (some uuid, array) =>
              if uuid.length ≠ 16 then (false, dst)
              else
                match readBstr array with
                | (none, _) => (false, { dst with uuid := uuid })
                | (some suffix, array) =>
                  if !memcmpEqual beyond taSuffix suffix then (false, { dst with uuid := uuid })
                  else ((close ctx array).1, ⟨uuid, filenameOf uuid⟩)

def storeComponent (installTa : InstallTa) (user : AgentUser) (path : ComponentPath)
    (image : Bytes) : Bool × AgentUser :=
  let ok := installTa user.stores path.filename image
  (ok, { user with stores := user.stores ++ [⟨path.filename, image, ok⟩] })

section Callbacks
variable (beyond : Beyond) (installTa : InstallTa)

/-- The result of `store_component` is dropped. -/
def store (user : AgentUser) (target : Object) (body : Range) : Reply AgentUser Unit :=
  match target with
  | .component _ component =>
    match parseComponentId beyond component ⟨[], []⟩ with
    | (false, _) => ⟨false, user, none⟩
    | (true, path) => ⟨true, (storeComponent installTa user path (body.getD [])).2, none⟩
  | .dependency _ => ⟨true, user, none⟩

def fetchAndStore (user : AgentUser) (target : Object) (uri : Bytes) : Reply AgentUser Unit :=
  match target with
  | .component _ component =>
    match parseComponentId beyond component user.fetchComponentPath with
    | (false, path) => ⟨false, { user with fetchComponentPath := path }, none⟩
    | (true, path) =>
      ⟨true, { user with fetchComponentPath := path, fetchUri := some uri }, some ()⟩
  | .dependency _ => ⟨false, user, none⟩

/-- `suit_callbacks`; `fetch_complete` only traces. -/
def suitCallbacks : Callbacks AgentUser Unit where
  store := store beyond installTa
  fetchAndStore := fetchAndStore beyond
  onResume _ := none

end Callbacks

end TeepDevice.Agent
