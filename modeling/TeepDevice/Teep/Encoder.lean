import TeepDevice.Teep.Message

/-! Building TEEP messages (the encoder of libteep.c). An encoder under way is
the list of calls made on QCBOR so far. -/
namespace TeepDevice.Teep

abbrev MessageEncoder := List EncodeOp

def messageEncoderInit : MessageEncoder := [.openArray]

def addHeader (enc : MessageEncoder) (type : MessageType) : MessageEncoder :=
  enc ++ [.addInt64 type.code]

def openOptions (enc : MessageEncoder) : MessageEncoder := enc ++ [.openMap]

def closeOptions (enc : MessageEncoder) : MessageEncoder := enc ++ [.closeMap]

/-- A token whose pointer is null is left out. -/
def addToken (enc : MessageEncoder) (token : Option Bytes) : MessageEncoder :=
  match token with
  | none => enc
  | some token => enc ++ [.addBytesToMapN OptionKey.token token]

def openTcList (enc : MessageEncoder) : MessageEncoder :=
  enc ++ [.openArrayInMapN OptionKey.tcList]

def addTcToTcList (enc : MessageEncoder) (ta : Bytes) : MessageEncoder := enc ++ [.addSZString ta]

def closeTcList (enc : MessageEncoder) : MessageEncoder := enc ++ [.closeArray]

def openRequestedTcList (enc : MessageEncoder) : MessageEncoder :=
  enc ++ [.openArrayInMapN OptionKey.requestedTcList]

def addTcToRequestedTcList (enc : MessageEncoder) (ta : Bytes) : MessageEncoder :=
  enc ++ [.openMap, .openArrayInMapN OptionKey.componentId, .addSZString ta, .closeArray,
    .closeMap]

def closeRequestedTcList (enc : MessageEncoder) : MessageEncoder := enc ++ [.closeArray]

def openUnneededTcList (enc : MessageEncoder) : MessageEncoder :=
  enc ++ [.openArrayInMapN OptionKey.unneededTcList]

def addTcToUnneededTcList (enc : MessageEncoder) (ta : Bytes) : MessageEncoder :=
  enc ++ [.openArray, .addSZString ta, .closeArray]

def closeUnneededTcList (enc : MessageEncoder) : MessageEncoder := enc ++ [.closeArray]

def addErrCode (enc : MessageEncoder) (errCode : Nat) : MessageEncoder :=
  enc ++ [.addUInt64 errCode]

def messageEncoderFinish (enc : MessageEncoder) : List EncodeOp := enc ++ [.closeArray]

/-- The values of the token options that a message is built with. -/
def tokensOf (ops : List EncodeOp) : List Bytes :=
  ops.filterMap fun op =>
    match op with
    | .addBytesToMapN label b => if label = OptionKey.token then some b else none
    | _ => none

end TeepDevice.Teep
