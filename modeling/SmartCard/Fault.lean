import SmartCard.StatusWord

/-!
What can go wrong: bytes that do not decode, and faults raised while a command is processed.
-/

namespace SmartCard

inductive CodecError where
  | malformedCommand
  | malformedData
  | tagTooLong
  | invalidTag
deriving DecidableEq, Repr

namespace CodecError

def all : List CodecError :=
  [malformedCommand, malformedData, tagTooLong, invalidTag]

def name : CodecError → String
  | malformedCommand => "MalformedApdu"
  | malformedData => "MalformedTlv"
  | tagTooLong => "TagTooLong"
  | invalidTag => "InvalidTag"

def message : CodecError → String
  | malformedCommand => "Command APDU is malformed"
  | malformedData => "Data is not valid BER-TLV"
  | tagTooLong => "Tag exceeds the supported length"
  | invalidTag => "Invalid BER-TLV tag"

end CodecError

/-- A fault raised while a command is processed: the status word to answer with, and a reason. -/
structure Fault where
  status : StatusWord
  reason : String
deriving DecidableEq, Repr

namespace Fault

def ofStatus (status : StatusWord) : Fault :=
  ⟨status, ""⟩

def message (fault : Fault) : String :=
  if fault.reason.isEmpty then
    "processing failed with " ++ fault.status.text
  else
    fault.reason ++ " (" ++ fault.status.text ++ ")"

end Fault

end SmartCard
