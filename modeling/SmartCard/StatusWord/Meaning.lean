import SmartCard.Fault

/-!
Status words named by what they mean.
-/

namespace SmartCard

/-- What a status word tells the terminal. -/
inductive Meaning where
  | success
  | moreAvailable (remaining : UInt8)
  | verificationFailed
  | remainingRetries (remaining : UInt8)
  | wrongLength
  | logicalChannelNotSupported
  | secureMessagingNotSupported
  | commandChainingNotSupported
  | securityStatusNotSatisfied
  | operationBlocked
  | conditionsOfUseNotSatisfied
  | incorrectDataParameter
  | functionNotSupported
  | notFound
  | incorrectP1OrP2Parameter
  | keyReferenceNotFound
  | instructionNotSupportedOrInvalid
  | classNotSupported
  | unspecifiedCheckingError
deriving DecidableEq, Repr

namespace Meaning

/-- All meanings, with `count` where one carries a number. -/
def all (count : UInt8) : List Meaning :=
  [success, moreAvailable count, verificationFailed, remainingRetries count, wrongLength,
    logicalChannelNotSupported, secureMessagingNotSupported, commandChainingNotSupported,
    securityStatusNotSatisfied, operationBlocked, conditionsOfUseNotSatisfied,
    incorrectDataParameter, functionNotSupported, notFound, incorrectP1OrP2Parameter,
    keyReferenceNotFound, instructionNotSupportedOrInvalid, classNotSupported,
    unspecifiedCheckingError]

def name : Meaning → String
  | success => "Success"
  | moreAvailable _ => "MoreAvailable"
  | verificationFailed => "VerificationFailed"
  | remainingRetries _ => "RemainingRetries"
  | wrongLength => "WrongLength"
  | logicalChannelNotSupported => "LogicalChannelNotSupported"
  | secureMessagingNotSupported => "SecureMessagingNotSupported"
  | commandChainingNotSupported => "CommandChainingNotSupported"
  | securityStatusNotSatisfied => "SecurityStatusNotSatisfied"
  | operationBlocked => "OperationBlocked"
  | conditionsOfUseNotSatisfied => "ConditionsOfUseNotSatisfied"
  | incorrectDataParameter => "IncorrectDataParameter"
  | functionNotSupported => "FunctionNotSupported"
  | notFound => "NotFound"
  | incorrectP1OrP2Parameter => "IncorrectP1OrP2Parameter"
  | keyReferenceNotFound => "KeyReferenceNotFound"
  | instructionNotSupportedOrInvalid => "InstructionNotSupportedOrInvalid"
  | classNotSupported => "ClassNotSupported"
  | unspecifiedCheckingError => "UnspecifiedCheckingError"

/-- The status word with a meaning. Remaining attempts are added to `63C0`. -/
def status : Meaning → StatusWord
  | success => .success
  | moreAvailable remaining => .moreAvailable remaining
  | verificationFailed => .verificationFailed
  | remainingRetries remaining => .ofNat (0x63C0 + remaining.toNat)
  | wrongLength => .wrongLength
  | logicalChannelNotSupported => .logicalChannelNotSupported
  | secureMessagingNotSupported => .secureMessagingNotSupported
  | commandChainingNotSupported => .commandChainingNotSupported
  | securityStatusNotSatisfied => .securityStatusNotSatisfied
  | operationBlocked => .authenticationMethodBlocked
  | conditionsOfUseNotSatisfied => .conditionsOfUseNotSatisfied
  | incorrectDataParameter => .wrongData
  | functionNotSupported => .functionNotSupported
  | notFound => .fileNotFound
  | incorrectP1OrP2Parameter => .incorrectP1P2
  | keyReferenceNotFound => .referencedDataNotFound
  | instructionNotSupportedOrInvalid => .instructionNotSupported
  | classNotSupported => .classNotSupported
  | unspecifiedCheckingError => .unknownError

/-- A fault with a meaning and no reason. -/
def fault (meaning : Meaning) : Fault :=
  .ofStatus meaning.status

end Meaning

end SmartCard
