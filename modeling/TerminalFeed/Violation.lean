import TerminalFeed.Text.Decimal
import TerminalFeed.Text.Quoted

/-!
Why decoding left a stream to the ordinary terminal.
-/

namespace TerminalFeed

inductive Violation where
  | malformedHandshake
  | malformedBegin (text : String)
  | malformedOutput (text : String)
  | malformedTerminate (text : String)
  | unrecognizedPayload (code : UInt16) (text : String)
  | unexpectedBytes (session : String)
  | envelopeTooLarge (limit : Nat)
  | outputTooLarge (id : String) (limit : Nat)
  | requested
  deriving DecidableEq, Repr

def Violation.message : Violation → String
  | .malformedHandshake => "Malformed handshake line"
  | .malformedBegin text => "Malformed begin header: " ++ quoted text
  | .malformedOutput text => "Malformed output header: " ++ quoted text
  | .malformedTerminate text => "Malformed terminate notification: " ++ quoted text
  | .unrecognizedPayload code text =>
      "Unrecognized payload on OSC " ++ decimal code.toNat ++ ": " ++ quoted text
  | .unexpectedBytes session => "Unexpected bytes inside body of session " ++ session
  | .envelopeTooLarge limit => "Envelope exceeds " ++ decimal limit ++ " bytes"
  | .outputTooLarge id limit =>
      "Output for " ++ id ++ " exceeds " ++ decimal limit ++ " bytes"
  | .requested => "Remote requested unhook"
where
  quoted (text : String) : String := String.ofList (Text.quote text.toList)
  decimal (n : Nat) : String := String.ofList (Decimal.print n)

end TerminalFeed
