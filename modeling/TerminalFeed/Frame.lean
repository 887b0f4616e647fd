import TerminalFeed.Text.Utf8

/-!
What a remote helper says over the terminal stream, once decoded.
-/

namespace TerminalFeed

inductive Frame where
  | handshake (greeting : String)
  | sessionBegin (session : String)
  | sessionLine (session : String) (text : String)
  | sessionEnd (session : String) (status : String)
  | output (pid channel depth : Int32) (data : Bytes)
  | terminate (pid exitCode : Int32)
  -- The remote helper is gone; what follows is ordinary terminal data.
  | detach
  deriving DecidableEq, Repr

def Frame.isUrgent : Frame → Bool
  | .terminate .. | .detach => true
  | _ => false

/-- The process number that stands for polled output. Such output carries no
end mark of its own, so one is appended. -/
def pollPid : Int32 := -1000

def pollEndMark : Bytes := [10, 69, 79, 70, 10]

/-- The part of a connection's name that makes it unique, written in hex. -/
def connectionName (unique : Bytes) : String :=
  let hex (b : UInt8) : List Char :=
    [Nat.digitChar (b.toNat / 16), Nat.digitChar (b.toNat % 16)]
  "conn_" ++ String.ofList (unique.flatMap hex)

end TerminalFeed
