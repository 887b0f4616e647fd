import TerminalFeed.Frame
import TerminalFeed.Json.Basic

/-!
Frames as JSON: an object whose `type` names the kind of frame. Reading also
takes an array that starts with the kind and gives the fields in order.
Unknown fields are passed over; a field given twice is refused.
-/

namespace TerminalFeed

def Bytes.toJson (data : Bytes) : Json :=
  .array (data.map fun b => .natural b.toNat)

def Frame.toJson (showData : Bytes → Json) : Frame → Json
  | .handshake greeting =>
      .object [("type", .string "init"), ("payload", .string greeting)]
  | .sessionBegin session =>
      .object [("type", .string "begin"), ("session", .string session)]
  | .sessionLine session text =>
      .object [("type", .string "line"), ("session", .string session),
        ("payload", .string text)]
  | .sessionEnd session status =>
      .object [("type", .string "end"), ("session", .string session),
        ("status", .string status)]
  | .output pid channel depth data =>
      .object [("type", .string "output_chunk"), ("pid", .integer pid.toInt),
        ("channel", .integer channel.toInt), ("depth", .integer depth.toInt),
        ("data", showData data)]
  | .terminate pid exitCode =>
      .object [("type", .string "terminate"), ("pid", .integer pid.toInt),
        ("exit_code", .integer exitCode.toInt)]
  | .detach => .object [("type", .string "unhook")]

namespace Json

def string? : Json → Option String
  | .string s => some s
  | _ => none

def int32? : Json → Option Int32
  | .integer n =>
      if -2147483648 ≤ n && n ≤ 2147483647 then some (Int32.ofInt n) else none
  | _ => none

def byte? : Json → Option UInt8
  | .integer n => if 0 ≤ n && n ≤ 255 then some (UInt8.ofNat n.toNat) else none
  | _ => none

def bytes? : Json → Option Bytes
  | .array items => items.mapM byte?
  | _ => none

def only? (key : String) (fields : List (String × Json)) : Option Json :=
  match fields.filter (·.1 == key) with
  | [(_, value)] => some value
  | _ => none

def frameFields? : String → Option (List String)
  | "init" => some ["payload"]
  | "begin" => some ["session"]
  | "line" => some ["session", "payload"]
  | "end" => some ["session", "status"]
  | "output_chunk" => some ["pid", "channel", "depth", "data"]
  | "terminate" => some ["pid", "exit_code"]
  | "unhook" => some []
  | _ => none

def frameOfValues? : String → List Json → Option Frame
  | "init", [greeting] => return .handshake (← string? greeting)
  | "begin", [session] => return .sessionBegin (← string? session)
  | "line", [session, text] => return .sessionLine (← string? session) (← string? text)
  | "end", [session, status] => return .sessionEnd (← string? session) (← string? status)
  | "output_chunk", [pid, channel, depth, data] =>
      return .output (← int32? pid) (← int32? channel) (← int32? depth) (← bytes? data)
  | "terminate", [pid, exitCode] => return .terminate (← int32? pid) (← int32? exitCode)
  | "unhook", [] => return .detach
  | _, _ => none

end Json

def Frame.ofJson? : Json → Option Frame
  | .object fields => do
      let kind ← Json.only? "type" fields >>= Json.string?
      let names ← Json.frameFields? kind
      let values ← names.mapM fun name => Json.only? name fields
      Json.frameOfValues? kind values
  | .array (.string kind :: values) => Json.frameOfValues? kind values
  | _ => none

end TerminalFeed
