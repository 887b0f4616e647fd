import TerminalFeed.Config
import TerminalFeed.Json.Frames
import TerminalFeed.Replay.Arguments
import TerminalFeed.Replay.Stream

/-!
The replay command between its arguments and its output: which configuration
it works with, how it fails, and the lines that it prints.
-/

namespace TerminalFeed.Replay

inductive Failure where
  | usage
  | config (e : ConfigError)
  | input (path : String)
  | start

namespace Failure

def exitCode : Failure → Nat
  | .usage => 2
  | .config _ | .input _ => 1
  | .start => 101

def message : Failure → String
  | .usage => "invalid arguments"
  | .config e => e.message
  | .input path => "Failed to read " ++ path
  | .start => "the scheduler could not be started"

end Failure

def loadConfig (args : Arguments) (file : ConfigFile) (env : String → Option String) :
    Except Failure Config :=
  match Config.load file env with
  | .error e => .error (.config e)
  | .ok c =>
    match c.override ⟨args.bufferDepth, none, none⟩ with
    | (_, some e) => .error (.config e)
    | (c, none) => .ok c

/-- Whether a scheduler can be started: a pool has a largest capacity, and a
thread's name holds no null character. -/
def canStart (c : Config) : Bool :=
  c.bufferDepth ≤ SlotPool.maxCapacity && !c.threadName.toList.contains '\x00'

def report (args : Arguments) (c : Config) (connection : String) (input : Bytes) :
    Except Failure Report :=
  if canStart c then
    let decoder := if args.recovery then Decoder.recovery connection c.limits
      else Decoder.new connection c.limits
    .ok (run decoder c.bufferDepth args.chunkSize input)
  else .error .start

def record (token : ReplayToken) : String × Json :=
  match token with
  | .frame f => ("conductor", f.toJson Bytes.toJson)
  | .terminal bytes => ("passthrough", .text (Utf8.decodeLossy bytes))

def Report.lines (r : Report) : List String :=
  r.tokens.zipIdx.map fun (token, i) =>
    (Json.object [("seq", .natural i), record token]).print

end TerminalFeed.Replay
