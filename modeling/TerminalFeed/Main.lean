import TerminalFeed.Replay.Command

/-!
The replay command: reads a captured stream and prints one line of JSON for
each token that is executed. Its log goes to standard error.
-/

namespace TerminalFeed.Replay

partial def readAll (stream : IO.FS.Stream) (read : ByteArray) : IO ByteArray := do
  let more ← stream.read 65536
  if more.isEmpty then return read else readAll stream (read ++ more)

def readFile? (path : String) : IO (Option Bytes) := do
  try return some (← IO.FS.readBinFile path).toList
  catch _ => return none

def readConfig (path : Option String) : IO ConfigFile := do
  match path with
  | none => return .absent
  | some path =>
    try return .present path (← IO.FS.readBinFile path).toList
    catch
      | .noFileOrDirectory .. => return .absent
      | _ => return .unreadable path

def readInput (path : String) : IO (Option Bytes) := do
  if isDash path then
    return some (← readAll (← IO.getStdin) .empty).toList
  else readFile? path

def freshConnection : IO String := do
  let mut unique : Bytes := []
  for _ in [0:16] do
    unique := UInt8.ofNat (← IO.rand 0 255) :: unique
  return connectionName unique

def log (args : Arguments) (line : String) : IO Unit := do
  if ["trace", "debug", "info"].contains args.logLevel then
    (← IO.getStderr).putStrLn (" INFO " ++ line)

def fail (failure : Failure) : IO UInt32 := do
  (← IO.getStderr).putStrLn ("Error: " ++ failure.message)
  return UInt32.ofNat failure.exitCode

def finish (args : Arguments) (r : Report) : IO UInt32 := do
  for line in r.lines do
    (← IO.getStdout).putStrLn line
  let detachedAt := match r.detached with
    | none => "None"
    | some (chunk, _) => "Some(" ++ toString chunk ++ ")"
  if let some (chunk, v) := r.detached then
    log args ("Decoder unhooked chunk=" ++ toString chunk ++ " reason=" ++ v.message)
  log args ("Replay complete chunks=" ++ toString r.chunks ++ " tokens="
    ++ toString r.tokens.length ++ " batches=" ++ toString r.batches ++ " bytes="
    ++ toString r.bytes ++ " unhooked_at=" ++ detachedAt)
  return 0

def replay (args : Arguments) (env : String → Option String) : IO UInt32 := do
  let path := args.config <|> Config.defaultPath (env "HOME") (env "XDG_CONFIG_HOME")
  match loadConfig args (← readConfig path) env with
  | .error failure => fail failure
  | .ok config =>
    log args ("Configuration loaded source=" ++ config.source.name)
    match ← readInput args.input with
    | none => fail (.input args.input)
    | some input =>
      let connection ← match args.connection with
        | some name => pure name
        | none => freshConnection
      match report args config connection input with
      | .error failure => fail failure
      | .ok r => finish args r

def variableNames : List String :=
  ["CONDUCTOR_BUFFER_DEPTH", "CONDUCTOR_MAX_ENVELOPE", "CONDUCTOR_MAX_OUTPUT",
    "CONDUCTOR_CONFIG", "HOME", "XDG_CONFIG_HOME"]

end TerminalFeed.Replay

open TerminalFeed.Replay in
def main (args : List String) : IO UInt32 := do
  let values ← variableNames.mapM fun name => do return (name, ← IO.getEnv name)
  let env (name : String) : Option String := (values.lookup name).join
  match Arguments.parse? env args with
  | none => fail .usage
  | some args => replay args env
