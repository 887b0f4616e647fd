import TerminalFeed.Text.Decimal

/-!
The options of the replay command. Each may be given once, long ones with the
value behind an equals sign or in the next argument, short ones in clusters.
-/

namespace TerminalFeed.Replay

inductive Flag where
  | input
  | chunkSize
  | recovery
  | connection
  | config
  | bufferDepth
  | logLevel
  deriving DecidableEq, Repr

namespace Flag

def ofLong? : String → Option Flag
  | "input" => some .input
  | "chunk-size" => some .chunkSize
  | "recovery" => some .recovery
  | "connection-id" => some .connection
  | "config" => some .config
  | "buffer-depth" => some .bufferDepth
  | "log-level" => some .logLevel
  | _ => none

def ofShort? : Char → Option Flag
  | 'i' => some .input
  | 'n' => some .chunkSize
  | 'r' => some .recovery
  | 'c' => some .config
  | 'l' => some .logLevel
  | _ => none

def takesValue : Flag → Bool
  | .recovery => false
  | _ => true

end Flag

def looksLikeOption (arg : List Char) : Bool :=
  match arg with
  | '-' :: _ :: _ => true
  | _ => false

/-- A cluster of short options, and the argument that may follow it. Gives the
options and whether the last of them took that argument. -/
def cluster? (following : Option (List Char)) :
    List Char → Option (List (Flag × List Char) × Bool)
  | [] => some ([], false)
  | c :: rest =>
    match Flag.ofShort? c with
    | none => none
    | some flag =>
      if flag.takesValue then
        match rest with
        | [] => (following.filter fun arg => !looksLikeOption arg).map fun value =>
            ([(flag, value)], true)
        | '=' :: value => some ([(flag, value)], false)
        | value => some ([(flag, value)], false)
      else (cluster? following rest).map fun (flags, took) => ((flag, []) :: flags, took)

def option? (following : Option (List Char)) :
    List Char → Option (List (Flag × List Char) × Bool)
  | '-' :: '-' :: text =>
    let name := text.takeWhile (· != '=')
    match Flag.ofLong? (String.ofList name), text.dropWhile (· != '=') with
    | none, _ => none
    | some flag, '=' :: value => if flag.takesValue then some ([(flag, value)], false) else none
    | some flag, _ =>
      if flag.takesValue then
        (following.filter fun arg => !looksLikeOption arg).map fun value =>
          ([(flag, value)], true)
      else some ([(flag, [])], false)
  | '-' :: c :: rest => cluster? following (c :: rest)
  | _ => none

/-- Every option with its value. Anything else among the arguments is refused;
two dashes may end them. -/
def options? : Nat → List (List Char) → Option (List (Flag × List Char))
  | 0, _ => none
  | fuel + 1, args =>
    match args with
    | [] | [['-', '-']] => some []
    | arg :: rest =>
      match option? rest.head? arg with
      | none => none
      | some (flags, took) =>
        (options? fuel (if took then rest.drop 1 else rest)).map (flags ++ ·)

/-- Whether a path is a dash, which stands for standard input. Slashes behind
it, and dots between them, do not make it another path. -/
def isDash (path : String) : Bool :=
  match path.splitOn "/" with
  | first :: rest => first == "-" && rest.all fun part => part == "" || part == "."
  | [] => false

structure Arguments where
  input : String
  chunkSize : Nat
  recovery : Bool
  connection : Option String
  config : Option String
  bufferDepth : Option Nat
  logLevel : String
  deriving DecidableEq, Repr

namespace Arguments

def path? : Option (List Char) → Option (Option String)
  | none => some none
  | some [] => none
  | some value => some (some (String.ofList value))

def size? : Option (List Char) → Option (Option Nat)
  | none => some none
  | some value => (Decimal.size? value).map some

def parse? (env : String → Option String) (args : List String) : Option Arguments := do
  let given ← options? (args.length + 1) (args.map String.toList)
  guard (given.map (·.1)).Nodup
  let value (flag : Flag) := given.lookup flag
  let fromEnv := (env "CONDUCTOR_CONFIG").map String.toList
  return {
    input := (← path? (value .input)).getD "-"
    chunkSize := (← size? (value .chunkSize)).getD 4096
    recovery := (value .recovery).isSome
    connection := (value .connection).map String.ofList
    config := ← path? (value .config <|> fromEnv)
    bufferDepth := ← size? (value .bufferDepth)
    logLevel := ((value .logLevel).map String.ofList).getD "info" }

end Arguments

end TerminalFeed.Replay
