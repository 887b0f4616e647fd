import TerminalFeed.Text.Blank
import TerminalFeed.Text.Decimal
import TerminalFeed.Text.Utf8

/-!
Rules on Rust sources: patterns that production code may not hold. A file is
read line by line, without comments, and up to its test module.
-/

namespace TerminalFeed

/-- A file, or a directory, which has no content of its own. The path is given
by its components. A tree lists its directories like its files. -/
structure SourceEntry where
  path : List String
  content : Option Bytes

namespace SourceRules

/-- The part of a name behind its last dot. A name that starts with its only
dot has none. -/
def extension? (name : String) : Option String :=
  match (name.toList.reverse).span (· != '.') with
  | (_, []) | (_, [_]) => none
  | (extension, _ :: _) => some (String.ofList extension.reverse)

def isRust (path : List String) : Bool :=
  match path.getLast? with
  | some name => extension? name == some "rs"
  | none => false

/-- Component by component; UTF-8 keeps the order of characters. -/
def before : List String → List String → Bool
  | [], _ => true
  | _ :: _, [] => false
  | a :: as, b :: bs => if a == b then before as bs else a < b

def rustFiles (tree : List SourceEntry) : List (List String) :=
  ((tree.map (·.path)).filter isRust).eraseDups.mergeSort before

/-- What is at a path, for the last entry that gives it. -/
def content? (tree : List SourceEntry) (path : List String) : Option Bytes :=
  (tree.reverse.find? (·.path == path)).bind (·.content)

def testModule : List Char := "#[cfg(test)]".toList

def code : List Char → List Char
  | [] => []
  | '/' :: '/' :: _ => []
  | c :: rest => c :: code rest

def startsTests (line : List Char) : Bool :=
  testModule.isPrefixOf (Text.trimLeft line)

def production (text : List Char) : List (List Char) :=
  (Text.lines text).takeWhile fun line => !startsTests line

def holds (pattern : List Char) : List Char → Bool
  | [] => pattern.isEmpty
  | c :: rest => pattern.isPrefixOf (c :: rest) || holds pattern rest

structure Finding where
  path : List String
  line : Nat
  pattern : String
  text : String

namespace Finding

def pathText (f : Finding) : String := "/".intercalate f.path

def describe (f : Finding) : String :=
  f.pathText ++ ":" ++ String.ofList (Decimal.print f.line) ++ " [" ++ f.pattern ++ "] - " ++ f.text

end Finding

def findingsIn (path : List String) (patterns : List String) (text : List Char) :
    List Finding :=
  (production text).zipIdx.flatMap fun (line, i) =>
    (patterns.filter fun pattern => holds pattern.toList (code line)).map fun pattern =>
      ⟨path, i + 1, pattern, String.ofList (Text.trim line)⟩

/-- Every occurrence of a pattern, by file, line, and place in the list of
patterns. Files that are no text are passed over. -/
def findings (tree : List SourceEntry) (patterns : List String) : List Finding :=
  (rustFiles tree).flatMap fun path =>
    match (content? tree path).bind Utf8.decode? with
    | some text => findingsIn path patterns text
    | none => []

def report? (rule : String) (found : List Finding) : Option String :=
  if found.isEmpty then none
  else some ("\nFound " ++ String.ofList (Decimal.print found.length)
    ++ " violation(s): " ++ rule)

end SourceRules

end TerminalFeed
