import TerminalFeed.SourceRules.Basic

/-!
Trees to try the rules on, as they are written entry by entry. The rules know
nothing of how a tree has come about.
-/

namespace TerminalFeed.SourceRules

def isFile (tree : List SourceEntry) (path : List String) : Bool :=
  (content? tree path).isSome

def isDirectory (tree : List SourceEntry) (path : List String) : Bool :=
  tree.any fun e => e.path == path && e.content.isNone

def isName (name : String) : Bool := name.utf8ByteSize ≤ 255

/-- Follows a path from a directory and makes the directories that are missing,
up to a file in the way. Gives where the path leads, if it stays in the tree.
Nothing is in a directory that is `fresh`. -/
def enter (tree : List SourceEntry) (here : List String) (fresh : Bool) :
    List String → List SourceEntry × Option (List String)
  | [] => (tree, some here)
  | name :: rest =>
    if name == ".." then
      if here.isEmpty then (tree, none) else enter tree here.dropLast false rest
    else
      let there := here ++ [name]
      if !isName name then (tree, none)
      else if !fresh && isFile tree there then (tree, none)
      else if !fresh && isDirectory tree there then enter tree there false rest
      else enter (tree ++ [⟨there, none⟩]) there true rest

/-- Writes an entry and the directories it is in. A file is not written through
another file or over a directory. -/
def write (tree : List SourceEntry) (e : SourceEntry) : List SourceEntry :=
  match e.content, e.path.getLast? with
  | none, _ => (enter tree [] false e.path).1
  | some _, none => tree
  | some content, some name =>
    let (tree, directory) := enter tree [] false e.path.dropLast
    match directory.map (· ++ [name]) with
    | none => tree
    | some path =>
      if name == ".." || !isName name || isDirectory tree path then tree
      else tree ++ [⟨path, some content⟩]

def written (entries : List SourceEntry) : List SourceEntry := entries.foldl write []

end TerminalFeed.SourceRules
