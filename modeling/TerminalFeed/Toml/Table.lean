/-!
TOML documents as tables, and the rules on which tables a header or a dotted
key may still extend.
-/

namespace TerminalFeed.Toml

/-- How a table came about. -/
inductive Origin where
  | header
  -- By a longer header; it may still get one of its own.
  | implied
  | dotted
  -- Between braces; nothing may be added to it.
  | inline
  deriving DecidableEq

inductive Value where
  | string (text : List Char)
  | integer (n : Int)
  | real
  | boolean (b : Bool)
  | moment
  | array (items : List Value)
  | table (origin : Origin) (entries : List (List Char × Value))
  -- The tables of one repeated header, last first.
  | tables (all : List (List (List Char × Value)))

abbrev Entries := List (List Char × Value)

namespace Entries

def get? (entries : Entries) (key : List Char) : Option Value := entries.lookup key

def erase (entries : Entries) (key : List Char) : Entries :=
  entries.filter (·.1 != key)

def put (entries : Entries) (key : List Char) (value : Value) : Entries :=
  entries.erase key ++ [(key, value)]

def add? (entries : Entries) (key : List Char) (value : Value) : Option Entries :=
  if (entries.get? key).isSome then none else some (entries ++ [(key, value)])

/-- Changes the table at the end of a path. Tables on the way that do not exist
are made; those of a header are closed to dotted keys, and inline tables to
all. A repeated header stands for its last table. -/
def within? (byDots : Bool) (change : Origin → Entries → Option Entries)
    (origin : Origin) (entries : Entries) : List (List Char) → Option Entries
  | [] => change origin entries
  | key :: path =>
    match entries.get? key with
    | none =>
      let fresh : Origin := if byDots then .dotted else .implied
      (within? byDots change fresh [] path).map fun inner =>
        entries.put key (.table fresh inner)
    | some (.table kind inner) =>
      if kind = .inline ∨ (byDots ∧ kind = .header) then none
      else (within? byDots change kind inner path).map fun inner =>
        entries.put key (.table kind inner)
    | some (.tables (last :: earlier)) =>
      (within? byDots change .header last path).map fun last =>
        entries.put key (.tables (last :: earlier))
    | some _ => none

/-- Adds a value under a key that may be dotted. The table it goes to must be
open to such a key. -/
def assign? (entries : Entries) (path : List (List Char)) (key : List Char)
    (value : Value) : Option Entries :=
  within? true (fun origin inner =>
      if path.isEmpty ∨ origin = .dotted then inner.add? key value else none)
    .header entries path

/-- What a header finds under its last key. The outer option is empty where
the way there is barred. -/
def find? (key : List Char) (entries : Entries) : List (List Char) → Option (Option Value)
  | [] => some (entries.get? key)
  | step :: path =>
    match entries.get? step with
    | none => some none
    | some (.table kind inner) => if kind = .inline then none else find? key inner path
    | some (.tables (last :: _)) => find? key last path
    | some _ => none

end Entries

/-- A document under way: everything but the table being written, which has
its header's path, and that table. -/
structure Document where
  root : Entries
  path : List (List Char)
  repeated : Bool
  current : Entries

namespace Document

def empty : Document := ⟨[], [], false, []⟩

def splitLast? : List (List Char) → Option (List (List Char) × List Char)
  | [] => none
  | [key] => some ([], key)
  | key :: rest => (splitLast? rest).map fun (path, last) => (key :: path, last)

def close? (d : Document) : Option Entries :=
  match splitLast? d.path with
  | none => some d.current
  | some (path, key) =>
    Entries.within? false (fun _ inner =>
      if d.repeated then
        match inner.get? key with
        | none => some (inner.put key (.tables [d.current]))
        | some (.tables all) => some (inner.put key (.tables (d.current :: all)))
        | some _ => none
      else some (inner.put key (.table .header d.current)))
      .header d.root path

/-- Starts the table of a header. One that longer headers implied keeps what
they put there; any other value of that name bars it. -/
def openTable? (d : Document) (header : List (List Char)) : Option Document := do
  let root ← d.close?
  let (path, key) ← splitLast? header
  match ← Entries.find? key root path with
  | none => return ⟨root, header, false, []⟩
  | some (.table .implied entries) => return ⟨root, header, false, entries⟩
  | some _ => none

def openRepeated? (d : Document) (header : List (List Char)) : Option Document := do
  let root ← d.close?
  let (path, key) ← splitLast? header
  match ← Entries.find? key root path with
  | none | some (.tables _) => return ⟨root, header, true, []⟩
  | some _ => none

def assign? (d : Document) (keys : List (List Char)) (value : Value) : Option Document := do
  let (path, key) ← splitLast? keys
  let current ← d.current.assign? path key value
  return { d with current := current }

end Document

end TerminalFeed.Toml
