import Mathlib.Data.List.Forall2
import Mathlib.Logic.Relation
import TerminalFeed.Proofs.Occurrences

/-!
The findings of a rule are the occurrences of its patterns: each of them once, by path, then
by line, then by pattern. Texts that differ in a comment, or behind the line that starts the
tests, have the same findings, up to the wording of the lines.
-/

namespace TerminalFeed.SourceRules

/-- Two texts that differ only behind the first comment mark of a line, or only behind a
line that starts the tests. -/
inductive Overlooked : List Char → List Char → Prop
  | comment {front part after : List Char} (starts : Text.StartsLine front) (free : '\n' ∉ part)
      (first : ¬commentMark <:+: part ++ ['/']) {old new : List Char} (oldFree : '\n' ∉ old)
      (newFree : '\n' ∉ new) (ends : Text.EndsLine after) :
      Overlooked (front ++ (part ++ commentMark ++ old ++ after))
        (front ++ (part ++ commentMark ++ new ++ after))
  | tests {front line : List Char} (starts : Text.StartsLine front) (free : '\n' ∉ line)
      (opens : OpensTests line) (old new : List Char) :
      Overlooked (front ++ (line ++ old)) (front ++ (line ++ new))

inductive Retouched : Option Bytes → Option Bytes → Prop
  | same (content : Option Bytes) : Retouched content content
  | text {old new : List Char} (overlooked : Relation.ReflTransGen Overlooked old new) :
      Retouched (some (Utf8.encode old)) (some (Utf8.encode new))

def Alike (old new : List SourceEntry) : Prop :=
  List.Forall₂ (fun e e' => e.path = e'.path ∧ Retouched e.content e'.content) old new

def Finding.triple (f : Finding) : List String × Nat × String := (f.path, f.line, f.pattern)

/-! ### What is read of the lines -/

def codeOf (lines : List (List Char)) : List (List Char) :=
  (lines.takeWhile fun line => !startsTests line).map code

variable {front line : List Char}

theorem codeOf_cons (line : List Char) (rest : List (List Char)) :
    codeOf (line :: rest) = if startsTests line then [] else code line :: codeOf rest := by
  rw [codeOf, List.takeWhile_cons]
  cases startsTests line <;> rfl

theorem codeOf_append_congr {line' : List Char} (tests : startsTests line = startsTests line')
    (same : code line = code line') (before after : List (List Char)) :
    codeOf (before ++ line :: after) = codeOf (before ++ line' :: after) := by
  induction before with
  | nil => rw [List.nil_append, List.nil_append, codeOf_cons, codeOf_cons, tests, same]
  | cons first rest ih =>
    rw [List.cons_append, List.cons_append, codeOf_cons, codeOf_cons, ih]

theorem codeOf_append_tests (opens : startsTests line) (before after : List (List Char)) :
    codeOf (before ++ line :: after) = codeOf before := by
  induction before with
  | nil =>
    rw [List.nil_append, codeOf_cons, if_pos opens]
    rfl
  | cons first rest ih => rw [List.cons_append, codeOf_cons, codeOf_cons, ih]

theorem codeOf_lines_commented {part tail after : List Char} (starts : Text.StartsLine front)
    (free : '\n' ∉ part) (first : ¬commentMark <:+: part ++ ['/']) (tailFree : '\n' ∉ tail)
    (ends : Text.EndsLine after) :
    codeOf (Text.lines (front ++ (part ++ commentMark ++ tail ++ after))) =
      codeOf (Text.lines front ++ part :: Text.lines after.tail) := by
  have bare : (part ++ commentMark).getLast? ≠ some '\r' := by simp [commentMark]
  have markFree : '\n' ∉ part ++ commentMark := by simp [commentMark, free]
  obtain ⟨comment, here⟩ := Text.lines_front bare (by simp [commentMark]) markFree tailFree ends
  rw [Text.lines_append starts, here]
  refine codeOf_append_congr ?_ ?_ _ _
  · -- The attribute of the tests has no slash, so it is not completed by a comment.
    rw [List.append_assoc]
    exact startsTests_append (by decide) (by decide) part ('/' :: comment)
  · rw [code_commented first, code_of_free]
    exact fun inside => first (inside.trans (List.prefix_append part ['/']).isInfix)

theorem codeOf_lines_tests (starts : Text.StartsLine front) (free : '\n' ∉ line)
    (opens : OpensTests line) (rest : List Char) :
    codeOf (Text.lines (front ++ (line ++ rest))) = codeOf (Text.lines front) := by
  obtain ⟨blanks, more, rfl, blank⟩ := opens
  -- The new text may go on with the line itself, but not change what it starts with.
  obtain ⟨tail, after, parts, tailFree, ends⟩ := Text.exists_endsLine (more ++ rest)
  have bare : (blanks ++ "#[cfg(test)]".toList).getLast? ≠ some '\r' := by simp
  have markFree : '\n' ∉ blanks ++ "#[cfg(test)]".toList :=
    fun member => free (List.mem_append_left more member)
  obtain ⟨last, here⟩ := Text.lines_front bare (by simp) markFree tailFree ends
  rw [Text.lines_append starts, List.append_assoc, parts, ← List.append_assoc, here]
  exact codeOf_append_tests (startsTests_iff.mpr ⟨blanks, last, rfl, blank⟩) _ _

theorem Overlooked.codeOf_lines {old new : List Char} (overlooked : Overlooked old new) :
    codeOf (Text.lines old) = codeOf (Text.lines new) := by
  cases overlooked with
  | comment starts free first oldFree newFree ends =>
    rw [codeOf_lines_commented starts free first oldFree ends,
      codeOf_lines_commented starts free first newFree ends]
  | tests starts free opens old new =>
    rw [codeOf_lines_tests starts free opens, codeOf_lines_tests starts free opens]

theorem codeOf_lines_eq {old new : List Char}
    (overlooked : Relation.ReflTransGen Overlooked old new) :
    codeOf (Text.lines old) = codeOf (Text.lines new) := by
  induction overlooked with
  | refl => rfl
  | tail _ last ih => exact ih.trans last.codeOf_lines

/-! ### What is found in them -/

theorem map_triple_findingsIn (path : List String) (patterns : List String) (text : List Char) :
    (findingsIn path patterns text).map Finding.triple =
      (codeOf (Text.lines text)).zipIdx.flatMap fun (part, i) =>
        (patterns.filter fun pattern => holds pattern.toList part).map fun pattern =>
          (path, i + 1, pattern) := by
  rw [findingsIn, codeOf, List.zipIdx_map, List.flatMap_map, List.map_flatMap]
  refine List.flatMap_congr fun entry _ => ?_
  dsimp only
  rw [List.map_map]
  rfl

def findingsAt (path : List String) (patterns : List String) (content : Option Bytes) :
    List Finding :=
  match content.bind Utf8.decode? with
  | some text => findingsIn path patterns text
  | none => []

theorem findings_eq (tree : List SourceEntry) (patterns : List String) :
    findings tree patterns =
      (rustFiles tree).flatMap fun path => findingsAt path patterns (content? tree path) := rfl

theorem Retouched.map_triple {old new : Option Bytes} (retouched : Retouched old new)
    (path : List String) (patterns : List String) :
    (findingsAt path patterns old).map Finding.triple =
      (findingsAt path patterns new).map Finding.triple := by
  cases retouched with
  | same => rfl
  | text overlooked =>
    simp only [findingsAt, Option.bind_some, Utf8.decode?_eq_some_iff.mpr rfl,
      map_triple_findingsIn, codeOf_lines_eq overlooked]

theorem Alike.content? {old new : List SourceEntry} (alike : Alike old new)
    (path : List String) : Retouched (content? old path) (content? new path) := by
  have reversed := List.forall₂_reverse_iff.mpr alike
  rw [SourceRules.content?, SourceRules.content?]
  generalize old.reverse = old' at reversed
  generalize new.reverse = new' at reversed
  induction reversed with
  | nil => exact .same none
  | cons both _ ih =>
    rename_i e e' _ _ _
    rw [List.find?_cons, List.find?_cons, both.1]
    cases e'.path == path with
    | true => exact both.2
    | false => exact ih

theorem Alike.rustFiles {old new : List SourceEntry} (alike : Alike old new) :
    rustFiles old = rustFiles new := by
  have paths : old.map (·.path) = new.map (·.path) := by
    induction alike with
    | nil => rfl
    | cons both _ ih => rw [List.map_cons, List.map_cons, both.1, ih]
  rw [SourceRules.rustFiles, SourceRules.rustFiles, paths]

theorem Alike.map_triple {old new : List SourceEntry} (alike : Alike old new)
    (patterns : List String) :
    (findings old patterns).map Finding.triple = (findings new patterns).map Finding.triple := by
  rw [findings_eq, findings_eq, alike.rustFiles, List.map_flatMap, List.map_flatMap]
  exact List.flatMap_congr fun path _ => (alike.content? path).map_triple path patterns

structure Exact (tree : List SourceEntry) (patterns : List String) : Prop where
  -- The findings are the occurrences, in the order of their places, each place once.
  occurrences : ∃ occurrences : List (Place × Finding),
    occurrences.map Prod.snd = findings tree patterns ∧
    occurrences.Pairwise (fun a b => a.1.Before b.1) ∧
    ∀ place found, (place, found) ∈ occurrences ↔ Occurs tree patterns place found
  -- Comments and tests have no influence on where something is found.
  overlooks : ∀ tree', Alike tree tree' →
    (findings tree' patterns).map Finding.triple = (findings tree patterns).map Finding.triple

theorem findings_exact (tree : List SourceEntry) (patterns : List String) :
    Exact tree patterns where
  occurrences := ⟨occurrences tree patterns, map_snd_occurrences tree patterns,
    occurrences_sorted tree patterns, fun _ _ => mem_occurrences⟩
  overlooks _ alike := (alike.map_triple patterns).symm

example : (findings [⟨["b.rs"], some (Utf8.encode "x // y\ny\n#[cfg(test)]\ny".toList)⟩,
    ⟨["a", "b.rs"], some (Utf8.encode "/y".toList)⟩] ["y", "/"]).map Finding.triple =
      [(["a", "b.rs"], 1, "y"), (["a", "b.rs"], 1, "/"), (["b.rs"], 2, "y")] := by
  cbv

end TerminalFeed.SourceRules
