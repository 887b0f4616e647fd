import Mathlib.Data.List.Infix
import Mathlib.Data.List.TakeDrop
import Mathlib.Data.List.TakeWhile
import TerminalFeed.SourceRules.Basic

/-!
What the rules read of a source, in terms of the texts alone: which names are those of Rust
sources, what of a line is code, and which line starts the tests. Comments have no part in
any of it.
-/

namespace TerminalFeed.SourceRules

def NamesRust (path : List String) : Prop :=
  ∃ directory stem, stem ≠ "" ∧ path = directory ++ [stem ++ ".rs"]

def commentMark : List Char := ['/', '/']

/-- The line up to its first comment mark, or the whole line if it has none. -/
inductive IsCode : List Char → List Char → Prop
  | plain {line : List Char} (free : ¬commentMark <:+: line) : IsCode line line
  | commented {part : List Char} (first : ¬commentMark <:+: part ++ ['/']) (comment : List Char) :
      IsCode (part ++ commentMark ++ comment) part

def OpensTests (line : List Char) : Prop :=
  ∃ blanks rest, line = blanks ++ "#[cfg(test)]".toList ++ rest ∧ ∀ c ∈ blanks, Text.isBlank c

theorem extension?_eq_rs_iff {name : String} :
    extension? name = some "rs" ↔ ∃ stem, stem ≠ "" ∧ name = stem ++ ".rs" := by
  rw [extension?, List.span_eq_takeWhile_dropWhile]
  constructor
  · intro found
    have whole := List.takeWhile_append_dropWhile (p := (· != '.')) (l := name.toList.reverse)
    have stops := List.dropWhile_get_zero_not (· != '.') name.toList.reverse
    generalize List.takeWhile (· != '.') name.toList.reverse = last at found whole
    generalize List.dropWhile (· != '.') name.toList.reverse = others at found whole stops
    -- The code answers for a name with something in front of its last dot, and for no other.
    match others, found with
    | dot :: c :: stem, found =>
      obtain rfl : dot = '.' := by simpa using stops (by simp)
      have rs : last.reverse = ['r', 's'] := by
        simpa using congrArg (Option.map String.toList) found
      refine ⟨String.ofList (c :: stem).reverse, by simp, ?_⟩
      rw [← String.toList_inj, ← List.reverse_reverse name.toList, ← whole, List.reverse_append, rs]
      simp
  · rintro ⟨stem, some, rfl⟩
    have reversed : (stem ++ ".rs").toList.reverse = 's' :: 'r' :: '.' :: stem.toList.reverse := by
      simp
    rw [reversed]
    cases chars : stem.toList.reverse with
    | nil => exact absurd (by simpa using chars) some
    | cons c rest => rfl

theorem isRust_iff {path : List String} : isRust path ↔ NamesRust path := by
  rw [isRust, NamesRust]
  rcases List.eq_nil_or_concat path with rfl | ⟨directory, name, rfl⟩
  · simp
  · rw [List.concat_eq_append, List.getLast?_concat]
    simp only [beq_iff_eq, extension?_eq_rs_iff]
    constructor
    · rintro ⟨stem, some, rfl⟩
      exact ⟨directory, stem, some, rfl⟩
    · rintro ⟨directory', stem, some, same⟩
      obtain ⟨-, named⟩ := List.append_inj' same rfl
      exact ⟨stem, some, by simpa using named⟩

theorem holds_iff {pattern text : List Char} : holds pattern text ↔ pattern <:+: text := by
  induction text with
  | nil => simp [holds]
  | cons c rest ih =>
    rw [holds, Bool.or_eq_true, List.isPrefixOf_iff_prefix, ih, List.infix_cons_iff]

theorem commentMark_infix_cons {c : Char} {rest : List Char} :
    commentMark <:+: c :: rest ↔ (c = '/' ∧ rest.head? = some '/') ∨ commentMark <:+: rest := by
  rw [List.infix_cons_iff, commentMark, List.cons_prefix_cons, eq_comm]
  cases rest with
  | nil => simp
  | cons d more => simp [List.cons_prefix_cons, eq_comm]

theorem code_of_free {line : List Char} (free : ¬commentMark <:+: line) : code line = line := by
  induction line using code.induct with
  | case1 => rfl
  | case2 comment => exact absurd ⟨[], comment, rfl⟩ free
  | case3 c rest bare ih =>
    rw [commentMark_infix_cons, not_or] at free
    rw [code, ih free.2]
    exact bare

theorem code_commented {part : List Char} (first : ¬commentMark <:+: part ++ ['/'])
    (comment : List Char) : code (part ++ commentMark ++ comment) = part := by
  induction part with
  | nil => rfl
  | cons c rest ih =>
    rw [List.cons_append, commentMark_infix_cons, not_or] at first
    rw [List.cons_append, List.cons_append, code, ih first.2]
    rintro after rfl starts
    refine first.1 ⟨rfl, ?_⟩
    cases rest with
    | nil => rfl
    | cons d more => exact congrArg List.head? starts

theorem isCode_code (line : List Char) : IsCode line (code line) := by
  induction line using code.induct with
  | case1 => exact .plain (by simp [commentMark])
  | case2 comment => exact @IsCode.commented [] (by decide) comment
  | case3 c rest bare ih =>
    have apart : ¬(c = '/' ∧ rest.head? = some '/') := by
      rintro ⟨rfl, next⟩
      obtain ⟨after, rfl⟩ := List.head?_eq_some_iff.mp next
      exact bare after rfl rfl
    rw [code]
    swap
    · exact bare
    generalize code rest = part at ih
    cases ih with
    | plain free =>
      refine .plain ?_
      rw [commentMark_infix_cons, not_or]
      exact ⟨apart, free⟩
    | commented first comment =>
      refine @IsCode.commented (c :: part) ?_ comment
      rw [List.cons_append, commentMark_infix_cons, not_or]
      refine ⟨?_, first⟩
      cases part with
      | nil => exact apart
      | cons d more => exact apart

theorem code_eq_iff {line part : List Char} : code line = part ↔ IsCode line part := by
  constructor
  · rintro rfl
    exact isCode_code line
  · rintro (free | ⟨first, comment⟩)
    · exact code_of_free free
    · exact code_commented first comment

theorem startsTests_iff {line : List Char} : startsTests line ↔ OpensTests line := by
  rw [startsTests, List.isPrefixOf_iff_prefix]
  constructor
  · rintro ⟨rest, opens⟩
    refine ⟨line.takeWhile Text.isBlank, rest, ?_, fun c => List.mem_takeWhile_imp⟩
    rw [List.append_assoc]
    exact (List.takeWhile_append_dropWhile.symm.trans (congrArg _ opens.symm))
  · rintro ⟨blanks, rest, rfl, blank⟩
    refine ⟨rest, ?_⟩
    rw [Text.trimLeft, List.append_assoc, List.dropWhile_append_of_pos blank]
    rfl

theorem prefix_append_cons_iff {word front : List Char} {c : Char} (strange : c ∉ word)
    (rest : List Char) : word <+: front ++ c :: rest ↔ word <+: front := by
  constructor
  · intro reads
    rcases List.prefix_or_prefix_of_prefix reads (List.prefix_append front (c :: rest)) with
      inside | ⟨more, rfl⟩
    · exact inside
    · cases more with
      | nil => simp
      | cons d others =>
        obtain ⟨rfl, -⟩ := List.cons_prefix_cons.mp ((List.prefix_append_right_inj front).mp reads)
        simp at strange
  · exact fun reads => reads.trans (List.prefix_append front (c :: rest))

theorem startsTests_append {c : Char} (strange : c ∉ testModule)
    (visible : Text.isBlank c = false) (front rest : List Char) :
    startsTests (front ++ c :: rest) = startsTests front := by
  have trimmed : Text.trimLeft (front ++ c :: rest) = Text.trimLeft front ++ c :: rest := by
    rw [Text.trimLeft, List.dropWhile_append, List.dropWhile_cons_of_neg (by simp [visible])]
    split
    · rename_i blank
      rw [Text.trimLeft, List.isEmpty_iff.mp blank, List.nil_append]
    · rfl
  rw [startsTests, startsTests, trimmed, Bool.eq_iff_iff, List.isPrefixOf_iff_prefix,
    List.isPrefixOf_iff_prefix, prefix_append_cons_iff strange]

end TerminalFeed.SourceRules
