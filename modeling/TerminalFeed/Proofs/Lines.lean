import TerminalFeed.Text.Blank

/-!
The lines of a text, by where they stand in it. A line starts a text or follows a line feed,
and ends before the next line break or with the text. Texts that are cut where a line starts
have their lines one after the other.
-/

namespace TerminalFeed.Text

def StartsLine (before : List Char) : Prop := before = [] ∨ before.getLast? = some '\n'

def EndsLine (after : List Char) : Prop := after = [] ∨ after.head? = some '\n'

/-- The line breaks that may stand between a line and what comes after it. The last line of
a text needs none, if it is not empty. -/
inductive Breaks (line : List Char) : List Char → List Char → Prop
  | feed (after : List Char) (bare : line.getLast? ≠ some '\r') : Breaks line ['\n'] after
  | returnFeed (after : List Char) : Breaks line ['\r', '\n'] after
  | none (some : line ≠ []) : Breaks line [] []

/-- The `n`th line of a text, where the first one has the number 1. -/
def IsLine (text : List Char) (n : Nat) (line : List Char) : Prop :=
  ∃ before ending after, text = before ++ line ++ ending ++ after ∧ StartsLine before ∧
    n = before.count '\n' + 1 ∧ '\n' ∉ line ∧ Breaks line ending after

theorem IsLine.pos {text line : List Char} {n : Nat} (isLine : IsLine text n line) : 0 < n := by
  obtain ⟨before, _, _, _, _, rfl, _⟩ := isLine
  exact Nat.succ_pos _

theorem lines_of_free {line : List Char} (free : '\n' ∉ line) (some : line ≠ []) :
    lines line = [line] := by
  have single : line.splitOnP (· == '\n') = [line] := by
    apply List.splitOnP_eq_singleton
    intro c member
    rw [beq_eq_false_iff_ne]
    rintro rfl
    exact free member
  rw [lines, single, closeLines, if_neg (by simpa using some)]

theorem lines_feed {line : List Char} (free : '\n' ∉ line) (rest : List Char) :
    lines (line ++ '\n' :: rest) = dropReturn line :: lines rest := by
  have first : (line ++ '\n' :: rest).splitOnP (· == '\n') =
      line :: rest.splitOnP (· == '\n') := by
    apply List.splitOnP_append_cons_of_forall_mem
    · intro c member
      rw [beq_eq_false_iff_ne]
      rintro rfl
      exact free member
    · rfl
  rw [lines, first, lines]
  cases others : rest.splitOnP (· == '\n') with
  | nil => exact absurd others (List.splitOnP_ne_nil _ _)
  | cons next more => rfl

theorem line_induction {motive : List Char → Prop} (nil : motive [])
    (last : ∀ line : List Char, '\n' ∉ line → line ≠ [] → motive line)
    (feed : ∀ line rest : List Char, '\n' ∉ line → motive rest → motive (line ++ '\n' :: rest))
    (text : List Char) : motive text := by
  induction length : text.length using Nat.strongRecOn generalizing text with
  | ind n ih =>
    by_cases broken : '\n' ∈ text
    · obtain ⟨line, rest, rfl, free⟩ := List.eq_append_cons_of_mem broken
      refine feed line rest free (ih rest.length ?_ rest rfl)
      rw [← length, List.length_append, List.length_cons]
      omega
    · by_cases empty : text = []
      · rw [empty]
        exact nil
      · exact last text broken empty

theorem startsLine_feed_iff {line rest : List Char} :
    StartsLine (line ++ '\n' :: rest) ↔ StartsLine rest := by
  cases rest with
  | nil => simp [StartsLine]
  | cons c more => simp [StartsLine, List.getLast?_append, List.getLast?_cons]

theorem StartsLine.eq_nil {line : List Char} (starts : StartsLine line) (free : '\n' ∉ line) :
    line = [] := by
  rcases starts with empty | feed
  · exact empty
  · exact absurd (List.mem_of_getLast? feed) free

theorem lines_append {before : List Char} (starts : StartsLine before) (rest : List Char) :
    lines (before ++ rest) = lines before ++ lines rest := by
  induction before using line_induction with
  | nil => rfl
  | last line free some => exact absurd (starts.eq_nil free) some
  | feed line more free ih =>
    rw [List.append_assoc, List.cons_append, lines_feed free, lines_feed free,
      ih (startsLine_feed_iff.mp starts), List.cons_append]

theorem length_lines {before : List Char} (starts : StartsLine before) :
    (lines before).length = before.count '\n' := by
  induction before using line_induction with
  | nil => rfl
  | last line free some => exact absurd (starts.eq_nil free) some
  | feed line more free ih =>
    rw [lines_feed free, List.length_cons, ih (startsLine_feed_iff.mp starts), List.count_append,
      List.count_eq_zero_of_not_mem free, List.count_cons_self, Nat.zero_add]

theorem dropReturn_of_bare {line : List Char} (bare : line.getLast? ≠ some '\r') :
    dropReturn line = line := if_neg (by simpa using bare)

theorem dropReturn_append (line : List Char) : dropReturn (line ++ ['\r']) = line := by
  rw [dropReturn, List.getLast?_append, if_pos (by rfl), List.dropLast_concat]

theorem dropReturn_append_of_bare {front : List Char} (bare : front.getLast? ≠ some '\r')
    (rest : List Char) : dropReturn (front ++ rest) = front ++ dropReturn rest := by
  rcases List.eq_nil_or_concat rest with rfl | ⟨init, c, rfl⟩
  · rw [List.append_nil, dropReturn_of_bare bare]
    exact (List.append_nil front).symm
  · rw [List.concat_eq_append, dropReturn, dropReturn, ← List.append_assoc, List.getLast?_concat,
      List.getLast?_concat, List.dropLast_concat, List.dropLast_concat]
    split
    · rfl
    · exact List.append_assoc ..

theorem eq_dropReturn_append {line : List Char} (returns : line.getLast? = some '\r') :
    line = dropReturn line ++ ['\r'] := by
  obtain ⟨front, rfl⟩ := List.getLast?_eq_some_iff.mp returns
  rw [dropReturn_append]

theorem lines_breaks {line ending after : List Char} (free : '\n' ∉ line)
    (breaks : Breaks line ending after) :
    lines (line ++ ending ++ after) = line :: lines after := by
  cases breaks with
  | feed _ bare =>
    rw [List.append_assoc, List.singleton_append, lines_feed free, dropReturn_of_bare bare]
  | returnFeed =>
    have free' : '\n' ∉ line ++ ['\r'] := by simp [free]
    have whole := lines_feed free' after
    rw [dropReturn_append] at whole
    rw [← whole]
    simp
  | none some =>
    rw [List.append_nil, List.append_nil, lines_of_free free some]
    rfl

/-- What stands in front of the text of a line stays in front of it, if no carriage return
is between them. -/
theorem lines_front {front : List Char} (bare : front.getLast? ≠ some '\r')
    (filled : front ≠ []) (free : '\n' ∉ front) {tail after : List Char} (tailFree : '\n' ∉ tail)
    (ends : EndsLine after) :
    ∃ rest, lines (front ++ tail ++ after) = (front ++ rest) :: lines after.tail := by
  have lineFree : '\n' ∉ front ++ tail := by simp [free, tailFree]
  cases after with
  | nil => exact ⟨tail, by rw [List.append_nil, lines_of_free lineFree (by simp [filled])]; rfl⟩
  | cons c more =>
    obtain rfl : c = '\n' := by simpa [EndsLine] using ends
    exact ⟨dropReturn tail, by rw [lines_feed lineFree, dropReturn_append_of_bare bare]; rfl⟩

theorem exists_endsLine (text : List Char) :
    ∃ line after, text = line ++ after ∧ '\n' ∉ line ∧ EndsLine after := by
  by_cases broken : '\n' ∈ text
  · obtain ⟨line, rest, rfl, free⟩ := List.eq_append_cons_of_mem broken
    exact ⟨line, '\n' :: rest, rfl, free, .inr rfl⟩
  · exact ⟨text, [], (List.append_nil text).symm, broken, .inl rfl⟩

theorem exists_breaks {line : List Char} (free : '\n' ∉ line) (rest : List Char) :
    ∃ ending, line ++ '\n' :: rest = dropReturn line ++ ending ++ rest ∧
      '\n' ∉ dropReturn line ∧ Breaks (dropReturn line) ending rest := by
  by_cases returns : line.getLast? = some '\r'
  · have parts := eq_dropReturn_append returns
    refine ⟨['\r', '\n'], ?_, ?_, .returnFeed rest⟩
    · rw [List.append_assoc]
      exact (congrArg (· ++ '\n' :: rest) parts).trans (by simp)
    · intro member
      rw [parts] at free
      exact free (List.mem_append_left _ member)
  · rw [dropReturn_of_bare returns]
    exact ⟨['\n'], by simp, free, .feed rest returns⟩

theorem isLine_iff {text line : List Char} {i : Nat} :
    IsLine text (i + 1) line ↔ (lines text)[i]? = some line := by
  constructor
  · rintro ⟨before, ending, after, rfl, starts, number, free, breaks⟩
    have here : i = (lines before).length := by rw [length_lines starts]; omega
    rw [List.append_assoc, List.append_assoc, lines_append starts, ← List.append_assoc,
      lines_breaks free breaks, here]
    simp
  · intro found
    induction text using line_induction generalizing i with
    | nil => cases found
    | last last free some =>
      rw [lines_of_free free some, List.getElem?_singleton] at found
      obtain ⟨rfl, rfl⟩ : i = 0 ∧ last = line := by simpa using found
      exact ⟨[], [], [], by simp, .inl rfl, rfl, free, .none some⟩
    | feed first rest free ih =>
      rw [lines_feed free] at found
      cases i with
      | zero =>
        obtain ⟨ending, whole, free', breaks⟩ := exists_breaks free rest
        obtain rfl : dropReturn first = line := by simpa using found
        exact ⟨[], ending, rest, whole, .inl rfl, rfl, free', breaks⟩
      | succ i =>
        obtain ⟨before, ending, after, rfl, starts, number, free', breaks⟩ := ih found
        refine ⟨first ++ '\n' :: before, ending, after, by simp, startsLine_feed_iff.mpr starts,
          ?_, free', breaks⟩
        rw [List.count_append, List.count_eq_zero_of_not_mem free, List.count_cons_self]
        omega

end TerminalFeed.Text
