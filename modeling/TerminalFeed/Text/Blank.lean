/-!
White space, and the ways a text is cut at it: into words, or trimmed at its
ends. Line feeds end lines; a carriage return directly before one belongs to
the line break.
-/

namespace TerminalFeed.Text

/-- The characters with the Unicode property White_Space. -/
def isBlank (c : Char) : Bool :=
  let n := c.toNat
  (9 ≤ n && n ≤ 13) || n == 32 || n == 0x85 || n == 0xA0 || n == 0x1680
    || (0x2000 ≤ n && n ≤ 0x200A) || n == 0x2028 || n == 0x2029
    || n == 0x202F || n == 0x205F || n == 0x3000

def words (text : List Char) : List (List Char) :=
  (text.splitOnP isBlank).filter (!·.isEmpty)

theorem words_of_word {word : List Char} (some : word ≠ [])
    (whole : ∀ c ∈ word, isBlank c = false) : words word = [word] := by
  rw [words, List.splitOnP_eq_singleton whole, List.filter_cons_of_pos (by simpa using some),
    List.filter_nil]

theorem words_append_cons {word : List Char} (some : word ≠ [])
    (whole : ∀ c ∈ word, isBlank c = false) {blank : Char} (parts : isBlank blank)
    (rest : List Char) : words (word ++ blank :: rest) = word :: words rest := by
  rw [words, List.splitOnP_append_cons_of_forall_mem whole _ parts,
    List.filter_cons_of_pos (by simpa using some), words]

def trimLeft (text : List Char) : List Char :=
  text.dropWhile isBlank

def trim (text : List Char) : List Char :=
  (trimLeft (trimLeft text).reverse).reverse

def dropReturn (line : List Char) : List Char :=
  if line.getLast? == some '\r' then line.dropLast else line

/-- The lines behind the pieces that line feeds separate: the last piece has no
line feed behind it, so it keeps its carriage return, and is no line if it is
empty. -/
def closeLines : List (List Char) → List (List Char)
  | [] => []
  | [last] => if last.isEmpty then [] else [last]
  | line :: rest => dropReturn line :: closeLines rest

def lines (text : List Char) : List (List Char) :=
  closeLines (text.splitOnP (· == '\n'))

end TerminalFeed.Text
