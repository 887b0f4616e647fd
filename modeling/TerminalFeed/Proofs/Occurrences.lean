import Mathlib.Data.List.Lex
import Mathlib.Data.String.Basic
import TerminalFeed.Proofs.Lines
import TerminalFeed.Proofs.SourceText
import TerminalFeed.Proofs.WellFormed

/-!
Where the patterns of a rule occur in a tree: in which file, on which line, and which of the
patterns it is. The findings are the occurrences by their places, each of them once.
-/

namespace TerminalFeed.SourceRules

structure Place where
  path : List String
  line : Nat
  position : Nat

namespace Place

/-- By path, component by component, then by line, then by pattern. -/
def Before (p q : Place) : Prop :=
  p.path < q.path ∨
    p.path = q.path ∧ (p.line < q.line ∨ p.line = q.line ∧ p.position < q.position)

end Place

/-- The last entry that gives the path is a file with this content. -/
def FileAt (tree : List SourceEntry) (path : List String) (content : Bytes) : Prop :=
  ∃ below above, tree = below ++ ⟨path, some content⟩ :: above ∧ ∀ e ∈ above, e.path ≠ path

/-- A pattern occurs in the code of a line of a Rust source, and no line up to this one
starts the tests. -/
inductive Occurs (tree : List SourceEntry) (patterns : List String) : Place → Finding → Prop
  | intro {path : List String} {text line part : List Char} {n position : Nat} {pattern : String}
      (rust : NamesRust path) (file : FileAt tree path (Utf8.encode text))
      (isLine : Text.IsLine text n line)
      (early : ∀ m ≤ n, ∀ other, Text.IsLine text m other → ¬OpensTests other)
      (code : IsCode line part) (listed : patterns[position]? = some pattern)
      (contains : pattern.toList <:+: part) :
      Occurs tree patterns ⟨path, n, position⟩
        ⟨path, n, pattern, String.ofList (Text.trim line)⟩

/-! ### The files of a tree -/

theorem content?_eq_some_iff {tree : List SourceEntry} {path : List String} {content : Bytes} :
    content? tree path = some content ↔ FileAt tree path content := by
  simp only [content?, Option.bind_eq_some_iff, List.find?_eq_some_iff_append]
  constructor
  · rintro ⟨⟨path', _⟩, ⟨named, above, below, reversed, others⟩, rfl⟩
    obtain rfl : path' = path := by simpa using named
    refine ⟨below.reverse, above.reverse, ?_, fun e member => ?_⟩
    · simpa using congrArg List.reverse reversed
    · simpa using others e (List.mem_reverse.mp member)
  · rintro ⟨below, above, rfl, others⟩
    refine ⟨⟨path, some content⟩, ⟨by simp, above.reverse, below.reverse, by simp, ?_⟩, rfl⟩
    intro e member
    simpa using others e (List.mem_reverse.mp member)

theorem before_iff {a b : List String} : before a b ↔ a ≤ b := by
  rw [← not_lt]
  induction a generalizing b with
  | nil => simp [before]
  | cons name rest ih =>
    cases b with
    | nil => simp [before]
    | cons name' rest' =>
      rw [before, List.cons_lt_cons_iff]
      by_cases same : name = name'
      · simp [same, ih]
      · rw [if_neg (by simpa using same), decide_eq_true_iff, not_or, not_lt,
          and_iff_left fun both => same both.1.symm]
        exact (Ne.le_iff_lt same).symm

theorem nodup_eraseDups {α : Type} [BEq α] [LawfulBEq α] : (l : List α) → l.eraseDups.Nodup
  | [] => by simp
  | a :: rest => by
    rw [List.eraseDups_cons, List.nodup_cons]
    exact ⟨by simp, nodup_eraseDups _⟩
  termination_by l => l.length
  decreasing_by exact Nat.lt_succ_of_le (List.length_filter_le _ _)

theorem mem_rustFiles {tree : List SourceEntry} {path : List String} :
    path ∈ rustFiles tree ↔ (∃ e ∈ tree, e.path = path) ∧ NamesRust path := by
  simp [rustFiles, ← isRust_iff]

theorem rustFiles_sorted (tree : List SourceEntry) : (rustFiles tree).Pairwise (· < ·) := by
  have sorted : (rustFiles tree).Pairwise fun a b => before a b := by
    apply List.pairwise_mergeSort
    · intro a b c
      simp only [before_iff]
      exact le_trans
    · intro a b
      simp only [Bool.or_eq_true, before_iff]
      exact le_total a b
  have apart : (rustFiles tree).Nodup :=
    (List.mergeSort_perm _ _).nodup_iff.mpr (nodup_eraseDups _)
  refine (sorted.and apart).imp fun {a b} both => ?_
  exact lt_of_le_of_ne (before_iff.mp both.1) both.2

/-! ### The lines of a file -/

theorem getElem?_takeWhile_eq_some {α : Type} {p : α → Bool} {l : List α} {i : Nat} {a : α} :
    (l.takeWhile p)[i]? = some a ↔ l[i]? = some a ∧ ∀ j ≤ i, ∀ b, l[j]? = some b → p b := by
  induction l generalizing i with
  | nil => simp
  | cons first rest ih =>
    by_cases passes : p first
    · rw [List.takeWhile_cons_of_pos passes]
      cases i with
      | zero =>
        rw [List.getElem?_cons_zero]
        refine ⟨fun at_i => ⟨at_i, fun j bound b at_j => ?_⟩, And.left⟩
        obtain rfl := Nat.le_zero.mp bound
        obtain rfl : first = b := by simpa using at_j
        exact passes
      | succ i =>
        rw [List.getElem?_cons_succ, List.getElem?_cons_succ, ih]
        refine and_congr_right fun _ => ⟨fun every j bound b at_j => ?_, fun every j bound => ?_⟩
        · cases j with
          | zero =>
            obtain rfl : first = b := by simpa using at_j
            exact passes
          | succ j => exact every j (Nat.le_of_succ_le_succ bound) b at_j
        · exact every (j + 1) (Nat.succ_le_succ bound)
    · rw [List.takeWhile_cons_of_neg passes]
      simp only [List.getElem?_nil, reduceCtorEq, false_iff, not_and]
      intro _ every
      exact passes (every 0 (Nat.zero_le i) first rfl)

theorem getElem?_production {text line : List Char} {i : Nat} :
    (production text)[i]? = some line ↔ Text.IsLine text (i + 1) line ∧
      ∀ m ≤ i + 1, ∀ other, Text.IsLine text m other → ¬OpensTests other := by
  rw [production, getElem?_takeWhile_eq_some, Text.isLine_iff]
  refine and_congr_right fun _ => ⟨fun every m bound other isLine opens => ?_,
    fun every j bound other at_j => ?_⟩
  · obtain ⟨j, rfl⟩ := Nat.exists_eq_add_of_le' isLine.pos
    have production := every j (by omega) other (Text.isLine_iff.mp isLine)
    rw [startsTests_iff.mpr opens] at production
    cases production
  · have clear := every (j + 1) (by omega) other (Text.isLine_iff.mpr at_j)
    rw [← startsTests_iff] at clear
    simpa using clear

/-! ### Occurrences, with their places -/

def occurrencesIn (path : List String) (patterns : List String) (text : List Char) :
    List (Place × Finding) :=
  (production text).zipIdx.flatMap fun (line, i) =>
    (patterns.zipIdx.filter fun (pattern, _) => holds pattern.toList (code line)).map
      fun (pattern, position) =>
        (⟨path, i + 1, position⟩, ⟨path, i + 1, pattern, String.ofList (Text.trim line)⟩)

def occurrencesAt (tree : List SourceEntry) (patterns : List String) (path : List String) :
    List (Place × Finding) :=
  match (content? tree path).bind Utf8.decode? with
  | some text => occurrencesIn path patterns text
  | none => []

def occurrences (tree : List SourceEntry) (patterns : List String) : List (Place × Finding) :=
  (rustFiles tree).flatMap (occurrencesAt tree patterns)

theorem map_snd_occurrencesIn (path : List String) (patterns : List String) (text : List Char) :
    (occurrencesIn path patterns text).map Prod.snd = findingsIn path patterns text := by
  rw [occurrencesIn, findingsIn, List.map_flatMap]
  refine List.flatMap_congr fun entry _ => ?_
  dsimp only
  rw [List.map_map]
  conv_rhs => rw [← List.zipIdx_map_fst 0 patterns, List.filter_map, List.map_map]
  rfl

theorem map_snd_occurrences (tree : List SourceEntry) (patterns : List String) :
    (occurrences tree patterns).map Prod.snd = findings tree patterns := by
  rw [occurrences, findings, List.map_flatMap]
  refine List.flatMap_congr fun path _ => ?_
  rw [occurrencesAt]
  cases (content? tree path).bind Utf8.decode? with
  | some text => exact map_snd_occurrencesIn path patterns text
  | none => rfl

theorem pairwise_zipIdx {α : Type} (l : List α) : l.zipIdx.Pairwise fun a b => a.2 < b.2 := by
  rw [← List.pairwise_map, List.zipIdx_map_snd]
  exact List.pairwise_lt_range' 1

theorem mem_occurrencesIn {path : List String} {patterns : List String} {text : List Char}
    {place : Place} {found : Finding} :
    (place, found) ∈ occurrencesIn path patterns text ↔
      ∃ line i pattern position, (production text)[i]? = some line ∧
        patterns[position]? = some pattern ∧ holds pattern.toList (code line) ∧
        place = ⟨path, i + 1, position⟩ ∧
        found = ⟨path, i + 1, pattern, String.ofList (Text.trim line)⟩ := by
  simp only [occurrencesIn, List.mem_flatMap, List.mem_map, List.mem_filter, Prod.exists,
    List.mem_zipIdx_iff_getElem?, Prod.mk.injEq]
  constructor
  · rintro ⟨line, i, at_i, pattern, position, ⟨listed, contains⟩, rfl, rfl⟩
    exact ⟨line, i, pattern, position, at_i, listed, contains, rfl, rfl⟩
  · rintro ⟨line, i, pattern, position, at_i, listed, contains, rfl, rfl⟩
    exact ⟨line, i, at_i, pattern, position, ⟨listed, contains⟩, rfl, rfl⟩

theorem mem_occurrencesAt {tree : List SourceEntry} {patterns : List String} {path : List String}
    {place : Place} {found : Finding} :
    (place, found) ∈ occurrencesAt tree patterns path ↔
      ∃ text, FileAt tree path (Utf8.encode text) ∧
        (place, found) ∈ occurrencesIn path patterns text := by
  have read (text : List Char) : FileAt tree path (Utf8.encode text) ↔
      (content? tree path).bind Utf8.decode? = some text := by
    simp [Option.bind_eq_some_iff, Utf8.decode?_eq_some_iff, content?_eq_some_iff]
  simp only [read, occurrencesAt]
  cases (content? tree path).bind Utf8.decode? with
  | some text => simp
  | none => simp

theorem mem_occurrences {tree : List SourceEntry} {patterns : List String} {place : Place}
    {found : Finding} :
    (place, found) ∈ occurrences tree patterns ↔ Occurs tree patterns place found := by
  simp only [occurrences, List.mem_flatMap, mem_occurrencesAt, mem_rustFiles]
  constructor
  · rintro ⟨path, ⟨-, rust⟩, text, file, member⟩
    obtain ⟨line, i, pattern, position, at_i, listed, contains, rfl, rfl⟩ :=
      mem_occurrencesIn.mp member
    obtain ⟨isLine, early⟩ := getElem?_production.mp at_i
    exact .intro rust file isLine early (isCode_code line) listed (holds_iff.mp contains)
  · rintro ⟨rust, file, isLine, early, code, listed, contains⟩
    rename_i path text line part n position pattern
    obtain ⟨i, rfl⟩ := Nat.exists_eq_add_of_le' isLine.pos
    have entry : ∃ e ∈ tree, e.path = path := by
      obtain ⟨below, above, rfl, -⟩ := file
      exact ⟨⟨path, some (Utf8.encode text)⟩, by simp, rfl⟩
    rw [← code_eq_iff] at code
    rw [← code, ← holds_iff] at contains
    exact ⟨path, ⟨entry, rust⟩, text, file, mem_occurrencesIn.mpr
      ⟨line, i, pattern, position, getElem?_production.mpr ⟨isLine, early⟩, listed, contains, rfl,
        rfl⟩⟩

theorem occurrencesIn_sorted (path : List String) (patterns : List String) (text : List Char) :
    (occurrencesIn path patterns text).Pairwise fun a b => a.1.Before b.1 := by
  rw [occurrencesIn, List.pairwise_flatMap]
  constructor
  · rintro ⟨line, i⟩ -
    rw [List.pairwise_map]
    refine ((pairwise_zipIdx patterns).filter _).imp fun {a b} earlier => ?_
    exact .inr ⟨rfl, .inr ⟨rfl, earlier⟩⟩
  · refine (pairwise_zipIdx (production text)).imp fun {a b} earlier => ?_
    simp only [List.forall_mem_map]
    exact fun _ _ _ _ => .inr ⟨rfl, .inl (Nat.succ_lt_succ earlier)⟩

theorem path_of_mem_occurrencesAt {tree : List SourceEntry} {patterns : List String}
    {path : List String} {o : Place × Finding} (member : o ∈ occurrencesAt tree patterns path) :
    o.1.path = path := by
  obtain ⟨text, -, inText⟩ := mem_occurrencesAt.mp member
  obtain ⟨_, _, _, _, -, -, -, place, -⟩ := mem_occurrencesIn.mp inText
  rw [place]

theorem occurrences_sorted (tree : List SourceEntry) (patterns : List String) :
    (occurrences tree patterns).Pairwise fun a b => a.1.Before b.1 := by
  rw [occurrences, List.pairwise_flatMap]
  constructor
  · intro path _
    rw [occurrencesAt]
    cases (content? tree path).bind Utf8.decode? with
    | some text => exact occurrencesIn_sorted path patterns text
    | none => exact .nil
  · refine (rustFiles_sorted tree).imp fun {a b} earlier o inA o' inB => .inl ?_
    rw [path_of_mem_occurrencesAt inA, path_of_mem_occurrencesAt inB]
    exact earlier

end TerminalFeed.SourceRules
