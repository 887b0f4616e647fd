import TerminalFeed.Scheduler.Executor

/-!
The books of one lane, kept by its events alone: which batches have entered it,
what a discard has struck off them, and which tokens have been consumed. The
books are in order when they account for the batches that stand in line, the
one in progress included.
-/

namespace TerminalFeed

variable {α κ : Type}

structure Deposit (α : Type) where
  tokens : List α
  -- How many of them had not been consumed when the batch was dropped.
  dropped : Option Nat

def Deposit.contribution (d : Deposit α) : List α :=
  d.tokens.take (d.tokens.length - d.dropped.getD 0)

structure Ledger (α : Type) where
  -- Last one first.
  deposits : List (Deposit α)
  consumed : List α

namespace Ledger

def blank : Ledger α := ⟨[], []⟩

/-- Drops the batches of a line, last one first: they are the last that entered
and have not been dropped before. -/
def strike : List (Deposit α) → List (Batch α) → List (Deposit α)
  | [], _ => []
  | deposits, [] => deposits
  | d :: older, b :: line =>
    if d.dropped.isSome then d :: strike older (b :: line)
    else ⟨d.tokens, some b.remaining⟩ :: strike older line

def record (lane : Lane) (l : Ledger α) : Event α κ → Ledger α
  | .enqueued other batch =>
    if other = lane then { l with deposits := ⟨batch.rest, none⟩ :: l.deposits } else l
  | .discarded lanes =>
    { l with deposits := strike l.deposits (lanes.waiting lane).reverse }
  | .tokenDropped other token | .tokenExecuted other token =>
    if other = lane then { l with consumed := l.consumed ++ [token] } else l
  | _ => l

def ofEvents (lane : Lane) (events : List (Event α κ)) : Ledger α :=
  events.foldl (record lane) blank

def contents : List (Deposit α) → List α
  | [] => []
  | d :: older => contents older ++ d.contribution

/-- Whether the batches of a line, last one first, are the last deposits that
have not been dropped, each with the tokens that it has left. -/
def Standing : List (Deposit α) → List (Batch α) → Prop
  | _, [] => True
  | [], _ :: _ => False
  | d :: older, b :: line =>
    if d.dropped.isSome then Standing older (b :: line)
    else b.rest <:+ d.tokens ∧ Standing older line

/-- Deposits that account for a line, last batch first, and for what has been
consumed. Only the batch at the head of a line has been begun. -/
inductive Covers : List (Deposit α) → List (Batch α) → List α → Prop
  | clear (deposits : List (Deposit α)) : Covers deposits [] (contents deposits)
  | head (older : List (Deposit α)) (used : List α) (b : Batch α) :
      Covers (⟨used ++ b.rest, none⟩ :: older) [b] (contents older ++ used)
  | behind {older : List (Deposit α)} {line : List (Batch α)} {consumed : List α}
      (b : Batch α) (covers : Covers older line consumed) (occupied : line ≠ []) :
      Covers (⟨b.rest, none⟩ :: older) (b :: line) consumed
  | struck {older : List (Deposit α)} {line : List (Batch α)} {consumed : List α}
      {d : Deposit α} (covers : Covers older line consumed) (dropped : d.dropped.isSome)
      (untouched : d.contribution = []) :
      Covers (d :: older) line consumed

namespace Covers

variable {deposits : List (Deposit α)} {line waiting : List (Batch α)} {consumed : List α}
  {b : Batch α}

theorem contribution_kept (tokens : List α) :
    (⟨tokens, none⟩ : Deposit α).contribution = tokens := by
  simp [Deposit.contribution]

theorem contents_eq (covers : Covers deposits line consumed) :
    contents deposits = consumed ++ line.reverse.flatMap Batch.rest := by
  induction covers with
  | clear deposits => simp
  | head older used b => simp [contents, contribution_kept]
  | behind b covers occupied ih => simp [contents, contribution_kept, ih]
  | struck covers dropped untouched ih => simp [contents, untouched, ih]

theorem standing (covers : Covers deposits line consumed) : Standing deposits line := by
  induction covers with
  | clear deposits => simp [Standing]
  | head older used b => simp [Standing]
  | behind b covers occupied ih => simpa [Standing] using ih
  | @struck older line consumed d covers dropped untouched ih =>
    cases line with
    | nil => simp [Standing]
    | cons b line => simpa [Standing, dropped] using ih

theorem consumed_eq_contents (covers : Covers deposits [] consumed) :
    consumed = contents deposits := by
  rw [covers.contents_eq, List.reverse_nil, List.flatMap_nil, List.append_nil]

theorem enter (covers : Covers deposits line consumed) (b : Batch α) :
    Covers (⟨b.rest, none⟩ :: deposits) (b :: line) consumed := by
  by_cases empty : line = []
  · subst line
    have first := head deposits [] b
    rwa [← covers.consumed_eq_contents, List.append_nil] at first
  · exact behind b covers empty

theorem consume (covers : Covers deposits (line ++ [b]) consumed) {token : α}
    {rest : List α} {left : Batch α} (current : b.rest = token :: rest)
    (after : left.rest = rest) :
    Covers deposits (line ++ [left]) (consumed ++ [token]) := by
  -- The induction goes down from the last deposit to the one that is begun.
  generalize whole : line ++ [b] = all at covers
  induction covers generalizing line with
  | clear deposits => simp at whole
  | head older used first =>
    obtain ⟨rfl, ⟨⟩⟩ := List.append_inj' (show line ++ [b] = [] ++ [first] from whole) rfl
    have begun := head older (used ++ [token]) left
    simpa [current, after] using begun
  | behind last covers occupied ih =>
    cases line with
    | nil => exact absurd (List.cons.inj whole).2.symm occupied
    | cons other line =>
      obtain ⟨rfl, rfl⟩ := List.cons.inj whole
      exact behind other (ih rfl) (by simp)
  | struck covers dropped untouched ih => exact struck (ih whole) dropped untouched

theorem leave (covers : Covers deposits (line ++ [b]) consumed) (spent : b.rest = []) :
    Covers deposits line consumed := by
  generalize whole : line ++ [b] = all at covers
  induction covers generalizing line with
  | clear deposits => simp at whole
  | head older used first =>
    obtain ⟨rfl, ⟨⟩⟩ := List.append_inj' (show line ++ [b] = [] ++ [first] from whole) rfl
    have gone := clear (⟨used ++ b.rest, none⟩ :: older)
    simpa [contents, contribution_kept, spent] using gone
  | behind last covers occupied ih =>
    cases line with
    | nil => exact absurd (List.cons.inj whole).2.symm occupied
    | cons other line =>
      obtain ⟨rfl, rfl⟩ := List.cons.inj whole
      -- The next batch may now be the first, so `behind` does not apply as it is.
      exact (ih rfl).enter other
  | struck covers dropped untouched ih => exact struck (ih whole) dropped untouched

theorem strike_nil (deposits : List (Deposit α)) : strike deposits [] = deposits := by
  cases deposits <;> rfl

theorem drop (covers : Covers deposits (waiting ++ line) consumed) :
    Covers (strike deposits waiting) line consumed := by
  cases waiting with
  | nil => rwa [strike_nil]
  | cons last waiting =>
    generalize whole : last :: waiting ++ line = all at covers
    induction covers generalizing last waiting with
    | clear deposits => simp at whole
    | head older used first =>
      obtain ⟨rfl, rfl, rfl⟩ : last = first ∧ waiting = [] ∧ line = [] := by simpa using whole
      have gone := clear (⟨used ++ last.rest, some last.remaining⟩ :: older)
      simpa [strike, strike_nil, contents, Deposit.contribution, Batch.remaining] using gone
    | @behind older rest consumed other covers occupied ih =>
      obtain ⟨rfl, rfl⟩ := List.cons.inj whole
      have ahead : Covers (strike older waiting) line consumed := by
        cases waiting with
        | nil => rwa [strike_nil]
        | cons next waiting => exact ih next waiting rfl
      -- A batch behind another one has not been begun, and so contributes nothing.
      refine struck ahead rfl ?_
      simp [Deposit.contribution, Batch.remaining]
    | struck covers dropped untouched ih =>
      have older := ih last waiting whole
      simpa [strike, dropped] using older.struck dropped untouched

end Covers

def InOrder (l : Ledger α) (line : List (Batch α)) : Prop :=
  Covers l.deposits line.reverse l.consumed

namespace InOrder

variable {l : Ledger α} {line ahead waiting : List (Batch α)} {b : Batch α}

theorem blank : (Ledger.blank : Ledger α).InOrder [] :=
  .clear []

theorem enter (order : l.InOrder line) (b : Batch α) :
    ({ l with deposits := ⟨b.rest, none⟩ :: l.deposits } : Ledger α).InOrder (line ++ [b]) := by
  simpa [InOrder] using Covers.enter order b

theorem consume (order : l.InOrder (b :: line)) {token : α} {rest : List α} {left : Batch α}
    (current : b.rest = token :: rest) (after : left.rest = rest) :
    ({ l with consumed := l.consumed ++ [token] } : Ledger α).InOrder (left :: line) := by
  rw [InOrder, List.reverse_cons] at order ⊢
  exact order.consume current after

theorem leave (order : l.InOrder (b :: line)) (spent : b.rest = []) : l.InOrder line := by
  rw [InOrder, List.reverse_cons] at order
  exact order.leave spent

theorem drop (order : l.InOrder (ahead ++ waiting)) :
    ({ l with deposits := strike l.deposits waiting.reverse } : Ledger α).InOrder ahead := by
  rw [InOrder, List.reverse_append] at order
  exact order.drop

theorem balance (order : l.InOrder line) :
    l.consumed ++ line.flatMap Batch.rest = contents l.deposits := by
  simpa using order.contents_eq.symm

end InOrder

end Ledger

end TerminalFeed
