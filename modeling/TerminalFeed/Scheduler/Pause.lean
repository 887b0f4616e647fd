/-!
Pauses are counted. Each token adds one to the count of its scope until it is
given back; a scheduler is paused while its own count or the count for all is
positive. When a count falls to zero, those it held are woken.
-/

namespace TerminalFeed

inductive PauseScope where
  | all
  | only (member : Nat)
  deriving DecidableEq, Repr

structure PauseMember where
  count : Nat
  -- How many of the scheduler's parts still refer to its count.
  owners : Nat
  deriving DecidableEq, Repr

structure PauseBoard where
  all : Nat
  members : List PauseMember
  -- Those to wake when the pause for all is over. To be on it keeps nobody alive.
  roster : List Nat
  deriving DecidableEq, Repr

namespace PauseBoard

def empty : PauseBoard := ⟨0, [], []⟩

def count (board : PauseBoard) : PauseScope → Nat
  | .all => board.all
  | .only member => ((board.members[member]?).map PauseMember.count).getD 0

def owners (board : PauseBoard) (member : Nat) : Nat :=
  ((board.members[member]?).map PauseMember.owners).getD 0

/-- Tokens refer to the count of their scheduler too. -/
def isLive (board : PauseBoard) (member : Nat) : Bool :=
  0 < board.owners member + board.count (.only member)

def prune (board : PauseBoard) : PauseBoard :=
  { board with roster := board.roster.filter board.isLive }

/-- A new scheduler, whose executor and handle both refer to its count. -/
def register (board : PauseBoard) : PauseBoard :=
  { board with
    members := board.members ++ [⟨0, 2⟩]
    roster := board.prune.roster ++ [board.members.length] }

def isPaused (board : PauseBoard) (member : Nat) : Bool :=
  0 < board.count (.only member) || 0 < board.all

def setCount (board : PauseBoard) (scope : PauseScope) (n : Nat) : PauseBoard :=
  match scope with
  | .all => { board with all := n }
  | .only member =>
    { board with members := board.members.modify member fun m => { m with count := n } }

def take (board : PauseBoard) (scope : PauseScope) : PauseBoard :=
  board.setCount scope (board.count scope + 1)

def lift (board : PauseBoard) : PauseScope → PauseBoard × List Nat
  | .all => (board.prune, board.prune.roster)
  | .only member => (board, [member])

/-- Gives a token back, with the members to wake. A count that is zero has no
token to give back. -/
def release? (board : PauseBoard) (scope : PauseScope) : Option (PauseBoard × List Nat) :=
  match board.count scope with
  | 0 => none
  | n + 1 =>
    let after := board.setCount scope n
    some (if n = 0 then after.lift scope else (after, []))

def disown (board : PauseBoard) (member : Nat) : PauseBoard :=
  { board with members := board.members.modify member fun m =>
      { m with owners := m.owners - 1 } }

theorem isPaused_iff (board : PauseBoard) (member : Nat) :
    board.isPaused member ↔ 0 < board.count (.only member) ∨ 0 < board.count .all := by
  rw [isPaused, Bool.or_eq_true, decide_eq_true_iff, decide_eq_true_iff]
  rfl

theorem isLive_iff (board : PauseBoard) (member : Nat) :
    board.isLive member ↔ 0 < board.owners member ∨ 0 < board.count (.only member) := by
  rw [isLive, decide_eq_true_iff]
  omega

theorem mem_prune {board : PauseBoard} {member : Nat} :
    member ∈ board.prune.roster ↔ member ∈ board.roster ∧ board.isLive member :=
  List.mem_filter

theorem count_setCount_of_ne (board : PauseBoard) {scope other : PauseScope} (n : Nat)
    (distinct : other ≠ scope) : (board.setCount scope n).count other = board.count other := by
  cases scope <;> cases other <;> simp_all [setCount, count, List.getElem?_modify]
  grind

theorem count_setCount_self (board : PauseBoard) (scope : PauseScope) (n : Nat)
    (known : ∀ member, scope = .only member → member < board.members.length) :
    (board.setCount scope n).count scope = n := by
  cases scope with
  | all => rfl
  | only member => simp [setCount, count, known member rfl]

@[simp] theorem owners_setCount (board : PauseBoard) (scope : PauseScope) (n member : Nat) :
    (board.setCount scope n).owners member = board.owners member := by
  cases scope with
  | all => rfl
  | only other => by_cases same : other = member <;> simp [setCount, owners, same]; rfl

@[simp] theorem roster_setCount (board : PauseBoard) (scope : PauseScope) (n : Nat) :
    (board.setCount scope n).roster = board.roster := by
  cases scope <;> rfl

@[simp] theorem length_setCount (board : PauseBoard) (scope : PauseScope) (n : Nat) :
    (board.setCount scope n).members.length = board.members.length := by
  cases scope <;> simp [setCount]

@[simp] theorem count_register (board : PauseBoard) (scope : PauseScope) :
    board.register.count scope = board.count scope := by
  cases scope with
  | all => rfl
  | only member =>
    simp only [register, count, List.getElem?_append]
    split
    · rfl
    · rename_i outside
      rw [List.getElem?_eq_none (Nat.not_lt.mp outside)]
      cases member - board.members.length <;> rfl

theorem owners_register (board : PauseBoard) (member : Nat) :
    board.register.owners member =
      if member = board.members.length then 2 else board.owners member := by
  simp only [register, owners, List.getElem?_append]
  split
  · rename_i inside
    rw [if_neg (Nat.ne_of_lt inside)]
  · rename_i outside
    rw [List.getElem?_eq_none (Nat.not_lt.mp outside)]
    cases past : member - board.members.length with
    | zero => rw [if_pos (by omega)]; rfl
    | succ n => rw [if_neg (by omega)]; rfl

@[simp] theorem count_disown (board : PauseBoard) (other : Nat) (scope : PauseScope) :
    (board.disown other).count scope = board.count scope := by
  cases scope with
  | all => rfl
  | only member => by_cases same : other = member <;> simp [count, disown, same]; rfl

theorem owners_disown (board : PauseBoard) (other member : Nat) :
    (board.disown other).owners member =
      if other = member then board.owners member - 1 else board.owners member := by
  by_cases same : other = member
  · subst other
    cases found : board.members[member]? <;> simp [owners, disown, found]
  · simp [owners, disown, same]

end PauseBoard

end TerminalFeed
