import TerminalFeed.Scheduler.Batch

/-!
Two queues of batches. The high lane is served before the normal one; a batch
that is left unfinished goes back to the front of its lane.
-/

namespace TerminalFeed

inductive Lane where
  | high
  | normal
  deriving DecidableEq, Repr

structure Lanes (α : Type) where
  high : List (Batch α)
  normal : List (Batch α)

namespace Lanes

variable {α : Type}

def empty : Lanes α := ⟨[], []⟩

def waiting (lanes : Lanes α) : Lane → List (Batch α)
  | .high => lanes.high
  | .normal => lanes.normal

def pushBack (lanes : Lanes α) (lane : Lane) (b : Batch α) : Lanes α :=
  match lane with
  | .high => { lanes with high := lanes.high ++ [b] }
  | .normal => { lanes with normal := lanes.normal ++ [b] }

def pushFront (lanes : Lanes α) (lane : Lane) (b : Batch α) : Lanes α :=
  match lane with
  | .high => { lanes with high := b :: lanes.high }
  | .normal => { lanes with normal := b :: lanes.normal }

def pop? (lanes : Lanes α) : Option (Lane × Batch α × Lanes α) :=
  match lanes.high, lanes.normal with
  | b :: rest, _ => some (.high, b, { lanes with high := rest })
  | [], b :: rest => some (.normal, b, { lanes with normal := rest })
  | [], [] => none

def hasHigh (lanes : Lanes α) : Bool := !lanes.high.isEmpty

def size (lanes : Lanes α) (lane : Lane) : Nat := (lanes.waiting lane).length

def isEmpty (lanes : Lanes α) : Bool := lanes.high.isEmpty && lanes.normal.isEmpty

def total (lanes : Lanes α) : Nat := lanes.high.length + lanes.normal.length

@[simp] theorem waiting_empty (lane : Lane) : (empty : Lanes α).waiting lane = [] := by
  cases lane <;> rfl

theorem waiting_pushBack (lanes : Lanes α) (lane other : Lane) (b : Batch α) :
    (lanes.pushBack lane b).waiting other =
      if other = lane then lanes.waiting other ++ [b] else lanes.waiting other := by
  cases lane <;> cases other <;> rfl

theorem waiting_pushFront (lanes : Lanes α) (lane other : Lane) (b : Batch α) :
    (lanes.pushFront lane b).waiting other =
      if other = lane then b :: lanes.waiting other else lanes.waiting other := by
  cases lane <;> cases other <;> rfl

/-- A batch comes from the front of its lane, and from the normal lane only
while the high one is empty. -/
theorem pop?_eq_some_iff {lanes after : Lanes α} {lane : Lane} {b : Batch α} :
    lanes.pop? = some (lane, b, after) ↔
      lanes = after.pushFront lane b ∧ (lane = .normal → after.high = []) := by
  obtain ⟨high, normal⟩ := lanes
  obtain ⟨high', normal'⟩ := after
  cases high <;> cases normal <;> cases lane <;> simp [pop?, pushFront] <;> grind

theorem pop?_eq_none_iff {lanes : Lanes α} : lanes.pop? = none ↔ lanes.isEmpty := by
  obtain ⟨high, normal⟩ := lanes
  cases high <;> cases normal <;> simp [pop?, isEmpty]

end Lanes

end TerminalFeed
