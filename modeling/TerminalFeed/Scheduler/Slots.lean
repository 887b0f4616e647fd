import TerminalFeed.Text.Magnitude

/-!
Delivery slots. A normal batch holds one from its submission until it has
entered its lane, so the pool bounds what is under way and not what is queued.
-/

namespace TerminalFeed

inductive Congestion where
  | none
  | light
  | moderate
  | heavy
  | blocked
  deriving DecidableEq, Repr

namespace Congestion

def name : Congestion → String
  | .none => "none"
  | .light => "light"
  | .moderate => "moderate"
  | .heavy => "heavy"
  | .blocked => "blocked"

def belowHeavy : Congestion → Bool
  | .heavy | .blocked => false
  | _ => true

/-- Whether the double nearest to `n / d` is below `k / 4`, for `k` up to 3.
Doubles just below `k / 4` lie `2 / scale` apart, and a tie goes up to it. -/
def quotientBelow (n d k scale : Nat) : Bool :=
  4 * scale * n < (k * scale - 4) * d

def ofSlots (available capacity : Nat) : Congestion :=
  let n := Text.roundToDouble available
  let d := Text.roundToDouble capacity
  if available = 0 ∨ capacity = 0 then .blocked
  else if quotientBelow n d 1 (Nat.pow 2 56) then .heavy
  else if quotientBelow n d 2 (Nat.pow 2 55) then .moderate
  else if quotientBelow n d 3 (Nat.pow 2 54) then .light
  else .none

end Congestion

structure SlotPool where
  capacity : Nat
  available : Nat
  closed : Bool
  handler : Option Nat
  deriving DecidableEq, Repr

namespace SlotPool

def maxCapacity : Nat := 2305843009213693951

def tooLarge : String :=
  "a semaphore may not have more than MAX_PERMITS permits ("
    ++ toString maxCapacity ++ ")"

def ofCapacity (capacity : Nat) : SlotPool := ⟨capacity, capacity, false, none⟩

def ofCapacity? (capacity : Nat) : Option SlotPool :=
  if capacity ≤ maxCapacity then some (ofCapacity capacity) else none

def congestion (pool : SlotPool) : Congestion := .ofSlots pool.available pool.capacity

inductive Acquisition where
  | granted (pool : SlotPool)
  | refused
  | wait
  deriving DecidableEq, Repr

def acquire (pool : SlotPool) : Acquisition :=
  if pool.closed then .refused
  else if pool.available = 0 then .wait
  else .granted { pool with available := pool.available - 1 }

def released (pool : SlotPool) : Option Nat :=
  if pool.congestion.belowHeavy then pool.handler else none

def release (pool : SlotPool) : SlotPool × Option Nat :=
  let pool := { pool with available := pool.available + 1 }
  (pool, pool.released)

def close (pool : SlotPool) : SlotPool := { pool with closed := true }

def setHandler (pool : SlotPool) (handler : Option Nat) : SlotPool :=
  { pool with handler := handler }

def describe (pool : SlotPool) : String :=
  "SlotPool \x7b capacity: " ++ toString pool.capacity ++ ", available: "
    ++ toString pool.available ++ " \x7d"

/-- What is taken for granted of the semaphore under the slots: its count of permits is
exact, and once it is closed it grants none. -/
structure ExactCount (pool : SlotPool) : Prop where
  granted : ∀ after, pool.acquire = .granted after ↔ pool.closed = false ∧ 0 < pool.available ∧
    after = { pool with available := pool.available - 1 }
  refused : pool.acquire = .refused ↔ pool.closed = true
  wait : pool.acquire = .wait ↔ pool.closed = false ∧ pool.available = 0
  returned : pool.release.1 = { pool with available := pool.available + 1 }
  closes : pool.close = { pool with closed := true }

theorem exactCount (pool : SlotPool) : pool.ExactCount where
  granted after := by
    unfold acquire
    split
    · simp_all
    · split
      · simp_all
      · rw [Acquisition.granted.injEq]
        grind
  refused := by
    unfold acquire
    split
    · simp_all
    · split <;> simp_all
  wait := by
    unfold acquire
    split
    · simp_all
    · split <;> simp_all
  returned := rfl
  closes := rfl

end SlotPool

end TerminalFeed
