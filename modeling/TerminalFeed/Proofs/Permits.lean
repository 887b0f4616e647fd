import TerminalFeed.Scheduler.Slots

/-!
Every use of a pool of delivery slots. However slots are asked for and permits are dropped,
under whatever handlers, before the pool is closed and after it, the free slots and the
permits that live add up to the capacity, and a handler is called once for each drop that
leaves the pool below heavy congestion.
-/

namespace TerminalFeed

namespace Congestion

theorem belowHeavy_ofSlots (available capacity : Nat) :
    (ofSlots available capacity).belowHeavy ↔ 0 < available ∧ 0 < capacity ∧
      quotientBelow (Text.roundToDouble available) (Text.roundToDouble capacity) 1
        (Nat.pow 2 56) = false := by
  simp only [ofSlots, Nat.pos_iff_ne_zero]
  generalize quotientBelow _ _ 1 _ = heavy
  generalize quotientBelow _ _ 2 _ = moderate
  generalize quotientBelow _ _ 3 _ = light
  split
  · rename_i blocked
    simp only [belowHeavy, Bool.false_eq_true, false_iff]
    omega
  · rename_i unblocked
    rw [not_or] at unblocked
    cases heavy <;> cases moderate <;> cases light <;> simp [belowHeavy, unblocked]

/-- Up to this capacity the quotient of doubles decides as the exact one does: a pool is
below heavy congestion when a quarter of it is free. -/
theorem belowHeavy_iff_quarter {available capacity : Nat} (within : available ≤ capacity)
    (exact : capacity < Nat.pow 2 53) :
    (ofSlots available capacity).belowHeavy ↔ 0 < available ∧ capacity ≤ 4 * available := by
  rw [belowHeavy_ofSlots, Text.roundToDouble_of_lt (Nat.lt_of_le_of_lt within exact),
    Text.roundToDouble_of_lt exact, quotientBelow, decide_eq_false_iff_not]
  -- A share below a quarter is so by more than the doubles there lie apart.
  have small : capacity < 9007199254740992 := exact
  have scale : 4 * Nat.pow 2 56 = 288230376151711744 := rfl
  have share : 1 * Nat.pow 2 56 - 4 = 72057594037927932 := rfl
  rw [scale, share]
  omega

end Congestion

inductive PoolAct where
  -- Asks for a slot. Who does not wait for one is denied it if none is free.
  | acquire (waits : Bool)
  | drop (permit : Nat)
  | setHandler (handler : Option Nat)
  | close
  deriving DecidableEq, Repr

namespace PoolAct

def isDrop : PoolAct → Bool
  | .drop _ => true
  | _ => false

def handler (acts : List PoolAct) : Option Nat :=
  acts.foldl (fun earlier act =>
    match act with
    | .setHandler handler => handler
    | _ => earlier) none

@[simp] theorem handler_concat (acts : List PoolAct) (act : PoolAct) :
    handler (acts ++ [act]) =
      match act with
      | .setHandler handler => handler
      | _ => handler acts := by
  rw [handler, List.foldl_append]
  rfl

end PoolAct

/-- A pool in use. Permits are numbered as they are granted. -/
structure Lending where
  pool : SlotPool
  live : List Nat
  granted : Nat
  called : List Nat
  deriving DecidableEq, Repr

namespace Lending

variable {l after : Lending} {act : PoolAct} {acts : List PoolAct} {permit : Option Nat}
  {capacity : Nat}

def ofPool (pool : SlotPool) : Lending := ⟨pool, [], 0, []⟩

/-- What an act comes to, with the permit that it grants. It is not possible to drop a
permit twice, and who has to wait has yet to act. -/
def act? (l : Lending) : PoolAct → Option (Lending × Option Nat)
  | .acquire waits =>
    match l.pool.acquire with
    | .granted pool =>
      some ({ l with pool := pool, live := l.granted :: l.live, granted := l.granted + 1 },
        some l.granted)
    | .refused => some (l, none)
    | .wait => if waits then none else some (l, none)
  | .drop permit =>
    if permit ∈ l.live then
      let (pool, handler) := l.pool.release
      some (⟨pool, l.live.erase permit, l.granted, l.called ++ handler.toList⟩, none)
    else none
  | .setHandler handler => some ({ l with pool := l.pool.setHandler handler }, none)
  | .close => some ({ l with pool := l.pool.close }, none)

def play (l : Lending) (acts : List PoolAct) : Lending :=
  acts.foldl (fun l act => ((l.act? act).map Prod.fst).getD l) l

inductive Turn (l : Lending) : PoolAct → Option Nat → Lending → Prop
  | granted {waits : Bool} (unclosed : l.pool.closed = false) (free : 0 < l.pool.available) :
      Turn l (.acquire waits) (some l.granted)
        ⟨{ l.pool with available := l.pool.available - 1 }, l.granted :: l.live, l.granted + 1,
          l.called⟩
  | refused {waits : Bool} (closed : l.pool.closed = true) : Turn l (.acquire waits) none l
  | denied (unclosed : l.pool.closed = false) (taken : l.pool.available = 0) :
      Turn l (.acquire false) none l
  | dropped {permit : Nat} (lives : permit ∈ l.live) :
      Turn l (.drop permit) none
        ⟨l.pool.release.1, l.live.erase permit, l.granted, l.called ++ l.pool.release.2.toList⟩
  | set {handler : Option Nat} :
      Turn l (.setHandler handler) none { l with pool := l.pool.setHandler handler }
  | closed : Turn l .close none { l with pool := l.pool.close }

theorem act?_eq_some_iff : l.act? act = some (after, permit) ↔ Turn l act permit after := by
  constructor
  · intro acted
    cases act with
    | acquire waits =>
      rw [act?] at acted
      cases outcome : l.pool.acquire with
      | granted pool =>
        obtain ⟨unclosed, free, rfl⟩ := (l.pool.exactCount.granted _).mp outcome
        rw [outcome] at acted
        cases acted
        exact .granted unclosed free
      | refused =>
        rw [outcome] at acted
        cases acted
        exact .refused (l.pool.exactCount.refused.mp outcome)
      | wait =>
        obtain ⟨unclosed, taken⟩ := l.pool.exactCount.wait.mp outcome
        cases waits with
        | true => simp [outcome] at acted
        | false =>
          simp only [outcome, Bool.false_eq_true, if_false] at acted
          cases acted
          exact .denied unclosed taken
    | drop permit =>
      rw [act?, Option.ite_none_right_eq_some] at acted
      obtain ⟨lives, acted⟩ := acted
      cases acted
      exact .dropped lives
    | setHandler handler =>
      cases acted
      exact .set
    | close =>
      cases acted
      exact .closed
  · intro turn
    cases turn with
    | granted unclosed free =>
      rw [act?, (l.pool.exactCount.granted _).mpr ⟨unclosed, free, rfl⟩]
    | refused closed => rw [act?, l.pool.exactCount.refused.mpr closed]
    | denied unclosed taken =>
      rw [act?, l.pool.exactCount.wait.mpr ⟨unclosed, taken⟩]
      rfl
    | dropped lives => exact if_pos lives
    | set | closed => rfl

structure Sound (capacity : Nat) (acts : List PoolAct) (l : Lending) : Prop where
  whole : l.pool.capacity = capacity
  balance : l.pool.available + l.live.length = capacity
  closed : l.pool.closed ↔ .close ∈ acts
  handler : l.pool.handler = PoolAct.handler acts
  numbered : ∀ permit ∈ l.live, permit < l.granted
  once : l.live.Nodup

theorem sound_ofPool {pool : SlotPool} (accepted : SlotPool.ofCapacity? capacity = some pool) :
    Sound capacity [] (ofPool pool) := by
  obtain ⟨-, ⟨⟩⟩ := Option.ite_none_right_eq_some.mp accepted
  exact ⟨rfl, rfl, by simp [ofPool, SlotPool.ofCapacity], rfl, nofun, List.nodup_nil⟩

theorem Sound.idle (sound : l.Sound capacity acts) (unset : ∀ handler, act ≠ .setHandler handler)
    (unclosed : act ≠ .close) : l.Sound capacity (acts ++ [act]) := by
  obtain ⟨whole, balance, closed, handler, numbered, once⟩ := sound
  cases act with
  | acquire _ | drop _ =>
    exact ⟨whole, balance, by simpa using closed, by simpa using handler, numbered, once⟩
  | setHandler handler => exact absurd rfl (unset handler)
  | close => exact absurd rfl unclosed

theorem Sound.turn (sound : l.Sound capacity acts) (turn : Turn l act permit after) :
    after.Sound capacity (acts ++ [act]) := by
  have ⟨whole, balance, closed, handler, numbered, once⟩ := sound
  cases turn with
  | granted unclosed free =>
    refine ⟨whole, ?_, by simpa using closed, by simpa using handler, ?_, ?_⟩
    · simp only [List.length_cons]
      omega
    · intro number lives
      rcases List.mem_cons.mp lives with rfl | lived
      · exact Nat.lt_succ_self _
      · exact Nat.lt_succ_of_lt (numbered number lived)
    · exact List.nodup_cons.mpr ⟨fun lives => Nat.lt_irrefl _ (numbered _ lives), once⟩
  | refused _ | denied _ _ => exact sound.idle nofun nofun
  | dropped lives =>
    rw [l.pool.exactCount.returned]
    refine ⟨whole, ?_, by simpa using closed, by simpa using handler, ?_, ?_⟩
    · have some := List.length_pos_of_mem lives
      rw [List.length_erase_of_mem lives]
      dsimp only
      omega
    · exact fun number lives => numbered number (List.mem_of_mem_erase lives)
    · exact once.erase _
  | set =>
    exact ⟨whole, balance, by simpa [SlotPool.setHandler] using closed,
      by simp [SlotPool.setHandler], numbered, once⟩
  | closed =>
    rw [l.pool.exactCount.closes]
    exact ⟨whole, balance, by simp, by simpa using handler, numbered, once⟩

theorem Sound.passedOver (sound : l.Sound capacity acts) (impossible : l.act? act = none) :
    l.Sound capacity (acts ++ [act]) := by
  cases act with
  | acquire _ | drop _ => exact sound.idle nofun nofun
  | setHandler _ | close => cases impossible

theorem Sound.play (sound : l.Sound capacity acts) (more : List PoolAct) :
    (l.play more).Sound capacity (acts ++ more) := by
  induction more generalizing l acts with
  | nil => rwa [List.append_nil]
  | cons act rest ih =>
    have onward : l.play (act :: rest) = (((l.act? act).map Prod.fst).getD l).play rest := rfl
    rw [onward, List.append_cons]
    apply ih
    cases acted : l.act? act with
    | none => exact sound.passedOver acted
    | some result => exact sound.turn (act?_eq_some_iff.mp acted)

structure Balances (capacity : Nat) (acts : List PoolAct) (l : Lending) : Prop where
  balance : l.pool.available + l.live.length = capacity
  once : l.live.Nodup
  -- Who asks is granted a slot if the pool has not been closed and a slot is free, and
  -- only then.
  acquires : ∀ waits, (∃ after permit, l.act? (.acquire waits) = some (after, some permit)) ↔
    .close ∉ acts ∧ 0 < l.pool.available
  grants : ∀ waits after permit, l.act? (.acquire waits) = some (after, some permit) →
    permit ∉ l.live ∧ after.live = permit :: l.live ∧
      after.pool.available + 1 = l.pool.available
  -- Nothing comes of asking a closed pool, or of asking without waiting for a slot when
  -- none is free.
  refuses : ∀ waits, .close ∈ acts ∨ waits = false ∧ l.pool.available = 0 →
    l.act? (.acquire waits) = some (l, none)
  closes : ∃ after, l.act? .close = some (after, none) ∧ after.live = l.live ∧
    after.pool.available = l.pool.available
  -- A permit can be dropped while it lives, which returns its slot. The handler that is
  -- set at that time is called once if this leaves the pool below heavy congestion.
  drops : ∀ permit ∈ l.live, ∃ after, l.act? (.drop permit) = some (after, none) ∧
    after.live = l.live.erase permit ∧ after.pool.available = l.pool.available + 1 ∧
    after.called = l.called ++
      if after.pool.congestion.belowHeavy then (PoolAct.handler acts).toList else []
  -- No other act calls it.
  silent : ∀ act after permit, act.isDrop = false → l.act? act = some (after, permit) →
    after.called = l.called
  quarter : capacity < Nat.pow 2 53 →
    (l.pool.congestion.belowHeavy ↔ 0 < l.pool.available ∧ capacity ≤ 4 * l.pool.available)

theorem Sound.balances (sound : l.Sound capacity acts) : l.Balances capacity acts := by
  obtain ⟨whole, balance, closed, handler, numbered, once⟩ := sound
  have unclosed : l.pool.closed = false ↔ .close ∉ acts := by
    rw [← closed, Bool.not_eq_true]
  refine ⟨balance, once, fun waits => ?_, ?_, ?_, ⟨_, rfl, rfl, rfl⟩, ?_, ?_, ?_⟩
  · constructor
    · rintro ⟨after, permit, acted⟩
      cases act?_eq_some_iff.mp acted with
      | granted opened free => exact ⟨unclosed.mp opened, free⟩
    · rintro ⟨opened, free⟩
      exact ⟨_, _, act?_eq_some_iff.mpr (.granted (unclosed.mpr opened) free)⟩
  · intro waits after permit acted
    cases act?_eq_some_iff.mp acted with
    | granted opened free =>
      exact ⟨fun lives => Nat.lt_irrefl _ (numbered _ lives), rfl, Nat.sub_add_cancel free⟩
  · rintro waits (shut | ⟨rfl, taken⟩)
    · exact act?_eq_some_iff.mpr (.refused (closed.mpr shut))
    · cases shut : l.pool.closed with
      | true => exact act?_eq_some_iff.mpr (.refused shut)
      | false => exact act?_eq_some_iff.mpr (.denied shut taken)
  · intro permit lives
    refine ⟨_, act?_eq_some_iff.mpr (.dropped lives), rfl, rfl, ?_⟩
    have rung : l.pool.release.2 =
        if l.pool.release.1.congestion.belowHeavy then l.pool.handler else none := rfl
    rw [rung, ← handler]
    split <;> rfl
  · intro act after permit other acted
    cases act?_eq_some_iff.mp acted with
    | dropped lives => cases other
    | _ => rfl
  · intro exact
    rw [SlotPool.congestion, whole]
    exact Congestion.belowHeavy_iff_quarter (by omega) exact

/-- Whatever is done with a pool, in any order. -/
theorem play_balances {pool : SlotPool} (accepted : SlotPool.ofCapacity? capacity = some pool)
    (acts : List PoolAct) : Balances capacity acts ((ofPool pool).play acts) :=
  ((sound_ofPool accepted).play acts).balances

/-- Five slots are taken, and the sixth is denied. One free slot of five is heavy
congestion, so the handler is called for the second drop only, though the pool is closed
by then. -/
theorem play_balances_closed :
    let pool := SlotPool.ofCapacity 5
    let acts : List PoolAct := [.setHandler (some 7), .acquire true, .acquire false,
      .acquire true, .acquire true, .acquire true, .acquire false, .close, .drop 3, .drop 0,
      .acquire true, .drop 3]
    let l := (ofPool pool).play acts
    SlotPool.ofCapacity? 5 = some pool ∧ l.pool.available = 2 ∧ l.live = [4, 2, 1] ∧
      l.called = [7] ∧ Balances 5 acts l :=
  ⟨rfl, by decide, by decide, by decide, play_balances rfl _⟩

end Lending

end TerminalFeed
