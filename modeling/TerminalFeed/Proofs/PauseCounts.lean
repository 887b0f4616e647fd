import TerminalFeed.Proofs.Pauses
import TerminalFeed.Scenario.World

/-!
Every order of pauses. However tokens are taken and given back, and schedulers
come and go, a count is that of its tokens, and whoever a token has held is
woken once when the last one is gone.
-/

namespace TerminalFeed

variable {α κ ε : Type}

namespace Scheduler

def wake (s : Scheduler α κ ε) : Scheduler α κ ε := (s.send .wake).1

def post (s : Scheduler α κ ε) (mail : List (Message α κ)) : Scheduler α κ ε :=
  if s.executor.hasEnded then s
  else { s with executor := { s.executor with mailbox := s.executor.mailbox ++ mail } }

theorem wake_eq (s : Scheduler α κ ε) : s.wake = s.post [.wake] := by
  cases ended : s.executor.hasEnded <;> simp [wake, send, Executor.send?, post, ended]

theorem post_nil (s : Scheduler α κ ε) : s.post [] = s := by
  rw [post, List.append_nil]
  split <;> rfl

theorem hasEnded_post (s : Scheduler α κ ε) (mail : List (Message α κ)) :
    (s.post mail).executor.hasEnded = s.executor.hasEnded := by
  rw [post]
  split <;> rfl

theorem post_post (s : Scheduler α κ ε) (first second : List (Message α κ)) :
    (s.post first).post second = s.post (first ++ second) := by
  rw [post, hasEnded_post]
  cases ended : s.executor.hasEnded <;> simp [post, ended]

end Scheduler

def wakeAll (seats : List (Scheduler α κ ε)) (woken : List Nat) : List (Scheduler α κ ε) :=
  woken.foldl (fun seats k => seats.modify k Scheduler.wake) seats

theorem length_wakeAll (seats : List (Scheduler α κ ε)) (woken : List Nat) :
    (wakeAll seats woken).length = seats.length := by
  induction woken generalizing seats with
  | nil => rfl
  | cons first rest ih => exact (ih _).trans (List.length_modify _ _ _)

theorem getElem?_wakeAll (seats : List (Scheduler α κ ε)) (woken : List Nat) (k : Nat) :
    (wakeAll seats woken)[k]? =
      seats[k]?.map fun seat => seat.post (.replicate (woken.count k) .wake) := by
  induction woken generalizing seats with
  | nil => simp [wakeAll, Scheduler.post_nil]
  | cons first rest ih =>
    have onward : wakeAll seats (first :: rest) =
        wakeAll (seats.modify first Scheduler.wake) rest := rfl
    rw [onward, ih, List.getElem?_modify]
    by_cases here : first = k
    · subst first
      cases seats[k]? with
      | none => rfl
      | some seat => simp [Scheduler.wake_eq, Scheduler.post_post, List.replicate_succ]
    · simp [here]

/-- What can be done where there are pauses. A token is given back when it is
released, and when it is dropped without. -/
inductive PauseAct (α κ ε : Type) where
  | start (capacity : Nat)
  | take (scope : PauseScope)
  | giveBack (scope : PauseScope)
  -- The executor of a scheduler ends, or its last handle goes.
  | leave (member : Nat)
  -- Whatever else becomes of a scheduler.
  | work (member : Nat) (seat : Scheduler α κ ε)

/-- All schedulers, the pauses among them, and the tokens that are out. -/
structure Fleet (α κ ε : Type) where
  board : PauseBoard
  seats : List (Scheduler α κ ε)
  tokens : List PauseScope

structure PauseMoment (α κ ε : Type) where
  before : Fleet α κ ε
  act : PauseAct α κ ε
  woken : List Nat
  after : Fleet α κ ε

namespace PauseBoard

variable {board after : PauseBoard} {scope : PauseScope} {member : Nat} {woken : List Nat}

/-- Only who has a part of a scheduler can pause it. -/
def canTake (board : PauseBoard) : PauseScope → Bool
  | .all => true
  | .only member => 0 < board.owners member

def lifts (board after : PauseBoard) (scope : PauseScope) : Bool :=
  board.count scope == 1 && after.count scope == 0

theorem lifts_of_le (grown : board.count scope ≤ after.count scope) :
    board.lifts after scope = false := by
  rw [lifts, Bool.and_eq_false_iff, beq_eq_false_iff_ne, beq_eq_false_iff_ne]
  omega

theorem count_take (can : board.canTake scope) (other : PauseScope) :
    (board.take scope).count other = board.count other + if other = scope then 1 else 0 := by
  rw [take]
  split
  · subst other
    refine count_setCount_self _ _ _ ?_
    rintro member rfl
    exact lt_of_owners (of_decide_eq_true can)
  · rename_i distinct
    exact count_setCount_of_ne _ _ distinct

theorem isLive_take (can : board.canTake scope) (live : (board.take scope).isLive member) :
    board.isLive member := by
  rw [isLive_iff, count_take can, take, owners_setCount] at live
  rw [isLive_iff]
  by_cases mine : PauseScope.only member = scope
  · subst scope
    exact .inl (of_decide_eq_true can)
  · simpa [mine] using live

theorem isLive_release (released : board.release? scope = some (after, woken))
    (live : after.isLive member) : board.isLive member := by
  rw [isLive_iff, owners_release released, count_release released] at live
  rw [isLive_iff]
  omega

theorem isLive_disown {other : Nat} (live : (board.disown other).isLive member) :
    board.isLive member := by
  rw [isLive_iff, owners_disown, count_disown] at live
  rw [isLive_iff]
  split at live <;> omega

theorem lifts_release (released : board.release? scope = some (after, woken))
    (other : PauseScope) :
    board.lifts after other = decide (other = scope ∧ board.count scope = 1) := by
  rw [lifts, count_release released]
  by_cases same : other = scope
  · subst other
    simp only [if_true, true_and]
    rw [Bool.eq_iff_iff, Bool.and_eq_true, beq_iff_eq, beq_iff_eq, decide_eq_true_iff]
    omega
  · simp only [same, false_and, if_false, decide_false, Nat.sub_zero, Bool.and_eq_false_iff,
      beq_eq_false_iff_ne]
    omega

/-- A release wakes whom a count of their own has held, if it goes to zero. When
the pause for all is over it wakes everyone who is still there. -/
theorem count_woken (released : board.release? scope = some (after, woken))
    (once : board.roster.Nodup) (listed : board.isLive member → member ∈ board.roster) :
    woken.count member = (board.lifts after (.only member)).toNat +
      (board.isLive member && board.lifts after .all).toNat := by
  rw [lifts_release released, lifts_release released]
  rcases release_cases released with ⟨one, -, rfl⟩ | ⟨more, -, rfl⟩
  · cases scope with
    | only other =>
      by_cases mine : other = member
      · subst other
        simp [lift, one]
      · simp [lift, mine, Ne.symm mine]
    | all =>
      -- Who is there is on the roster, and on it once.
      have same : ((board.setCount .all 0).lift .all).2 = board.prune.roster := rfl
      have distinct : board.prune.roster.Nodup := once.filter _
      rw [same, List.Nodup.count distinct, one]
      cases live : board.isLive member with
      | true => simp [mem_prune, live, listed live]
      | false => simp [mem_prune, live]
  · have several : board.count scope ≠ 1 := Nat.ne_of_gt more
    simp [several]

end PauseBoard

namespace PauseAct

def handles (k : Nat) : PauseAct α κ ε → Bool
  | .work member _ => member == k
  | _ => false

def starts : PauseAct α κ ε → Bool
  | .start _ => true
  | _ => false

def leaves (k : Nat) : PauseAct α κ ε → Bool
  | .leave member => member == k
  | _ => false

end PauseAct

namespace Fleet

variable {f after : Fleet α κ ε} {act : PauseAct α κ ε} {woken : List Nat}

def empty : Fleet α κ ε := ⟨.empty, [], []⟩

def started (history : List (PauseMoment α κ ε)) : Nat :=
  history.countP fun m => m.act.starts

def partsGone (history : List (PauseMoment α κ ε)) (k : Nat) : Nat :=
  history.countP fun m => m.act.leaves k

@[simp] theorem started_concat (past : List (PauseMoment α κ ε)) (m : PauseMoment α κ ε) :
    started (past ++ [m]) = started past + m.act.starts.toNat := by
  rw [started, List.countP_append, List.countP_singleton]
  cases m.act.starts <;> rfl

@[simp] theorem partsGone_concat (past : List (PauseMoment α κ ε)) (m : PauseMoment α κ ε)
    (k : Nat) : partsGone (past ++ [m]) k = partsGone past k + (m.act.leaves k).toNat := by
  rw [partsGone, List.countP_append, List.countP_singleton]
  cases m.act.leaves k <;> rfl

def act? (f : Fleet α κ ε) : PauseAct α κ ε → Option (Fleet α κ ε × List Nat)
  | .start capacity =>
    some ({ f with board := f.board.register, seats := f.seats ++ [.ofCapacity capacity] }, [])
  | .take scope =>
    if f.board.canTake scope then
      some ({ f with board := f.board.take scope, tokens := scope :: f.tokens }, [])
    else none
  | .giveBack scope =>
    if scope ∈ f.tokens then
      (f.board.release? scope).map fun (board, woken) =>
        (⟨board, wakeAll f.seats woken, f.tokens.erase scope⟩, woken)
    else none
  | .leave member =>
    if 0 < f.board.owners member then some ({ f with board := f.board.disown member }, [])
    else none
  | .work member seat => some ({ f with seats := f.seats.set member seat }, [])

def play (f : Fleet α κ ε) :
    List (PauseAct α κ ε) → List (PauseMoment α κ ε) × Fleet α κ ε
  | [] => ([], f)
  | act :: rest =>
    match f.act? act with
    | none => f.play rest
    | some (after, woken) =>
      let (later, last) := after.play rest
      (⟨f, act, woken, after⟩ :: later, last)

structure Sound (f : Fleet α κ ε) : Prop where
  counted : ∀ scope, f.board.count scope = f.tokens.count scope
  listed : ∀ k, f.board.isLive k → k ∈ f.board.roster
  once : f.board.roster.Nodup
  known : ∀ k ∈ f.board.roster, k < f.board.members.length
  seated : f.seats.length = f.board.members.length

theorem Sound.start (sound : f.Sound) (capacity : Nat) :
    Sound { f with
      board := f.board.register
      seats := f.seats ++ [.ofCapacity capacity] } where
  counted scope := (PauseBoard.count_register _ _).trans (sound.counted scope)
  listed k live := by
    rw [PauseBoard.isLive_iff, PauseBoard.owners_register, PauseBoard.count_register] at live
    by_cases new : k = f.board.members.length
    · exact List.mem_append_right _ (List.mem_singleton.mpr new)
    · -- Only those who are gone have been struck off.
      rw [if_neg new, ← PauseBoard.isLive_iff] at live
      exact List.mem_append_left _ (PauseBoard.mem_prune.mpr ⟨sound.listed k live, live⟩)
  once := by
    refine List.nodup_append.mpr ⟨sound.once.filter _, List.pairwise_singleton _ _, ?_⟩
    intro old listed new added
    rw [List.mem_singleton.mp added]
    exact Nat.ne_of_lt (sound.known old (PauseBoard.mem_prune.mp listed).1)
  known k listed := by
    have length : f.board.register.members.length = f.board.members.length + 1 :=
      List.length_append
    rw [length]
    rcases List.mem_append.mp listed with old | new
    · exact Nat.lt_succ_of_lt (sound.known k (PauseBoard.mem_prune.mp old).1)
    · exact Nat.lt_succ_of_le (Nat.le_of_eq (List.mem_singleton.mp new))
  seated := by simp [PauseBoard.register, sound.seated]

theorem Sound.take (sound : f.Sound) {scope : PauseScope} (can : f.board.canTake scope) :
    Sound { f with board := f.board.take scope, tokens := scope :: f.tokens } where
  counted other := by
    rw [PauseBoard.count_take can, sound.counted, List.count_cons]
    simp only [beq_iff_eq, eq_comm (a := other)]
  listed k live := by
    -- Nobody comes back: who is gone has no part left that could take a token.
    rw [PauseBoard.take, PauseBoard.roster_setCount]
    exact sound.listed k (PauseBoard.isLive_take can live)
  once := by simpa [PauseBoard.take] using sound.once
  known := by simpa [PauseBoard.take] using sound.known
  seated := by simpa [PauseBoard.take] using sound.seated

theorem Sound.giveBack (sound : f.Sound) {scope : PauseScope} {board : PauseBoard}
    (released : f.board.release? scope = some (board, woken)) :
    Sound ⟨board, wakeAll f.seats woken, f.tokens.erase scope⟩ where
  counted other := by
    rw [PauseBoard.count_release released, sound.counted, List.count_erase]
    simp only [beq_iff_eq, eq_comm (a := other)]
  listed k live :=
    PauseBoard.mem_roster_release released
      (sound.listed k (PauseBoard.isLive_release released live)) live
  once := sound.once.sublist (PauseBoard.roster_release released)
  known k listed := by
    rw [PauseBoard.length_release released]
    exact sound.known k ((PauseBoard.roster_release released).mem listed)
  seated := by
    rw [length_wakeAll, PauseBoard.length_release released]
    exact sound.seated

theorem Sound.leave (sound : f.Sound) (member : Nat) :
    Sound { f with board := f.board.disown member } where
  counted scope := (PauseBoard.count_disown _ _ _).trans (sound.counted scope)
  listed k live := sound.listed k (PauseBoard.isLive_disown live)
  once := sound.once
  known := by simpa [PauseBoard.disown] using sound.known
  seated := by simpa [PauseBoard.disown] using sound.seated

theorem act?_giveBack {scope : PauseScope} :
    f.act? (.giveBack scope) = some (after, woken) ↔
      scope ∈ f.tokens ∧ ∃ board, f.board.release? scope = some (board, woken) ∧
        after = ⟨board, wakeAll f.seats woken, f.tokens.erase scope⟩ := by
  simp only [act?, Option.ite_none_right_eq_some, Option.map_eq_some_iff, Prod.exists,
    Prod.mk.injEq]
  constructor
  · rintro ⟨out, board, members, released, rfl, rfl⟩
    exact ⟨out, board, released, rfl⟩
  · rintro ⟨out, board, released, rfl⟩
    exact ⟨out, board, woken, released, rfl, rfl⟩

theorem Sound.of_act? {deed : PauseAct α κ ε} (sound : f.Sound)
    (acted : f.act? deed = some (after, woken)) : after.Sound := by
  cases deed with
  | start capacity =>
    obtain ⟨rfl, rfl⟩ := Prod.mk.inj (Option.some.inj acted)
    exact sound.start capacity
  | take scope =>
    simp only [act?, Option.ite_none_right_eq_some, Option.some.injEq, Prod.mk.injEq] at acted
    obtain ⟨can, rfl, rfl⟩ := acted
    exact sound.take can
  | giveBack scope =>
    obtain ⟨out, board, released, rfl⟩ := act?_giveBack.mp acted
    exact sound.giveBack released
  | leave member =>
    simp only [act?, Option.ite_none_right_eq_some, Option.some.injEq, Prod.mk.injEq] at acted
    obtain ⟨owned, rfl, rfl⟩ := acted
    exact sound.leave member
  | work member seat =>
    obtain ⟨rfl, rfl⟩ := Prod.mk.inj (Option.some.inj acted)
    exact ⟨sound.counted, sound.listed, sound.once, sound.known, by simpa using sound.seated⟩

theorem act?_cases {deed : PauseAct α κ ε} (acted : f.act? deed = some (after, woken)) :
    (∃ scope, deed = .giveBack scope) ∨
      woken = [] ∧ (∀ scope, f.board.count scope ≤ after.board.count scope) ∧
        ∀ k < f.seats.length, deed.handles k = false → after.seats[k]? = f.seats[k]? := by
  cases deed with
  | start capacity =>
    obtain ⟨rfl, rfl⟩ := Prod.mk.inj (Option.some.inj acted)
    exact .inr ⟨rfl, fun scope => Nat.le_of_eq (PauseBoard.count_register _ _).symm,
      fun k known _ => List.getElem?_append_left known⟩
  | take scope =>
    simp only [act?, Option.ite_none_right_eq_some, Option.some.injEq, Prod.mk.injEq] at acted
    obtain ⟨can, rfl, rfl⟩ := acted
    refine .inr ⟨rfl, fun other => ?_, fun k known _ => rfl⟩
    rw [PauseBoard.count_take can]
    exact Nat.le_add_right _ _
  | giveBack scope => exact .inl ⟨scope, rfl⟩
  | leave member =>
    simp only [act?, Option.ite_none_right_eq_some, Option.some.injEq, Prod.mk.injEq] at acted
    obtain ⟨owned, rfl, rfl⟩ := acted
    exact .inr ⟨rfl, fun scope => Nat.le_of_eq (PauseBoard.count_disown _ _ _).symm,
      fun k known _ => rfl⟩
  | work member seat =>
    obtain ⟨rfl, rfl⟩ := Prod.mk.inj (Option.some.inj acted)
    refine .inr ⟨rfl, fun scope => Nat.le_refl _, fun k known other => ?_⟩
    exact List.getElem?_set_ne (by simpa [PauseAct.handles] using other)

end Fleet

structure PauseMoment.Sound (m : PauseMoment α κ ε) : Prop where
  -- A wake is called once for each pause of its scheduler that is over, and the
  -- pause for all is over for whoever is still there.
  woken : ∀ k, m.woken.count k = (m.before.board.lifts m.after.board (.only k)).toNat +
    (m.before.board.isLive k && m.before.board.lifts m.after.board .all).toNat
  last : ∀ k, m.before.board.isLive k → m.before.board.isPaused k →
    m.after.board.isPaused k = false → m.woken.count k = 1
  -- To wake it, a scheduler is sent a message.
  sent : ∀ k seat, m.act.handles k = false → m.before.seats[k]? = some seat →
    m.after.seats[k]? = some (seat.post (.replicate (m.woken.count k) .wake))

namespace Fleet

variable {f after : Fleet α κ ε} {deed : PauseAct α κ ε} {woken : List Nat}

theorem count_woken (sound : f.Sound) (acted : f.act? deed = some (after, woken)) (k : Nat) :
    woken.count k = (f.board.lifts after.board (.only k)).toNat +
      (f.board.isLive k && f.board.lifts after.board .all).toNat := by
  rcases act?_cases acted with ⟨scope, rfl⟩ | ⟨rfl, grown, -⟩
  · obtain ⟨-, board, released, rfl⟩ := act?_giveBack.mp acted
    exact PauseBoard.count_woken released sound.once (sound.listed k)
  · simp [PauseBoard.lifts_of_le (grown _)]

theorem woken_of_last (sound : f.Sound) (acted : f.act? deed = some (after, woken)) {k : Nat}
    (live : f.board.isLive k) (paused : f.board.isPaused k)
    (free : after.board.isPaused k = false) : woken.count k = 1 := by
  rw [PauseBoard.isPaused_iff] at paused
  have none : ¬ (0 < after.board.count (.only k) ∨ 0 < after.board.count .all) := by
    rw [← PauseBoard.isPaused_iff, free]
    exact Bool.false_ne_true
  rw [count_woken sound acted, live, Bool.true_and]
  rcases act?_cases acted with ⟨scope, rfl⟩ | ⟨-, grown, -⟩
  · obtain ⟨-, board, released, rfl⟩ := act?_giveBack.mp acted
    rw [PauseBoard.count_release released, PauseBoard.count_release released] at none
    rw [PauseBoard.lifts_release released, PauseBoard.lifts_release released]
    -- One scope has lost its last token, and the count of the other was zero before.
    cases scope with
    | all =>
      have one : f.board.count .all = 1 := by grind
      simp [one]
    | only other =>
      have mine : other = k := by grind
      subst other
      have one : f.board.count (.only k) = 1 := by grind
      simp [one]
  · -- No count has fallen, so the pause would not be over.
    have own := grown (.only k)
    have all := grown .all
    omega

theorem sent_wakes (acted : f.act? deed = some (after, woken)) {k : Nat}
    {seat : Scheduler α κ ε} (other : deed.handles k = false)
    (seated : f.seats[k]? = some seat) :
    after.seats[k]? = some (seat.post (.replicate (woken.count k) .wake)) := by
  rcases act?_cases acted with ⟨scope, rfl⟩ | ⟨rfl, -, same⟩
  · obtain ⟨-, board, released, rfl⟩ := act?_giveBack.mp acted
    rw [getElem?_wakeAll, seated]
    rfl
  · rw [same k (List.getElem?_eq_some_iff.mp seated).1 other, seated]
    exact congrArg some (Scheduler.post_nil seat).symm

theorem Sound.moment (sound : f.Sound) (acted : f.act? deed = some (after, woken)) :
    PauseMoment.Sound ⟨f, deed, woken, after⟩ where
  woken := count_woken sound acted
  last _ := woken_of_last sound acted
  sent _ _ := sent_wakes acted

theorem Sound.play (sound : f.Sound) (deeds : List (PauseAct α κ ε)) :
    (f.play deeds).2.Sound ∧ ∀ m ∈ (f.play deeds).1, m.Sound := by
  induction deeds generalizing f with
  | nil => exact ⟨sound, fun m past => by cases past⟩
  | cons deed rest ih =>
    rw [Fleet.play]
    cases acted : f.act? deed with
    | none => exact ih sound
    | some result =>
      obtain ⟨after, woken⟩ := result
      obtain ⟨last, others⟩ := ih (sound.of_act? acted)
      exact ⟨last, List.forall_mem_cons.mpr ⟨sound.moment acted, others⟩⟩

structure Staffed (past : List (PauseMoment α κ ε)) (f : Fleet α κ ε) : Prop where
  members : f.board.members.length = started past
  owners : ∀ k, f.board.owners k + partsGone past k = if k < started past then 2 else 0

theorem Staffed.kept {past : List (PauseMoment α κ ε)} (staffed : f.Staffed past)
    {m : PauseMoment α κ ε} (others : m.act.starts = false)
    (length : m.after.board.members.length = f.board.members.length)
    (same : ∀ k, m.after.board.owners k + (m.act.leaves k).toNat = f.board.owners k) :
    m.after.Staffed (past ++ [m]) := by
  have none : started (past ++ [m]) = started past := by simp [others]
  refine ⟨by rw [none, length, staffed.members], fun k => ?_⟩
  rw [none, ← staffed.owners k, ← same k, partsGone_concat, Nat.add_right_comm, Nat.add_assoc]

theorem Staffed.act {past : List (PauseMoment α κ ε)} (staffed : f.Staffed past)
    {deed : PauseAct α κ ε} (acted : f.act? deed = some (after, woken)) :
    after.Staffed (past ++ [⟨f, deed, woken, after⟩]) := by
  cases deed with
  | start capacity =>
    have more : started (past ++ [⟨f, .start capacity, woken, after⟩]) = started past + 1 :=
      started_concat past _
    obtain ⟨rfl, rfl⟩ := Prod.mk.inj (Option.some.inj acted)
    refine ⟨by rw [more, ← staffed.members]; exact List.length_append, fun k => ?_⟩
    have before := staffed.owners k
    rw [more, PauseBoard.owners_register, staffed.members, partsGone_concat]
    simp only [PauseAct.leaves, Bool.toNat_false]
    split at before <;> split <;> split <;> omega
  | take scope =>
    simp only [act?, Option.ite_none_right_eq_some, Option.some.injEq, Prod.mk.injEq] at acted
    obtain ⟨-, rfl, rfl⟩ := acted
    exact staffed.kept rfl (PauseBoard.length_setCount _ _ _) (PauseBoard.owners_setCount _ _ _)
  | giveBack scope =>
    obtain ⟨-, board, released, rfl⟩ := act?_giveBack.mp acted
    exact staffed.kept rfl (PauseBoard.length_release released)
      (PauseBoard.owners_release released)
  | leave member =>
    simp only [act?, Option.ite_none_right_eq_some, Option.some.injEq, Prod.mk.injEq] at acted
    obtain ⟨owned, rfl, rfl⟩ := acted
    refine staffed.kept rfl (by simp [PauseBoard.disown]) fun k => ?_
    rw [PauseBoard.owners_disown]
    by_cases mine : member = k
    · subst member
      simp only [PauseAct.leaves, beq_self_eq_true, if_true, Bool.toNat_true]
      omega
    · simp [PauseAct.leaves, mine]
  | work member seat =>
    obtain ⟨rfl, rfl⟩ := Prod.mk.inj (Option.some.inj acted)
    exact staffed.kept rfl rfl fun _ => rfl

theorem Staffed.play {past : List (PauseMoment α κ ε)} (staffed : f.Staffed past)
    (deeds : List (PauseAct α κ ε)) : (f.play deeds).2.Staffed (past ++ (f.play deeds).1) := by
  induction deeds generalizing f past with
  | nil => rwa [Fleet.play, List.append_nil]
  | cons deed rest ih =>
    rw [Fleet.play]
    cases acted : f.act? deed with
    | none => exact ih staffed
    | some result =>
      rw [List.append_cons]
      exact ih (staffed.act acted)

/-- Whoever is started is there until both its parts and all its tokens are gone. -/
theorem Staffed.isLive_iff {past : List (PauseMoment α κ ε)} (staffed : f.Staffed past)
    (sound : f.Sound) (k : Nat) :
    f.board.isLive k ↔ k < started past ∧ (partsGone past k < 2 ∨ .only k ∈ f.tokens) := by
  have known : .only k ∈ f.tokens → k < started past := by
    rw [← List.count_pos_iff, ← sound.counted, ← staffed.members]
    exact fun held => PauseBoard.known_of_count held k rfl
  have owners := staffed.owners k
  rw [PauseBoard.isLive_iff, sound.counted, List.count_pos_iff]
  split at owners
  · rename_i inside
    rw [and_iff_right inside]
    exact or_congr_left (by omega)
  · rename_i outside
    have nobody : f.board.owners k = 0 := by omega
    simp [nobody, outside, mt known outside]

/-- One scheduler is gone when the pause for all is over, and the other goes on
once its own is over too. -/
example :
    let deeds : List (PauseAct Nat Nat Nat) :=
      [.start 1, .start 1, .take .all, .take (.only 0), .leave 1, .leave 1, .giveBack .all,
        .giveBack (.only 0)]
    let (history, f) := empty.play deeds
    history.map PauseMoment.woken = [[], [], [], [], [], [], [0], [0]] ∧
      f.board = ⟨0, [⟨0, 2⟩, ⟨0, 0⟩], [0]⟩ ∧ f.tokens = [] := by
  decide

end Fleet

namespace Scenario.World

theorem outside_wake (w : World) (s : Nat) :
    w.outside s (fun seat => ((seat.send .wake).1, [])) =
      { w with seats := w.seats.modify s fun (seat, setting) => (seat.wake, setting) } := by
  cases found : w.seats[s]? with
  | none =>
    rw [List.modify_eq_self (List.getElem?_eq_none_iff.mp found)]
    simp [outside, seat?, found]
  | some place =>
    simp only [outside, seat?, found, Option.map_some, List.foldl_nil, setSeat]
    congr 1
    apply List.ext_getElem?
    intro k
    by_cases here : s = k
    · subst here
      simp [found, Scheduler.wake]
    · simp [here]

theorem wake_eq (w : World) (woken : List Nat) :
    (w.wake woken).board = w.board ∧
      (w.wake woken).seats.map Prod.fst = wakeAll (w.seats.map Prod.fst) woken := by
  induction woken generalizing w with
  | nil => exact ⟨rfl, rfl⟩
  | cons first rest ih =>
    have onward : w.wake (first :: rest) =
        (w.outside first fun seat => ((seat.send .wake).1, [])).wake rest := rfl
    rw [onward, outside_wake]
    refine ⟨(ih _).1, (ih _).2.trans (congrArg (wakeAll · rest) ?_)⟩
    apply List.ext_getElem?
    intro k
    by_cases here : first = k <;> cases found : w.seats[k]? <;> simp [here, found]

/-- The schedulers of a script are woken as those of any fleet. -/
theorem releaseScope_eq {w : World} {scope : PauseScope} {board : PauseBoard} {woken : List Nat}
    (released : w.board.release? scope = some (board, woken)) :
    (w.releaseScope scope).board = board ∧
      (w.releaseScope scope).seats.map Prod.fst = wakeAll (w.seats.map Prod.fst) woken := by
  rw [releaseScope, released]
  exact wake_eq { w with board := board } woken

end Scenario.World

end TerminalFeed
