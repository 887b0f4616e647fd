import TerminalFeed.Proofs.TaskOrder

/-!
What is stashed. While a perform is pending, messages that may not overtake it are put aside
in the order in which they come. The order breaks up when the perform has been taken out to
run, and is there again before the next pass: either the stash has been handed over, or the
next perform stands before what is left of it. An executor that waits has put nothing aside.
-/

namespace TerminalFeed

variable {α κ : Type}

def Stage.isUnbarred : Stage α → Bool
  | .perform | .releasing => true
  | _ => false

def stashed (messages : List (Message α κ)) : List (Message α κ) :=
  messages.filter fun m => !m.overtakes

/-- The one perform that is pending was sent ahead of all that is stashed, and that ahead of
all that is in the mailbox. -/
def StashedBehind (history : List (Moment α κ)) (x : Executor α κ) : Prop :=
  ∃ code ahead behind, x.pending = [code] ∧ x.stash = stashed behind ∧
    gather Moment.message history = ahead ++ .perform code :: behind ++ x.mailbox

/-- How the messages that came out of the mailbox stand to the perform and the stash. -/
inductive Executor.Lined (x : Executor α κ) (taken : List (Message α κ)) : Prop
  | free (pending : x.pending = []) (stash : x.stash = [])
  | barred (code : κ) (ahead behind : List (Message α κ)) (stage : x.stage.isUnbarred = false)
      (pending : x.pending = [code]) (stash : x.stash = stashed behind)
      (parts : taken = ahead ++ .perform code :: behind)
  | unbarred (ahead behind : List (Message α κ)) (stage : x.stage.isUnbarred)
      (pending : x.pending = []) (stash : x.stash = stashed behind)
      (parts : taken = ahead ++ behind)

namespace Executor

variable {x y : Executor α κ} {m : Move α κ} {events : List (Event α κ)}
  {taken : List (Message α κ)}

theorem pending_of_overtakes (x : Executor α κ) {n : Message α κ} (ahead : n.overtakes) :
    (x.handle n).1.pending = x.pending := by
  cases n with
  | deliver batch lane slot =>
    cases nothing : batch.isNothing <;> simp [handle, enqueue_eq, nothing]
  | perform code => cases ahead
  | _ => rfl

theorem Lined.kept (lined : x.Lined taken) (pending : y.pending = x.pending)
    (stash : y.stash = x.stash) (stage : y.stage.isUnbarred = x.stage.isUnbarred) :
    y.Lined taken := by
  cases lined with
  | free none empty => exact .free (by rw [pending, none]) (by rw [stash, empty])
  | barred code ahead behind outside one same parts =>
    exact .barred code ahead behind (by rw [stage, outside]) (by rw [pending, one])
      (by rw [stash, same]) parts
  | unbarred ahead behind inside none same parts =>
    exact .unbarred ahead behind (by rw [stage, inside]) (by rw [pending, none])
      (by rw [stash, same]) parts

theorem lined_handle {z : Executor α κ} (pending : z.pending = []) (stash : z.stash = [])
    (stage : z.stage.isUnbarred = false) (taken : List (Message α κ)) (n : Message α κ) :
    (z.handle n).1.Lined (taken ++ [n]) := by
  cases n with
  | perform code =>
    refine .barred code taken [] ?_ ?_ ?_ rfl
    · rw [stage_handle, stage]
    · simp [handle, pending]
    · rw [stash_handle, stash, stashed, List.filter_nil]
  | _ => exact .free ((pending_handle _ _).mpr ⟨pending, rfl⟩) (by rw [stash_handle, stash])

theorem Lined.overtaken {z : Executor α κ} (lined : z.Lined taken)
    (stage : z.stage.isUnbarred = false) {n : Message α κ} (passes : z.barred → n.overtakes) :
    (z.handle n).1.Lined (taken ++ [n]) := by
  cases lined with
  | free pending stash => exact lined_handle pending stash stage taken n
  | barred code ahead behind outside pending stash parts =>
    have overtakes : n.overtakes := passes (by simp [Executor.barred, pending])
    refine .barred code ahead (behind ++ [n]) ?_ ?_ ?_ ?_
    · rw [stage_handle, stage]
    · rw [pending_of_overtakes z overtakes, pending]
    · simp [stash, stashed, overtakes]
    · rw [parts, List.append_assoc, List.cons_append]
  | unbarred _ _ inside =>
    rw [stage] at inside
    cases inside

theorem Lined.handedOver {n : Message α κ} {rest : List (Message α κ)} (lined : x.Lined taken)
    (stage : x.stage = .releasing) (stash : x.stash = n :: rest) :
    ({ x with
      stash := rest
      stage := if n.isPerform then .mail .perform else .releasing }.handle n).1.Lined taken := by
  cases lined with
  | free none empty => simp [stash] at empty
  | barred _ _ _ outside => simp [stage, Stage.isUnbarred] at outside
  | unbarred ahead behind inside pending same parts =>
    rw [stash, eq_comm, stashed, List.filter_eq_cons_iff] at same
    obtain ⟨passed, left, rfl, -, -, rfl⟩ := same
    cases perform : n.isPerform with
    | true =>
      obtain ⟨code, rfl⟩ : ∃ code, n = .perform code := by
        cases n <;> simp [Message.isPerform] at perform
        exact ⟨_, rfl⟩
      refine .barred code (ahead ++ passed) left ?_ ?_ ?_ ?_
      · rw [stage_handle]
        rfl
      · simp [handle, pending]
      · rw [stash_handle]
        rfl
      · rw [parts, List.append_assoc]
    | false =>
      refine .unbarred (ahead ++ passed ++ [n]) left ?_ ?_ ?_ ?_
      · rw [stage_handle]
        rfl
      · exact (pending_handle _ _).mpr ⟨pending, perform⟩
      · rw [stash_handle]
        rfl
      · rw [parts]
        simp

/-- The stash is put in order again on every way from one pass to the next. -/
theorem lined_step (step : Step x m events y) (queued : x.Queued) (lined : x.Lined taken)
    {past : List (Moment α κ)} (sent : gather Moment.message past = taken ++ x.mailbox) :
    ∃ taken', gather Moment.message (⟨x, m, events, y⟩ :: past) = taken' ++ y.mailbox ∧
      y.Lined taken' := by
  cases step with
  | sent running =>
    refine ⟨taken, ?_, lined.kept rfl rfl rfl⟩
    rw [gather, sent]
    simp [Moment.message]
  | @woken around n rest stage mailbox =>
    refine ⟨taken ++ [n], ?_, ?_⟩
    · rw [gather, sent, mailbox_handle, mailbox]
      simp [Moment.message]
    · apply lined_handle
      · exact queued.waiting stage
      · exact queued.stash_waiting stage
      · rfl
  | @absorbed around next n rest stage mailbox passes =>
    refine ⟨taken ++ [n], ?_, ?_⟩
    · rw [gather, sent, mailbox_handle, mailbox]
      simp [Moment.message]
    · have lined' : Lined { x with mailbox := rest } taken := lined.kept rfl rfl rfl
      exact lined'.overtaken (by rw [stage]; rfl) passes
  | @stashed around next n rest stage mailbox barred behind =>
    refine ⟨taken ++ [n], ?_, ?_⟩
    · rw [gather, sent, mailbox]
      simp [Moment.message]
    · cases lined with
      | free pending stash => simp [Executor.barred, pending, stash] at barred
      | barred code ahead held outside pending stash parts =>
        refine .barred code ahead (held ++ [n]) outside pending ?_ ?_
        · simp [stash, TerminalFeed.stashed, behind]
        · rw [parts, List.append_assoc, List.cons_append]
      | unbarred _ _ inside => simp [stage, Stage.isUnbarred] at inside
  | @performStarted around code rest stage pending shutdown =>
    refine ⟨taken, by rw [gather, sent]; simp [Moment.message], ?_⟩
    cases lined with
    | free none => simp [pending] at none
    | barred other ahead behind outside one stash parts =>
      obtain ⟨rfl, rfl⟩ := List.cons.inj (pending.symm.trans one)
      refine .unbarred (ahead ++ [.perform code]) behind rfl rfl stash ?_
      rw [parts, List.append_assoc]
      rfl
    | unbarred _ _ inside => simp [stage, Stage.isUnbarred] at inside
  | performReturned stage =>
    refine ⟨taken, by rw [gather, sent]; simp [Moment.message], ?_⟩
    cases lined with
    | free pending stash => exact .free pending stash
    | barred _ _ _ outside => simp [stage, Stage.isUnbarred] at outside
    | unbarred ahead behind inside pending stash parts =>
      exact .unbarred ahead behind (by simp [pending, Stage.isUnbarred]) pending stash parts
  | handedOver stage stash =>
    refine ⟨taken, ?_, lined.handedOver stage stash⟩
    rw [gather, sent, mailbox_handle]
    simp [Moment.message]
  | released stage stash =>
    refine ⟨taken, by rw [gather, sent]; simp [Moment.message], ?_⟩
    cases lined with
    | free pending empty => exact .free pending empty
    | barred _ _ _ outside => simp [stage, Stage.isUnbarred] at outside
    | unbarred _ _ inside pending => exact .free pending stash
  | @added lane batch running =>
    refine ⟨taken, ?_, ?_⟩
    · rw [gather, sent, enqueue_eq]
      split <;> simp [Moment.message]
    · rw [enqueue_eq]
      split
      · exact lined
      · exact lined.kept rfl rfl rfl
  | shutDown shutdown stage | failed running =>
    refine ⟨_, (List.append_nil _).symm, .free rfl rfl⟩
  | _ =>
    refine ⟨taken, by rw [gather, sent]; simp [Moment.message, startPass, closePass, putBack], ?_⟩
    exact lined.kept rfl rfl (by simp [startPass, closePass, putBack, Stage.isUnbarred, *])

theorem whereabouts_step (step : Step x m events y) (running : y.hasEnded = false) :
    (x.stash ++ x.mailbox ++ Moment.message ⟨x, m, events, y⟩).Perm
      (Moment.handled ⟨x, m, events, y⟩ ++ (y.stash ++ y.mailbox)) := by
  cases step with
  | sent running => simp [Moment.message, Moment.handled]
  | woken stage mailbox =>
    rw [stash_handle, mailbox_handle]
    simp [Moment.message, Moment.handled, stage, mailbox, List.perm_middle]
  | absorbed stage mailbox passes =>
    rw [stash_handle, mailbox_handle, handled_absorbed stage mailbox passes, mailbox]
    simp [Moment.message, List.perm_middle]
  | stashed stage mailbox barred behind =>
    simp [Moment.message, Moment.handled, stage, mailbox, barred, behind]
  | handedOver stage stash =>
    rw [stash_handle, mailbox_handle]
    simp [Moment.message, Moment.handled, stage, stash]
  | added running =>
    rw [← handle_eq_enqueue, stash_handle, mailbox_handle]
    simp [Moment.message, Moment.handled]
  | shutDown shutdown stage | failed runsCode => cases running
  | _ => simp [Moment.message, Moment.handled, startPass, closePass, putBack, *]

theorem passStarted_event (step : Step x m events y) (starts : .passStarted ∈ events) :
    (∃ next, x.stage = .mail next) ∧ (y, events) = x.startPass := by
  have outside {z : Executor α κ} {n : Message α κ} : .passStarted ∉ (z.handle n).2 := by
    intro handled
    rcases event_handle handled with ⟨lane, batch, impossible⟩ | impossible | impossible <;>
      cases impossible
  cases step with
  | passStarted stage mailbox opens => exact ⟨⟨_, stage⟩, rfl⟩
  | woken stage mailbox | absorbed stage mailbox passes | handedOver stage stash =>
    exact absurd starts outside
  | added running =>
    rw [← handle_eq_enqueue] at starts
    exact absurd starts outside
  | @passHalted around handled stage halted | @passDone around handled stage halted empty =>
    cases handled <;> simp [closePass] at starts
  | shutDown shutdown stage | failed running => simp [stop] at starts
  | _ => simp at starts

end Executor

structure Stashing (history : List (Moment α κ)) (x : Executor α κ) : Prop where
  single : x.pending.length ≤ 1
  -- Nothing is stashed but behind a perform that is pending, or that has been taken out just
  -- now.
  behind : x.stage.isUnbarred = false → x.stash ≠ [] → StashedBehind history x
  opening : ∀ m y events, x.move? m = some (y, events) → .passStarted ∈ events →
    y.stash ≠ [] → StashedBehind (⟨x, m, events, y⟩ :: history) y
  -- When the executor waits, nothing is left of what it has taken out of its mailbox.
  rest : x.stage = .waiting → x.tasks = [] ∧ x.pending = [] ∧ x.stash = [] ∧
    (gather Moment.handled history ++ x.mailbox).Perm (gather Moment.message history)

namespace Run

open Executor

variable {history : List (Moment α κ)} {x : Executor α κ}

theorem lined (run : Run history x) :
    ∃ taken, gather Moment.message history = taken ++ x.mailbox ∧ x.Lined taken := by
  induction run with
  | new => exact ⟨[], rfl, .free rfl rfl⟩
  | move run made ih =>
    obtain ⟨taken, sent, lined⟩ := ih
    exact lined_step (step_of_move? made) run.queued lined sent

theorem whereabouts (run : Run history x) (running : x.hasEnded = false) :
    (gather Moment.handled history ++ (x.stash ++ x.mailbox)).Perm
      (gather Moment.message history) := by
  induction run with
  | new => exact .nil
  | @move past x y m events run made ih =>
    have before := ih (running_before made running)
    have after := whereabouts_step (step_of_move? made) running
    rw [gather, gather, List.append_assoc]
    refine (after.symm.append_left _).trans ?_
    rw [← List.append_assoc]
    exact before.append_right _

theorem stashedBehind (run : Run history x) (stage : x.stage.isUnbarred = false)
    (some : x.stash ≠ []) : StashedBehind history x := by
  obtain ⟨taken, sent, lined⟩ := run.lined
  cases lined with
  | free pending stash => exact absurd stash some
  | barred code ahead behind outside pending stash parts =>
    exact ⟨code, ahead, behind, pending, stash, by rw [sent, parts]⟩
  | unbarred _ _ inside =>
    rw [stage] at inside
    cases inside

/-- At every point of every run, the stash stands behind the one perform that is pending. -/
theorem stashing (run : Run history x) : Stashing history x where
  single := by
    obtain ⟨taken, -, lined⟩ := run.lined
    cases lined with
    | free pending | unbarred _ _ _ pending | barred _ _ _ _ pending => simp [pending]
  behind := run.stashedBehind
  opening m y events made starts := by
    obtain ⟨-, same⟩ := passStarted_event (step_of_move? made) starts
    apply (run.move made).stashedBehind
    rw [(Prod.mk.inj same).1]
    rfl
  rest stage := by
    have stash := run.queued.stash_waiting stage
    have whereabouts := run.whereabouts (by rw [hasEnded, stage])
    rw [stash, List.nil_append] at whereabouts
    exact ⟨run.betweenPasses (by rw [stage]; rfl), run.queued.waiting stage, stash, whereabouts⟩

/-- Two performs with a batch behind each. The first has run, and the stash has been handed over
up to the second: a pass starts with that one pending and a batch behind it. -/
theorem stashing_second :
    let moves : List (Move Nat Nat) :=
      [.send (.perform 7), .send (.deliver (.ofTokens [1] 1) .normal false), .send (.perform 8),
        .send (.deliver (.ofTokens [2] 1) .normal false), .send .wake] ++
        .replicate 10 (.tick .calm) ++ .finish :: .replicate 2 (.tick .calm)
    let run := Executor.new.play [] moves
    (run.2.move? (.tick .calm)).map Prod.snd = some [.passStarted] ∧ run.2.pending = [8] ∧
      run.2.stash = [.deliver (.ofTokens [2] 1) .normal false] ∧ Stashing run.1 run.2 :=
  ⟨rfl, rfl, rfl, stashing (run_play .new _)⟩

end Run

end TerminalFeed
