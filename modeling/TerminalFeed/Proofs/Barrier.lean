import TerminalFeed.Proofs.LaneOrder
import TerminalFeed.Proofs.Waiting

/-!
A perform is a barrier. Normal deliveries, discards and performs take effect in
the order in which they were sent, one perform has returned before anything
behind it takes effect, and what was sent ahead of a perform is in its lane, and
as a rule consumed, when the perform starts.
-/

namespace TerminalFeed

variable {α κ : Type}

theorem flatMap_filterMap {β γ δ : Type} (f : β → Option γ) (g : γ → List δ) (l : List β) :
    (l.filterMap f).flatMap g = l.flatMap fun b => (f b).toList.flatMap g := by
  induction l with
  | nil => rfl
  | cons b rest ih =>
    cases found : f b <;> simp [found, ih]

/-- What a message comes to that may not overtake a perform. -/
inductive Effect (α κ : Type) where
  | delivery (batch : Batch α)
  | discard
  | perform (code : κ)

namespace Effect

def code? : Effect α κ → Option κ
  | .perform code => some code
  | _ => none

def batches : Effect α κ → List (Batch α)
  | .delivery batch => [batch]
  | _ => []

end Effect

namespace Message

def effect? : Message α κ → Option (Effect α κ)
  | .deliver batch .normal _ => if batch.isNothing then none else some (.delivery batch)
  | .discardAll => some .discard
  | .perform code => some (.perform code)
  | _ => none

def code? : Message α κ → Option κ
  | .perform code => some code
  | _ => none

theorem effect?_of_overtakes {m : Message α κ} (ahead : m.overtakes) : m.effect? = none := by
  cases m with
  | deliver batch lane slot =>
    cases lane with
    | high => rfl
    | normal => cases ahead
  | task | wake | shutdown => rfl
  | perform | discardAll => cases ahead

theorem bound_high_of_not_overtakes {m : Message α κ} (behind : m.overtakes = false) :
    m.bound .high = [] := by
  cases m with
  | deliver batch lane slot =>
    cases lane with
    | high => cases behind
    | normal => simp [bound]
  | _ => rfl

theorem code?_eq (m : Message α κ) : m.code? = m.effect?.bind Effect.code? := by
  cases m with
  | deliver batch lane slot =>
    cases lane with
    | high => rfl
    | normal => cases nothing : batch.isNothing <;> simp [code?, effect?, nothing, Effect.code?]
  | _ => rfl

theorem bound_normal_eq (m : Message α κ) :
    m.bound .normal = m.effect?.toList.flatMap Effect.batches := by
  cases m with
  | deliver batch lane slot =>
    cases lane with
    | high => rfl
    | normal => cases nothing : batch.isNothing <;> simp [bound, effect?, nothing, Effect.batches]
  | _ => rfl

theorem flatMap_bound_normal (messages : List (Message α κ)) :
    messages.flatMap (bound .normal) = (messages.filterMap effect?).flatMap Effect.batches := by
  rw [flatMap_filterMap]
  exact congrArg (messages.flatMap ·) (funext bound_normal_eq)

theorem eq_perform {m : Message α κ} {code : κ} (same : m.effect? = some (.perform code)) :
    m = .perform code := by
  cases m with
  | deliver batch lane slot =>
    cases lane with
    | high => cases same
    | normal => cases nothing : batch.isNothing <;> simp [effect?, nothing] at same
  | perform other => simpa [effect?] using same
  | _ => cases same

end Message

def Stage.performing : Stage α → Nat
  | .perform => 1
  | _ => 0

def Event.effect? : Event α κ → Option (Effect α κ)
  | .enqueued .normal batch => some (.delivery batch)
  | .discarded _ => some .discard
  | .performStarted code => some (.perform code)
  | _ => none

namespace Moment

def message (moment : Moment α κ) : List (Message α κ) :=
  match moment.move with
  | .send m => [m]
  | _ => []

/-- What takes effect. A batch that code adds there and then is no message. -/
def effects (moment : Moment α κ) : List (Effect α κ) :=
  match moment.move with
  | .tick _ => moment.events.filterMap Event.effect?
  | _ => []

theorem delivered_normal_eq (moment : Moment α κ) :
    moment.delivered .normal = moment.effects.flatMap Effect.batches := by
  have event (e : Event α κ) : e.entering .normal = e.effect?.toList.flatMap Effect.batches := by
    cases e with
    | enqueued lane batch => cases lane <;> rfl
    | _ => rfl
  unfold delivered effects
  cases moment.move with
  | tick around =>
    rw [flatMap_filterMap, entered]
    exact congrArg (moment.events.flatMap ·) (funext event)
  | _ => rfl

def returned (moment : Moment α κ) : Nat :=
  match moment.move with
  | .finish => moment.before.stage.performing
  | _ => 0

def endsPaused (moment : Moment α κ) : Prop :=
  moment.before.stage.afterPass = false ∧ moment.after.stage.afterPass ∧
    ∃ around, moment.move = .tick around ∧ around.paused

end Moment

theorem gather_delivered_normal (history : List (Moment α κ)) :
    gather (Moment.delivered .normal) history =
      (gather Moment.effects history).flatMap Effect.batches := by
  induction history with
  | nil => rfl
  | cons moment past ih => rw [gather, ih, gather, List.flatMap_append, moment.delivered_normal_eq]

def performed (history : List (Moment α κ)) : List κ :=
  (gather Moment.effects history).filterMap Effect.code?

def performedWhole : List (Moment α κ) → Nat
  | [] => 0
  | moment :: past => moment.returned + performedWhole past

/-- Whether the last pass ended with batches left: it was held, or it came to a
pause, or a token was rolled back. -/
def CutShort (history : List (Moment α κ)) : Prop :=
  (lastPass history).any Event.holdsPass ∨ (lastPass history).any Event.rollsBack ∨
    ∃ moment ∈ history.takeWhile (fun moment => !moment.events.any Event.startsPass),
      moment.endsPaused

/-- The performs and what waits behind them, in the order in which it will take effect. -/
def Executor.unsettled (x : Executor α κ) : List (Effect α κ) :=
  x.pending.map .perform ++ (x.stash ++ x.mailbox).filterMap Message.effect?

namespace Executor

variable {x y : Executor α κ} {m : Move α κ} {events : List (Event α κ)}

theorem releasing_step (step : Step x m events y)
    (before : x.stage = .releasing → x.pending = []) :
    y.stage = .releasing → y.pending = [] := by
  cases step with
  | woken stage mailbox => simp
  | @absorbed around next m rest stage mailbox passes => simp [stage]
  | @handedOver around m rest stage stash =>
    intro releasing
    rw [stage_handle] at releasing
    rw [pending_handle]
    refine ⟨before stage, ?_⟩
    cases perform : m.isPerform with
    | false => rfl
    | true => simp [perform] at releasing
  | performReturned stage =>
    intro releasing
    simpa using releasing
  | @added lane batch running =>
    rw [stage_enqueue, enqueue_eq]
    intro releasing
    simp [releasing, Stage.runsCode] at running
  | sent running | queued running inPass | ranAtOnce running inPass => exact before
  | _ => simp_all [startPass, closePass, putBack, stop]

theorem effects_handle (x : Executor α κ) (m : Message α κ)
    (free : x.pending = [] ∨ m.effect? = none) :
    (x.handle m).2.filterMap Event.effect? ++ (x.handle m).1.pending.map .perform =
      x.pending.map .perform ++ m.effect?.toList := by
  cases m with
  | deliver batch lane slot =>
    cases nothing : batch.isNothing <;> cases lane <;> cases slot <;>
      simp_all [handle, enqueue_eq, Event.effect?, Message.effect?]
  | discardAll =>
    have none : x.pending = [] := free.resolve_right (by simp [Message.effect?])
    simp [handle, none, Event.effect?, Message.effect?]
  | _ => simp [handle, Message.effect?]

/-- What has been taken out of the mailbox, and what has become of it. -/
structure Taken (history : List (Moment α κ)) (x : Executor α κ)
    (taken : List (Message α κ)) : Prop where
  sent : gather Moment.message history = taken ++ x.mailbox
  effects : taken.filterMap Message.effect? =
    gather Moment.effects history ++ x.pending.map .perform ++ x.stash.filterMap Message.effect?
  high : taken.flatMap (Message.bound .high) = gather (Moment.delivered .high) history

variable {past : List (Moment α κ)} {taken : List (Message α κ)}

theorem Taken.new : Taken [] (.new : Executor α κ) [] := ⟨rfl, rfl, rfl⟩

theorem Taken.kept (whole : Taken past x taken) (message : Moment.message ⟨x, m, events, y⟩ = [])
    (effects : Moment.effects ⟨x, m, events, y⟩ = [])
    (delivered : Moment.delivered .high ⟨x, m, events, y⟩ = [])
    (mailbox : y.mailbox = x.mailbox) (pending : y.pending = x.pending)
    (stash : y.stash = x.stash) : Taken (⟨x, m, events, y⟩ :: past) y taken := by
  constructor
  · rw [gather, message, List.append_nil, mailbox, whole.sent]
  · rw [gather, effects, List.append_nil, pending, stash, whole.effects]
  · rw [gather, delivered, List.append_nil, whole.high]

theorem effects_behind (z : Executor α κ) (n : Message α κ) (rest : List (Effect α κ))
    (free : z.pending = [] ∧ rest = [] ∨ n.overtakes) :
    z.pending.map .perform ++ rest ++ n.effect?.toList =
      (z.handle n).2.filterMap Event.effect? ++ (z.handle n).1.pending.map .perform ++ rest := by
  have settles := effects_handle z n (free.imp And.left Message.effect?_of_overtakes)
  rcases free with ⟨-, none⟩ | ahead
  · rw [none, List.append_nil, List.append_nil, settles]
  · rw [settles, Message.effect?_of_overtakes ahead, Option.toList_none, List.append_nil,
      List.append_nil]

theorem filterMap_effect?_singleton (n : Message α κ) :
    [n].filterMap Message.effect? = n.effect?.toList := by
  cases effect : n.effect? <;> simp [effect]

theorem Taken.handled {around : Surroundings} {stage : Stage α} {n : Message α κ}
    {rest : List (Message α κ)} (whole : Taken past x taken) (mailbox : x.mailbox = n :: rest)
    (free : x.pending = [] ∧ x.stash = [] ∨ n.overtakes) :
    Taken (⟨x, .tick around, ({ x with mailbox := rest, stage := stage }.handle n).2,
        ({ x with mailbox := rest, stage := stage }.handle n).1⟩ :: past)
      ({ x with mailbox := rest, stage := stage }.handle n).1 (taken ++ [n]) := by
  constructor
  · rw [gather, mailbox_handle, whole.sent, mailbox]
    simp [Moment.message]
  · have settles := effects_behind { x with mailbox := rest, stage := stage } n
      (x.stash.filterMap Message.effect?)
      (free.imp_left fun none => ⟨none.1, by rw [none.2]; rfl⟩)
    rw [gather, stash_handle, List.filterMap_append, whole.effects, filterMap_effect?_singleton]
    simpa only [Moment.effects, List.append_assoc, List.append_cancel_left_eq] using settles
  · rw [gather, List.flatMap_append, whole.high, Moment.delivered, Moment.entered, entering_handle]
    simp

theorem taken_step (step : Step x m events y) (running : y.hasEnded = false) (queued : x.Queued)
    (releasing : x.stage = .releasing → x.pending = []) (whole : Taken past x taken) :
    ∃ taken', Taken (⟨x, m, events, y⟩ :: past) y taken' := by
  cases step with
  | sent running =>
    refine ⟨taken, ?_, ?_, ?_⟩
    · simp [gather, Moment.message, whole.sent]
    · simp [gather, Moment.effects, whole.effects]
    · simp [gather, Moment.delivered, whole.high]
  | woken stage mailbox =>
    exact ⟨_, whole.handled mailbox (.inl ⟨queued.waiting stage, queued.stash_waiting stage⟩)⟩
  | @absorbed around next n rest stage mailbox passes =>
    refine ⟨_, whole.handled mailbox ?_⟩
    cases barred : x.barred with
    | true => exact .inr (passes barred)
    | false => exact .inl (by simpa [Executor.barred] using barred)
  | @stashed around next n rest stage mailbox barred behind =>
    refine ⟨taken ++ [n], ?_, ?_, ?_⟩
    · simp [gather, Moment.message, whole.sent, mailbox]
    · simp [gather, Moment.effects, whole.effects]
    · simp [gather, Moment.delivered, Moment.entered, whole.high,
        Message.bound_high_of_not_overtakes behind]
  | @handedOver around n rest stage stash =>
    have none := releasing stage
    refine ⟨taken, ?_, ?_, ?_⟩
    · rw [gather, mailbox_handle, whole.sent]
      simp [Moment.message]
    · have settles := effects_handle
        { x with stash := rest, stage := if n.isPerform then .mail .perform else .releasing } n
        (.inl none)
      rw [gather, stash_handle, whole.effects, stash, none, ← List.singleton_append,
        List.filterMap_append, filterMap_effect?_singleton]
      simp only [none, List.map_nil, List.nil_append] at settles
      simp only [Moment.effects, List.append_assoc, List.map_nil, List.nil_append, ← settles]
    · rw [gather, whole.high, Moment.delivered, Moment.entered, entering_handle,
        Message.bound_high_of_not_overtakes (queued.behind n (by rw [stash]; exact .head _))]
      simp
  | @performStarted around code rest stage pending shutdown =>
    refine ⟨taken, ?_, ?_, ?_⟩
    · simp [gather, Moment.message, whole.sent]
    · simp [gather, Moment.effects, whole.effects, pending, Event.effect?]
    · simp [gather, Moment.delivered, Moment.entered, Event.entering, whole.high]
  | @added lane batch running =>
    refine ⟨taken, whole.kept rfl rfl rfl ?_ ?_ ?_⟩ <;> rw [enqueue_eq] <;> split <;> rfl
  | shutDown shutdown stage | failed runsCode => cases running
  | @passHalted around handled stage halted | @passDone around handled stage halted empty =>
    refine ⟨taken, whole.kept rfl ?_ ?_ rfl rfl rfl⟩ <;> cases handled <;> rfl
  | _ => exact ⟨taken, whole.kept rfl rfl rfl rfl rfl rfl⟩

theorem calm_effects_handle (x : Executor α κ) (n : Message α κ) :
    ((x.handle n).2.filterMap Event.effect?).filterMap Effect.code? = [] := by
  rw [List.filterMap_filterMap]
  apply List.filterMap_eq_nil_iff.mpr
  intro e member
  rcases event_handle member with ⟨lane, batch, rfl⟩ | rfl | rfl
  · cases lane <;> rfl
  · rfl
  · rfl

theorem performing_step (step : Step x m events y) (running : y.hasEnded = false) :
    ((Moment.effects ⟨x, m, events, y⟩).filterMap Effect.code?).length + x.stage.performing =
      Moment.returned ⟨x, m, events, y⟩ + y.stage.performing := by
  cases step with
  | @woken around n rest stage mailbox =>
    rw [Moment.effects, calm_effects_handle, stage_handle]
    simp [Moment.returned, stage, Stage.performing]
  | @absorbed around next n rest stage mailbox passes =>
    rw [Moment.effects, calm_effects_handle, stage_handle]
    simp [Moment.returned]
  | @handedOver around n rest stage stash =>
    rw [Moment.effects, calm_effects_handle, stage_handle]
    cases n <;> simp [Moment.returned, stage, Stage.performing, Message.isPerform]
  | added running' => simp [Moment.effects, Moment.returned]
  | performReturned stage =>
    cases x.pending <;> simp [Moment.effects, Moment.returned, stage, Stage.performing]
  | @passHalted around handled stage halted | @passDone around handled stage halted empty =>
    cases handled <;>
      simp [Moment.effects, Moment.returned, closePass, stage, Stage.performing, Event.effect?]
  | shutDown shutdown stage | failed runsCode => cases running
  | _ =>
    simp [Moment.effects, Moment.returned, Event.effect?, Effect.code?, startPass, putBack,
      Stage.performing, *]

theorem delivered_of_afterPass (step : Step x m events y) (after : y.stage.afterPass)
    (lane : Lane) : Moment.delivered lane ⟨x, m, events, y⟩ = [] := by
  cases step with
  | woken stage mailbox => simp [stage_handle, Stage.afterPass] at after
  | absorbed stage mailbox passes => simp [stage_handle, stage, Stage.afterPass] at after
  | @handedOver around n rest stage stash =>
    rw [stage_handle] at after
    cases n <;> simp [Message.isPerform, Stage.afterPass] at after
  | added running => rfl
  | @passHalted around handled stage halted | @passDone around handled stage halted empty =>
    cases handled <;> rfl
  | shutDown shutdown stage | failed running => simp [stop, Stage.afterPass] at after
  | _ => rfl

theorem performStarted_event (step : Step x m events y) {code : κ}
    (starts : .performStarted code ∈ events) :
    x.stage = .performs ∧ x.shutdown = false ∧ ∃ rest, x.pending = code :: rest := by
  have outside {z : Executor α κ} {n : Message α κ} : .performStarted code ∉ (z.handle n).2 := by
    intro handled
    rcases event_handle handled with ⟨lane, batch, impossible⟩ | impossible | impossible <;>
      cases impossible
  cases step with
  | performStarted stage pending shutdown =>
    obtain rfl : code = _ := by simpa using starts
    exact ⟨stage, shutdown, _, pending⟩
  | woken stage mailbox | absorbed stage mailbox passes | handedOver stage stash =>
    exact absurd starts outside
  | added running =>
    rw [← handle_eq_enqueue] at starts
    exact absurd starts outside
  | @passHalted around handled stage halted | @passDone around handled stage halted empty =>
    cases handled <;> simp [closePass] at starts
  | shutDown shutdown stage | failed running => simp [stop] at starts
  | _ => simp [startPass] at starts

theorem performing_of_effects (made : x.move? m = some (y, events))
    (takes : Moment.effects ⟨x, m, events, y⟩ ≠ []) : x.stage.performing = 0 := by
  cases m with
  | tick around =>
    cases stage : x.stage with
    | perform => simp [move?, stage, Stage.runsCode] at made
    | _ => rfl
  | _ => exact absurd rfl takes

theorem held_of_afterPass {stage : Stage α} (after : stage.afterPass) (lane : Lane) :
    stage.held lane = [] := by
  cases stage with
  | tasks next | task next =>
    cases next <;> first | rfl | cases after
  | performs | waiting => rfl
  | _ => cases after

end Executor

theorem CutShort.later {moment : Moment α κ} {past : List (Moment α κ)} (cut : CutShort past)
    (goesOn : moment.events.any Event.startsPass = false) : CutShort (moment :: past) := by
  rcases cut with holds | rolls | ⟨other, member, ends⟩
  · left
    rw [any_lastPass_cons goesOn, holds, Bool.true_or]
  · right
    left
    rw [any_lastPass_cons goesOn, rolls, Bool.true_or]
  · right
    right
    refine ⟨other, ?_, ends⟩
    rw [List.takeWhile_cons_of_pos (by simp [goesOn])]
    exact .tail _ member

namespace Run

open Executor

variable {history : List (Moment α κ)} {x : Executor α κ}

theorem releasing (run : Run history x) : x.stage = .releasing → x.pending = [] := by
  induction run with
  | new => exact nofun
  | move run made ih => exact releasing_step (step_of_move? made) ih

theorem taken (run : Run history x) (running : x.hasEnded = false) :
    ∃ taken, Taken history x taken := by
  induction run with
  | new => exact ⟨[], .new⟩
  | move run made ih =>
    obtain ⟨taken, whole⟩ := ih (running_before made running)
    exact taken_step (step_of_move? made) running run.queued run.releasing whole

theorem performing (run : Run history x) (running : x.hasEnded = false) :
    (performed history).length =
      performedWhole history + x.stage.performing := by
  induction run with
  | new => rfl
  | move run made ih =>
    have before := ih (running_before made running)
    have after := performing_step (step_of_move? made) running
    rw [performed, gather, List.filterMap_append, List.length_append, performedWhole]
    rw [performed] at before
    omega

/-- When a pass is over that has come to its end, all that had been delivered by
then has been consumed, or dropped. -/
theorem cleared (run : Run history x) (after : x.stage.afterPass) (running : x.shutdown = false)
    (lane : Lane) :
    CutShort history ∨ ∃ past, past <:+ history ∧
      gather (Moment.delivered lane) past = gather (Moment.delivered lane) history ∧
      (ledgerOf lane past).consumed = Ledger.contents (ledgerOf lane past).deposits := by
  induction run with
  | new => exact .inr ⟨[], List.suffix_rfl, rfl, rfl⟩
  | @move past x y m events run made ih =>
    have step := step_of_move? made
    have quiet := delivered_of_afterPass step after lane
    cases before : x.stage.afterPass with
    | true =>
      obtain ⟨goesOn, shutdown, -, -⟩ := rests_step step before after
      rw [shutdown] at running
      rcases ih before running with cut | ⟨earlier, suffix, same, done⟩
      · exact .inl (cut.later goesOn)
      · refine .inr ⟨earlier, suffix.trans (List.suffix_cons _ _), ?_, done⟩
        rw [gather, quiet, List.append_nil, same]
    | false =>
      obtain ⟨goesOn, holds | ⟨around, rfl, paused⟩ | stop | empty⟩ :=
        closes_step step before after running
      · refine .inl (.inl ?_)
        rw [any_lastPass_cons goesOn]
        exact Bool.or_eq_true_iff.mpr (.inr holds)
      · refine .inl (.inr (.inr ⟨⟨x, .tick around, events, y⟩, ?_, before, after, around, rfl,
          paused⟩))
        rw [List.takeWhile_cons_of_pos (by simp [goesOn])]
        exact .head _
      · refine .inl (.inr (.inl ?_))
        rw [any_lastPass_cons goesOn, run.rollsBack stop, Bool.true_or]
      · -- The line is empty, so the books say that all has been consumed.
        refine .inr ⟨_, List.suffix_rfl, rfl, ?_⟩
        have alive : y.hasEnded = false := by
          cases ended : y.hasEnded with
          | false => rfl
          | true =>
            rw [(hasEnded_iff y).mp ended] at after
            cases after
        have balance := ((Run.move run made).inOrder alive lane).balance
        rwa [line, held_of_afterPass after, empty, List.append_nil, List.flatMap_nil,
          List.append_nil] at balance

end Run

structure Barrier (history : List (Moment α κ)) (x : Executor α κ) : Prop where
  -- Performs start in the order in which they were sent, each once.
  performs : performed history ++ x.unsettled.filterMap Effect.code? =
    (gather Moment.message history).filterMap Message.code?
  -- Normal deliveries, discards and performs take effect in the order in which
  -- they were sent.
  order : gather Moment.effects history ++ x.unsettled =
    (gather Moment.message history).filterMap Message.effect?
  -- An executor that waits has held nothing back.
  rest : x.stage = .waiting → x.pending = [] ∧ x.stash = []
  -- When anything takes effect, all performs that have started have returned.
  alone : ∀ m y events, x.move? m = some (y, events) → Moment.effects ⟨x, m, events, y⟩ ≠ [] →
    performedWhole history = (performed history).length
  -- When a perform starts, all batches that were sent ahead of it have entered
  -- their lanes. If the last pass was not cut short, all that had entered by then
  -- had been consumed or dropped before.
  ahead : ∀ m y events code, x.move? m = some (y, events) → .performStarted code ∈ events →
    ∃ ahead behind, gather Moment.message history = ahead ++ .perform code :: behind ∧
      ahead.filterMap Message.effect? = gather Moment.effects history ∧
      ∀ lane, ahead.flatMap (Message.bound lane) <+: gather (Moment.delivered lane) history ∧
        (CutShort history ∨ ∃ past, past <:+ history ∧
          ahead.flatMap (Message.bound lane) <+: gather (Moment.delivered lane) past ∧
          (ledgerOf lane past).consumed = Ledger.contents (ledgerOf lane past).deposits)

namespace Run

open Executor

variable {history : List (Moment α κ)} {x y : Executor α κ}

theorem ahead_of_pending (run : Run history x) (running : x.hasEnded = false) {code : κ}
    {rest : List κ} (pending : x.pending = code :: rest) :
    ∃ ahead behind, gather Moment.message history = ahead ++ .perform code :: behind ∧
      ahead.filterMap Message.effect? = gather Moment.effects history ∧
      ∀ lane, ahead.flatMap (Message.bound lane) <+: gather (Moment.delivered lane) history := by
  obtain ⟨taken, whole⟩ := run.taken running
  have effects := whole.effects
  rw [pending, List.map_cons, List.append_assoc, List.cons_append] at effects
  obtain ⟨ahead, others, rfl, settled, later⟩ := List.filterMap_eq_append_iff.mp effects
  obtain ⟨skipped, m, behind, rfl, none, same, -⟩ := List.filterMap_eq_cons_iff.mp later
  obtain rfl := Message.eq_perform same
  have settled' : (ahead ++ skipped).filterMap Message.effect? = gather Moment.effects history := by
    rw [List.filterMap_append, settled, List.filterMap_eq_nil_iff.mpr none, List.append_nil]
  refine ⟨ahead ++ skipped, behind ++ x.mailbox, ?_, settled', ?_⟩
  · rw [whole.sent]
    simp
  · intro lane
    cases lane with
    | normal =>
      refine ⟨[], ?_⟩
      rw [Message.flatMap_bound_normal, settled', gather_delivered_normal, List.append_nil]
    | high =>
      refine ⟨(.perform code :: behind).flatMap (Message.bound .high), ?_⟩
      rw [← List.flatMap_append, List.append_assoc]
      exact whole.high

/-- At every point of every run, performs are barriers. -/
theorem barrier (run : Run history x) (running : x.hasEnded = false) : Barrier history x := by
  obtain ⟨taken, whole⟩ := run.taken running
  have order : gather Moment.effects history ++ x.unsettled =
      (gather Moment.message history).filterMap Message.effect? := by
    rw [whole.sent, List.filterMap_append, whole.effects, unsettled, List.filterMap_append]
    simp only [List.append_assoc]
  refine ⟨?_, order, ?_, ?_, ?_⟩
  · rw [performed, ← List.filterMap_append, order, List.filterMap_filterMap]
    exact congrArg (List.filterMap · _) (funext fun m => (Message.code?_eq m).symm)
  · intro stage
    exact ⟨run.queued.waiting stage, run.queued.stash_waiting stage⟩
  · intro m y events made takes
    have count := run.performing running
    rw [performing_of_effects made takes] at count
    exact count.symm
  · intro m y events code made starts
    obtain ⟨stage, shutdown, rest, pending⟩ := performStarted_event (step_of_move? made) starts
    obtain ⟨ahead, behind, sent, settled, entered⟩ := run.ahead_of_pending running pending
    refine ⟨ahead, behind, sent, settled, ?_⟩
    intro lane
    refine ⟨entered lane, ?_⟩
    rcases run.cleared (by rw [stage]; rfl) shutdown lane with cut | ⟨past, suffix, same, done⟩
    · exact .inl cut
    · exact .inr ⟨past, suffix, by rw [same]; exact entered lane, done⟩

/-- A normal batch, a perform, a normal batch and a high one, all sent before
the executor wakes: the high batch overtakes the perform, and nothing else does. -/
theorem barrier_between_batches :
    let moves : List (Move Nat Nat) :=
      [.send (.deliver (.ofTokens [1] 1) .normal false), .send (.perform 7),
        .send (.deliver (.ofTokens [2] 1) .normal false),
        .send (.deliver (.ofTokens [3] 1) .high false)] ++
        .replicate 9 (.tick .calm) ++ .finish :: .replicate 9 (.tick .calm) ++
        .finish :: .replicate 9 (.tick .calm) ++ .finish :: .replicate 4 (.tick .calm)
    let run := Executor.new.play [] moves
    run.2.hasEnded = false ∧
      (ledgerOf .high run.1).consumed = [3] ∧ (ledgerOf .normal run.1).consumed = [1] ∧
      gather Moment.effects run.1 =
        [.delivery (.ofTokens [1] 1), .perform 7, .delivery (.ofTokens [2] 1)] ∧
      Barrier run.1 run.2 :=
  ⟨rfl, rfl, rfl, rfl, Run.barrier (run_play .new _) rfl⟩

end Run

end TerminalFeed
