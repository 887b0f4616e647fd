import TerminalFeed.Proofs.Accounts

/-!
A run that nothing disturbs: batches and performs are sent, nothing is paused, held back
or dropped, and the code that runs only takes its time. Then the batches of a lane are
executed whole and in order, and when a perform starts, all that was sent ahead of it is
over.
-/

namespace TerminalFeed

variable {α κ : Type}

def Message.isPlain : Message α κ → Bool
  | .deliver .. | .perform _ => true
  | _ => false

def Move.isCalm : Move α κ → Prop
  | .send m => m.isPlain
  | .tick around => around = .calm
  | .finish => True
  | _ => False

def Stage.isCalm : Stage α → Bool
  | .task _ | .token _ _ true | .ended => false
  | _ => true

namespace Event

def isCalm : Event α κ → Bool
  | .discarded _ | .passHeld | .taskStarted _ | .tokenDropped .. | .tokenRolledBack .. | .ended =>
    false
  | _ => true

def executed (lane : Lane) : Event α κ → List α
  | .tokenExecuted other token => if other = lane then [token] else []
  | _ => []

theorem executed_of_not_concerns {lane : Lane} (e : Event α κ)
    (elsewhere : e.concerns lane = false) : e.executed lane = [] := by
  cases e <;> simp_all [executed, concerns]

theorem entering_of_not_concerns {lane : Lane} (e : Event α κ)
    (elsewhere : e.concerns lane = false) : e.entering lane = [] := by
  cases e <;> simp_all [entering, concerns]

theorem returned_of_isCalm {e : Event α κ} (calm : e.isCalm) (lane : Lane) :
    e.returned lane = e.executed lane := by
  cases e with
  | tokenRolledBack => cases calm
  | _ => rfl

end Event

namespace Moment

def started (lane : Lane) (moment : Moment α κ) : List α :=
  moment.events.flatMap (Event.started lane)

def executed (lane : Lane) (moment : Moment α κ) : List α :=
  moment.events.flatMap (Event.executed lane)

end Moment

def Undisturbed (history : List (Moment α κ)) : Prop := ∀ moment ∈ history, moment.move.isCalm

/-- In a line that is not disturbed, tokens are executed and batches told of in the order in
which they came. -/
theorem Shift.flows {lane : Lane} {line line' : List (Batch α)} {events : List (Event α κ)}
    (shift : Shift lane line events line') (calm : ∀ e ∈ events, e.isCalm) :
    line.flatMap Batch.rest ++ (events.flatMap (Event.entering lane)).flatMap Batch.rest =
        events.flatMap (Event.executed lane) ++ line'.flatMap Batch.rest ∧
      line.map Batch.byteLength ++ (events.flatMap (Event.entering lane)).map Batch.byteLength =
        events.flatMap (Event.told lane) ++ line'.map Batch.byteLength := by
  cases shift with
  | still line => simp
  | enters line real => simp [Event.entering, Event.executed, Event.told]
  | drops ahead lanes => simp [Event.isCalm] at calm
  | consumes line consumed current =>
    rcases consumed with rfl | rfl
    · simp [Event.isCalm] at calm
    · simp [Event.entering, Event.executed, Event.told, current]
  | completes line spent => simp [Event.entering, Event.executed, Event.told, spent]

namespace Executor

variable {x y : Executor α κ} {m : Move α κ} {events : List (Event α κ)}

structure Calm (x : Executor α κ) : Prop where
  stage : x.stage.isCalm
  shutdown : x.shutdown = false
  stopRequested : x.stopRequested = false
  tasks : x.tasks = []
  mail : ∀ n ∈ x.stash ++ x.mailbox, n.isPlain

namespace Calm

theorem new : (new : Executor α κ).Calm := ⟨rfl, rfl, rfl, rfl, List.forall_mem_nil _⟩

theorem running (calm : x.Calm) : x.hasEnded = false := by
  have stage := calm.stage
  cases ended : x.hasEnded with
  | false => rfl
  | true =>
    rw [(hasEnded_iff x).mp ended] at stage
    cases stage

theorem halted (calm : x.Calm) : x.halted .calm = false := by
  simp [Executor.halted, calm.shutdown, calm.stopRequested, Surroundings.calm]

theorem kept (calm : x.Calm) (stage : y.stage.isCalm) (shutdown : y.shutdown = x.shutdown)
    (stop : y.stopRequested = x.stopRequested ∨ y.stopRequested = false)
    (tasks : y.tasks = x.tasks)
    (mail : ∀ n ∈ y.stash ++ y.mailbox, n ∈ x.stash ++ x.mailbox) : y.Calm := by
  constructor
  · exact stage
  · rw [shutdown, calm.shutdown]
  · rcases stop with same | never
    · rw [same, calm.stopRequested]
    · exact never
  · rw [tasks, calm.tasks]
  · intro n member
    exact calm.mail n (mail n member)

theorem handle (calm : x.Calm) {n : Message α κ} (plain : n.isPlain) :
    (x.handle n).1.Calm ∧ ∀ e ∈ (x.handle n).2, e.isCalm := by
  cases n with
  | deliver batch lane slot =>
    cases nothing : batch.isNothing <;> cases slot <;>
      simp only [Executor.handle, enqueue_eq, nothing, if_true] <;>
      exact ⟨calm.kept calm.stage rfl (.inl rfl) rfl fun n member => member,
        by simp [Event.isCalm]⟩
  | perform code =>
    exact ⟨calm.kept calm.stage rfl (.inl rfl) rfl fun n member => member, List.forall_mem_nil _⟩
  | _ => cases plain

theorem step (calm : x.Calm) (step : Step x m events y) (move : m.isCalm) :
    y.Calm ∧ ∀ e ∈ events, e.isCalm := by
  have same : ∀ n ∈ x.stash ++ x.mailbox, n ∈ x.stash ++ x.mailbox := fun n member => member
  have kept (stage : Stage α) (quiet : stage.isCalm) :
      ({ x with stage := stage } : Executor α κ).Calm :=
    calm.kept quiet rfl (.inl rfl) rfl same
  have undisturbed := calm.stage
  cases step with
  | sent running =>
    refine ⟨⟨calm.stage, calm.shutdown, calm.stopRequested, calm.tasks, ?_⟩, List.forall_mem_nil _⟩
    intro n member
    rw [← List.append_assoc, List.mem_append] at member
    rcases member with old | new
    · exact calm.mail n old
    · rwa [List.mem_singleton.mp new]
  | @woken around n rest stage mailbox =>
    apply handle
    · exact calm.kept rfl rfl (.inl rfl) rfl (by simp [mailbox]; grind)
    · exact calm.mail n (by simp [mailbox])
  | @absorbed around next n rest stage mailbox passes =>
    apply handle
    · exact calm.kept calm.stage rfl (.inl rfl) rfl (by simp [mailbox]; grind)
    · exact calm.mail n (by simp [mailbox])
  | @handedOver around n rest stage stash =>
    apply handle
    · refine calm.kept ?_ rfl (.inl rfl) rfl (by simp [stash]; grind)
      cases n <;> rfl
    · exact calm.mail n (by simp [stash])
  | stashed stage mailbox barred behind =>
    exact ⟨calm.kept calm.stage rfl (.inl rfl) rfl (by simp [mailbox]), List.forall_mem_nil _⟩
  | passStarted stage mailbox opens =>
    exact ⟨calm.kept rfl rfl (.inr rfl) rfl same, by simp [startPass, Event.isCalm]⟩
  | taskStarted stage tasks => simp [calm.tasks] at tasks
  | held stage tasks holding =>
    obtain rfl := move
    cases holding
  | interrupted stage tasks halted | passHalted stage halted =>
    obtain rfl := move
    rw [calm.halted] at halted
    cases halted
  | tokenDropped stage tasks halted current discards =>
    obtain rfl := move
    cases discards
  | shutDown shutdown stage =>
    rw [calm.shutdown] at shutdown
    cases shutdown
  | inert stage | taskReturned stage | tokenRolledBack stage current =>
    rw [stage] at undisturbed
    cases undisturbed
  | added | queued | ranAtOnce | rollBackAsked | failed => cases move
  | @passDone around handled stage halted empty =>
    exact ⟨kept _ rfl, by cases handled <;> simp [closePass, Event.isCalm]⟩
  | performReturned stage =>
    refine ⟨kept _ ?_, List.forall_mem_nil _⟩
    split <;> rfl
  | yielded stage mailbox high unfinished =>
    exact ⟨calm.kept rfl rfl (.inl rfl) rfl same, List.forall_mem_nil _⟩
  | selected stage halted popped =>
    exact ⟨calm.kept rfl rfl (.inl rfl) rfl same, List.forall_mem_nil _⟩
  | performStarted stage pending shutdown =>
    exact ⟨calm.kept rfl rfl (.inl rfl) rfl same, by simp [Event.isCalm]⟩
  | idle stage mailbox => exact ⟨calm, List.forall_mem_nil _⟩
  | _ => exact ⟨kept _ rfl, by simp [Event.isCalm]⟩

theorem cleared (calm : x.Calm) (step : Step x m events y) (move : m.isCalm)
    (before : x.stage.afterPass → ∀ lane, x.lanes.waiting lane = []) :
    y.stage.afterPass → ∀ lane, y.lanes.waiting lane = [] := by
  intro after
  obtain ⟨calm', quiet⟩ := calm.step step move
  cases rests : x.stage.afterPass with
  | true =>
    obtain ⟨-, -, -, stays⟩ := rests_step step rests after
    intro lane
    have none : Moment.added lane ⟨x, m, events, y⟩ = [] := by
      cases m with
      | add => cases move
      | _ => rfl
    rw [stays, before rests, none, List.append_nil]
  | false =>
    obtain ⟨-, holds | ⟨around, rfl, paused⟩ | stop | empty⟩ :=
      closes_step step rests after calm'.shutdown
    · obtain ⟨e, member, holds⟩ := List.any_eq_true.mp holds
      have calm := quiet e member
      cases e <;> simp_all [Event.holdsPass, Event.isCalm]
    · obtain rfl := move
      cases paused
    · rw [calm.stopRequested] at stop
      cases stop
    · exact empty

end Calm

end Executor

theorem gather_sent (lane : Lane) (history : List (Moment α κ)) :
    gather (Moment.sent lane) history =
      (gather Moment.message history).flatMap (Message.bound lane) := by
  have one (moment : Moment α κ) :
      moment.sent lane = moment.message.flatMap (Message.bound lane) := by
    unfold Moment.sent Moment.message
    cases moment.move <;> simp
  induction history with
  | nil => rfl
  | cons moment past ih => rw [gather, gather, ih, List.flatMap_append, one]

namespace Undisturbed

open Executor

variable {history later past : List (Moment α κ)} {x : Executor α κ}

theorem nil : Undisturbed ([] : List (Moment α κ)) := by
  intro moment member
  cases member

theorem cons {moment : Moment α κ} (calm : Undisturbed past) (move : moment.move.isCalm) :
    Undisturbed (moment :: past) := by
  intro other member
  rcases List.mem_cons.mp member with rfl | earlier
  · exact move
  · exact calm other earlier

theorem earlier {moment : Moment α κ} (calm : Undisturbed (moment :: past)) : Undisturbed past :=
  fun other member => calm other (.tail _ member)

theorem executor (calm : Undisturbed history) (run : Run history x) : x.Calm := by
  induction run with
  | new => exact .new
  | move run made ih =>
    exact ((ih calm.earlier).step (step_of_move? made) (calm _ (.head _))).1

theorem events (calm : Undisturbed history) (run : Run history x) :
    ∀ moment ∈ history, ∀ e ∈ moment.events, e.isCalm := by
  intro moment member
  induction run with
  | new => cases member
  | move run made ih =>
    rcases List.mem_cons.mp member with rfl | earlier
    · exact ((calm.earlier.executor run).step (step_of_move? made) (calm _ (.head _))).2
    · exact ih calm.earlier earlier

theorem waiting_eq_nil (calm : Undisturbed history) (run : Run history x)
    (after : x.stage.afterPass) (lane : Lane) : x.lanes.waiting lane = [] := by
  induction run generalizing lane with
  | new => cases lane <;> rfl
  | move run made ih =>
    exact (calm.earlier.executor run).cleared (step_of_move? made) (calm _ (.head _))
      (ih calm.earlier) after lane

theorem line_eq_nil (calm : Undisturbed history) (run : Run history x)
    (after : x.stage.afterPass) (lane : Lane) : x.line lane = [] := by
  rw [line, held_of_afterPass after, calm.waiting_eq_nil run after, List.append_nil]

theorem flows (calm : Undisturbed history) (run : Run history x) (lane : Lane) :
    gather (Moment.executed lane) history ++ (x.line lane).flatMap Batch.rest =
        (gather (Moment.entered lane) history).flatMap Batch.rest ∧
      gather (Moment.told lane) history ++ (x.line lane).map Batch.byteLength =
        (gather (Moment.entered lane) history).map Batch.byteLength := by
  induction run with
  | new => cases lane <;> exact ⟨rfl, rfl⟩
  | @move past x y m events run made ih =>
    obtain ⟨tokens, lengths⟩ := ih calm.earlier
    obtain ⟨running, quiet⟩ :=
      (calm.earlier.executor run).step (step_of_move? made) (calm _ (.head _))
    obtain ⟨consumed, told⟩ :=
      (shift_step (step_of_move? made) running.running run.unfinished lane).flows fun e member =>
        quiet e (List.mem_filter.mp member).1
    rw [flatMap_concerns Event.entering_of_not_concerns] at consumed told
    rw [flatMap_concerns Event.executed_of_not_concerns] at consumed
    rw [flatMap_concerns Event.told_of_not_concerns] at told
    constructor
    · calc gather (Moment.executed lane) (⟨x, m, events, y⟩ :: past) ++
            (y.line lane).flatMap Batch.rest
          = gather (Moment.executed lane) past ++
              (events.flatMap (Event.executed lane) ++ (y.line lane).flatMap Batch.rest) := by
            rw [gather, List.append_assoc, Moment.executed]
        _ = _ := by
            rw [← consumed, ← List.append_assoc, tokens, gather, List.flatMap_append,
              Moment.entered]
    · calc gather (Moment.told lane) (⟨x, m, events, y⟩ :: past) ++
            (y.line lane).map Batch.byteLength
          = gather (Moment.told lane) past ++
              (events.flatMap (Event.told lane) ++ (y.line lane).map Batch.byteLength) := by
            rw [gather, List.append_assoc, Moment.told]
        _ = _ := by
            rw [← told, ← List.append_assoc, lengths, gather, List.map_append, Moment.entered]

theorem entered_eq (calm : Undisturbed history) (run : Run history x) (lane : Lane) :
    gather (Moment.entered lane) history = gather (Moment.delivered lane) history := by
  induction run with
  | new => rfl
  | @move past x y m events run made ih =>
    have none : Moment.added lane ⟨x, m, events, y⟩ = [] := by
      have move := calm _ (.head _)
      cases m with
      | add => cases move
      | _ => rfl
    rw [gather, gather, ih calm.earlier, entered_step (step_of_move? made), none, List.append_nil]

theorem entered_prefix (calm : Undisturbed history) (run : Run history x) (lane : Lane) :
    gather (Moment.entered lane) history <+:
      (gather Moment.message history).flatMap (Message.bound lane) := by
  rw [calm.entered_eq run, ← gather_sent]
  exact run.delivered_prefix lane

theorem started_eq (calm : Undisturbed history) (run : Run history x) (lane : Lane) :
    gather (Moment.started lane) history =
      gather (Moment.executed lane) history ++ x.stage.executing lane := by
  have returned : gather (fun moment => moment.events.flatMap (Event.returned lane)) history =
      gather (Moment.executed lane) history := by
    have events := calm.events run
    clear run calm
    induction history with
    | nil => rfl
    | cons moment past ih =>
      have here : moment.events.flatMap (Event.returned lane) = moment.executed lane := by
        apply List.flatMap_congr
        intro e member
        exact Event.returned_of_isCalm (events moment (.head _) e member) lane
      rw [gather, gather, here, ih fun other member => events other (.tail _ member)]
  rw [← returned]
  exact run.attempts (calm.executor run).running lane

theorem executing_prefix (x : Executor α κ) (lane : Lane) :
    x.stage.executing lane <+: (x.line lane).flatMap Batch.rest := by
  rw [line]
  cases stage : x.stage with
  | token other batch rolledBack =>
    by_cases same : other = lane
    · simp only [Stage.executing, Stage.held, same, if_true, List.singleton_append,
        List.flatMap_cons]
      exact (List.take_prefix 1 batch.rest).trans (List.prefix_append _ _)
    · simp [Stage.executing, same]
  | _ => exact List.nil_prefix

/-- What has been begun, and what has been told of, is the first of what was sent. -/
theorem begun_prefix (calm : Undisturbed history) (run : Run history x) (lane : Lane) :
    gather (Moment.started lane) history <+:
        ((gather Moment.message history).flatMap (Message.bound lane)).flatMap Batch.rest ∧
      gather (Moment.told lane) history <+:
        ((gather Moment.message history).flatMap (Message.bound lane)).map Batch.byteLength := by
  obtain ⟨later, sent⟩ := calm.entered_prefix run lane
  obtain ⟨tokens, lengths⟩ := calm.flows run lane
  rw [← sent, List.flatMap_append, List.map_append, ← tokens, ← lengths, calm.started_eq run]
  constructor
  · obtain ⟨rest, whole⟩ := executing_prefix x lane
    exact ⟨rest ++ later.flatMap Batch.rest, by rw [← whole]; simp only [List.append_assoc]⟩
  · rw [List.append_assoc]
    exact List.prefix_append _ _

/-- When a perform is about to start, all that was sent ahead of it is over. -/
theorem over_of_pending (calm : Undisturbed history) (run : Run history x)
    (stage : x.stage = .performs) {code : κ} {rest : List κ} (pending : x.pending = code :: rest) :
    ∃ ahead behind, gather Moment.message history = ahead ++ .perform code :: behind ∧
      ∀ lane, (ahead.flatMap (Message.bound lane)).flatMap Batch.rest <+:
          gather (Moment.executed lane) history ∧
        (ahead.flatMap (Message.bound lane)).map Batch.byteLength <+:
          gather (Moment.told lane) history := by
  obtain ⟨ahead, behind, sent, -, delivered⟩ :=
    run.ahead_of_pending (calm.executor run).running pending
  refine ⟨ahead, behind, sent, ?_⟩
  intro lane
  obtain ⟨tokens, lengths⟩ := calm.flows run lane
  rw [calm.line_eq_nil run (by rw [stage]; rfl), calm.entered_eq run] at tokens lengths
  rw [List.flatMap_nil, List.append_nil] at tokens
  rw [List.map_nil, List.append_nil] at lengths
  rw [tokens, lengths]
  obtain ⟨later, whole⟩ := delivered lane
  rw [← whole, List.flatMap_append, List.map_append]
  exact ⟨List.prefix_append _ _, List.prefix_append _ _⟩

end Undisturbed

end TerminalFeed
