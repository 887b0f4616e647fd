import Mathlib.Algebra.Order.Ring.Nat
import Mathlib.Data.List.Forall2
import Mathlib.Data.List.Perm.Basic
import TerminalFeed.Proofs.TaskOrder

/-!
Byte accounting. The byte length of a batch is announced when the batch enters its lane,
and told once more when the batch is over: when its last token has been consumed, or when
it has none and is taken from its lane. A batch that is dropped is not told of again. So
what has been announced is what has been told, what is in line, and what was dropped.
-/

namespace TerminalFeed

variable {α κ : Type}

/-- A batch as it has entered, and the tokens of it that have been consumed. -/
structure Entry (α : Type) where
  batch : Batch α
  consumed : List α

/-- The batches of one lane by what has become of them, first one first. -/
structure Account (α : Type) where
  completed : List (Entry α)
  standing : List (Entry α)
  dropped : List (Entry α)

namespace Event

def announced (lane : Lane) : Event α κ → List Nat
  | .enqueued other batch => if other = lane then [batch.byteLength] else []
  | _ => []

def told (lane : Lane) : Event α κ → List Nat
  | .batchCompleted other n => if other = lane then [n] else []
  | _ => []

def announcement : Event α κ → List Nat
  | .enqueued _ batch => [batch.byteLength]
  | _ => []

def report : Event α κ → List Nat
  | .batchCompleted _ n => [n]
  | _ => []

def struck (lane : Lane) (line : List (Batch α)) : Event α κ → List Nat
  | .discarded lanes => (lanes.waiting lane).map Batch.byteLength
  | .ended => line.map Batch.byteLength
  | _ => []

end Event

namespace Moment

def announced (lane : Lane) (moment : Moment α κ) : List Nat :=
  moment.events.flatMap (Event.announced lane)

def told (lane : Lane) (moment : Moment α κ) : List Nat :=
  moment.events.flatMap (Event.told lane)

def struck (lane : Lane) (moment : Moment α κ) : List Nat :=
  moment.events.flatMap (Event.struck lane (moment.before.line lane))

end Moment

namespace Account

def blank : Account α := ⟨[], [], []⟩

def entries (a : Account α) : List (Entry α) := a.completed ++ a.standing ++ a.dropped

def strike (a : Account α) (kept : Nat) : Account α :=
  { a with standing := a.standing.take kept, dropped := a.dropped ++ a.standing.drop kept }

/-- The first batch in line is the one whose tokens are consumed, and the one that is
over. A discard leaves what is not waiting, and the end of the executor leaves nothing. -/
def record (lane : Lane) (a : Account α) : Event α κ → Account α
  | .enqueued other batch =>
    if other = lane then { a with standing := a.standing ++ [⟨batch, []⟩] } else a
  | .tokenDropped other token | .tokenExecuted other token =>
    if other = lane then
      { a with
        standing := a.standing.modifyHead fun e => { e with consumed := e.consumed ++ [token] } }
    else a
  | .batchCompleted other _ =>
    if other = lane then
      { a with completed := a.completed ++ a.standing.take 1, standing := a.standing.drop 1 }
    else a
  | .discarded lanes => a.strike (a.standing.length - (lanes.waiting lane).length)
  | .ended => a.strike 0
  | _ => a

end Account

def accountOf (lane : Lane) (history : List (Moment α κ)) : Account α :=
  (gather Moment.events history).foldl (Account.record lane) .blank

structure Entry.Stands (e : Entry α) (b : Batch α) : Prop where
  tokens : e.consumed ++ b.rest = e.batch.rest
  byteLength : e.batch.byteLength = b.byteLength

theorem accountOf_cons (lane : Lane) (moment : Moment α κ) (past : List (Moment α κ)) :
    accountOf lane (moment :: past) =
      moment.events.foldl (Account.record lane) (accountOf lane past) := by
  simp [accountOf, gather, List.foldl_append]

theorem byteLengths_eq {standing : List (Entry α)} {line : List (Batch α)}
    (stands : List.Forall₂ Entry.Stands standing line) :
    (standing.map fun e => e.batch.byteLength) = line.map Batch.byteLength := by
  induction stands with
  | nil => rfl
  | cons first others ih => rw [List.map_cons, List.map_cons, ih, first.byteLength]

namespace Account

theorem record_of_not_concerns {lane : Lane} (a : Account α) (e : Event α κ)
    (elsewhere : e.concerns lane = false) : record lane a e = a := by
  cases e <;> simp_all [record, Event.concerns]

theorem entries_strike (a : Account α) (kept : Nat) : (a.strike kept).entries.Perm a.entries := by
  have back : (a.dropped ++ a.standing.drop kept).Perm (a.standing.drop kept ++ a.dropped) :=
    List.perm_append_comm
  have whole : a.standing.take kept ++ (a.standing.drop kept ++ a.dropped) =
      a.standing ++ a.dropped := by
    rw [← List.append_assoc, List.take_append_drop]
  rw [entries, entries, strike, List.append_assoc, List.append_assoc, ← whole]
  exact (back.append_left _).append_left _

theorem entries_record (lane : Lane) (a : Account α) (e : Event α κ) :
    ((record lane a e).entries.map Entry.batch).Perm
      (a.entries.map Entry.batch ++ e.entering lane) := by
  cases e with
  | enqueued other batch =>
    by_cases same : other = lane
    · simp only [record, same, if_true, entries, Event.entering, List.map_append, List.map_cons,
        List.map_nil, List.append_assoc]
      exact (List.perm_append_comm.append_left _).append_left _
    · simp [record, Event.entering, same]
  | tokenDropped other token | tokenExecuted other token =>
    by_cases same : other = lane
    · cases standing : a.standing <;>
        simp [record, Event.entering, entries, same, standing, List.modifyHead]
    · simp [record, Event.entering, same]
  | batchCompleted other n =>
    by_cases same : other = lane
    · have whole : a.completed ++ a.standing.take 1 ++ a.standing.drop 1 =
          a.completed ++ a.standing := by
        rw [List.append_assoc, List.take_append_drop]
      simp only [record, same, if_true, entries, whole, Event.entering, List.append_nil]
      exact .refl _
    · simp [record, Event.entering, same]
  | discarded lanes | ended =>
    simpa [record, Event.entering] using (entries_strike a _).map Entry.batch
  | _ => simp [record, Event.entering]

theorem entries_foldl (lane : Lane) (a : Account α) (events : List (Event α κ)) :
    ((events.foldl (record lane) a).entries.map Entry.batch).Perm
      (a.entries.map Entry.batch ++ events.flatMap (Event.entering lane)) := by
  induction events generalizing a with
  | nil => simp
  | cons e rest ih =>
    rw [List.foldl_cons, List.flatMap_cons, ← List.append_assoc]
    exact (ih _).trans ((entries_record lane a e).append_right _)

theorem settled_record (lane : Lane) (a : Account α) (e : Event α κ) :
    a.completed <+: (record lane a e).completed ∧ a.dropped <+: (record lane a e).dropped := by
  cases e with
  | enqueued other batch | tokenDropped other token | tokenExecuted other token
  | batchCompleted other n =>
    by_cases same : other = lane <;> simp [record, same]
  | discarded lanes | ended => simp [record, strike]
  | _ => exact ⟨List.prefix_rfl, List.prefix_rfl⟩

theorem settled_foldl (lane : Lane) (a : Account α) (events : List (Event α κ)) :
    a.completed <+: (events.foldl (record lane) a).completed ∧
      a.dropped <+: (events.foldl (record lane) a).dropped := by
  induction events generalizing a with
  | nil => exact ⟨List.prefix_rfl, List.prefix_rfl⟩
  | cons e rest ih =>
    obtain ⟨completed, dropped⟩ := settled_record lane a e
    exact ⟨completed.trans (ih _).1, dropped.trans (ih _).2⟩

/-- What the books of a lane have to say of the line, of what has been told, and of what
was dropped. -/
structure Agrees (a : Account α) (line : List (Batch α)) (told struck : List Nat) : Prop where
  standing : List.Forall₂ Entry.Stands a.standing line
  spent : ∀ e ∈ a.completed, e.consumed = e.batch.rest
  told : (a.completed.map fun e => e.batch.byteLength) = told
  struck : (a.dropped.map fun e => e.batch.byteLength) = struck

namespace Agrees

variable {a : Account α} {line line' : List (Batch α)} {told struck : List Nat} {lane : Lane}
  {events : List (Event α κ)}

theorem blank : (Account.blank : Account α).Agrees [] [] [] :=
  ⟨.nil, nofun, rfl, rfl⟩

theorem enter (agrees : a.Agrees line told struck) (b : Batch α) :
    Agrees { a with standing := a.standing ++ [⟨b, []⟩] } (line ++ [b]) told struck := by
  have stands : Entry.Stands ⟨b, []⟩ b := ⟨rfl, rfl⟩
  exact ⟨List.rel_append agrees.standing (.cons stands .nil), agrees.spent, agrees.told,
    agrees.struck⟩

theorem strike (agrees : a.Agrees (line ++ line') told struck) :
    (a.strike line.length).Agrees line told (struck ++ line'.map Batch.byteLength) := by
  have kept := List.forall₂_take line.length agrees.standing
  have gone := List.forall₂_drop line.length agrees.standing
  rw [List.take_left] at kept
  rw [List.drop_left] at gone
  refine ⟨kept, agrees.spent, agrees.told, ?_⟩
  rw [Account.strike, List.map_append, agrees.struck, byteLengths_eq gone]

theorem consume {b : Batch α} {token : α} {rest : List α}
    (agrees : a.Agrees (b :: line) told struck) (current : b.rest = token :: rest) :
    Agrees { a with
      standing := a.standing.modifyHead fun e => { e with consumed := e.consumed ++ [token] } }
      (b.advance :: line) told struck := by
  obtain ⟨e, others, first, stands, same⟩ := List.forall₂_cons_right_iff.mp agrees.standing
  rw [same]
  refine ⟨.cons ?_ stands, agrees.spent, agrees.told, agrees.struck⟩
  have tokens := first.tokens
  rw [current] at tokens
  constructor
  · simpa [current] using tokens
  · rw [Batch.byteLength_advance]
    exact first.byteLength

theorem complete {b : Batch α} (agrees : a.Agrees (b :: line) told struck) (spent : b.rest = []) :
    Agrees { a with
      completed := a.completed ++ a.standing.take 1, standing := a.standing.drop 1 }
      line (told ++ [b.byteLength]) struck := by
  obtain ⟨e, others, first, stands, same⟩ := List.forall₂_cons_right_iff.mp agrees.standing
  rw [same]
  refine ⟨stands, ?_, ?_, agrees.struck⟩
  · intro other member
    rcases List.mem_append.mp member with old | new
    · exact agrees.spent other old
    · obtain rfl : other = e := by simpa using new
      have tokens := first.tokens
      rwa [spent, List.append_nil] at tokens
  · simpa [first.byteLength] using agrees.told

theorem shift (agrees : a.Agrees line told struck) (shift : Shift lane line events line') :
    (events.foldl (record lane) a).Agrees line' (told ++ events.flatMap (Event.told lane))
      (struck ++ events.flatMap (Event.struck lane line)) := by
  cases shift with
  | still line => simpa using agrees
  | @enters line batch real =>
    simpa [record, Event.told, Event.struck] using agrees.enter batch
  | drops ahead lanes =>
    have length : a.standing.length - (lanes.waiting lane).length = line'.length := by
      rw [agrees.standing.length_eq, List.length_append, Nat.add_sub_cancel]
    simpa [record, Event.told, Event.struck, length] using agrees.strike
  | @consumes line batch token rest event consumed current =>
    have after := agrees.consume current
    rcases consumed with rfl | rfl <;> simpa [record, Event.told, Event.struck] using after
  | completes line spent =>
    simpa [record, Event.told, Event.struck] using agrees.complete spent

theorem ended (agrees : a.Agrees line told struck) :
    (record lane a (.ended : Event α κ)).Agrees [] told
      (struck ++ line.map Batch.byteLength) := by
  have dropped : a.Agrees ([] ++ line) told struck := agrees
  exact dropped.strike

end Agrees

end Account

theorem flatMap_concerns {β : Type} {give : Event α κ → List β} {lane : Lane}
    (quiet : ∀ e, e.concerns lane = false → give e = []) (events : List (Event α κ)) :
    (events.filter (Event.concerns lane)).flatMap give = events.flatMap give := by
  induction events with
  | nil => rfl
  | cons e rest ih =>
    cases about : e.concerns lane with
    | true => simp [about, ih]
    | false => simp [about, ih, quiet e about]

theorem Event.told_of_not_concerns {lane : Lane} (e : Event α κ)
    (elsewhere : e.concerns lane = false) : e.told lane = [] := by
  cases e <;> simp_all [told, concerns]

theorem Event.struck_of_not_concerns {lane : Lane} {line : List (Batch α)} (e : Event α κ)
    (elsewhere : e.concerns lane = false) : e.struck lane line = [] := by
  cases e <;> simp_all [struck, concerns]

theorem mem_gather {β : Type} {give : Moment α κ → List β} {history : List (Moment α κ)} {b : β} :
    b ∈ gather give history ↔ ∃ moment ∈ history, b ∈ give moment := by
  induction history with
  | nil => simp [gather]
  | cons moment past ih => simp [gather, ih, or_comm]

theorem Shift.told {lane : Lane} {line line' : List (Batch α)} {events : List (Event α κ)}
    {n : Nat} (shift : Shift lane line events line') (tells : .batchCompleted lane n ∈ events) :
    ∃ b rest, line = b :: rest ∧ b.rest = [] ∧ b.byteLength = n := by
  cases shift with
  | @completes line b spent =>
    obtain rfl : n = b.byteLength := by simpa using tells
    exact ⟨b, line', rfl, spent, rfl⟩
  | consumes line consumed current => rcases consumed with rfl | rfl <;> simp at tells
  | _ => simp at tells

namespace Executor

variable {x y : Executor α κ} {m : Move α κ} {events : List (Event α κ)}

theorem handled_step (step : Step x m events y) (lane : Lane) :
    Moment.entered lane ⟨x, m, events, y⟩ =
      (Moment.handled ⟨x, m, events, y⟩).flatMap (Message.bound lane) ++
        Moment.added lane ⟨x, m, events, y⟩ := by
  cases step with
  | woken stage mailbox =>
    simp [Moment.entered, entering_handle, Moment.handled, Moment.added, stage, mailbox]
  | absorbed stage mailbox passes =>
    rw [handled_absorbed stage mailbox passes]
    simp [Moment.entered, entering_handle, Moment.added]
  | stashed stage mailbox barred behind =>
    simp [Moment.entered, Moment.handled, Moment.added, stage, mailbox, barred, behind]
  | handedOver stage stash =>
    simp [Moment.entered, entering_handle, Moment.handled, Moment.added, stage, stash]
  | added running => simp [Moment.entered, entering_enqueue, Moment.handled, Moment.added]
  | @passHalted around handled stage halted | @passDone around handled stage halted empty =>
    cases handled <;>
      simp [Moment.entered, Event.entering, Moment.handled, Moment.added, closePass, stage]
  | shutDown shutdown stage =>
    rcases stage with stage | ⟨stage, mailbox⟩ <;>
      simp [Moment.entered, entering_stop, Moment.handled, Moment.added, *]
  | failed running => simp [Moment.entered, entering_stop, Moment.handled, Moment.added]
  | _ =>
    simp [Moment.entered, Event.entering, Moment.handled, Moment.added, startPass, *]

theorem spent_step (step : Step x m events y) (unfinished : x.stage.unfinished) {lane : Lane}
    {batch : Batch α} (held : x.stage.held lane = [batch]) (spent : batch.rest = []) :
    y.stage.held lane = [batch] ∨ events = [.batchCompleted lane batch.byteLength] ∨
      y.hasEnded := by
  -- Where a token is about to be begun, or executes, something is left.
  have begun {other : Lane} {b : Batch α} (left : b.rest ≠ [])
      (same : (if other = lane then [b] else []) = [batch]) : False := by
    split at same
    · obtain rfl : b = batch := by simpa using same
      exact left spent
    · cases same
  cases step with
  | sent running | idle stage mailbox | inert stage | stashed stage mailbox barred behind
  | queued running inPass | ranAtOnce running inPass => exact .inl held
  | absorbed stage mailbox passes =>
    rw [stage_handle]
    exact .inl held
  | added running =>
    rw [stage_enqueue]
    exact .inl held
  | continued stage mailbox keeps | taskStarted stage tasks | tokenLeft stage tasks
  | taskReturned stage =>
    rw [stage] at held
    exact .inl held
  | @completed around other b stage finished =>
    rw [stage, Stage.held] at held
    split at held
    · rename_i same
      obtain rfl : b = batch := by simpa using held
      rw [same]
      exact .inr (.inl rfl)
    · cases held
  | yielded stage mailbox high left =>
    rw [stage] at held
    exact (begun (by simpa [Batch.isFinished] using left) held).elim
  | entered stage left =>
    rw [stage] at held
    exact (begun left held).elim
  | interrupted stage tasks halted | exhausted stage tasks left
  | tokenDropped stage tasks halted current discards
  | tokenStarted stage tasks halted current discards | tokenVoid stage left
  | tokenRolledBack stage current | tokenExecuted stage current | rollBackAsked stage =>
    rw [stage] at held unfinished
    exact (begun unfinished held).elim
  | failed running => exact .inr (.inr rfl)
  | shutDown shutdown stage => exact .inr (.inr rfl)
  | passStarted stage mailbox opens =>
    rcases opens with rfl | ⟨rfl, -⟩ <;> simp [stage, Stage.held, AfterMail.held] at held
  | _ => simp [Stage.held, AfterTasks.held, *] at held

theorem waiting_handle {x : Executor α κ} {n : Message α κ} {lane : Lane} {batch : Batch α}
    (waits : batch ∈ (x.handle n).1.lanes.waiting lane) :
    batch ∈ x.lanes.waiting lane ∨ batch ∈ (x.handle n).2.flatMap (Event.entering lane) := by
  cases n with
  | deliver b other slot =>
    have grown := waiting_enqueue x lane other b
    rw [← entering_enqueue] at grown
    have member : batch ∈ (x.enqueue other b).1.lanes.waiting lane := waits
    rw [grown, List.mem_append] at member
    cases slot <;> simpa [handle, Event.entering] using member
  | discardAll => simp [handle] at waits
  | _ => exact .inl waits

theorem waiting_putBack {x : Executor α κ} {lane other : Lane} {b batch : Batch α}
    (left : b.rest ≠ []) (waits : batch ∈ (x.putBack other b).lanes.waiting lane) :
    batch.rest ≠ [] ∨ batch ∈ x.lanes.waiting lane := by
  rw [putBack, Lanes.waiting_pushFront] at waits
  split at waits
  · rcases List.mem_cons.mp waits with rfl | before
    · exact .inl left
    · exact .inr before
  · exact .inr waits

theorem waiting_step (step : Step x m events y) (unfinished : x.stage.unfinished) {lane : Lane}
    {batch : Batch α} (waits : batch ∈ y.lanes.waiting lane) :
    batch.rest ≠ [] ∨ batch ∈ x.lanes.waiting lane ∨
      batch ∈ Moment.entered lane ⟨x, m, events, y⟩ := by
  cases step with
  | woken stage mailbox | absorbed stage mailbox passes | handedOver stage stash =>
    exact .inr (waiting_handle waits)
  | added running =>
    rw [← handle_eq_enqueue] at waits ⊢
    exact .inr (waiting_handle waits)
  | yielded stage mailbox high left =>
    exact (waiting_putBack (by simpa [Batch.isFinished] using left) waits).imp_right .inl
  | interrupted stage tasks halted =>
    rw [stage] at unfinished
    exact (waiting_putBack unfinished waits).imp_right .inl
  | tokenRolledBack stage current =>
    rw [stage] at unfinished
    exact (waiting_putBack unfinished waits).imp_right .inl
  | @selected around handled other b lanes stage halted popped =>
    obtain ⟨whole, -⟩ := Lanes.pop?_eq_some_iff.mp popped
    rw [whole, Lanes.waiting_pushFront]
    split
    · exact .inr (.inl (.tail _ waits))
    · exact .inr (.inl waits)
  | shutDown shutdown stage | failed running => simp [stop] at waits
  | _ => exact .inr (.inl waits)

theorem real_step (step : Step x m events y) {lane : Lane} {batch : Batch α}
    (enters : batch ∈ Moment.entered lane ⟨x, m, events, y⟩) : batch.isNothing = false := by
  rw [handled_step step, List.mem_append, List.mem_flatMap] at enters
  rcases enters with ⟨n, -, brought⟩ | added
  · cases n with
    | deliver other place slot =>
      rw [Message.bound] at brought
      split at brought
      · rw [List.mem_singleton.mp brought]
        exact And.right ‹_›
      · cases brought
    | _ => cases brought
  · unfold Moment.added at added
    split at added
    · split at added
      · rw [List.mem_singleton.mp added]
        exact And.right ‹_›
      · cases added
    · cases added

theorem ended_line (step : Step x m events y) (running : x.hasEnded = false) (gone : y.hasEnded)
    (lane : Lane) : events.filter (Event.concerns lane) = [.ended] ∧ y.line lane = [] := by
  obtain ⟨stopped, -⟩ := ending_step step running gone
  obtain ⟨rfl, rfl⟩ : y = x.stop.1 ∧ events = x.stop.2 := Prod.mk.inj stopped
  constructor
  · simp [stop, Event.concerns, List.filter]
  · simp [stop, line, Stage.held]

end Executor

/-! Both lanes together. -/

def both (f : Lane → Nat) : Nat := f .high + f .normal

theorem gather_flatMap {β : Type} (give : Event α κ → List β) (history : List (Moment α κ)) :
    gather (fun moment => moment.events.flatMap give) history =
      (gather Moment.events history).flatMap give := by
  induction history with
  | nil => rfl
  | cons moment past ih => rw [gather, gather, ih, List.flatMap_append]

theorem gather_lanes {β : Type} {give : Event α κ → List β} {lane : Lane → Event α κ → List β}
    (split : ∀ e, (give e).Perm (lane .high e ++ lane .normal e)) (history : List (Moment α κ)) :
    (gather (fun moment => moment.events.flatMap give) history).Perm
      (gather (fun moment => moment.events.flatMap (lane .high)) history ++
        gather (fun moment => moment.events.flatMap (lane .normal)) history) := by
  simp only [gather_flatMap]
  exact (List.Perm.flatMap_left _ fun e _ => split e).trans (List.flatMap_append_perm _ _ _).symm

theorem Event.announcement_lanes (e : Event α κ) :
    e.announcement.Perm (e.announced .high ++ e.announced .normal) := by
  cases e with
  | enqueued lane batch => cases lane <;> exact .refl _
  | _ => exact .refl _

theorem Event.report_lanes (e : Event α κ) : e.report.Perm (e.told .high ++ e.told .normal) := by
  cases e with
  | batchCompleted lane n => cases lane <;> exact .refl _
  | _ => exact .refl _

/-- What is announced and told, and how it comes to balance. -/
structure Accounted (history : List (Moment α κ)) (x : Executor α κ) : Prop where
  -- A batch enters, and is announced, once: when the message that brings it is handled, or
  -- code adds it. A batch of no tokens and no bytes does not.
  entries : ∀ moment ∈ history, ∀ lane, moment.entered lane =
    moment.handled.flatMap (Message.bound lane) ++ moment.added lane
  real : ∀ lane, ∀ batch ∈ gather (Moment.entered lane) history, batch.isNothing = false
  -- Every batch that was announced is over, in line, or dropped, and only one of these.
  whole : ∀ lane, ((accountOf lane history).entries.map Entry.batch).Perm
    (gather (Moment.entered lane) history)
  -- Those in line stand there, with the tokens that have not been consumed.
  standing : ∀ lane, List.Forall₂ Entry.Stands (accountOf lane history).standing (x.line lane)
  -- Each batch that is over has been told of, once, with the length that was announced.
  told : ∀ lane, (accountOf lane history).completed.map (fun e => e.batch.byteLength) =
    gather (Moment.told lane) history
  spent : ∀ lane, ∀ e ∈ (accountOf lane history).completed, e.consumed = e.batch.rest
  -- The others that have left are those that a discard or the end of the executor has
  -- dropped.
  struck : ∀ lane, (accountOf lane history).dropped.map (fun e => e.batch.byteLength) =
    gather (Moment.struck lane) history
  settled : ∀ later past, history = later ++ past → ∀ lane,
    (accountOf lane past).completed <+: (accountOf lane history).completed ∧
      (accountOf lane past).dropped <+: (accountOf lane history).dropped
  -- A token that starts or is dropped is the next one of a batch that was announced.
  starts : ∀ m y events, x.move? m = some (y, events) → ∀ lane token,
    .tokenStarted lane token ∈ events ∨ .tokenDropped lane token ∈ events →
      ∃ e others rest, (accountOf lane history).standing = e :: others ∧
        e.batch.rest = e.consumed ++ token :: rest
  -- A batch that is told of is the first in line, and its last token has been consumed.
  completes : ∀ m y events, x.move? m = some (y, events) → ∀ lane n,
    .batchCompleted lane n ∈ events →
      ∃ e others, (accountOf lane history).standing = e :: others ∧
        e.consumed = e.batch.rest ∧ e.batch.byteLength = n
  -- A batch in progress of which nothing is left is told of before anything else is begun;
  -- nothing but the end of the executor keeps it from that.
  due : ∀ m y events, x.move? m = some (y, events) → ∀ lane batch,
    x.stage.held lane = [batch] → batch.rest = [] →
      events.any Event.takes = false ∧
        (y.stage.held lane = [batch] ∨ events = [.batchCompleted lane batch.byteLength] ∨
          y.hasEnded)
  -- A batch that has none when it is taken from its lane is told of with the next step.
  taken : ∀ around y events, x.move? (.tick around) = some (y, events) → ∀ lane batch,
    x.stage = .batch lane batch → batch.rest = [] →
      events = [.batchCompleted lane batch.byteLength]
  waits : ∀ lane, ∀ batch ∈ x.lanes.waiting lane,
    batch.rest ≠ [] ∨ batch ∈ gather (Moment.entered lane) history
  balance : ∀ lane, (gather (Moment.announced lane) history).sum =
    (gather (Moment.told lane) history).sum + ((x.line lane).map Batch.byteLength).sum +
      (gather (Moment.struck lane) history).sum
  -- Over both lanes, what was announced is what was told, what waits or is in progress, and
  -- what was dropped.
  total : (gather (fun moment => moment.events.flatMap Event.announcement) history).sum =
    (gather (fun moment => moment.events.flatMap Event.report) history).sum +
      both (fun lane => ((x.line lane).map Batch.byteLength).sum) +
      both fun lane => (gather (Moment.struck lane) history).sum

theorem gather_announced (lane : Lane) (history : List (Moment α κ)) :
    gather (Moment.announced lane) history =
      (gather (Moment.entered lane) history).map Batch.byteLength := by
  have event (e : Event α κ) : e.announced lane = (e.entering lane).map Batch.byteLength := by
    cases e with
    | enqueued other batch =>
      by_cases same : other = lane <;> simp [Event.announced, Event.entering, same]
    | _ => rfl
  induction history with
  | nil => rfl
  | cons moment past ih =>
    have here : moment.announced lane = (moment.entered lane).map Batch.byteLength := by
      rw [Moment.announced, Moment.entered, List.map_flatMap]
      exact congrArg (moment.events.flatMap ·) (funext event)
    rw [gather, gather, List.map_append, ih, here]

namespace Run

open Executor

variable {history later past : List (Moment α κ)} {x : Executor α κ}

theorem agrees (run : Run history x) (lane : Lane) :
    (accountOf lane history).Agrees (x.line lane) (gather (Moment.told lane) history)
      (gather (Moment.struck lane) history) := by
  induction run with
  | new => cases lane <;> exact .blank
  | @move past x y m events run made ih =>
    rw [accountOf_cons, ← foldl_concerns Account.record_of_not_concerns, gather, gather,
      Moment.told, Moment.struck, ← flatMap_concerns Event.told_of_not_concerns,
      ← flatMap_concerns Event.struck_of_not_concerns]
    cases gone : y.hasEnded with
    | false => exact ih.shift (shift_step (step_of_move? made) gone run.unfinished lane)
    | true =>
      cases ended : x.hasEnded with
      | true =>
        obtain ⟨rfl, rfl⟩ := eq_of_hasEnded ended made
        simpa using ih
      | false =>
        obtain ⟨last, empty⟩ := ended_line (step_of_move? made) ended gone lane
        rw [last, empty]
        simpa [Event.told, Event.struck] using ih.ended

theorem whole (run : Run history x) (lane : Lane) :
    ((accountOf lane history).entries.map Entry.batch).Perm
      (gather (Moment.entered lane) history) := by
  induction run with
  | new => exact .refl _
  | move run made ih =>
    rw [accountOf_cons, gather]
    exact (Account.entries_foldl lane _ _).trans (ih.append_right _)

theorem settled (later past : List (Moment α κ)) (lane : Lane) :
    (accountOf lane past).completed <+: (accountOf lane (later ++ past)).completed ∧
      (accountOf lane past).dropped <+: (accountOf lane (later ++ past)).dropped := by
  induction later with
  | nil => exact ⟨List.prefix_rfl, List.prefix_rfl⟩
  | cons moment later ih =>
    obtain ⟨completed, dropped⟩ :=
      Account.settled_foldl lane (accountOf lane (later ++ past)) moment.events
    rw [List.cons_append, accountOf_cons]
    exact ⟨ih.1.trans completed, ih.2.trans dropped⟩

theorem balance (run : Run history x) (lane : Lane) :
    (gather (Moment.announced lane) history).sum =
      (gather (Moment.told lane) history).sum + ((x.line lane).map Batch.byteLength).sum +
        (gather (Moment.struck lane) history).sum := by
  have agrees := run.agrees lane
  have announced := ((run.whole lane).map Batch.byteLength).sum_nat
  rw [gather_announced, ← announced, ← agrees.told, ← agrees.struck,
    ← byteLengths_eq agrees.standing]
  simp [Account.entries, Function.comp_def, Nat.add_assoc]

theorem unspent (run : Run history x) (lane : Lane) :
    ∀ batch ∈ x.lanes.waiting lane,
      batch.rest ≠ [] ∨ batch ∈ gather (Moment.entered lane) history := by
  induction run with
  | new => cases lane <;> exact nofun
  | move run made ih =>
    intro batch waits
    rw [gather, List.mem_append]
    rcases waiting_step (step_of_move? made) run.unfinished waits with left | before | enters
    · exact .inl left
    · exact (ih batch before).imp_right .inl
    · exact .inr (.inr enters)

theorem starts (run : Run history x) {y : Executor α κ} {m : Move α κ}
    {events : List (Event α κ)} (made : x.move? m = some (y, events)) {lane : Lane} {token : α}
    (begun : .tokenStarted lane token ∈ events ∨ .tokenDropped lane token ∈ events) :
    ∃ e others rest, (accountOf lane history).standing = e :: others ∧
      e.batch.rest = e.consumed ++ token :: rest := by
  obtain ⟨batch, rest, stage, current⟩ :
      ∃ batch rest, x.stage = .tasks (.before lane batch) ∧ batch.rest = token :: rest := by
    rcases begun with member | member
    all_goals
      obtain ⟨other, batch, first, rest, current, ⟨stage, same | same⟩ | ⟨_, _, same | same⟩⟩ :=
        token_event (step_of_move? made) member rfl
      all_goals cases same
      exact ⟨batch, rest, stage, current⟩
  have stands := (run.agrees lane).standing
  rw [line, stage, Stage.held, AfterTasks.held, if_pos rfl, List.singleton_append] at stands
  obtain ⟨e, others, first, -, same⟩ := List.forall₂_cons_right_iff.mp stands
  exact ⟨e, others, rest, same, by rw [← first.tokens, current]⟩

theorem completes (run : Run history x) {y : Executor α κ} {m : Move α κ}
    {events : List (Event α κ)} (made : x.move? m = some (y, events)) {lane : Lane} {n : Nat}
    (tells : .batchCompleted lane n ∈ events) :
    ∃ e others, (accountOf lane history).standing = e :: others ∧
      e.consumed = e.batch.rest ∧ e.batch.byteLength = n := by
  cases gone : y.hasEnded with
  | true =>
    rcases event_of_hasEnded made gone tells with impossible | impossible <;> cases impossible
  | false =>
    have shift := shift_step (step_of_move? made) gone run.unfinished lane
    obtain ⟨b, rest, line, spent, length⟩ := shift.told (n := n)
      (List.mem_filter.mpr ⟨tells, by simp [Event.concerns]⟩)
    have stands := (run.agrees lane).standing
    rw [line] at stands
    obtain ⟨e, others, first, -, same⟩ := List.forall₂_cons_right_iff.mp stands
    have tokens := first.tokens
    rw [spent, List.append_nil] at tokens
    exact ⟨e, others, same, tokens, by rw [first.byteLength, length]⟩

/-- At every point of every run, what was announced is accounted for. -/
theorem accounted (run : Run history x) : Accounted history x := by
  constructor
  · intro moment member lane
    exact handled_step (run.step member) lane
  · intro lane batch enters
    obtain ⟨moment, member, enters⟩ := mem_gather.mp enters
    exact real_step (run.step member) enters
  · exact run.whole
  · intro lane
    exact (run.agrees lane).standing
  · intro lane
    exact (run.agrees lane).told
  · intro lane
    exact (run.agrees lane).spent
  · intro lane
    exact (run.agrees lane).struck
  · rintro later past rfl lane
    exact settled later past lane
  · intro m y events made lane token begun
    exact run.starts made begun
  · intro m y events made lane n tells
    exact run.completes made tells
  · intro m y events made lane batch held spent
    refine ⟨?_, spent_step (step_of_move? made) run.unfinished held spent⟩
    apply Bool.eq_false_iff.mpr
    intro takes
    obtain ⟨-, other, b, stage⟩ := clear_step (step_of_move? made) takes
    have left := run.unfinished
    rw [stage] at held left
    rw [Stage.held, AfterTasks.held] at held
    split at held
    · obtain rfl : b = batch := by simpa using held
      exact left spent
    · cases held
  · intro around y events made lane batch stage spent
    simp [move?, tick, stage, Stage.runsCode, Batch.isFinished, spent] at made
    exact made.2.symm
  · exact run.unspent
  · exact run.balance
  · have high := run.balance .high
    have normal := run.balance .normal
    have announced := (gather_lanes Event.announcement_lanes history).sum_nat
    have told := (gather_lanes Event.report_lanes history).sum_nat
    rw [List.sum_append] at announced told
    simp only [both]
    unfold Moment.announced Moment.told at high normal
    omega

/-- A batch of no tokens is told of when it is taken from its lane, one is over with its
only token, and the one behind it is discarded while that token executes. -/
theorem accounted_discarded :
    let moves : List (Move Nat Nat) :=
      [.send (.deliver (.ofTokens [1] 4) .normal false),
        .send (.deliver (.ofTokens [] 3) .high false),
        .send (.deliver (.ofTokens [2] 2) .normal false)] ++
        .replicate 10 (.tick .calm) ++ [.send .discardAll, .finish] ++ .replicate 5 (.tick .calm)
    let run := Executor.new.play [] moves
    gather (Moment.announced .normal) run.1 = [4, 2] ∧
      gather (Moment.told .high) run.1 = [3] ∧ gather (Moment.told .normal) run.1 = [4] ∧
      gather (Moment.struck .normal) run.1 = [2] ∧ Accounted run.1 run.2 :=
  ⟨rfl, rfl, rfl, rfl, accounted (run_play .new _)⟩

end Run

end TerminalFeed
