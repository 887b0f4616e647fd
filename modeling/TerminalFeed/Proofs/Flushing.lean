import TerminalFeed.Scheduler.Effects

/-!
Flushes on the thread that makes them. The code of an effect and of the flag handler
may push effects, set flags and call for a flush, as the code outside may. Whatever they
do, effects run once and in order, flags are delivered once, and a flush syncs at most once.
-/

namespace TerminalFeed.EffectQueue

variable {ε : Type}

def goOn (queue : EffectQueue ε) (flush : Flush) :
    EffectQueue ε × Flush × List (FlushAction ε) :=
  match queue.flushStep flush with
  | (queue, flush, []) => queue.flushStep flush
  | part => part

inductive Deed (ε : Type) where
  | push (effect : ε) (urgency : Urgency)
  | setFlags (bits : UInt64)
  | flush
  -- The code that a flush has run returns.
  | leave

inductive Entry (ε : Type) where
  | pushed (effect : ε) (urgency : Urgency)
  | flagged (bits : UInt64)
  | told (urgency : Urgency)
  | began
  | did (action : FlushAction ε)
  | ended (answer : Nat)
  -- A flush inside a flush returns at once.
  | declined (answer : Nat)

/-- The thread, between two deeds of its code. -/
structure Host (ε : Type) where
  queue : EffectQueue ε
  flush : Option Flush

namespace Host

def start (notified : Bool) : Host ε := ⟨empty.setNotified notified, none⟩

def proceed (queue : EffectQueue ε) (flush : Flush) : Host ε × List (Entry ε) :=
  let (queue, flush, actions) := queue.goOn flush
  match flush with
  | .done ran => (⟨queue, none⟩, actions.map Entry.did ++ [.ended ran])
  | flush => (⟨queue, some flush⟩, actions.map Entry.did)

def act (host : Host ε) : Deed ε → Host ε × List (Entry ε)
  | .push effect urgency =>
    let (queue, told) := host.queue.push effect urgency
    ({ host with queue := queue }, .pushed effect urgency :: told.toList.map Entry.told)
  | .setFlags bits =>
    let (queue, told) := host.queue.setFlags bits
    ({ host with queue := queue }, .flagged bits :: told.toList.map Entry.told)
  | .flush =>
    match host.queue.begin? with
    | none => (host, [.declined 0])
    | some (queue, flush) =>
      let (host, entries) := proceed queue flush
      (host, .began :: entries)
  | .leave =>
    match host.flush with
    | none => (host, [])
    | some flush => proceed host.queue flush

def play (host : Host ε) : List (Deed ε) → Host ε × List (Entry ε)
  | [] => (host, [])
  | deed :: rest =>
    let (host, entries) := host.act deed
    let (host, more) := host.play rest
    (host, entries ++ more)

end Host

/-! What a history tells. -/

section History

def pushes (history : List (Entry ε)) : List (ε × Urgency) :=
  history.filterMap fun
    | .pushed effect urgency => some (effect, urgency)
    | _ => none

def pushed (history : List (Entry ε)) : List ε := (pushes history).map Prod.fst

def actions (history : List (Entry ε)) : List (FlushAction ε) :=
  history.filterMap fun
    | .did action => some action
    | _ => none

def ran (history : List (Entry ε)) : List ε :=
  (actions history).filterMap fun
    | .run effect => some effect
    | _ => none

def notices (history : List (Entry ε)) : List Urgency :=
  history.filterMap fun
    | .told urgency => some urgency
    | _ => none

def undelivered (history : List (Entry ε)) : UInt64 :=
  history.foldl (fun bits entry => match entry with
    | .flagged more => bits ||| more
    | .did (.deliver _) => 0
    | _ => bits) 0

def underWay (history : List (Entry ε)) : Bool :=
  history.foldl (fun under entry => match entry with
    | .began => true
    | .ended _ => false
    | _ => under) false

def sinceBegan (history : List (Entry ε)) : List (Entry ε) :=
  history.foldl (fun since entry => match entry with
    | .began => []
    | entry => since ++ [entry]) []

variable (history more : List (Entry ε))

@[simp] theorem pushes_append : pushes (history ++ more) = pushes history ++ pushes more :=
  List.filterMap_append

@[simp] theorem pushed_append : pushed (history ++ more) = pushed history ++ pushed more := by
  rw [pushed, pushes_append, List.map_append]
  rfl

@[simp] theorem actions_append : actions (history ++ more) = actions history ++ actions more :=
  List.filterMap_append

@[simp] theorem ran_append : ran (history ++ more) = ran history ++ ran more := by
  rw [ran, actions_append, List.filterMap_append]
  rfl

@[simp] theorem notices_append : notices (history ++ more) = notices history ++ notices more :=
  List.filterMap_append

theorem sinceBegan_began : sinceBegan (history ++ [.began]) = [] := by
  simp [sinceBegan]

theorem sinceBegan_append (others : .began ∉ more) :
    sinceBegan (history ++ more) = sinceBegan history ++ more := by
  induction more generalizing history with
  | nil => simp
  | cons first rest ih =>
    obtain ⟨here, later⟩ := not_or.mp (mt List.mem_cons.mpr others)
    have one : sinceBegan (history ++ [first]) = sinceBegan history ++ [first] := by
      cases first <;> simp_all [sinceBegan]
    rw [List.append_cons, ih _ later, one, List.append_assoc, List.singleton_append]

theorem sinceBegan_eq (others : .began ∉ more) :
    sinceBegan (history ++ .began :: more) = more := by
  rw [List.append_cons, sinceBegan_append _ _ others, sinceBegan_began, List.nil_append]

end History

/-- Whether each entry is due after the entries before it. -/
def EachDue (due : List (Entry ε) → Entry ε → Prop) (past : List (Entry ε)) :
    List (Entry ε) → Prop
  | [] => True
  | entry :: rest => due past entry ∧ EachDue due (past ++ [entry]) rest

theorem eachDue_append {due : List (Entry ε) → Entry ε → Prop} {past first rest : List (Entry ε)} :
    EachDue due past (first ++ rest) ↔
      EachDue due past first ∧ EachDue due (past ++ first) rest := by
  induction first generalizing past with
  | nil => simp [EachDue]
  | cons entry first ih => simp [EachDue, ih, and_assoc]

def syncFirst (synced : Bool) : List (FlushAction ε) := if synced then [] else [.sync]

def flushActions (effects : List ε) (flags : Option UInt64) : List (FlushAction ε) :=
  syncFirst (effects.isEmpty && flags.isNone) ++
    effects.map FlushAction.run ++ flags.toList.map FlushAction.deliver

/-- A flush that has ended, where the last one before it has begun behind `before`. -/
structure Over (before during : List (Entry ε)) (answer : Nat) : Prop where
  -- The effects that were there when it began have run.
  inTime : pushed before <+: ran (before ++ .began :: during)
  actions : ∃ flags, actions during = flushActions (ran during) flags ∧
    (flags = none → undelivered (before ++ .began :: during) = 0)
  answer : answer = (ran during).length

def Entry.Due (past : List (Entry ε)) : Entry ε → Prop
  | .did (.deliver bits) => bits = undelivered past ∧ bits ≠ 0
  | .ended answer => ∀ before during, past = before ++ .began :: during → .began ∉ during →
      Over before during answer
  | _ => True

/-- Where a flush stands, by what has come since it began. -/
def Reached (since : List (Entry ε)) (queued : List ε) : Option Flush → Prop
  | some (.running n synced) =>
      n = (ran since).length ∧ synced = !(ran since).isEmpty ∧
        actions since = syncFirst (ran since).isEmpty ++ (ran since).map .run
  | some (.delivered n) =>
      n = (ran since).length ∧ queued <:+ pushed since ∧
        ∃ flags, actions since = flushActions (ran since) (some flags)
  | some (.done _) => False
  | none => queued <:+ pushed since

theorem Reached.later {since more : List (Entry ε)} {queued : List ε} {flush : Option Flush}
    (reached : Reached since queued flush) (quiet : actions more = []) :
    Reached (since ++ more) (queued ++ pushed more) flush := by
  have idle : ran more = [] := by rw [ran, quiet]; rfl
  have behind (all : queued <:+ pushed since) :
      queued ++ pushed more <:+ pushed (since ++ more) := by
    obtain ⟨front, same⟩ := all
    exact ⟨front, by rw [← List.append_assoc, same, pushed_append]⟩
  cases flush with
  | none => exact behind reached
  | some flush =>
    cases flush with
    | running n synced =>
      simpa [Reached, quiet, idle] using reached
    | delivered n =>
      obtain ⟨answer, all, flags, same⟩ := reached
      refine ⟨?_, behind all, flags, ?_⟩
      · rw [ran_append, idle, List.append_nil, answer]
      · rw [ran_append, actions_append, idle, quiet, List.append_nil, List.append_nil, same]
    | done n => exact reached

structure Host.Sound (history : List (Entry ε)) (host : Host ε) : Prop where
  flushing : host.queue.flushing = underWay history
  flush : host.flush.isSome = underWay history
  effects : pushed history = ran history ++ host.queue.queued
  flags : host.queue.flags = undelivered history
  reached : Reached (sinceBegan history) host.queue.queued host.flush
  due : EachDue (fun past entry => entry.Due past) [] history

namespace Host

theorem sound_start (notified : Bool) : (start notified : Host ε).Sound [] :=
  ⟨rfl, rfl, rfl, rfl, List.suffix_refl _, trivial⟩

inductive Proceeds (queue : EffectQueue ε) : Flush → Host ε → List (Entry ε) → Prop
  | runs {n : Nat} {synced : Bool} {effect : ε} {rest : List ε}
      (queued : queue.queued = effect :: rest) :
      Proceeds queue (.running n synced)
        ⟨{ queue with queued := rest }, some (.running (n + 1) true)⟩
        ((syncFirst synced ++ [FlushAction.run effect]).map .did)
  | delivers {n : Nat} {synced : Bool} (empty : queue.queued = []) (set : queue.flags ≠ 0) :
      Proceeds queue (.running n synced)
        ⟨{ queue with flags := 0 }, some (.delivered n)⟩
        ((syncFirst synced ++ [FlushAction.deliver queue.flags]).map .did)
  | idle {n : Nat} {synced : Bool} (empty : queue.queued = []) (clear : queue.flags = 0) :
      Proceeds queue (.running n synced) ⟨{ queue with flushing := false }, none⟩ [.ended n]
  | ends {n : Nat} :
      Proceeds queue (.delivered n) ⟨{ queue with flushing := false }, none⟩ [.ended n]
  | done {n : Nat} : Proceeds queue (.done n) ⟨queue, none⟩ [.ended n]

theorem proceed_proceeds (queue : EffectQueue ε) (flush : Flush) :
    Proceeds queue flush (proceed queue flush).1 (proceed queue flush).2 := by
  cases flush with
  | running n synced =>
    cases queued : queue.queued with
    | cons effect rest =>
      have step : Proceeds queue (.running n synced) _ _ := .runs queued
      cases synced <;> simpa [proceed, goOn, flushStep, queued, syncFirst] using step
    | nil =>
      by_cases clear : queue.flags = 0
      · simpa [proceed, goOn, flushStep, queued, clear] using Proceeds.idle queued clear
      · have step : Proceeds queue (.running n synced) _ _ := .delivers queued clear
        cases synced <;> simpa [proceed, goOn, flushStep, queued, clear, syncFirst] using step
  | delivered n => exact .ends
  | done n => exact .done

end Host

def Entry.isRemark : Entry ε → Bool
  | .began | .did _ | .ended _ => false
  | _ => true

def Quiet (more : List (Entry ε)) : Prop := ∀ entry ∈ more, entry.isRemark = true

namespace Quiet

variable {more : List (Entry ε)}

theorem told (entry : Entry ε) (remark : entry.isRemark = true) (told : Option Urgency) :
    Quiet (entry :: told.toList.map Entry.told) := by
  intro other member
  rcases List.mem_cons.mp member with rfl | member
  · exact remark
  · obtain ⟨urgency, -, rfl⟩ := List.mem_map.mp member
    rfl

theorem actions (quiet : Quiet more) : actions more = [] := by
  apply List.filterMap_eq_nil_iff.mpr
  intro entry member
  have remark := quiet entry member
  cases entry with
  | did action => cases remark
  | _ => rfl

theorem ran (quiet : Quiet more) : ran more = [] := by
  rw [EffectQueue.ran, quiet.actions]
  rfl

theorem began_notMem (quiet : Quiet more) : .began ∉ more := by
  intro member
  cases quiet .began member

theorem underWay (quiet : Quiet more) (history : List (Entry ε)) :
    underWay (history ++ more) = underWay history := by
  induction more generalizing history with
  | nil => rw [List.append_nil]
  | cons entry rest ih =>
    obtain ⟨remark, later⟩ := List.forall_mem_cons.mp quiet
    rw [List.append_cons, ih later]
    cases entry with
    | began | did _ | ended _ => cases remark
    | _ => simp [EffectQueue.underWay]

theorem eachDue (quiet : Quiet more) (past : List (Entry ε)) :
    EachDue (fun past entry => entry.Due past) past more := by
  induction more generalizing past with
  | nil => trivial
  | cons entry rest ih =>
    obtain ⟨remark, later⟩ := List.forall_mem_cons.mp quiet
    refine ⟨?_, ih later _⟩
    cases entry with
    | began | did _ | ended _ => cases remark
    | _ => trivial

end Quiet

namespace Host

variable {history more : List (Entry ε)} {host : Host ε}

theorem Sound.later (sound : host.Sound history) (quiet : Quiet more) {queue : EffectQueue ε}
    (flushing : queue.flushing = host.queue.flushing)
    (queued : queue.queued = host.queue.queued ++ pushed more)
    (flags : queue.flags = undelivered (history ++ more)) :
    ({ host with queue := queue } : Host ε).Sound (history ++ more) := by
  constructor
  · rw [quiet.underWay, flushing, sound.flushing]
  · rw [quiet.underWay, sound.flush]
  · rw [pushed_append, ran_append, quiet.ran, List.append_nil, sound.effects, queued,
      List.append_assoc]
  · exact flags
  · rw [sinceBegan_append _ _ quiet.began_notMem, queued]
    exact sound.reached.later quiet.actions
  · exact eachDue_append.mpr ⟨sound.due, quiet.eachDue _⟩

theorem pushes_told (told : Option Urgency) :
    pushes (told.toList.map (Entry.told (ε := ε))) = [] := by
  cases told <;> rfl

theorem pushed_told (told : Option Urgency) :
    pushed (told.toList.map (Entry.told (ε := ε))) = [] :=
  congrArg (List.map Prod.fst) (pushes_told told)

theorem undelivered_told (history : List (Entry ε)) (entry : Entry ε) (told : Option Urgency) :
    undelivered (history ++ entry :: told.toList.map Entry.told) =
      undelivered (history ++ [entry]) := by
  cases told <;> simp [undelivered]

theorem Sound.push (sound : host.Sound history) (effect : ε) (urgency : Urgency) :
    (host.act (.push effect urgency)).1.Sound
      (history ++ (host.act (.push effect urgency)).2) := by
  obtain ⟨asked, same⟩ := push_fst host.queue effect urgency
  cases step : host.queue.push effect urgency with
  | mk queue told =>
    obtain rfl : queue = _ := (congrArg Prod.fst step).symm.trans same
    simp only [act, step]
    have quiet : Quiet (.pushed effect urgency :: told.toList.map Entry.told) := .told _ rfl told
    refine sound.later quiet rfl ?_ ?_
    · have none := pushed_told (ε := ε) told
      rw [List.append_cancel_left_eq]
      change [effect] = effect :: pushed _
      rw [none]
    · rw [undelivered_told]
      simpa [undelivered] using sound.flags

theorem Sound.setFlags (sound : host.Sound history) (bits : UInt64) :
    (host.act (.setFlags bits)).1.Sound (history ++ (host.act (.setFlags bits)).2) := by
  obtain ⟨asked, same⟩ := setFlags_fst host.queue bits
  cases step : host.queue.setFlags bits with
  | mk queue told =>
    obtain rfl : queue = _ := (congrArg Prod.fst step).symm.trans same
    simp only [act, step]
    have quiet : Quiet (.flagged bits :: told.toList.map Entry.told : List (Entry ε)) :=
      .told _ rfl told
    refine sound.later quiet rfl ?_ ?_
    · have none := pushed_told (ε := ε) told
      change _ = _ ++ pushed (told.toList.map Entry.told)
      rw [none, List.append_nil]
    · rw [undelivered_told]
      have flags := sound.flags
      simp only [undelivered] at flags
      simp [undelivered, flags]

/-! The entries of what a flush does. -/

section Actions

variable (acts : List (FlushAction ε))

theorem actions_did : actions (acts.map Entry.did) = acts := by
  rw [actions, List.filterMap_map]
  exact List.filterMap_some

theorem pushes_did : pushes (acts.map Entry.did) = [] := by
  induction acts with
  | nil => rfl
  | cons first rest ih => exact ih

theorem pushed_did : pushed (acts.map Entry.did) = [] :=
  congrArg (List.map Prod.fst) (pushes_did acts)

theorem began_notMem_did : .began ∉ acts.map Entry.did := by simp

theorem underWay_did (history : List (Entry ε)) :
    underWay (history ++ acts.map Entry.did) = underWay history := by
  induction acts generalizing history with
  | nil => rw [List.map_nil, List.append_nil]
  | cons first rest ih =>
    rw [List.map_cons, List.append_cons, ih]
    simp [underWay]

theorem ran_did (synced : Bool) (action : FlushAction ε) :
    ran ((syncFirst synced ++ [action]).map Entry.did) = ran [.did action] := by
  cases synced <;> rfl

theorem undelivered_sync (history : List (Entry ε)) (synced : Bool) :
    undelivered (history ++ (syncFirst synced).map Entry.did) = undelivered history := by
  cases synced <;> simp [syncFirst, undelivered]

theorem eachDue_did {past : List (Entry ε)} {synced : Bool} {action : FlushAction ε} :
    EachDue (fun past entry => entry.Due past) past
        ((syncFirst synced ++ [action]).map Entry.did) ↔
      Entry.Due (past ++ (syncFirst synced).map Entry.did) (.did action) := by
  cases synced <;> simp [syncFirst, EachDue, Entry.Due]

end Actions

variable {queue next : EffectQueue ε} {flush : Flush} {acts : List (FlushAction ε)}

theorem Sound.did (sound : Sound history ⟨queue, some flush⟩) {later : Flush}
    (flushing : next.flushing = queue.flushing)
    (effects : queue.queued = ran (acts.map Entry.did) ++ next.queued)
    (flags : next.flags = undelivered (history ++ acts.map Entry.did))
    (reached : Reached (sinceBegan history ++ acts.map Entry.did) next.queued (some later))
    (due : EachDue (fun past entry => entry.Due past) history (acts.map Entry.did)) :
    Sound (history ++ acts.map Entry.did) ⟨next, some later⟩ := by
  constructor
  · rw [underWay_did, flushing, sound.flushing]
  · rw [underWay_did, ← sound.flush]
    rfl
  · rw [pushed_append, pushed_did, List.append_nil, ran_append, sound.effects, effects,
      List.append_assoc]
  · exact flags
  · rw [sinceBegan_append _ _ (began_notMem_did acts)]
    exact reached
  · exact eachDue_append.mpr ⟨sound.due, due⟩

/-- What has been pushed before is run or queued; if all that is queued has been pushed
behind it, then it has been run. -/
theorem Sound.inTime {before during : List (Entry ε)}
    (sound : host.Sound (before ++ .began :: during))
    (behind : host.queue.queued <:+ pushed during) :
    pushed before <+: ran (before ++ .began :: during) := by
  obtain ⟨front, same⟩ := behind
  have effects := sound.effects
  rw [pushed_append] at effects
  change pushed before ++ pushed during = _ at effects
  rw [← same, ← List.append_assoc] at effects
  exact ⟨front, List.append_cancel_right effects⟩

theorem Sound.ended (sound : Sound history ⟨queue, some flush⟩) {answer : Nat}
    (behind : queue.queued <:+ pushed (sinceBegan history))
    (counted : answer = (ran (sinceBegan history)).length)
    (complete : ∃ flags, actions (sinceBegan history) =
      flushActions (ran (sinceBegan history)) flags ∧ (flags = none → queue.flags = 0)) :
    Sound (history ++ [.ended answer]) ⟨{ queue with flushing := false }, none⟩ := by
  have others : .began ∉ [Entry.ended (ε := ε) answer] := by simp
  constructor
  · simp [underWay]
  · simp [underWay]
  · simpa [ran, actions, pushed, pushes] using sound.effects
  · simpa [undelivered] using sound.flags
  · rw [sinceBegan_append _ _ others, Reached, pushed_append]
    change _ <:+ pushed _ ++ []
    rw [List.append_nil]
    exact behind
  · refine eachDue_append.mpr ⟨sound.due, ?_, trivial⟩
    rintro before during rfl first
    rw [sinceBegan_eq _ _ first] at behind counted complete
    refine ⟨sound.inTime behind, ?_, counted⟩
    obtain ⟨flags, same, clear⟩ := complete
    exact ⟨flags, same, fun none => sound.flags.symm.trans (clear none)⟩

theorem Sound.proceed (sound : Sound history ⟨queue, some flush⟩) :
    (proceed queue flush).1.Sound (history ++ (Host.proceed queue flush).2) := by
  have step := proceed_proceeds queue flush
  have reached := sound.reached
  have flags := sound.flags
  generalize Host.proceed queue flush = after at step ⊢
  obtain ⟨next, entries⟩ := after
  cases step with
  | @runs n synced effect rest queued =>
    obtain ⟨answer, same, done⟩ := reached
    refine sound.did rfl ?_ ?_ ?_ (eachDue_did.mpr trivial)
    · rw [ran_did]
      exact queued
    · rw [List.map_append, ← List.append_assoc]
      simpa [undelivered] using flags.trans (undelivered_sync history synced).symm
    · have since : ran (sinceBegan history ++
          (syncFirst synced ++ [FlushAction.run effect]).map Entry.did) =
          ran (sinceBegan history) ++ [effect] := by
        rw [ran_append, ran_did]
        rfl
      rw [Reached, since, actions_append, actions_did, done, same]
      refine ⟨by simp [answer], by simp, ?_⟩
      cases ran (sinceBegan history) <;> simp [syncFirst]
  | @delivers n synced empty set =>
    obtain ⟨answer, same, done⟩ := reached
    refine sound.did rfl ?_ ?_ ?_ (eachDue_did.mpr ⟨?_, set⟩)
    · rw [ran_did]
      rfl
    · simp [undelivered]
    · have since : ran (sinceBegan history ++
          (syncFirst synced ++ [FlushAction.deliver queue.flags]).map Entry.did) =
          ran (sinceBegan history) := by
        rw [ran_append, ran_did]
        exact List.append_nil _
      rw [Reached, since, actions_append, actions_did, done, same]
      refine ⟨answer, ?_, queue.flags, ?_⟩
      · rw [empty]
        exact List.nil_suffix
      · cases ran (sinceBegan history) <;> simp [flushActions, syncFirst]
    · rw [undelivered_sync]
      exact flags
  | @idle n synced empty clear =>
    obtain ⟨answer, same, done⟩ := reached
    refine sound.ended ?_ answer ⟨none, ?_, fun _ => clear⟩
    · rw [empty]
      exact List.nil_suffix
    · rw [done]
      simp [flushActions]
  | @ends n =>
    obtain ⟨answer, behind, flags, done⟩ := reached
    exact sound.ended behind answer ⟨some flags, done, nofun⟩
  | done => exact reached.elim

theorem act_flush (host : Host ε) (flushing : host.queue.flushing = host.flush.isSome) :
    host.act .flush =
      if host.flush.isSome then (host, [.declined 0])
      else
        let (next, entries) :=
          Host.proceed { host.queue with flushing := true, requested := none } (.running 0 false)
        (next, .began :: entries) := by
  rw [act, begin?, flushing]
  cases host.flush.isSome <;> rfl

theorem began_notMem_proceed (queue : EffectQueue ε) (flush : Flush) :
    .began ∉ (proceed queue flush).2 := by
  have proceeds := proceed_proceeds queue flush
  generalize proceed queue flush = after at proceeds ⊢
  obtain ⟨next, entries⟩ := after
  cases proceeds with
  | runs queued | delivers empty set => exact began_notMem_did _
  | idle empty clear | ends | done => simp

theorem Sound.began_mem_iff (sound : host.Sound history) (deed : Deed ε) :
    .began ∈ (host.act deed).2 ↔ deed = .flush ∧ underWay history = false := by
  cases deed with
  | push effect urgency =>
    have quiet := Quiet.told (.pushed effect urgency) rfl (host.queue.push effect urgency).2
    exact iff_of_false quiet.began_notMem nofun
  | setFlags bits =>
    have quiet := Quiet.told (.flagged bits : Entry ε) rfl (host.queue.setFlags bits).2
    exact iff_of_false quiet.began_notMem nofun
  | flush =>
    rw [act_flush host (sound.flushing.trans sound.flush.symm), sound.flush]
    cases underWay history <;> simp
  | leave =>
    refine iff_of_false ?_ nofun
    rw [Host.act]
    cases host.flush with
    | none => simp
    | some flush => exact began_notMem_proceed _ flush

theorem Sound.begin (sound : host.Sound history) :
    Sound (history ++ [.began])
      ⟨{ host.queue with flushing := true, requested := none }, some (.running 0 false)⟩ := by
  constructor
  · simp [underWay]
  · simp [underWay]
  · simpa [pushed, pushes, ran, actions] using sound.effects
  · simpa [undelivered] using sound.flags
  · rw [sinceBegan_began]
    exact ⟨rfl, rfl, rfl⟩
  · exact eachDue_append.mpr ⟨sound.due, trivial, trivial⟩

theorem Sound.act (sound : host.Sound history) (deed : Deed ε) :
    (host.act deed).1.Sound (history ++ (host.act deed).2) := by
  cases deed with
  | push effect urgency => exact sound.push effect urgency
  | setFlags bits => exact sound.setFlags bits
  | flush =>
    rw [act_flush host (sound.flushing.trans sound.flush.symm)]
    cases flush : host.flush with
    | none =>
      have all := sound.begin.proceed
      rwa [List.append_assoc] at all
    | some under =>
      have quiet : Quiet [Entry.declined (ε := ε) 0] := by simp [Quiet, Entry.isRemark]
      refine sound.later quiet rfl (List.append_nil _).symm ?_
      simpa [undelivered] using sound.flags
  | leave =>
    rw [Host.act]
    cases flush : host.flush with
    | none => rwa [List.append_nil]
    | some under =>
      have sound : Sound history ⟨host.queue, some under⟩ := by rwa [← flush]
      exact sound.proceed

theorem Sound.play (sound : host.Sound history) (deeds : List (Deed ε)) :
    (host.play deeds).1.Sound (history ++ (host.play deeds).2) := by
  induction deeds generalizing host history with
  | nil => rwa [Host.play, List.append_nil]
  | cons deed rest ih =>
    rw [Host.play, ← List.append_assoc]
    exact ih (sound.act deed)

/-- How often the code that a flush runs has yet to return, if no more effects come: for each
effect that waits, for the code that is running, and for the flag handler. -/
def left (host : Host ε) : Nat :=
  match host.flush with
  | none => 0
  | some (.running ..) => host.queue.queued.length + 2
  | some _ => 1

theorem left_proceed (queue : EffectQueue ε) (flush : Flush) :
    (Host.proceed queue flush).1.left < left ⟨queue, some flush⟩ := by
  have step := proceed_proceeds queue flush
  generalize Host.proceed queue flush = after at step ⊢
  obtain ⟨next, entries⟩ := after
  cases step with
  | runs queued => simp [left, queued]
  | delivers empty => simp [left, empty]
  | idle | ends | done => simp [left]

theorem play_leave (host : Host ε) {n : Nat} (enough : host.left ≤ n) :
    (host.play (.replicate n .leave)).1.flush = none := by
  induction n generalizing host with
  | zero =>
    unfold left at enough
    split at enough
    · assumption
    · omega
    · omega
  | succ n ih =>
    rw [List.replicate_succ, Host.play]
    apply ih
    rw [Host.act]
    cases flush : host.flush with
    | none => simp [left, flush]
    | some under =>
      have less := left_proceed host.queue under
      rw [← flush] at less
      exact Nat.le_of_lt_succ (Nat.lt_of_lt_of_le less enough)

end Host

structure Flushes (history : List (Entry ε)) (host : Host ε) : Prop where
  -- Every effect runs at most once, and in the order in which they were pushed.
  inOrder : pushed history = ran history ++ host.queue.queued
  -- When a flush has ended, every effect that was pushed before it began has run. It synced
  -- once, before all else, if it did anything; it delivered flags at most once, after all effects,
  -- unless there were none to deliver; and it has answered how many effects it ran.
  ended : ∀ before during answer after,
    history = before ++ .began :: (during ++ .ended answer :: after) → .began ∉ during →
      Over before during answer
  -- Flags that are delivered are all that have been set since the last delivery.
  delivered : ∀ before bits after, history = before ++ .did (.deliver bits) :: after →
    bits = undelivered before ∧ bits ≠ 0
  -- A flush inside a flush changes nothing.
  nested : underWay history → host.act .flush = (host, [.declined 0])
  -- Any other flush begins.
  begins : underWay history = false → ∃ next entries, host.act .flush = (next, .began :: entries)
  -- A flush comes to its end once the code that it runs pushes no more.
  ends : underWay (history ++ (host.play (.replicate host.left .leave)).2) = false

theorem EachDue.of_eq {due : List (Entry ε) → Entry ε → Prop}
    {history before after : List (Entry ε)} {entry : Entry ε} (all : EachDue due [] history)
    (same : history = before ++ entry :: after) : due before entry := by
  subst same
  exact (eachDue_append.mp all).2.1

/-- Whatever the code on the thread does, its flushes are as they are to be. -/
theorem Host.play_flushes (notified : Bool) (deeds : List (Deed ε)) :
    Flushes ((start notified).play deeds).2 ((start notified).play deeds).1 := by
  have sound : Host.Sound _ _ := (sound_start (ε := ε) notified).play deeds
  rw [List.nil_append] at sound
  generalize (start notified).play deeds = after at sound ⊢
  obtain ⟨host, history⟩ := after
  have flush := act_flush host (sound.flushing.trans sound.flush.symm)
  rw [sound.flush] at flush
  constructor
  · exact sound.effects
  · intro before during answer after same first
    rw [← List.cons_append, ← List.append_assoc] at same
    exact sound.due.of_eq same before during rfl first
  · intro before bits after same
    exact sound.due.of_eq same
  · intro under
    rw [flush, if_pos under]
  · intro idle
    rw [flush, if_neg (by rw [idle]; exact Bool.false_ne_true)]
    exact ⟨_, _, rfl⟩
  · have idle := play_leave host (Nat.le_refl _)
    rw [← (sound.play _).flush, idle]
    rfl

/-- The first effect pushes the second, sets a flag and calls for a flush. The flag handler
pushes a third and sets another flag, and both are left for the next flush. -/
example :
    let deeds : List (Deed Nat) :=
      [.push 1 .deferred, .setFlags 1, .flush, .push 2 .immediate, .setFlags 2, .flush, .leave,
        .leave, .push 3 .immediate, .setFlags 4, .leave]
    let (host, history) := (Host.start false).play deeds
    ran history = [1, 2] ∧ host.queue.queued = [3] ∧ undelivered history = 4 ∧
      underWay history = false := by
  decide

end TerminalFeed.EffectQueue
