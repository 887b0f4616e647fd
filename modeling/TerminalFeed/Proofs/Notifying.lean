import Mathlib.Data.List.Induction
import TerminalFeed.Proofs.Flushing

/-!
Who is told that a flush is wanted. Requests since a flush last began have told of the
greatest urgency among them, so nothing waits that nobody has been told of, and nobody is
told twice of the same.
-/

namespace TerminalFeed.EffectQueue

variable {ε : Type}

/-- What a history holds of an entry behind `past`: what is told is more urgent than all
that has been told since a flush last began. -/
def Entry.Rises (past : List (Entry ε)) : Entry ε → Prop
  | .told urgency => ∀ other ∈ notices (sinceBegan past), other.rank < urgency.rank
  | _ => True

/-- Those who are told know as much as the queue does of what has been asked since a flush
last began. -/
structure Known (since : List (Entry ε)) (queue : EffectQueue ε) : Prop where
  notified : queue.notified = true
  told : ∀ urgency ∈ notices since, urgency.rank ≤ queue.level
  pushed : ∀ pair ∈ pushes since, pair.2.rank ≤ queue.level
  asked : ∀ urgency, queue.requested = some urgency → urgency ∈ notices since

theorem notified_request (queue : EffectQueue ε) (urgency : Urgency) :
    (queue.request urgency).1.notified = queue.notified := by
  obtain ⟨asked, same⟩ := request_fst queue urgency
  rw [same]

theorem notices_told (told : Option Urgency) :
    notices (told.toList.map (Entry.told (ε := ε))) = told.toList := by
  cases told <;> rfl

namespace Known

variable {since more : List (Entry ε)} {queue : EffectQueue ε}

theorem congr (known : Known since queue) {next : EffectQueue ε}
    (requested : next.requested = queue.requested) (notified : next.notified = queue.notified) :
    Known since next := by
  have level : next.level = queue.level := by rw [EffectQueue.level, requested, EffectQueue.level]
  constructor
  · rw [notified, known.notified]
  · rw [level]
    exact known.told
  · rw [level]
    exact known.pushed
  · rw [requested]
    exact known.asked

theorem later (known : Known since queue) (silent : notices more = []) (idle : pushes more = []) :
    Known (since ++ more) queue := by
  constructor
  · exact known.notified
  · rw [notices_append, silent, List.append_nil]
    exact known.told
  · rw [pushes_append, idle, List.append_nil]
    exact known.pushed
  · rw [notices_append, silent, List.append_nil]
    exact known.asked

theorem request (known : Known since queue) (urgency : Urgency)
    (pushed : ∀ pair ∈ pushes more, pair.2 = urgency) (silent : notices more = []) :
    Known (since ++ (more ++ (queue.request urgency).2.toList.map Entry.told))
      (queue.request urgency).1 := by
  have told := request_told_iff queue urgency
  have level := level_request queue urgency
  constructor
  · rw [notified_request, known.notified]
  · intro other member
    rw [level]
    rw [notices_append, notices_append, notices_told, silent] at member
    rcases List.mem_append.mp member with old | new
    · exact Nat.le_trans (known.told other old) (Nat.le_max_left _ _)
    · obtain ⟨rfl, -⟩ := (told other).mp (by simpa using new)
      exact Nat.le_max_right _ _
  · intro pair member
    rw [level]
    rw [pushes_append, pushes_append, Host.pushes_told, List.append_nil] at member
    rcases List.mem_append.mp member with old | new
    · exact Nat.le_trans (known.pushed pair old) (Nat.le_max_left _ _)
    · rw [pushed pair new]
      exact Nat.le_max_right _ _
  · intro other requested
    rw [notices_append, notices_append, notices_told, silent, List.nil_append]
    by_cases enough : urgency.rank ≤ queue.level
    · rw [EffectQueue.request, if_pos enough] at requested
      exact List.mem_append_left _ (known.asked other requested)
    · rw [EffectQueue.request, if_neg enough] at requested ⊢
      obtain rfl : urgency = other := by simpa using requested
      exact List.mem_append_right _ (by simp [known.notified])

theorem exists_notice (known : Known since queue) (asked : 0 < queue.level) :
    ∃ urgency ∈ notices since, urgency.rank = queue.level := by
  cases requested : queue.requested with
  | none => simp [level, requested] at asked
  | some urgency => exact ⟨urgency, known.asked urgency requested, by rw [level, requested]⟩

end Known

theorem rank_pos (urgency : Urgency) : 0 < urgency.rank := by
  cases urgency <;> decide

def pastEffects : Option Flush → Bool
  | some (.running ..) => false
  | _ => true

structure Host.Alert (history : List (Entry ε)) (host : Host ε) : Prop
    extends Sound history host where
  known : Known (sinceBegan history) host.queue
  -- Flags that were set before a flush began ask for nothing while it runs effects, since
  -- it delivers them.
  flagged : pastEffects host.flush → host.queue.flags ≠ 0 → 0 < host.queue.level
  rises : EachDue (fun past entry => entry.Rises past) [] history

namespace Host

variable {history more : List (Entry ε)} {host : Host ε}

theorem alert_start : (start true : Host ε).Alert [] :=
  ⟨sound_start true, ⟨rfl, nofun, nofun, nofun⟩, fun _ set => absurd rfl set, trivial⟩

theorem Alert.request (alert : host.Alert history) {entry : Entry ε} {queue : EffectQueue ε}
    {urgency : Urgency} (known : Known (sinceBegan history) queue)
    (first : entry.isRemark = true) (silent : notices [entry] = [])
    (pushed : ∀ pair ∈ pushes [entry], pair.2 = urgency)
    (sound : Sound (history ++ entry :: (queue.request urgency).2.toList.map Entry.told)
      { host with queue := (queue.request urgency).1 }) :
    Alert (history ++ entry :: (queue.request urgency).2.toList.map Entry.told)
      { host with queue := (queue.request urgency).1 } := by
  have quiet := Quiet.told entry first (queue.request urgency).2
  refine ⟨sound, ?_, ?_, ?_⟩
  · rw [sinceBegan_append _ _ quiet.began_notMem]
    exact known.request urgency pushed silent
  · intro _ _
    rw [level_request]
    exact Nat.lt_of_lt_of_le (rank_pos urgency) (Nat.le_max_right _ _)
  · refine eachDue_append.mpr ⟨alert.rises, ?_, ?_⟩
    · cases entry with
      | told => cases silent
      | _ => trivial
    · cases told : (queue.request urgency).2 with
      | none => trivial
      | some notice =>
        obtain ⟨rfl, -, less⟩ := (request_told_iff queue urgency notice).mp told
        refine ⟨?_, trivial⟩
        intro other member
        have others : .began ∉ [entry] := by
          cases entry with
          | began => cases first
          | _ => simp
        rw [List.nil_append, sinceBegan_append _ _ others, notices_append, silent,
          List.append_nil] at member
        exact Nat.lt_of_le_of_lt (known.told other member) less

theorem Alert.push (alert : host.Alert history) (effect : ε) (urgency : Urgency) :
    (host.act (.push effect urgency)).1.Alert
      (history ++ (host.act (.push effect urgency)).2) :=
  alert.request (alert.known.congr rfl rfl) rfl rfl (by simp [pushes])
    (alert.toSound.push effect urgency)

theorem Alert.setFlags (alert : host.Alert history) (bits : UInt64) :
    (host.act (.setFlags bits)).1.Alert (history ++ (host.act (.setFlags bits)).2) := by
  have sound := alert.toSound.setFlags bits
  by_cases all : host.queue.flags &&& bits = bits
  · simp only [Host.act, EffectQueue.setFlags, if_pos all] at sound ⊢
    have silent : notices [Entry.flagged (ε := ε) bits] = [] := rfl
    refine ⟨sound, ?_, ?_, ?_⟩
    · rw [sinceBegan_append _ _ (by simp)]
      exact (alert.known.later silent rfl).congr rfl rfl
    · intro past set
      apply alert.flagged past
      -- Were no flag set, then these bits would be none, and none would be set now.
      intro clear
      rw [clear, UInt64.zero_and] at all
      simp [clear, ← all] at set
    · exact eachDue_append.mpr ⟨alert.rises, trivial, trivial⟩
  · simp only [Host.act, EffectQueue.setFlags, if_neg all] at sound ⊢
    exact alert.request (alert.known.congr rfl rfl) rfl rfl (by simp [pushes]) sound

theorem notices_did (acts : List (FlushAction ε)) : notices (acts.map Entry.did) = [] := by
  induction acts with
  | nil => rfl
  | cons first rest ih => exact ih

theorem eachRises_of_silent {more : List (Entry ε)} (silent : notices more = [])
    (past : List (Entry ε)) : EachDue (fun past entry => entry.Rises past) past more := by
  induction more generalizing past with
  | nil => trivial
  | cons first rest ih =>
    cases first with
    | told => cases silent
    | _ => exact ⟨trivial, ih silent _⟩

theorem Alert.later {queue next : EffectQueue ε} {flush : Option Flush} {later : Option Flush}
    (alert : Alert history ⟨queue, flush⟩) (silent : notices more = []) (idle : pushes more = [])
    (others : .began ∉ more) (requested : next.requested = queue.requested)
    (notified : next.notified = queue.notified)
    (flagged : pastEffects later → next.flags ≠ 0 → pastEffects flush ∧ queue.flags ≠ 0)
    (sound : Sound (history ++ more) ⟨next, later⟩) : Alert (history ++ more) ⟨next, later⟩ := by
  refine ⟨sound, ?_, ?_, ?_⟩
  · rw [sinceBegan_append _ _ others]
    exact (alert.known.congr requested notified).later silent idle
  · intro past set
    obtain ⟨past, set⟩ := flagged past set
    have waits := alert.flagged past set
    rwa [level, ← requested] at waits
  · exact eachDue_append.mpr ⟨alert.rises, eachRises_of_silent silent _⟩

theorem Alert.proceed {queue : EffectQueue ε} {flush : Flush}
    (alert : Alert history ⟨queue, some flush⟩) :
    (Host.proceed queue flush).1.Alert (history ++ (Host.proceed queue flush).2) := by
  have sound := alert.toSound.proceed
  have step := proceed_proceeds queue flush
  generalize Host.proceed queue flush = after at step sound ⊢
  obtain ⟨next, entries⟩ := after
  cases step with
  | runs queued =>
    exact alert.later (notices_did _) (pushes_did _) (began_notMem_did _) rfl rfl nofun sound
  | delivers empty set =>
    exact alert.later (notices_did _) (pushes_did _) (began_notMem_did _) rfl rfl
      (fun _ set => absurd rfl set) sound
  | idle empty clear =>
    exact alert.later rfl rfl (by simp) rfl rfl (fun _ set => absurd clear set) sound
  | ends => exact alert.later rfl rfl (by simp) rfl rfl (fun _ set => ⟨rfl, set⟩) sound
  | done => exact alert.reached.elim

theorem Alert.begin (alert : host.Alert history) :
    Alert (history ++ [.began])
      ⟨{ host.queue with flushing := true, requested := none }, some (.running 0 false)⟩ := by
  refine ⟨alert.toSound.begin, ?_, nofun, ?_⟩
  · rw [sinceBegan_began]
    exact ⟨alert.known.notified, nofun, nofun, nofun⟩
  · exact eachDue_append.mpr ⟨alert.rises, trivial, trivial⟩

theorem Alert.act (alert : host.Alert history) (deed : Deed ε) :
    (host.act deed).1.Alert (history ++ (host.act deed).2) := by
  cases deed with
  | push effect urgency => exact alert.push effect urgency
  | setFlags bits => exact alert.setFlags bits
  | flush =>
    have sound := alert.toSound.act .flush
    rw [act_flush host (alert.flushing.trans alert.flush.symm)] at sound ⊢
    cases flush : host.flush with
    | none =>
      have all := alert.begin.proceed
      rwa [List.append_assoc] at all
    | some under =>
      rw [flush] at sound
      exact alert.later rfl rfl (by simp) rfl rfl (fun past set => ⟨past, set⟩) sound
  | leave =>
    rw [Host.act]
    cases flush : host.flush with
    | none => rwa [List.append_nil]
    | some under =>
      have alert : Alert history ⟨host.queue, some under⟩ := by rwa [← flush]
      exact alert.proceed

theorem Alert.play (alert : host.Alert history) (deeds : List (Deed ε)) :
    (host.play deeds).1.Alert (history ++ (host.play deeds).2) := by
  induction deeds generalizing host history with
  | nil => rwa [Host.play, List.append_nil]
  | cons deed rest ih =>
    rw [Host.play, ← List.append_assoc]
    exact ih (alert.act deed)

end Host

structure Notifies (history : List (Entry ε)) (host : Host ε) : Prop where
  -- A flush begins in the history where one is called that is in no other.
  begins : ∀ deed, .began ∈ (host.act deed).2 ↔ deed = .flush ∧ underWay history = false
  -- Between two beginnings of flushes each urgency is told at most once, and a lesser one
  -- first.
  rising : ∀ before during after, history = before ++ during ++ after → .began ∉ during →
    (notices during).Pairwise fun first second => first.rank < second.rank
  -- Outside of flushes, whoever waits with an effect that has not run has been told of an
  -- urgency that is no less, since a flush last began.
  effects : underWay history = false →
    ∀ pair ∈ (pushes history).drop (ran history).length,
      ∃ urgency ∈ notices (sinceBegan history), pair.2.rank ≤ urgency.rank
  flags : underWay history = false → undelivered history ≠ 0 →
    notices (sinceBegan history) ≠ []

theorem sinceBegan_suffix (history : List (Entry ε)) : sinceBegan history <:+ history := by
  induction history using List.reverseRecOn with
  | nil => exact List.suffix_refl _
  | append_singleton rest last ih =>
    by_cases began : last = .began
    · rw [began, sinceBegan_began]
      exact List.nil_suffix
    · rw [sinceBegan_append _ _ (by simpa using Ne.symm began)]
      obtain ⟨front, same⟩ := ih
      exact ⟨front, by rw [← List.append_assoc, same]⟩

theorem Host.Sound.waiting {history : List (Entry ε)} {host : Host ε}
    (sound : host.Sound history) (idle : host.flush = none) :
    (pushes history).drop (ran history).length <:+ pushes (sinceBegan history) := by
  have behind : host.queue.queued <:+ pushed (sinceBegan history) := by
    have reached := sound.reached
    rwa [idle] at reached
  have all : pushes (sinceBegan history) <:+ pushes history :=
    (sinceBegan_suffix history).filterMap _
  apply List.suffix_of_suffix_length_le (List.drop_suffix _ _) all
  have effects := congrArg List.length sound.effects
  have few := behind.length_le
  simp only [pushed, List.length_map, List.length_append] at effects few
  rw [List.length_drop]
  omega

theorem notices_rise {history : List (Entry ε)}
    (rises : EachDue (fun past entry => entry.Rises past) [] history)
    (before during after : List (Entry ε)) (same : history = before ++ during ++ after)
    (others : .began ∉ during) :
    (notices during).Pairwise fun first second => first.rank < second.rank := by
  induction during using List.reverseRecOn generalizing after with
  | nil => exact List.Pairwise.nil
  | append_singleton rest last ih =>
    obtain ⟨early, -⟩ : .began ∉ rest ∧ .began ≠ last := by simpa using others
    have rest' := ih (last :: after) (by simp [same]) early
    rw [notices_append, List.pairwise_append]
    cases last with
    | told urgency =>
      have parts : history = (before ++ rest) ++ .told urgency :: after := by simp [same]
      have due : Entry.Rises (before ++ rest) (.told urgency) := rises.of_eq parts
      refine ⟨rest', List.pairwise_singleton _ _, ?_⟩
      intro other member last last'
      obtain rfl : last = urgency := by simpa [notices] using last'
      apply due
      rw [sinceBegan_append _ _ early, notices_append]
      exact List.mem_append_right _ member
    | _ => exact ⟨rest', List.Pairwise.nil, by simp [notices]⟩

/-- Whatever the code on the thread does, those who are told of requests for flushes are told
neither too little nor too much. -/
theorem Host.play_notifies (deeds : List (Deed ε)) :
    Notifies ((start true).play deeds).2 ((start true).play deeds).1 := by
  have alert : Host.Alert _ _ := (alert_start (ε := ε)).play deeds
  rw [List.nil_append] at alert
  generalize (start true).play deeds = after at alert ⊢
  obtain ⟨host, history⟩ := after
  constructor
  · exact alert.toSound.began_mem_iff
  · exact notices_rise alert.rises
  · intro idle pair member
    have flush : host.flush = none := by simpa [idle] using alert.flush
    have asked := alert.known.pushed pair ((alert.waiting flush).mem member)
    obtain ⟨urgency, told, same⟩ :=
      alert.known.exists_notice (Nat.lt_of_lt_of_le (rank_pos pair.2) asked)
    exact ⟨urgency, told, same ▸ asked⟩
  · intro idle set
    have flush : host.flush = none := by simpa [idle] using alert.flush
    rw [← alert.flags] at set
    obtain ⟨urgency, told, -⟩ := alert.known.exists_notice (alert.flagged (by rw [flush]; rfl) set)
    exact List.ne_nil_of_mem told

end TerminalFeed.EffectQueue
