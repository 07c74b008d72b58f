import Cadence.Proofs.DueTimes
import Cadence.Proofs.TickOutlook

/-!
What an evaluation finds, and what it comes to.

A `Finding` is all that an evaluation looks at: the registered task, the mode in force, and the instant of
the tick.  `Finding.outcome` names the first thing that applies, and with it the events that are recorded,
the entry that is left, and whether the task is handed over (`Finding.ruling_eq`).  `Moment.Continues`
lists what a move within a tick can do.
-/

namespace Cadence

/-- What the evaluation of a task comes to. -/
inductive Outcome
  /-- Its next slot has not come due. -/
  | early
  /-- The slot is consumed, for the task is muted. -/
  | muted
  /-- The slot is consumed, for the mode does not admit the task. -/
  | denied
  /-- The slot is consumed by a run. -/
  | started
  /-- The slot is consumed, and the tick stops: the task is critical, and still in progress. -/
  | blocked
  /-- The slot is consumed, for the task is still in progress. -/
  | skipped
  deriving DecidableEq, Repr

/-- What an evaluation finds. -/
structure Finding where
  entry : Entry
  mode : Mode
  now : Instant
  deriving DecidableEq, Repr

namespace Finding

variable (f : Finding)

def name : String := f.entry.task.name

/-- What the evaluation comes to: the first that applies. -/
def outcome : Outcome :=
  if f.now < f.entry.due then .early
  else if f.entry.task.health = .muted then .muted
  else if !f.entry.task.admittedBy f.mode then .denied
  else if !f.entry.task.inProgress then .started
  else if f.entry.task.has .critical then .blocked
  else .skipped

/-- The events that are recorded for it, in their order. -/
def events : List Event :=
  match f.outcome with
  | .early | .started | .blocked => []
  | .muted => [.muted]
  | .denied => [.skippedForMode]
  | .skipped =>
    (if f.entry.task.health = .healthy then [.markedSlow] else []) ++ [.skippedInProgress]

def keys : List Tally.Key := f.events.map (⟨·, f.name⟩)

/-- The entry after it. -/
def left : Entry :=
  match f.outcome with
  | .early => f.entry
  | .muted | .denied | .blocked => f.entry.consumeSlot
  | .started => f.entry.startRun f.now
  | .skipped => f.entry.demote (if f.entry.task.health = .healthy then .slow else .muted)

/-- The line that is logged when the task stops the tick. -/
def alarm : Line :=
  ⟨.critical, f.name ++ " is still in progress; it is critical and cannot be skipped"⟩

/-- What the tick has to do next, if it goes on. -/
def followUp : List Chore :=
  match f.outcome with
  | .early | .started | .blocked => []
  | .muted => [.record .muted f.name]
  | .denied => [.record .skippedForMode f.name]
  | .skipped => Dispatcher.skipChores f.name (f.entry.task.health = .healthy)

/-- The ruling on what is found. -/
def ruling : Ruling := f.entry.ruling f.mode f.now

/-- What a ruling does is named by the outcome. -/
theorem ruling_eq : f.ruling =
    match f.outcome with
    | .early => {}
    | .muted => { result := .proceed f.followUp, change := Entry.consumeSlot }
    | .denied =>
      { result := .proceed f.followUp
        change := Entry.consumeSlot
        lines := [⟨.debug, "Skipping " ++ f.name ++
          " collector execution since running in collector mode " ++ f.mode.name⟩] }
    | .started => { change := Entry.startRun f.now, starts := true }
    | .blocked => { result := .stop, change := Entry.consumeSlot, lines := [f.alarm] }
    | .skipped =>
      { result := .proceed f.followUp
        change := Entry.demote (if f.entry.task.health = .healthy then .slow else .muted)
        lines := [⟨.info, "Collector " ++ f.name ++ " " ++ f.entry.task.health.name ++ " -> " ++
          (if f.entry.task.health = .healthy then Health.slow else .muted).name⟩] } := by
  unfold ruling Entry.ruling followUp outcome
  by_cases early : f.now < f.entry.due
  · simp only [if_pos early]
  simp only [if_neg early]
  by_cases muted : f.entry.task.health = .muted
  · simp only [if_pos muted]
    rfl
  simp only [if_neg muted]
  cases admitted : f.entry.task.admittedBy f.mode with
  | false => rfl
  | true =>
    cases busy : f.entry.task.inProgress with
    | false => rfl
    | true =>
      simp only [Bool.not_true, Bool.false_eq_true, if_false, if_true]
      cases critical : f.entry.task.has .critical with
      | true =>
        rw [Task.overrun_eq_stop_iff.mpr critical]
        rfl
      | false =>
        have demoted : f.entry.task.overrun = .demote
            (if f.entry.task.health = .healthy then .slow else .muted) (f.entry.task.health = .healthy) := by
          unfold Task.overrun Health.overrun
          cases health : f.entry.task.health <;> simp_all
        rw [demoted]
        rfl

/-- The tick stops if and only if the task is blocked; otherwise it goes on. -/
theorem ruling_result : f.ruling.result = if f.outcome = .blocked then .stop else .proceed f.followUp := by
  rw [ruling_eq]
  cases outcome : f.outcome <;> simp [followUp, outcome]

theorem ruling_starts : f.ruling.starts = decide (f.outcome = .started) := by
  rw [ruling_eq]
  cases f.outcome <;> rfl

theorem ruling_change : f.ruling.change f.entry = f.left := by
  rw [ruling_eq, left]
  cases f.outcome <;> rfl

/-- A line of the gravest level is logged only when the tick stops. -/
theorem ruling_lines : f.ruling.lines.filter (·.level = .critical) =
    if f.outcome = .blocked then [f.alarm] else [] := by
  rw [ruling_eq]
  cases f.outcome <;> simp [alarm]

theorem task_left : ∃ health inProgress startTime,
    f.left.task = { f.entry.task with health, inProgress, startTime } := by
  rw [← ruling_change]
  exact f.entry.task_ruling_change f.mode f.now f.entry

/-- A slot is consumed unless it has not come due. -/
theorem due_left : f.left.due = if f.outcome = .early then f.entry.due
    else f.entry.due.after f.entry.task.interval := by
  unfold left
  cases f.outcome <;> rfl

end Finding

/-! ## Chores -/

namespace Chore

/-- The task that is to be evaluated. -/
def considers? : Chore → Option String
  | consider name => some name
  | record _ _ | note _ | act _ => none

/-- The event that is to be recorded. -/
def records? : Chore → Option Tally.Key
  | record event name => some ⟨event, name⟩
  | consider _ | note _ | act _ => none

/-- The action that is to be done. -/
def acts? : Chore → Option Action
  | act action => some action
  | consider _ | record _ _ | note _ => none

theorem considers?_acts (actions : List Action) : (actions.map act).filterMap considers? = [] := by
  simp [considers?]

theorem records?_acts (actions : List Action) : (actions.map act).filterMap records? = [] := by
  simp [records?]

theorem acts?_acts (actions : List Action) : (actions.map act).filterMap acts? = actions := by
  induction actions with
  | nil => rfl
  | cons action rest ih => exact congrArg (action :: ·) ih

end Chore

namespace Finding

variable (f : Finding)

/-- What follows an evaluation records the events that were named, and nothing else. -/
theorem followUp_records : f.followUp.filterMap Chore.records? = f.keys := by
  unfold followUp keys events
  cases f.outcome with
  | skipped => by_cases healthy : f.entry.task.health = .healthy <;>
      simp [Dispatcher.skipChores, List.filterMap_cons, Chore.records?, healthy]
  | _ => rfl

theorem followUp_considers : f.followUp.filterMap Chore.considers? = [] := by
  unfold followUp
  cases f.outcome with
  | skipped => by_cases healthy : f.entry.task.health = .healthy <;>
      simp [Dispatcher.skipChores, Chore.considers?, healthy]
  | _ => rfl

theorem followUp_acts : f.followUp.filterMap Chore.acts? = [] := by
  unfold followUp
  cases f.outcome with
  | skipped => by_cases healthy : f.entry.task.health = .healthy <;>
      simp [Dispatcher.skipChores, Chore.acts?, healthy]
  | _ => rfl

/-- What is to be logged after an evaluation is not of the gravest level. -/
theorem followUp_notes {line : Line} (noted : .note line ∈ f.followUp) : line.level = .info := by
  unfold followUp at noted
  cases outcome : f.outcome with
  | skipped =>
    rw [outcome] at noted
    by_cases healthy : f.entry.task.health = .healthy <;>
      simp [Dispatcher.skipChores, healthy] at noted <;> simp [noted]
  | _ => simp [outcome] at noted

variable {f} {c : Chore} {event : Event} {name : String}

theorem acts?_of_followUp (member : c ∈ f.followUp) : c.acts? = none :=
  List.filterMap_eq_nil_iff.mp f.followUp_acts c member

theorem considers?_of_followUp (member : c ∈ f.followUp) : c.considers? = none :=
  List.filterMap_eq_nil_iff.mp f.followUp_considers c member

/-- Only events of the task are recorded. -/
theorem name_of_followUp (member : .record event name ∈ f.followUp) : name = f.name := by
  have key : (⟨event, name⟩ : Tally.Key) ∈ f.keys := by
    rw [← f.followUp_records]
    exact List.mem_filterMap.mpr ⟨_, member, rfl⟩
  obtain ⟨_, _, same⟩ := List.mem_map.mp key
  exact (congrArg Tally.Key.name same).symm

/-- An evaluation tells of no event, of one, or of the two that tell of a task that turns slow. -/
theorem keys_cases (f : Finding) : f.keys = [] ∨
    (∃ event, event ≠ .markedSlow ∧ f.keys = [⟨event, f.name⟩]) ∨
    f.keys = [⟨.markedSlow, f.name⟩, ⟨.skippedInProgress, f.name⟩] := by
  unfold keys events
  cases f.outcome with
  | early | started | blocked => exact .inl rfl
  | muted => exact .inr (.inl ⟨.muted, by simp, rfl⟩)
  | denied => exact .inr (.inl ⟨.skippedForMode, by simp, rfl⟩)
  | skipped =>
    by_cases healthy : f.entry.task.health = .healthy
    · exact .inr (.inr (by simp [healthy]))
    · exact .inr (.inl ⟨.skippedInProgress, by simp, by simp [healthy]⟩)

theorem outcome_eq_early_iff (f : Finding) : f.outcome = .early ↔ f.now < f.entry.due := by
  unfold outcome
  constructor
  · intro early
    by_contra due
    rw [if_neg due] at early
    repeat' split at early
    all_goals cases early
  · exact fun early => if_pos early

end Finding

/-! ## Moves within a tick -/

namespace Moment

variable {m m' : Moment} {move : Move} {f : Finding} {rest : List Chore} {name : String}

/-- The next chore is an evaluation, and this is what it finds. -/
structure Finds (m : Moment) (f : Finding) (rest : List Chore) : Prop where
  left : m.chores = .consider f.name :: rest
  found : m.dispatcher.scheduler.entry? f.name = some f.entry
  mode : m.dispatcher.scheduler.mode = f.mode
  now : m.now = f.now

/-- The moment after an evaluation. -/
def evaluated (m : Moment) (f : Finding) (rest : List Chore) : Moment :=
  { m with
    dispatcher := { m.dispatcher with
      scheduler := { m.dispatcher.scheduler.modifyEntry f.name f.ruling.change with
        pool := m.dispatcher.scheduler.pool.map fun p =>
          { p with backlog := p.backlog ++ if f.ruling.starts then [f.name] else [] } }
      log := f.ruling.lines ++ m.dispatcher.log }
    chores := f.ruling.result.next rest
    verdict := f.ruling.result.verdict m.verdict }

theorem step_finds (sound : m.Sound) (finds : m.Finds f rest) :
    m.step? .chore = some (m.evaluated f rest) := by
  obtain ⟨p, present⟩ := Option.isSome_iff_exists.mp (sound.started (by simp [finds.left]))
  have performed := Dispatcher.consider_of_found present sound.scheduler m.now finds.found
  have ruling : f.entry.ruling m.dispatcher.scheduler.mode m.now = f.ruling := by
    rw [finds.mode, finds.now, Finding.ruling]
  rw [ruling] at performed
  rw [step_chore finds.left, performed]
  simp [evaluated, present]

section

variable (m f rest)

theorem entry?_evaluated_self (found : m.dispatcher.scheduler.entry? f.name = some f.entry) :
    (m.evaluated f rest).dispatcher.scheduler.entry? f.name = some f.left := by
  have changed := Scheduler.entry?_modifyEntry_self m.dispatcher.scheduler f.name
    (f.entry.name_ruling_change f.mode f.now)
  rw [found, Option.map_some] at changed
  exact changed.trans (congrArg some f.ruling_change)

theorem entry?_evaluated_of_ne (different : name ≠ f.name) :
    (m.evaluated f rest).dispatcher.scheduler.entry? name = m.dispatcher.scheduler.entry? name :=
  Scheduler.entry?_modifyEntry_of_ne _ different (f.entry.name_ruling_change f.mode f.now)

@[simp] theorem held_evaluated : (m.evaluated f rest).dispatcher.held = m.dispatcher.held := by
  unfold Dispatcher.held evaluated
  cases m.dispatcher.scheduler.pool <;> rfl

/-- A task that starts waits behind all others. -/
theorem waiting_evaluated (present : m.dispatcher.scheduler.pool.isSome) :
    (m.evaluated f rest).dispatcher.waiting =
      m.dispatcher.waiting ++ if f.outcome = .started then [f.name] else [] := by
  obtain ⟨p, present⟩ := Option.isSome_iff_exists.mp present
  simp [Dispatcher.waiting, evaluated, present, f.ruling_starts]

theorem chores_evaluated :
    (m.evaluated f rest).chores = if f.outcome = .blocked then [] else f.followUp ++ rest := by
  simp only [evaluated, f.ruling_result]
  split <;> rfl

theorem verdict_evaluated :
    (m.evaluated f rest).verdict = if f.outcome = .blocked then .stop else m.verdict := by
  simp only [evaluated, f.ruling_result]
  split <;> rfl

end

/-- A moment of a tick in good order. -/
structure Tidy (m : Moment) : Prop where
  sound : m.Sound
  /-- As long as something is left to do, the tick goes on. -/
  going : m.chores ≠ [] → m.verdict = .proceed
  /-- Registered tasks are evaluated. -/
  registered : ∀ name, .consider name ∈ m.chores → name ∈ m.dispatcher.scheduler.names
  /-- What hooks answer comes first. -/
  acts : m.chores.Pairwise fun c d => c.acts? = none → d.acts? = none
  /-- No chore logs a line of the gravest level. -/
  notes : ∀ line, .note line ∈ m.chores → line.level = .info

/-- The ways in which a tick goes on. -/
inductive Continues (m : Moment) : Move → Moment → Prop
  /-- A task is evaluated. -/
  | evaluated {f : Finding} {rest : List Chore} (finds : m.Finds f rest) :
    m.Continues .chore (m.evaluated f rest)
  /-- An event is recorded. -/
  | recorded {event : Event} {name : String} {rest : List Chore}
    (left : m.chores = .record event name :: rest) :
    m.Continues .chore { m with
      dispatcher := { m.dispatcher with sink := m.dispatcher.sink.record ⟨event, name⟩ }
      chores := ((m.dispatcher.sink.record ⟨event, name⟩).actions ⟨event, name⟩).map .act ++ rest }
  /-- A line is logged. -/
  | noted {line : Line} {rest : List Chore} (left : m.chores = .note line :: rest) :
    m.Continues .chore { m with
      dispatcher := m.dispatcher.note line.level line.text, chores := rest }
  /-- An action is done. -/
  | obeyed {action : Action} {rest : List Chore} {t : Dispatcher} (left : m.chores = .act action :: rest)
    (done : m.dispatcher.act action = .ok t) :
    m.Continues .chore { m with dispatcher := t, chores := rest }
  /-- An action fails, and the tick with it. -/
  | failed {what : String} {rest : List Chore} (left : m.chores = .act (.raise what) :: rest) :
    m.Continues .chore { m with chores := [], verdict := .fail (.raised what) }
  /-- A worker makes a step. -/
  | worked {move : Move} {l : Labour} (toils : m.dispatcher.Toils move l) :
    m.Continues move (m.withDispatcher (m.dispatcher.does l))

/-- Every move within a tick is one of those listed. -/
theorem Tidy.continues (tidy : m.Tidy) (inside : move.Inside) (made : m.step? move = some m') :
    m.Continues move m' := by
  rcases inside_cases inside made with rfl | ⟨l, toils, rfl⟩
  · cases left : m.chores with
    | nil => simp [step?, doChore?, left] at made
    | cons c rest =>
      cases c with
      | consider name =>
        cases found : m.dispatcher.scheduler.entry? name with
        | none =>
          exact absurd (tidy.registered name (by simp [left])) (Scheduler.entry?_eq_none_iff.mp found)
        | some e =>
          have named : e.task.name = name := Scheduler.entry?_name found
          have finds : m.Finds ⟨e, m.dispatcher.scheduler.mode, m.now⟩ rest :=
            ⟨by rw [left, Finding.name, named], by rw [Finding.name, named, found], rfl, rfl⟩
          rw [step_finds tidy.sound finds] at made
          cases made
          exact .evaluated finds
      | record event name =>
        rw [step_chore left] at made
        cases made
        exact .recorded left
      | note line =>
        rw [step_chore left] at made
        cases made
        exact .noted left
      | act action =>
        rw [step_chore left] at made
        simp only [Dispatcher.perform] at made
        cases done : m.dispatcher.act action with
        | ok t =>
          rw [done] at made
          cases made
          exact .obeyed left done
        | error fault =>
          rw [done] at made
          cases made
          cases action with
          | raise what =>
            cases done
            exact .failed left
          | _ => cases done
  · exact .worked toils

/-! ### Good order -/

/-- No action is left to do after a chore that is none. -/
theorem Tidy.no_acts (tidy : m.Tidy) {c : Chore} (left : m.chores = c :: rest) (other : c.acts? = none) :
    rest.filterMap Chore.acts? = [] := by
  have ordered := List.pairwise_cons.mp (left ▸ tidy.acts)
  exact List.filterMap_eq_nil_iff.mpr fun d member => ordered.1 d member other

/-- After an evaluation come evaluations only. -/
theorem Tidy.no_records (tidy : m.Tidy) (left : m.chores = .consider name :: rest) :
    rest.filterMap Chore.records? = [] := by
  have ordered := List.pairwise_cons.mp (left ▸ tidy.sound.ordered)
  refine List.filterMap_eq_nil_iff.mpr fun d member => ?_
  have last := ordered.1 d member rfl
  cases d <;> simp_all [Chore.level, Chore.records?]

theorem Tidy.beginTick (sound : m.Sound) (idle : m.idle = true) (now : Instant) :
    (m.beginTick now).Tidy := by
  have made : m.step? (.tick now) = some (m.beginTick now) := by simp [step?, idle]
  have evaluations : ∀ c ∈ (m.beginTick now).chores, ∃ name ∈ m.dispatcher.scheduler.names,
      c = .consider name := fun _ => consider_of_mem_agenda
  constructor
  · exact sound_step sound made
  · exact fun _ => rfl
  · intro name member
    obtain ⟨other, registered, same⟩ := evaluations _ member
    cases same
    by_contra absent
    have missing := Scheduler.entry?_eq_none_iff.mpr absent
    rw [Moment.beginTick, Dispatcher.entry?_opened, Scheduler.entry?_eq_none_iff] at missing
    exact missing registered
  · refine List.pairwise_iff_forall_sublist.mpr fun {c d} sub _ => ?_
    obtain ⟨name, _, rfl⟩ := evaluations d (sub.subset (by simp))
    rfl
  · intro line member
    obtain ⟨name, _, same⟩ := evaluations _ member
    cases same

/-- Every move within a tick keeps it in good order. -/
theorem Tidy.step (tidy : m.Tidy) (inside : move.Inside) (made : m.step? move = some m') : m'.Tidy := by
  have names : m.chores ≠ [] → m'.dispatcher.scheduler.names = m.dispatcher.scheduler.names :=
    fun within => congrArg Prod.fst (layout_step tidy.sound (tidy.sound.started within) made)
  suffices order : (m'.chores ≠ [] → m'.verdict = .proceed) ∧
      (∀ name, .consider name ∈ m'.chores → .consider name ∈ m.chores) ∧
      (m'.chores.Pairwise fun c d => c.acts? = none → d.acts? = none) ∧
      ∀ line, .note line ∈ m'.chores → line.level = .info by
    obtain ⟨going, considers, acts, notes⟩ := order
    refine ⟨sound_step tidy.sound made, going, ?_, acts, notes⟩
    intro name member
    have before := considers name member
    rw [names (List.ne_nil_of_mem before)]
    exact tidy.registered name before
  have kept : ∀ {c : Chore} {rest : List Chore}, m.chores = c :: rest → ∀ d ∈ rest, d ∈ m.chores :=
    fun left d member => left ▸ List.mem_cons_of_mem _ member
  have going : ∀ {c : Chore} {rest : List Chore}, m.chores = c :: rest → m.verdict = .proceed :=
    fun left => tidy.going (by simp [left])
  cases tidy.continues inside made with
  | @evaluated f rest finds =>
    have quiet : ∀ c ∈ f.followUp ++ rest, c.acts? = none := by
      intro c member
      rcases List.mem_append.mp member with new | old
      · exact List.filterMap_eq_nil_iff.mp f.followUp_acts c new
      · exact List.filterMap_eq_nil_iff.mp (tidy.no_acts finds.left rfl) c old
    rw [chores_evaluated, verdict_evaluated]
    split
    · exact ⟨fun some => absurd rfl some, by simp, .nil, by simp⟩
    · refine ⟨fun _ => going finds.left, ?_, ?_, ?_⟩
      · intro name member
        rcases List.mem_append.mp member with new | old
        · have silent := List.filterMap_eq_nil_iff.mp f.followUp_considers _ new
          cases silent
        · exact kept finds.left _ old
      · exact List.pairwise_iff_forall_sublist.mpr fun {c d} sub _ => quiet d (sub.subset (by simp))
      · intro line member
        rcases List.mem_append.mp member with new | old
        · exact f.followUp_notes new
        · exact tidy.notes line (kept finds.left _ old)
  | @recorded event name rest left =>
    refine ⟨fun _ => going left, ?_, ?_, ?_⟩
    · intro other member
      rcases List.mem_append.mp member with new | old
      · simp at new
      · exact kept left _ old
    · have silent := List.filterMap_eq_nil_iff.mp (tidy.no_acts left rfl)
      refine List.pairwise_append.mpr ⟨?_, ?_, ?_⟩
      · refine List.pairwise_map.mpr (List.pairwise_of_forall ?_)
        intro a b none
        cases none
      · exact List.pairwise_iff_forall_sublist.mpr fun {c d} sub _ => silent d (sub.subset (by simp))
      · intro c answers d old _
        exact silent d old
    · intro line member
      rcases List.mem_append.mp member with new | old
      · simp at new
      · exact tidy.notes line (kept left _ old)
  | noted left | obeyed left done =>
    exact ⟨fun _ => going left, fun _ => kept left _, (List.pairwise_cons.mp (left ▸ tidy.acts)).2,
      fun line member => tidy.notes line (kept left _ member)⟩
  | failed left => exact ⟨fun some => absurd rfl some, by simp, .nil, by simp⟩
  | worked toils => exact ⟨tidy.going, fun _ => id, tidy.acts, tidy.notes⟩

/-- Between two ticks nothing is in disorder. -/
theorem Tidy.of_idle (sound : m.Sound) (none : m.chores = []) : m.Tidy := by
  refine ⟨sound, fun some => absurd none some, ?_, ?_, ?_⟩ <;> simp [none]

/-- What does not touch the tick, nor the names of the tasks, keeps it in good order. -/
theorem Tidy.of_same (tidy : m.Tidy) (sound : m'.Sound) (chores : m'.chores = m.chores)
    (verdict : m'.verdict = m.verdict)
    (names : m'.dispatcher.scheduler.names = m.dispatcher.scheduler.names) : m'.Tidy := by
  refine ⟨sound, ?_, ?_, ?_, ?_⟩
  · rw [chores, verdict]
    exact tidy.going
  · rw [chores, names]
    exact tidy.registered
  · rw [chores]
    exact tidy.acts
  · rw [chores]
    exact tidy.notes

/-- Every move keeps a moment in good order. -/
theorem tidy_step (tidy : m.Tidy) (made : m.step? move = some m') : m'.Tidy := by
  have sound := sound_step tidy.sound made
  cases makes made with
  | registered idle | refused idle | started idle | noted idle =>
    exact .of_idle sound (List.isEmpty_iff.mp idle)
  | begun idle => exact .beginTick tidy.sound idle _
  | performed left done =>
    have inside : Move.Inside .chore := trivial
    exact tidy.step inside made
  | acted done => exact tidy.of_same sound rfl rfl (congrArg Prod.fst (Dispatcher.layout_act done))
  | failed => exact tidy
  | hooked => exact tidy.of_same sound rfl rfl rfl
  | taken taken =>
    have inside : Move.Inside .take := trivial
    exact tidy.step inside made
  | @finished run held ready =>
    have inside : Move.Inside (.finish run) := trivial
    exact tidy.step inside made

/-- Every moment that is reached from a new scheduler is in good order. -/
theorem Reaches.tidy {workers : Nat} {scheduler : Scheduler}
    (created : Scheduler.create workers = .ok scheduler) {allowed : Move → Prop}
    (reached : Reaches allowed (initial scheduler) m) : m.Tidy := by
  induction reached with
  | refl => exact .of_idle (sound_initial created) rfl
  | step before may made ih => exact tidy_step ih made

end Moment

end Cadence
