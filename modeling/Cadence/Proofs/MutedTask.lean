import Cadence.Proofs.TickAccount

/-!
A muted task stays muted.

Unless somebody sets its health, or a hook does, a task that is muted is not marked again, is not handed to
the pool, and stops no tick; each slot that it consumes is told by one event, and nothing else is told of it
(`Moment.muted_stays`).  What one step does to its entry is read off `Standing.Step`
(`Standing.Step.muffled`), and what is told of it off the findings of the evaluations
(`Stage.muffled_keys`).
-/

namespace Cadence

/-- Actions that do not fail, and do not set the health of the task of a name. -/
def Action.Spares (name : String) (action : Action) : Prop :=
  action.Quiet ∧ ∀ health, action ≠ .setHealth name health

/-- How many runs of the task were started: those that are completed, and the one in progress. -/
def Task.starts (t : Task) : UInt64 := if t.inProgress then t.stats.runs + 1 else t.stats.runs

/-! ## One step -/

/-- What becomes of the entry of a muted task at a step, in which its slot may be consumed. -/
structure Entry.Muffled (e : Entry) (consumes : Bool) (e' : Entry) : Prop where
  muted : e'.task.health = .muted
  spec : e'.task.spec = e.task.spec
  startTime : e'.task.startTime = e.task.startTime
  starts : e'.task.starts = e.task.starts
  unmarked : e'.task.inProgress = true → e.task.inProgress = true
  due : e'.due = if consumes then e.due.after e.task.interval else e.due

namespace Standing

variable {st st' : Standing} {turn : Turn} {e : Entry}

theorem Step.muffled (step : st.Step turn st') (unassigned : turn ≠ .assigned)
    (present : st.entry = some e) (muted : e.task.health = .muted) :
    st'.jobs ≤ st.jobs ∧ ∃ e', st'.entry = some e' ∧ e.Muffled turn.consumes e' := by
  have still : e.Muffled false e := ⟨muted, rfl, rfl, rfl, id, rfl⟩
  have consumed : e.Muffled true e.consumeSlot := by
    refine ⟨?_, ?_, ?_, ?_, ?_, ?_⟩ <;> simp [muted]
  have same : ∀ {e' : Entry}, st.entry = some e' → e = e' := fun before =>
    Option.some.inj (present.symm.trans before)
  cases step with
  | still | failed => exact ⟨Nat.le_refl _, e, present, still⟩
  | recorded next => exact ⟨Nat.le_refl _, e, present, still⟩
  | enrolled task contention instant absent =>
    rw [present] at absent
    cases absent
  | assigned health => exact absurd rfl unassigned
  | touched before contention permits visits =>
    obtain rfl := same before
    exact ⟨Nat.le_refl _, _, rfl, muted, rfl, rfl, rfl, id, rfl⟩
  | muted before | blocked before =>
    obtain rfl := same before
    exact ⟨Nat.le_refl _, _, rfl, consumed⟩
  | refused before clear audible | started before now audible | demoted before clear next report audible =>
    obtain rfl := same before
    exact absurd muted audible
  | finished before busy job began now =>
    obtain rfl := same before
    have starts : (e.task.complete began now).starts = e.task.starts := by
      simp [Task.starts, Task.complete, Stats.observe, busy]
    exact ⟨Nat.sub_le _ _, _, rfl, muted, rfl, rfl, starts, fun _ => busy, rfl⟩

end Standing

namespace Finding

variable {f : Finding} {name : String}

/-- The evaluation of a muted task comes to nothing else, once its slot has come due. -/
theorem outcome_of_muted (muted : f.entry.task.health = .muted) :
    f.outcome = .early ∨ f.outcome = .muted := by
  by_cases early : f.now < f.entry.due
  · exact .inl (f.outcome_eq_early_iff.mpr early)
  · exact .inr (by rw [outcome, if_neg early, if_pos muted])

theorem keys_of_muted (muted : f.entry.task.health = .muted) :
    f.keys = if f.outcome = .early then [] else [⟨.muted, f.name⟩] := by
  rcases outcome_of_muted muted with early | muted
  · simp [keys, events, early]
  · simp [keys, events, muted]

/-- Nothing is told of any other task. -/
theorem keys_filter_of_ne (other : f.name ≠ name) : f.keys.filter (·.name = name) = [] := by
  simp [keys, other]

end Finding

namespace Stage

variable {stage : Stage} {name : String} {e : Entry} {f : Finding}

/-- The action that is done, by somebody who uses the controls or in answer to an event. -/
def action? (stage : Stage) : Option Action :=
  match stage.move with
  | .act action => some action
  | _ => stage.obeyed?

/-- If an action is done, it spares the task of a name. -/
def Spares (stage : Stage) (name : String) : Prop :=
  ∀ action, stage.action? = some action → action.Spares name

theorem action?_of_obeyed? {action : Action} (obeys : stage.obeyed? = some action) :
    stage.action? = some action := by
  obtain ⟨m, move⟩ := stage
  cases move with
  | chore => exact obeys
  | _ => cases obeys

theorem Spares.unfailing (spares : stage.Spares name) : stage.Unfailing :=
  fun action obeys => (spares action (action?_of_obeyed? obeys)).1

/-- The health of a task is set by an action, and by nothing else. -/
theorem action?_of_assigned (assigned : stage.turn name = .assigned) :
    ∃ health, stage.action? = some (.setHealth name health) := by
  obtain ⟨m, move⟩ := stage
  cases move with
  | chore =>
    cases left : m.chores with
    | nil => simp [turn, Moment.turn, left] at assigned
    | cons c rest =>
      simp only [turn, Moment.turn, left, List.head?_cons, Option.map_some, Option.getD_some] at assigned
      cases c with
      | consider target =>
        simp only [Dispatcher.turn] at assigned
        repeat' split at assigned
        all_goals cases assigned
      | record event target | note line => cases assigned
      | act action =>
        cases action with
        | setHealth target health =>
          have same : target = name := by
            by_contra other
            simp [Dispatcher.turn, other] at assigned
          exact ⟨health, by simp [action?, obeyed?, left, same]⟩
        | _ => cases assigned
  | act action =>
    cases action with
    | setHealth target health =>
      have same : target = name := by
        by_contra other
        simp [turn, Moment.turn, other] at assigned
      exact ⟨health, by simp [action?, same]⟩
    | _ => cases assigned
  | register task instant =>
    cases task with
    | none => cases assigned
    | some task =>
      simp only [turn, Moment.turn] at assigned
      split at assigned <;> cases assigned
  | _ => cases assigned

theorem Spares.unassigned (spares : stage.Spares name) : stage.turn name ≠ .assigned := by
  intro assigned
  obtain ⟨health, does⟩ := action?_of_assigned assigned
  exact (spares _ does).2 health rfl

/-- A slot of a task is consumed if and only if the task is evaluated and the slot has come due. -/
theorem consumes_turn_iff (stage : Stage) (name : String) : (stage.turn name).consumes = true ↔
    ∃ f, stage.finding? = some f ∧ f.name = name ∧ f.outcome ≠ .early := by
  obtain ⟨m, move⟩ := stage
  cases move with
  | chore =>
    cases left : m.chores with
    | nil => simp [turn, Moment.turn, finding?, left, Turn.consumes]
    | cons c rest =>
      cases c with
      | consider target =>
        simp only [turn, Moment.turn, finding?, left, List.head?_cons, Option.map_some, Option.getD_some,
          Dispatcher.turn, Option.map_eq_some_iff]
        cases found : m.dispatcher.scheduler.entry? target with
        | none =>
          by_cases same : target = name
          · subst same
            simp [found, Turn.consumes]
          · simp [same, Turn.consumes]
        | some e =>
          have named : e.task.name = target := Scheduler.entry?_name found
          by_cases same : target = name
          · subst same
            by_cases early : m.now < e.due
            · simp [found, early, Turn.consumes, Finding.outcome_eq_early_iff]
            · simp only [found, if_true, if_neg early]
              constructor
              · exact fun _ => ⟨_, ⟨e, rfl, rfl⟩, named, by simpa [Finding.outcome_eq_early_iff] using early⟩
              · intro _
                split <;> rfl
          · simp [same, Turn.consumes, Finding.name, named]
      | act action =>
        cases action with
        | setHealth target health =>
          by_cases same : target = name <;>
            simp [turn, Moment.turn, finding?, left, Dispatcher.turn, Turn.consumes, same]
        | _ => simp [turn, Moment.turn, finding?, left, Dispatcher.turn, Turn.consumes]
      | _ => simp [turn, Moment.turn, finding?, left, Dispatcher.turn, Turn.consumes]
  | act action =>
    cases action with
    | setHealth target health =>
      by_cases same : target = name <;> simp [turn, Moment.turn, finding?, Turn.consumes, same]
    | _ => simp [turn, Moment.turn, finding?, Turn.consumes]
  | register task instant =>
    cases task with
    | none => simp [turn, Moment.turn, finding?, Turn.consumes]
    | some task =>
      simp only [turn, Moment.turn, finding?]
      split <;> simp [Turn.consumes]
  | _ => simp [turn, Moment.turn, finding?, Turn.consumes]

/-- What is found of a muted task. -/
theorem muted_of_finding? (found : stage.before.dispatcher.scheduler.entry? name = some e)
    (muted : e.task.health = .muted) (finds : stage.finding? = some f) (named : f.name = name) :
    f.entry.task.health = .muted := by
  obtain ⟨_, rest, finds⟩ := Moment.finds_of_finding? finds
  have same := finds.found
  rw [named, found, Option.some.injEq] at same
  rw [← same, muted]

/-- What is told of a muted task at a step: one event for a slot that is consumed, and nothing else. -/
theorem muffled_keys (stage : Stage) (found : stage.before.dispatcher.scheduler.entry? name = some e)
    (muted : e.task.health = .muted) :
    (stage.finding?.toList.flatMap (·.keys)).filter (·.name = name) =
      if (stage.turn name).consumes then [⟨.muted, name⟩] else [] := by
  have consumes := stage.consumes_turn_iff name
  cases finds : stage.finding? with
  | none =>
    have aside : (stage.turn name).consumes = false := by simpa [finds] using consumes
    simp [aside]
  | some f =>
    rw [Option.toList_some, List.flatMap_singleton]
    by_cases named : f.name = name
    · have keys := Finding.keys_of_muted (muted_of_finding? found muted finds named)
      rw [keys, named]
      by_cases early : f.outcome = .early
      · have aside : (stage.turn name).consumes = false := by simpa [finds, early] using consumes
        simp [early, aside]
      · have consumes := consumes.mpr ⟨f, finds, named, early⟩
        simp [early, consumes]
    · have aside : (stage.turn name).consumes = false := by simpa [finds, named] using consumes
      rw [Finding.keys_filter_of_ne named, aside]
      rfl

end Stage

namespace Moment

variable {m m' first : Moment} {move : Move} {h : History Stage} {name : String} {e e' : Entry}

/-- A move that is not one within a tick begins a tick, or leaves the tick and the events alone. -/
theorem outside_cases (made : m.step? move = some m') : move.Inside ∨
    (Stage.finding? ⟨m, move⟩ = none ∧ Stage.handed ⟨m, move⟩ = [] ∧
      ((m.chores = [] ∧ ∃ now, m' = m.beginTick now) ∨
        (m'.chores = m.chores ∧ m'.verdict = m.verdict ∧
          m'.dispatcher.sink.events = m.dispatcher.sink.events))) := by
  cases makes made with
  | performed | taken | finished => exact .inl trivial
  | begun idle => exact .inr ⟨rfl, rfl, .inl ⟨List.isEmpty_iff.mp idle, _, rfl⟩⟩
  | started idle => exact .inr ⟨rfl, rfl, .inr ⟨rfl, rfl, by simp [withDispatcher]⟩⟩
  | acted done =>
    exact .inr ⟨rfl, rfl, .inr ⟨rfl, rfl, congrArg Sink.events (Dispatcher.sink_act done)⟩⟩
  | _ => exact .inr ⟨rfl, rfl, .inr ⟨rfl, rfl, rfl⟩⟩

/-- What is told at a step is what is found. -/
theorem tale_step (tidy : m.Tidy) (unfailing : Stage.Unfailing ⟨m, move⟩)
    (made : m.step? move = some m') :
    m'.tale = m.tale ++ (Stage.finding? ⟨m, move⟩).toList.flatMap (·.keys) := by
  rcases outside_cases made with inside | ⟨unfound, _, ⟨clear, now, rfl⟩ | ⟨chores, _, events⟩⟩
  · exact (advances tidy inside made).tale unfailing
  · rw [tale_beginTick, tale, clear, unfound]
    simp
  · rw [tale, tale, chores, events, unfound]
    exact (List.append_nil _).symm

/-- Only tasks that start are handed over. -/
theorem started_of_handed (tidy : m.Tidy) (made : m.step? move = some m')
    (handed : name ∈ Stage.handed ⟨m, move⟩) :
    ∃ f, Stage.finding? ⟨m, move⟩ = some f ∧ f.name = name ∧ f.outcome = .started := by
  rcases outside_cases made with inside | ⟨_, none, _⟩
  · rw [(advances tidy inside made).handed] at handed
    obtain ⟨f, starts, named⟩ := List.mem_map.mp handed
    obtain ⟨found, starts⟩ := List.mem_filter.mp starts
    exact ⟨f, Option.mem_toList.mp found, named, by simpa using starts⟩
  · rw [none] at handed
    cases handed

/-- A tick stops only when a task is blocked. -/
theorem blocked_of_stop (tidy : m.Tidy) (made : m.step? move = some m') (going : m.verdict ≠ .stop)
    (stops : m'.verdict = .stop) : ∃ f, Stage.finding? ⟨m, move⟩ = some f ∧ f.outcome = .blocked := by
  rcases outside_cases made with inside | ⟨_, _, ⟨_, now, rfl⟩ | ⟨_, verdict, _⟩⟩
  · cases tidy.continues inside made with
    | @evaluated f rest finds =>
      refine ⟨f, finding?_of_finds finds, ?_⟩
      by_contra unblocked
      rw [verdict_evaluated, if_neg unblocked] at stops
      exact going stops
    | failed left => cases stops
    | _ => exact absurd stops going
  · cases stops
  · exact absurd (verdict.symm.trans stops) going

/-! ## A whole run -/

/-- Once the events of a task are recorded, they are all that is told of it. -/
theorem Told.tale (told : m.Told name) : m.tale.filter (·.name = name) =
    (History.all m.dispatcher.sink.events).filter (·.name = name) := by
  have clear : (m.chores.filterMap Chore.records?).filter (·.name = name) = [] := by
    refine List.filter_eq_nil_iff.mpr fun key member => ?_
    obtain ⟨c, left, records⟩ := List.mem_filterMap.mp member
    cases c with
    | record event target =>
      cases records
      intro same
      simp only [decide_eq_true_eq] at same
      exact told event (same ▸ left)
    | _ => cases records
  rw [Moment.tale, List.filter_append, clear, List.append_nil]

/-- What became of a muted task in a run. -/
structure Muffled (first : Moment) (e : Entry) (h : History Stage) (m : Moment) (e' : Entry) : Prop where
  found : m.dispatcher.scheduler.entry? e.task.name = some e'
  muted : e'.task.health = .muted
  spec : e'.task.spec = e.task.spec
  startTime : e'.task.startTime = e.task.startTime
  /-- No run of it was started. -/
  starts : e'.task.starts = e.task.starts
  unmarked : e'.task.inProgress = true → e.task.inProgress = true
  /-- None of its jobs is new. -/
  jobs : m.dispatcher.scheduler.outstanding.count e.task.name ≤
    first.dispatcher.scheduler.outstanding.count e.task.name
  /-- The due time moved on by an interval with each slot, as long as it is within the range of the clock.
  -/
  due : e.due.slotTime e.task.interval (h.turns e.task.name).slots < 2 ^ 63 →
    e'.due.nanos.toInt = e.due.slotTime e.task.interval (h.turns e.task.name).slots
  /-- Each slot is told by one event, and nothing else is told. -/
  tale : m.tale.filter (·.name = e.task.name) = first.tale.filter (·.name = e.task.name) ++
    List.replicate (h.turns e.task.name).slots ⟨.muted, e.task.name⟩

theorem Muffled.step (muffled : Muffled first e h m e') (tidy : m.Tidy)
    (spares : Stage.Spares ⟨m, move⟩ e.task.name) (made : m.step? move = some m') :
    ∃ e'', Muffled first e (⟨m, move⟩ :: h) m' e'' := by
  have step := standing_step tidy.sound made e.task.name
  obtain ⟨jobs, e'', found, next⟩ := step.muffled spares.unassigned muffled.found muffled.muted
  have tale := tale_step tidy spares.unfailing made
  have keys := Stage.muffled_keys ⟨m, move⟩ muffled.found muffled.muted
  have turns : History.turns (⟨m, move⟩ :: h) e.task.name =
      m.turn e.task.name move :: h.turns e.task.name := rfl
  have interval : e'.task.interval = e.task.interval := congrArg Spec.interval muffled.spec
  refine ⟨e'', found, next.muted, next.spec.trans muffled.spec, next.startTime.trans muffled.startTime,
    next.starts.trans muffled.starts, muffled.unmarked ∘ next.unmarked, jobs.trans muffled.jobs, ?_, ?_⟩
  · rw [turns, next.due, interval]
    cases consumes : (m.turn e.task.name move).consumes with
    | false => simpa [History.slots, consumes] using muffled.due
    | true =>
      have slots : History.slots (m.turn e.task.name move :: h.turns e.task.name) =
          (h.turns e.task.name).slots + 1 := by simp [History.slots, consumes]
      rw [slots, if_pos rfl]
      exact e.due.toInt_after_slotTime e.task muffled.due
  · rw [tale, List.filter_append, muffled.tale, keys, turns, List.append_assoc]
    cases consumes : (m.turn e.task.name move).consumes with
    | false => simp [Stage.turn, History.slots, consumes]
    | true => simp [Stage.turn, History.slots, consumes, List.replicate_succ']

theorem Passes.muffled (tidy : first.Tidy) (present : first.dispatcher.scheduler.entry? name = some e)
    (muted : e.task.health = .muted) (passed : Passes (fun _ => True) first h m)
    (spared : ∀ stage ∈ h, stage.Spares name) : m.Tidy ∧ ∃ e', Muffled first e h m e' := by
  have named : e.task.name = name := Scheduler.entry?_name present
  subst named
  induction passed with
  | refl =>
    refine ⟨tidy, e, present, muted, rfl, rfl, rfl, id, Nat.le_refl _, ?_, ?_⟩
    · simp [History.turns, History.slots, Instant.slotTime]
    · simp [History.turns, History.slots]
  | step before may made ih =>
    obtain ⟨sooner, spares⟩ := List.forall_mem_cons.mp spared |>.symm
    obtain ⟨tidy, e', muffled⟩ := ih sooner
    exact ⟨tidy_step tidy made, muffled.step tidy spares made⟩

/-- A muted task at a step of a run. -/
structure Dormant (name : String) (stage : Stage) : Prop where
  muted : ∃ e, stage.before.dispatcher.scheduler.entry? name = some e ∧ e.task.health = .muted
  /-- Its slot is consumed if it is evaluated and the slot has come due, and only then. -/
  consumes : (stage.turn name).consumes = true ↔
    ∃ f, stage.finding? = some f ∧ f.name = name ∧ ¬ f.now < f.entry.due
  unmarked : ∀ next, stage.before.step? stage.move = some next →
    next.dispatcher.scheduler.busy name = true → stage.before.dispatcher.scheduler.busy name = true
  /-- It is not handed to the pool. -/
  unsubmitted : name ∉ stage.handed
  /-- If a tick stops, another task is blocked. -/
  unstopped : ∀ next, stage.before.step? stage.move = some next → stage.before.verdict ≠ .stop →
    next.verdict = .stop → ∃ f, stage.finding? = some f ∧ f.name ≠ name ∧ f.outcome = .blocked

theorem Muffled.dormant {stage : Stage} (muffled : Muffled first e h stage.before e')
    (tidy : stage.before.Tidy) (spares : stage.Spares e.task.name)
    (made : stage.before.step? stage.move = some m) : Dormant e.task.name stage := by
  have quiet : ∀ f, stage.finding? = some f → f.name = e.task.name →
      f.outcome = .early ∨ f.outcome = .muted := fun f found named =>
    Finding.outcome_of_muted (Stage.muted_of_finding? muffled.found muffled.muted found named)
  refine ⟨⟨e', muffled.found, muffled.muted⟩, ?_, ?_, ?_, ?_⟩
  · simp only [stage.consumes_turn_iff, ne_eq, Finding.outcome_eq_early_iff]
  · intro next made busy
    obtain ⟨_, e'', found, after⟩ := (standing_step tidy.sound made e.task.name).muffled
      spares.unassigned muffled.found muffled.muted
    rw [Scheduler.busy_of_found found] at busy
    rw [Scheduler.busy_of_found muffled.found, after.unmarked busy]
  · intro handed
    obtain ⟨f, found, named, starts⟩ := started_of_handed tidy made handed
    rcases quiet f found named with other | other <;> simp [other] at starts
  · intro next made going stops
    obtain ⟨f, found, blocked⟩ := blocked_of_stop tidy made going stops
    refine ⟨f, found, fun named => ?_, blocked⟩
    rcases quiet f found named with other | other <;> simp [other] at blocked

/-- What is true of a run in which a muted task is spared. -/
structure Silence (first : Moment) (e : Entry) (h : History Stage) (m : Moment) (e' : Entry) : Prop
    extends Muffled first e h m e' where
  /-- It was muted all the time, never marked, never handed to the pool, and it stopped no tick. -/
  always : ∀ stage ∈ h, Dormant e.task.name stage
  /-- Only the run that was in progress may have been completed. -/
  runs : e'.task.stats.runs = e.task.stats.runs ∨
    (e.task.inProgress = true ∧ e'.task.inProgress = false ∧
      e'.task.stats.runs = e.task.stats.runs + 1)
  /-- Each slot was told by one event, and nothing else was told. -/
  events : first.Told e.task.name → m.Told e.task.name →
    (History.all m.dispatcher.sink.events).filter (·.name = e.task.name) =
      (History.all first.dispatcher.sink.events).filter (·.name = e.task.name) ++
        List.replicate (h.turns e.task.name).slots ⟨.muted, e.task.name⟩
  /-- The counts of the task, if all of its events were recorded. -/
  counted : first.Told e.task.name → m.Told e.task.name → ∀ event,
    m.dispatcher.sink.tally.count ⟨event, e.task.name⟩ =
      first.dispatcher.sink.tally.count ⟨event, e.task.name⟩ +
        if event = .muted then UInt64.ofNat (h.turns e.task.name).slots else 0
  /-- The events that tell of it are as many as the intervals by which the due time moved on. -/
  rate : first.Told e.task.name → m.Told e.task.name →
    e.due.slotTime e.task.interval (h.turns e.task.name).slots < 2 ^ 63 →
      ((m.dispatcher.sink.tally.count ⟨.muted, e.task.name⟩ -
          first.dispatcher.sink.tally.count ⟨.muted, e.task.name⟩).toNat : Int) =
        (e'.due.nanos.toInt - e.due.nanos.toInt) / (e.task.interval.count.toInt * 1000000)

theorem Muffled.runs (muffled : Muffled first e h m e') : e'.task.stats.runs = e.task.stats.runs ∨
    (e.task.inProgress = true ∧ e'.task.inProgress = false ∧
      e'.task.stats.runs = e.task.stats.runs + 1) := by
  have starts := muffled.starts
  unfold Task.starts at starts
  cases after : e'.task.inProgress with
  | true =>
    exact .inl (by simpa [after, muffled.unmarked after] using starts)
  | false =>
    cases before : e.task.inProgress with
    | true => exact .inr ⟨rfl, rfl, by simpa [after, before] using starts⟩
    | false => exact .inl (by simpa [after, before] using starts)

theorem Muffled.events (muffled : Muffled first e h m e') (told : first.Told e.task.name)
    (told' : m.Told e.task.name) :
    (History.all m.dispatcher.sink.events).filter (·.name = e.task.name) =
      (History.all first.dispatcher.sink.events).filter (·.name = e.task.name) ++
        List.replicate (h.turns e.task.name).slots ⟨.muted, e.task.name⟩ := by
  rw [← told.tale, ← told'.tale, muffled.tale]

variable {workers : Nat} {scheduler : Scheduler}

theorem Muffled.counted (created : Scheduler.create workers = .ok scheduler)
    (reached : Reaches (fun _ => True) (initial scheduler) first)
    (passed : Passes (fun _ => True) first h m) (muffled : Muffled first e h m e')
    (told : first.Told e.task.name) (told' : m.Told e.task.name) (event : Event) :
    m.dispatcher.sink.tally.count ⟨event, e.task.name⟩ =
      first.dispatcher.sink.tally.count ⟨event, e.task.name⟩ +
        if event = .muted then UInt64.ofNat (h.turns e.task.name).slots else 0 := by
  have listed : ∀ events : History Tally.Key, events.count ⟨event, e.task.name⟩ =
      ((History.all events).filter (·.name = e.task.name)).count ⟨event, e.task.name⟩ := by
    intro events
    rw [List.count_filter (by simp), History.all, List.count_reverse]
  rw [(reached.trans passed.reaches).counted created, reached.counted created,
    listed m.dispatcher.sink.events, listed first.dispatcher.sink.events, muffled.events told told',
    List.count_append, UInt64.ofNat_add]
  congr 1
  by_cases same : event = .muted
  · subst same
    simp
  · have other : (⟨.muted, e.task.name⟩ : Tally.Key) ≠ ⟨event, e.task.name⟩ := by simpa using Ne.symm same
    simp [same, other, List.count_replicate]

theorem Muffled.rate (muffled : Muffled first e h m e')
    (counted : m.dispatcher.sink.tally.count ⟨.muted, e.task.name⟩ =
      first.dispatcher.sink.tally.count ⟨.muted, e.task.name⟩ +
        UInt64.ofNat (h.turns e.task.name).slots)
    (fits : e.due.slotTime e.task.interval (h.turns e.task.name).slots < 2 ^ 63) :
    ((m.dispatcher.sink.tally.count ⟨.muted, e.task.name⟩ -
        first.dispatcher.sink.tally.count ⟨.muted, e.task.name⟩).toNat : Int) =
      (e'.due.nanos.toInt - e.due.nanos.toInt) / (e.task.interval.count.toInt * 1000000) := by
  have small := e.due.lt_word_of_slotTime e.task fits
  have positive := e.task.one_le_interval
  have more : (m.dispatcher.sink.tally.count ⟨.muted, e.task.name⟩ -
      first.dispatcher.sink.tally.count ⟨.muted, e.task.name⟩).toNat = (h.turns e.task.name).slots := by
    rw [counted, UInt64.add_comm, UInt64.add_sub_cancel]
    simpa using Nat.mod_eq_of_lt small
  rw [more, muffled.due fits, Instant.slotTime, add_sub_cancel_left]
  exact (Int.mul_ediv_cancel_left _ (by omega)).symm

/-- What is done within the bounds of the moves and of the hooks. -/
theorem Passes.spared {task : Task → Prop} (sound : first.Sound)
    (hooked : ∀ hook ∈ first.dispatcher.sink.hooks, hook.action.Spares name)
    (passed : Passes (Move.Within task (Action.Spares name)) first h m) :
    ∀ stage ∈ h, stage.Spares name := by
  intro stage within action does
  obtain ⟨later, earlier, rfl⟩ := List.append_of_mem within
  obtain ⟨sooner, may, _⟩ := passed.cut
  obtain ⟨before, move⟩ := stage
  cases move with
  | act outside =>
    cases does
    exact may
  | chore =>
    have answers : .act action ∈ before.chores := by
      simp only [Stage.action?, Stage.obeyed?] at does
      split at does
      · rename_i left
        cases does
        exact left ▸ List.mem_cons_self
      · cases does
    obtain ⟨hook, listed, rfl⟩ := (sound.of_reaches sooner.reaches).answered action answers
    exact sooner.hooks_of hooked hook listed
  | _ => cases does

/-- Whatever is done without setting the health of a muted task, by ticks and workers, by the controls and
by hooks that do not fail, the task stays muted: it is never marked and never handed to the pool again, it
stops no tick, and every slot that it consumes is told by one event.  What a run of the loop does is among
this. -/
theorem muted_stays (created : Scheduler.create workers = .ok scheduler)
    (reached : Reaches (fun _ => True) (initial scheduler) first)
    (member : e ∈ first.dispatcher.scheduler.entries) (muted : e.task.health = .muted) :
    (∀ h m, Passes (fun _ => True) first h m → (∀ stage ∈ h, stage.Spares e.task.name) →
      ∃ e', Silence first e h m e') ∧
    ∀ (script : Script) (duration : Option Millis) (s : Session), first.idle = true →
      s.dispatcher = first.dispatcher →
      (∀ hook ∈ first.dispatcher.sink.hooks, hook.action.Spares e.task.name) →
      (∀ nth, ∀ action ∈ script.actions nth, action.Spares e.task.name) →
        ∃ h m, Passes (fun _ => True) first h m ∧ (∀ stage ∈ h, stage.Spares e.task.name) ∧
          m.dispatcher = (Session.run script duration s).2.dispatcher := by
  have tidy := reached.tidy created
  constructor
  · intro h m passed spared
    have present := Scheduler.entry?_of_mem tidy.sound.scheduler.distinct member
    obtain ⟨_, e', muffled⟩ := passed.muffled tidy present muted spared
    have counted := muffled.counted created reached passed
    refine ⟨e', { toMuffled := muffled, always := ?_, runs := muffled.runs, events := muffled.events,
                  counted, rate := ?_ }⟩
    · intro stage within
      obtain ⟨later, earlier, rfl⟩ := List.append_of_mem within
      obtain ⟨sooner, _, next, made, _⟩ := passed.cut
      obtain ⟨tidy, e₁, muffled₁⟩ := sooner.muffled tidy present muted
        fun old member => spared old (by simp [member])
      exact muffled₁.dormant tidy (spared stage within) made
    · intro told told' fits
      exact muffled.rate (by simpa using counted told told' .muted) fits
  · intro script duration s idle same hooked scripted
    have rests : Rests (Move.Within (fun _ => True) (Action.Spares e.task.name)) first s.dispatcher :=
      same ▸ Rests.of_reaches .refl idle
    have time : ∀ ns, Action.Spares e.task.name (.advance ns) := by simp [Action.Spares, Action.Quiet]
    obtain ⟨now, verdict, ran⟩ := (Session.run_rests script time scripted duration rests).1
    obtain ⟨h, passed⟩ := ran.passes
    exact ⟨h, _, passed.mono fun _ _ => trivial, passed.spared tidy.sound hooked, rfl⟩

/-! ### A sample run

One worker and one critical task, which waits for a permit.  It is muted while it is in progress, and only
then gets its permit. -/

namespace Mute

/-- The task. -/
def stuck : Task := { Sample.gated with capabilities := .critical }

/-- What is done before. -/
def before : List Move :=
  [.register (some stuck) .epoch, .act (.setEnabled true), .tick ⟨1000000000⟩, .chore, .take,
    .act (.setHealth "gated" .muted)]

/-- The moment at which it is muted. -/
def start : Moment := (lead (initial Sample.scheduler) before).2

/-- What is done then. -/
def moves : List Move :=
  [.tick ⟨2000000000⟩, .chore, .chore, .act (.permit "gated"), .finish ⟨"gated", .epoch⟩,
    .tick ⟨4000000000⟩, .chore, .chore]

/-- The run, and the moment it leads to. -/
def run : History Stage × Moment := lead start moves

end Mute

/-- No tick stops, and the run that was in progress is the last one. -/
theorem muted_stays_sample : ∃ e ∈ Mute.start.dispatcher.scheduler.entries,
    e.task.health = .muted ∧ e.task.inProgress = true ∧ e.task.has .critical = true ∧
      (Mute.run.1.turns e.task.name).slots = 2 ∧ Mute.run.2.verdict = .proceed ∧
      ∃ e', Silence Mute.start e Mute.run.1 Mute.run.2 e' ∧ e'.task.stats.runs = 1 := by
  have reached : Reaches (fun _ => True) (initial Sample.scheduler) Mute.start :=
    (passes_lead (fun _ _ => trivial) (by decide +kernel)).reaches
  obtain ⟨e, member, named, muted, busy, critical, slots⟩ :
      ∃ e ∈ Mute.start.dispatcher.scheduler.entries, e.task.name = "gated" ∧ e.task.health = .muted ∧
        e.task.inProgress = true ∧ e.task.has .critical = true ∧
          (Mute.run.1.turns e.task.name).slots = 2 := by decide +kernel
  have hooked : ∀ hook ∈ Mute.start.dispatcher.sink.hooks, hook.action.Spares e.task.name := by
    have none : Mute.start.dispatcher.sink.hooks = [] := by decide +kernel
    simp [none]
  have passed : Passes (Move.Within (fun _ => True) (Action.Spares e.task.name)) Mute.start Mute.run.1
      Mute.run.2 := by
    refine passes_lead ?_ (by decide +kernel)
    simp [Mute.moves, Move.Within, Action.Spares, Action.Quiet]
  have spared := passed.spared (reached.sound Sample.created) hooked
  obtain ⟨e', silence⟩ := (muted_stays Sample.created reached member muted).1 _ _
    (passed.mono fun _ _ => trivial) spared
  refine ⟨e, member, muted, busy, critical, slots, by decide +kernel, e', silence, ?_⟩
  have ran : (Mute.run.2.dispatcher.scheduler.entry? "gated").map (·.task.stats.runs) = some 1 := by
    decide +kernel
  have found := silence.found
  rw [named] at found
  simpa [found] using ran

end Moment

end Cadence
