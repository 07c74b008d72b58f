import Mathlib.Data.List.Count
import Cadence.Proofs.Histories

/-!
The health of a task is the history of its overruns.

A task that was registered healthy, and whose health nobody else sets, has the health that follows
from the events recorded for it: a skipped slot for each step down, and one report on the first
(`Standing.Path.faithful`).  A critical task stays healthy.  No step raises a health again
(`Standing.Step.rank_le`).
-/

namespace Cadence

/-- How far a task has come down: 0 if it is healthy, 1 if it is slow, 2 if it is muted. -/
def Health.rank (h : Health) : Nat := h.code.toNat

/-- Tasks that are registered healthy. -/
def Task.Healthy (t : Task) : Prop := t.health = .healthy

/-- Actions that neither fail nor set a health. -/
def Action.HandsOff (a : Action) : Prop :=
  a.Quiet ∧ ∀ name health, a ≠ .setHealth name health

/-- An overrun of a task that is not muted takes it one step down. -/
theorem Task.rank_overrun {t : Task} {next : Health} {report : Bool} (listed : t.health.rank ≤ 2)
    (audible : t.health ≠ .muted) (overrun : t.overrun = .demote next report) :
    next.rank = t.health.rank + 1 ∧ next.rank ≤ 2 ∧ (report = true ↔ t.health.rank = 0) := by
  unfold Task.overrun Health.overrun at overrun
  split at overrun
  · cases overrun
  cases health : t.health with
  | healthy =>
    rw [health] at overrun
    cases overrun
    decide
  | slow =>
    rw [health] at overrun
    cases overrun
    decide
  | muted => exact absurd health audible
  | unlisted code unnamed =>
    rw [health] at listed
    have low : 3 ≤ code.toNat := UInt8.le_iff_toNat_le.mp unnamed
    simp only [Health.rank, Health.code] at listed
    omega

namespace Standing

/-- The health of a task follows from the events that were recorded for it, or are about to be. -/
structure Faithful (st : Standing) (e : Entry) : Prop where
  listed : e.task.health.rank ≤ 2
  /-- A slot was skipped for every step down. -/
  skipped : (st.counted .skippedInProgress).toNat + st.owed.count .skippedInProgress =
    e.task.health.rank
  /-- The first step down was reported. -/
  slow : (st.counted .markedSlow).toNat + st.owed.count .markedSlow = min 1 e.task.health.rank
  /-- Slots are muted of a muted task only. -/
  muted : st.counted .muted ≠ 0 ∨ .muted ∈ st.owed → e.task.health = .muted
  /-- A critical task takes no step down. -/
  critical : e.task.has .critical = true → e.task.health = .healthy

namespace Faithful

variable {st st' : Standing} {e e' : Entry}

/-- What holds of a task holds as long as its health, its capabilities and its events do not change. -/
theorem keep (faithful : st.Faithful e) (health : e'.task.health = e.task.health)
    (has : e'.task.has .critical = e.task.has .critical) (counted : st'.counted = st.counted)
    (skipped : st'.owed.count .skippedInProgress = st.owed.count .skippedInProgress)
    (slow : st'.owed.count .markedSlow = st.owed.count .markedSlow)
    (muted : .muted ∈ st'.owed → .muted ∈ st.owed ∨ e.task.health = .muted) :
    st'.Faithful e' := by
  constructor
  · rw [health]
    exact faithful.listed
  · rw [health, counted, skipped]
    exact faithful.skipped
  · rw [health, counted, slow]
    exact faithful.slow
  · rw [health, counted]
    rintro (before | ahead)
    · exact faithful.muted (.inl before)
    · rcases muted ahead with ahead | already
      · exact faithful.muted (.inr ahead)
      · exact already
  · rw [health, has]
    exact faithful.critical

/-- It does not matter whether an event was recorded already. -/
theorem recorded (faithful : st.Faithful e) {event : Event} {rest : List Event}
    (next : st.owed = event :: rest) :
    Faithful { st with
      counted := Function.update st.counted event (st.counted event + 1)
      owed := rest } e := by
  -- as no count exceeds two, none wraps
  have moved : ∀ other, (st.counted other).toNat + st.owed.count other ≤ 2 →
      (Function.update st.counted event (st.counted event + 1) other).toNat + rest.count other =
        (st.counted other).toNat + st.owed.count other := by
    intro other bound
    rw [next] at bound ⊢
    by_cases same : other = event
    · subst same
      rw [List.count_cons_self] at bound ⊢
      rw [Function.update_self, UInt64.toNat_add, Nat.mod_eq_of_lt]
      · have one : (1 : UInt64).toNat = 1 := rfl
        omega
      · have one : (1 : UInt64).toNat = 1 := rfl
        omega
    · rw [Function.update_of_ne same, List.count_cons_of_ne (Ne.symm same)]
  have listed := faithful.listed
  have skipped := faithful.skipped
  have slow := faithful.slow
  refine ⟨listed, ?_, ?_, ?_, faithful.critical⟩
  · rw [← skipped]
    exact moved _ (by omega)
  · rw [← slow]
    exact moved _ (by omega)
  · rintro (counted | ahead)
    · by_cases same : event = .muted
      · subst same
        exact faithful.muted (.inr (by simp [next]))
      · have other := Function.update_of_ne (Ne.symm same) (st.counted event + 1) st.counted
        exact faithful.muted (.inl (other ▸ counted))
    · exact faithful.muted (.inr (by simp [next, ahead]))

/-- An overrun takes the task one step down, and its events tell so. -/
theorem demoted (faithful : st.Faithful e) (clear : st.owed = []) {next : Health} {report : Bool}
    (audible : e.task.health ≠ .muted) (overrun : e.task.overrun = .demote next report) :
    Faithful { st with
      entry := some (e.demote next)
      owed := (if report then [.markedSlow] else []) ++ [.skippedInProgress] } (e.demote next) := by
  have skipped := faithful.skipped
  have slow := faithful.slow
  obtain ⟨down, listed, first⟩ := Task.rank_overrun faithful.listed audible overrun
  rw [clear, List.count_nil] at skipped slow
  have health : (e.demote next).task.health = next := by rw [Entry.task_demote]
  have skips : List.count Event.skippedInProgress
      ((if report then [.markedSlow] else []) ++ [.skippedInProgress]) = 1 := by
    cases report <;> rfl
  have reports : List.count Event.markedSlow
      ((if report then [.markedSlow] else []) ++ [.skippedInProgress]) +
        min 1 e.task.health.rank = 1 := by
    cases report with
    | true => simp [first.mp rfl]
    | false =>
      have positive : e.task.health.rank ≠ 0 := fun zero => by simpa using first.mpr zero
      have none : List.count Event.markedSlow ([] ++ [.skippedInProgress]) = 0 := rfl
      simp only [Bool.false_eq_true, if_false, none]
      omega
  refine ⟨by rw [health]; exact listed, ?_, ?_, ?_, ?_⟩
  · simp only [skips, health]
    omega
  · simp only [health, down]
    omega
  · rintro (before | ahead)
    · exact absurd (faithful.muted (.inl before)) audible
    · cases report <;> simp at ahead
  · intro critical
    rw [Entry.task_demote] at critical
    have stop : e.task.overrun = .stop := Task.overrun_eq_stop_iff.mpr critical
    rw [overrun] at stop
    cases stop

end Faithful

/-- Whatever befalls a task, its health follows from its events. -/
theorem Path.faithful {name : String} {turns : History Turn} {st : Standing}
    (path : Path (Turn.Within Task.Healthy Action.HandsOff name) turns st) {e : Entry}
    (present : st.entry = some e) : st.Faithful e := by
  induction path generalizing e with
  | start => cases present
  | @step turns st st' turn before allowed step ih =>
    cases step with
    | still => exact ih present
    | enrolled task contention instant missing =>
      cases present
      obtain ⟨nothing, zero⟩ := before.nothing missing
      have healthy : task.health = .healthy := allowed
      refine ⟨?_, ?_, ?_, ?_, fun _ => healthy⟩ <;>
        simp [healthy, nothing, zero, Health.rank, Health.code]
    | assigned health =>
      obtain ⟨health, handsOff⟩ := allowed
      exact absurd rfl (handsOff.2 name health)
    | touched before =>
      cases present
      exact (ih before).keep rfl rfl rfl rfl rfl .inl
    | muted before clear muted =>
      cases present
      exact (ih before).keep (by simp) (by simp) rfl (by simp [clear]) (by simp [clear])
        fun _ => .inr muted
    | refused before clear audible =>
      cases present
      exact (ih before).keep (by simp) (by simp) rfl (by simp [clear]) (by simp [clear]) (by simp)
    | started before now audible free =>
      cases present
      exact (ih before).keep (by simp [Task.mark]) (by simp [Task.mark, Task.has]) rfl rfl rfl .inl
    | demoted before clear next report audible busy overrun =>
      cases present
      exact (ih before).demoted clear audible overrun
    | blocked before clear busy critical =>
      cases present
      exact (ih before).keep (by simp) (by simp) rfl rfl rfl .inl
    | recorded next => exact (ih present).recorded next
    | finished before busy job began now =>
      cases present
      exact (ih before).keep rfl rfl rfl rfl rfl .inl
    | failed =>
      obtain ⟨what, handsOff⟩ := allowed
      exact absurd rfl (handsOff.1 what)

/-- No turn raises the health of a task, unless it is set from outside. -/
theorem Step.rank_le {st st' : Standing} {turn : Turn} {e e' : Entry} (step : st.Step turn st')
    (present : st.entry = some e) (present' : st'.entry = some e') (faithful : st.Faithful e)
    (unassigned : turn ≠ .assigned) : e.task.health.rank ≤ e'.task.health.rank := by
  cases step with
  | still | recorded | failed =>
    rw [present] at present'
    cases present'
    exact Nat.le_refl _
  | enrolled task contention instant missing =>
    rw [missing] at present
    cases present
  | assigned health => exact absurd rfl unassigned
  | demoted before clear next report audible busy overrun =>
    rw [before] at present
    cases present
    cases present'
    have down := (Task.rank_overrun faithful.listed audible overrun).1
    simp only [Entry.task_demote]
    omega
  | touched before | finished before =>
    rw [before] at present
    cases present
    cases present'
    exact Nat.le_refl _
  | muted before | refused before | blocked before =>
    rw [before] at present
    cases present
    cases present'
    simp
  | started before =>
    rw [before] at present
    cases present
    cases present'
    simp [Task.mark]

end Standing

namespace Moment

/-- What the health of a task tells of its overruns. -/
structure Diagnosis (m : Moment) (e : Entry) : Prop where
  /-- Once its events are recorded, a slot was skipped for every step down, and the first step was
  reported. -/
  overruns : m.Told e.task.name → e.task.has .critical = false →
    (m.dispatcher.sink.tally.count ⟨.skippedInProgress, e.task.name⟩).toNat = e.task.health.rank ∧
    (m.dispatcher.sink.tally.count ⟨.markedSlow, e.task.name⟩).toNat = min 1 e.task.health.rank
  /-- In the middle of a tick this holds with the events that are about to be recorded. -/
  pending : e.task.has .critical = false →
    (m.dispatcher.sink.tally.count ⟨.skippedInProgress, e.task.name⟩).toNat +
      (m.standing e.task.name).owed.count .skippedInProgress = e.task.health.rank ∧
    (m.dispatcher.sink.tally.count ⟨.markedSlow, e.task.name⟩).toNat +
      (m.standing e.task.name).owed.count .markedSlow = min 1 e.task.health.rank
  /-- A slot of it was muted only if it is muted. -/
  muted : 0 < (m.dispatcher.sink.tally.count ⟨.muted, e.task.name⟩).toNat → e.task.health = .muted
  /-- A critical task is healthy, and was never reported, skipped or muted. -/
  critical : e.task.has .critical = true → e.task.health = .healthy ∧
    m.dispatcher.sink.tally.count ⟨.markedSlow, e.task.name⟩ = 0 ∧
    m.dispatcher.sink.tally.count ⟨.skippedInProgress, e.task.name⟩ = 0 ∧
    m.dispatcher.sink.tally.count ⟨.muted, e.task.name⟩ = 0
  /-- No step raises its health, whatever the step is. -/
  lasting : ∀ move m', Move.Within Task.Healthy Action.HandsOff move → m.step? move = some m' →
    ∀ e' ∈ m'.dispatcher.scheduler.entries, e'.task.name = e.task.name →
      e.task.health.rank ≤ e'.task.health.rank

variable {workers : Nat} {scheduler : Scheduler} {m : Moment}

/-- If tasks are registered healthy, no event fails, and nobody sets the health of a task, then the
health of each task is the history of its overruns. -/
theorem health_follows_overruns (created : Scheduler.create workers = .ok scheduler)
    (reached : Reaches (Move.Within Task.Healthy Action.HandsOff) (initial scheduler) m) {e : Entry}
    (member : e ∈ m.dispatcher.scheduler.entries) : m.Diagnosis e := by
  have sound := reached.sound created
  have found := Scheduler.entry?_of_mem sound.scheduler.distinct member
  obtain ⟨h, passed⟩ := reached.passes
  have faithful := (passed.path created e.task.name).faithful found
  have skipped : (m.dispatcher.sink.tally.count ⟨.skippedInProgress, e.task.name⟩).toNat +
      (m.standing e.task.name).owed.count .skippedInProgress = e.task.health.rank :=
    faithful.skipped
  have slow : (m.dispatcher.sink.tally.count ⟨.markedSlow, e.task.name⟩).toNat +
      (m.standing e.task.name).owed.count .markedSlow = min 1 e.task.health.rank := faithful.slow
  have muted : m.dispatcher.sink.tally.count ⟨.muted, e.task.name⟩ ≠ 0 → e.task.health = .muted :=
    fun counted => faithful.muted (.inl counted)
  refine ⟨?_, fun _ => ⟨skipped, slow⟩, ?_, ?_, ?_⟩
  · intro told _
    rw [told.owed, List.count_nil] at skipped slow
    exact ⟨skipped, slow⟩
  · intro positive
    apply muted
    intro zero
    simp [zero] at positive
  · intro critical
    have healthy := faithful.critical critical
    have rank : e.task.health.rank = 0 := by rw [healthy]; rfl
    refine ⟨healthy, UInt64.toNat_inj.mp ?_, UInt64.toNat_inj.mp ?_, ?_⟩
    · rw [UInt64.toNat_zero]
      omega
    · rw [UInt64.toNat_zero]
      omega
    · by_contra counted
      rw [muted counted] at healthy
      cases healthy
  · intro move m' may made e' member' same
    have sound' := sound_step sound made
    have found' := Scheduler.entry?_of_mem sound'.scheduler.distinct member'
    rw [same] at found'
    refine (standing_step sound made e.task.name).rank_le found found' faithful ?_
    intro assigned
    have within := turn_within sound passed.hooks may e.task.name
    rw [assigned] at within
    obtain ⟨health, handsOff⟩ := within
    exact handsOff.2 _ _ rfl

/-- In the sample run the task was skipped once, and is slow. -/
theorem health_follows_overruns_sample : ∃ e ∈ Sample.run.2.dispatcher.scheduler.entries,
    e.task.health = .slow ∧ Sample.run.2.Diagnosis e := by
  have reached : Reaches (Move.Within Task.Healthy Action.HandsOff) (initial Sample.scheduler)
      Sample.run.2 :=
    (Sample.passes (by simp [Sample.moves, Move.Within, Task.Healthy, Action.HandsOff, Action.Quiet,
      Sample.gated])).reaches
  obtain ⟨e, member, slow⟩ : ∃ e ∈ Sample.run.2.dispatcher.scheduler.entries,
      e.task.health = .slow := by decide +kernel
  exact ⟨e, member, slow, health_follows_overruns Sample.created reached member⟩

end Moment

end Cadence
