import Cadence.Proofs.Slots

/-!
Due times.

Whatever befalls a task, it stays what it was asked for, and its due time moves on by an interval with
each slot that it consumes (`Standing.Step.due_cases`).  The due time is therefore known from the
registration and the number of slots (`Standing.Path.dated`), also for a task that had run before.
-/

namespace Cadence

/-- What the task was asked for. -/
def Task.spec (t : Task) : Spec where
  name := t.name
  interval := t.interval
  capabilities := t.capabilities
  body := some t.body

namespace Standing

variable {st st' : Standing} {turn : Turn}

/-- A task and its due time come from the registration, or from what they were before: the task is
still the one that was asked for, and the due time moves on with each slot that is consumed. -/
theorem Step.due_cases (step : st.Step turn st') {e' : Entry} (present : st'.entry = some e') :
    (∃ task instant, turn = .enrolled task instant ∧ st.entry = none ∧
      e'.task.spec = task.spec ∧ e'.due = instant.after task.interval) ∨
    ∃ e, st.entry = some e ∧ turn.registered? = none ∧ e'.task.spec = e.task.spec ∧
      e'.due = if turn.consumes then e.due.after e.task.interval else e.due := by
  cases step with
  | still => exact .inr ⟨e', present, rfl, rfl, rfl⟩
  | enrolled task contention instant missing =>
    cases present
    exact .inl ⟨task, instant, rfl, missing, rfl, rfl⟩
  | assigned health =>
    obtain ⟨e, before, rfl⟩ := Option.map_eq_some_iff.mp present
    exact .inr ⟨e, before, rfl, rfl, rfl⟩
  | @touched e before contention permits visits =>
    cases present
    exact .inr ⟨e, before, rfl, rfl, rfl⟩
  | @muted e before clear muted =>
    cases present
    exact .inr ⟨e, before, rfl, by simp [Task.spec], by simp [Turn.consumes]⟩
  | @refused e before clear audible =>
    cases present
    exact .inr ⟨e, before, rfl, by simp [Task.spec], by simp [Turn.consumes]⟩
  | @started e before now audible free =>
    cases present
    exact .inr ⟨e, before, rfl, by simp [Task.spec, Task.mark], by simp [Turn.consumes]⟩
  | @demoted e before clear next report audible busy overrun =>
    cases present
    exact .inr ⟨e, before, rfl, by simp [Task.spec], by simp [Turn.consumes]⟩
  | @blocked e before clear busy critical =>
    cases present
    exact .inr ⟨e, before, rfl, by simp [Task.spec], by simp [Turn.consumes]⟩
  | recorded next => exact .inr ⟨e', present, rfl, rfl, rfl⟩
  | @finished e before busy job began now =>
    cases present
    exact .inr ⟨e, before, rfl, rfl, rfl⟩
  | failed => exact .inr ⟨e', present, rfl, rfl, rfl⟩

/-- A task that is not registered consumes no slot. -/
theorem Step.missing (step : st.Step turn st') (missing : st'.entry = none) :
    st.entry = none ∧ turn.registered? = none ∧ turn.consumes = false := by
  cases step with
  | still => exact ⟨missing, rfl, rfl⟩
  | assigned health => exact ⟨Option.map_eq_none_iff.mp missing, rfl, rfl⟩
  | recorded next => exact ⟨missing, rfl, rfl⟩
  | failed => exact ⟨missing, rfl, rfl⟩
  | _ => cases missing

/-- A job is added only with a slot. -/
theorem Step.jobs_le (step : st.Step turn st') (quiet : turn.consumes = false) :
    st'.jobs ≤ st.jobs := by
  cases step with
  | started present now audible free => cases quiet
  | finished present busy job began now => exact Nat.sub_le _ _
  | _ => exact Nat.le_refl _

/-- The due time of a task is that many intervals after the instant of its registration as it consumed
slots, and one more; as long as this is within the range of the clock. -/
structure Dated (turns : History Turn) (entry : Option Entry) : Prop where
  before : entry = none → turns.registered? = none ∧ turns.slots = 0
  after : ∀ e, entry = some e → ∃ task instant, turns.registered? = some (task, instant) ∧
    e.task.interval = task.interval ∧
    (instant.slotTime e.task.interval (turns.slots + 1) < 2 ^ 63 →
      e.due.nanos.toInt = instant.slotTime e.task.interval (turns.slots + 1))

theorem Dated.step {turns : History Turn} (dated : Dated turns st.entry) (step : st.Step turn st') :
    Dated (turn :: turns) st'.entry := by
  constructor
  · intro missing
    obtain ⟨missing, unregistered, quiet⟩ := step.missing missing
    obtain ⟨before, none⟩ := dated.before missing
    constructor
    · rw [History.registered?_cons_of_none before, unregistered]
    · simpa [History.slots, quiet] using none
  · intro e' present
    rcases step.due_cases present with ⟨task, instant, rfl, missing, same, due⟩ |
      ⟨e, before, unregistered, same, due⟩
    · have interval : e'.task.interval = task.interval := congrArg Spec.interval same
      obtain ⟨unregistered, none⟩ := dated.before missing
      refine ⟨task, instant, History.registered?_cons_of_none unregistered _, interval, ?_⟩
      have slots : History.slots (.enrolled task instant :: turns) = 0 := by
        simpa [History.slots, Turn.consumes] using none
      have now : instant.slotTime task.interval 0 = instant.nanos.toInt := by simp [Instant.slotTime]
      rw [slots, interval, due, Instant.slotTime_succ, now]
      intro fits
      have positive := task.one_le_interval
      exact Instant.toInt_after (by omega) fits
    · have interval : e'.task.interval = e.task.interval := congrArg Spec.interval same
      obtain ⟨task, instant, registered, asked, value⟩ := dated.after e before
      refine ⟨task, instant, History.registered?_append registered [turn], interval.trans asked, ?_⟩
      rw [interval, due]
      cases consumes : turn.consumes with
      | false => simpa [History.slots, consumes] using value
      | true =>
        have slots : History.slots (turn :: turns) = turns.slots + 1 := by
          simp [History.slots, consumes]
        rw [slots, if_pos rfl]
        exact instant.toInt_after_slotTime e.task value

theorem Path.dated {may : Turn → Prop} {turns : History Turn} (path : Path may turns st) :
    Dated turns st.entry := by
  induction path with
  | start => exact ⟨fun _ => ⟨rfl, rfl⟩, by simp [absent]⟩
  | step before allowed step ih => exact ih.step step

end Standing

end Cadence
