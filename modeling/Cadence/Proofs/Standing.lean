import Mathlib.Logic.Function.Basic
import Cadence.Dispatcher.Interleaving
import Cadence.Proofs.Evaluation
import Cadence.Proofs.Tally

/-!
The view of one task on a scheduler at work.

A `Standing` is all that a moment holds about the task of one name: its entry, its unfinished jobs,
the counts of its events, and the events that are about to be recorded for it.  `Standing.Step`
lists what can befall it; every step of the whole system is, for every name, one of these
(`Moment.standing_step`).  What holds of the small steps of one task therefore holds of all
interleavings of the control thread, the workers and whoever uses the controls.
-/

namespace Cadence

/-- What a moment holds about the task of one name. -/
structure Standing where
  /-- The registered task and its due time. -/
  entry : Option Entry
  /-- How many of its jobs are unfinished. -/
  jobs : Nat
  /-- How often its events were counted. -/
  counted : Event → UInt64
  /-- The events that the control thread is about to record for it. -/
  owed : List Event

/-- What a step means to one task. -/
inductive Turn
  /-- No slot of it is consumed. -/
  | aside
  /-- It is registered. -/
  | enrolled (task : Task) (instant : Instant)
  /-- Its health is set from outside. -/
  | assigned
  /-- A slot of it is consumed. -/
  | slot
  /-- A slot of it is consumed, and the tick ends because it is blocked. -/
  | stop
  /-- The tick fails. -/
  | failure
  deriving DecidableEq, Repr

/-- Whether a task is registered that is in progress already. -/
def Turn.marks : Turn → Bool
  | enrolled task _ => task.inProgress
  | aside | assigned | slot | stop | failure => false

namespace Standing

/-- Nothing is known of a task. -/
def absent : Standing := { entry := none, jobs := 0, counted := fun _ => 0, owed := [] }

/-- Whether the task is in progress. -/
def busy (st : Standing) : Bool := st.entry.any (·.task.inProgress)

/-- What can befall a task. -/
inductive Step (st : Standing) : Turn → Standing → Prop
  | still : st.Step .aside st
  | enrolled (task : Task) (contention : Bool) (instant : Instant) (absent : st.entry = none) :
    st.Step (.enrolled task instant)
      { st with entry := some ⟨{ task with contention }, instant.after task.interval⟩ }
  | assigned (health : Health) : st.Step .assigned
      { st with entry := st.entry.map fun e => { e with task := { e.task with health } } }
  /-- Its contention flag, its permits or its visits change. -/
  | touched {e : Entry} (present : st.entry = some e) (contention : Bool) (permits : Nat)
    (visits : History Visit) : st.Step .aside
      { st with entry := some { e with task := { e.task with contention, permits, visits } } }
  /-- It is muted. -/
  | muted {e : Entry} (present : st.entry = some e) (clear : st.owed = [])
    (muted : e.task.health = .muted) : st.Step .slot
      { st with entry := some e.consumeSlot, owed := [.muted] }
  /-- The mode does not admit it. -/
  | refused {e : Entry} (present : st.entry = some e) (clear : st.owed = [])
    (audible : e.task.health ≠ .muted) : st.Step .slot
      { st with entry := some e.consumeSlot, owed := [.skippedForMode] }
  /-- It is handed to the pool. -/
  | started {e : Entry} (present : st.entry = some e) (now : Instant)
    (audible : e.task.health ≠ .muted) (free : e.task.inProgress = false) : st.Step .slot
      { st with entry := some (e.startRun now), jobs := st.jobs + 1 }
  /-- It is still in progress, and demoted. -/
  | demoted {e : Entry} (present : st.entry = some e) (clear : st.owed = []) (next : Health)
    (report : Bool) (audible : e.task.health ≠ .muted) (busy : e.task.inProgress = true)
    (overrun : e.task.overrun = .demote next report) : st.Step .slot
      { st with
        entry := some (e.demote next)
        owed := (if report then [.markedSlow] else []) ++ [.skippedInProgress] }
  /-- It is still in progress, and critical. -/
  | blocked {e : Entry} (present : st.entry = some e) (clear : st.owed = [])
    (busy : e.task.inProgress = true) (critical : e.task.has .critical = true) : st.Step .stop
      { st with entry := some e.consumeSlot }
  /-- The next of its events is recorded. -/
  | recorded {event : Event} {rest : List Event} (next : st.owed = event :: rest) : st.Step .aside
      { st with
        counted := Function.update st.counted event (st.counted event + 1)
        owed := rest }
  /-- One of its jobs is finished. -/
  | finished {e : Entry} (present : st.entry = some e) (busy : e.task.inProgress = true)
    (job : 0 < st.jobs) (began now : Instant) : st.Step .aside
      { st with
        entry := some { e with task := e.task.complete began now }
        jobs := st.jobs - 1 }
  /-- The tick fails, and leaves undone what it was about to do. -/
  | failed : st.Step .failure { st with owed := [] }

theorem Step.of_eq {st st' : Standing} (same : st' = st) : st.Step .aside st' := same ▸ .still

/-- A change of the registered task that touches nothing but its contention flag, permits and
visits. -/
theorem Step.touch (st : Standing) {f : Entry → Entry}
    (light : ∀ e, ∃ contention permits visits,
      f e = { e with task := { e.task with contention, permits, visits } }) :
    st.Step .aside { st with entry := st.entry.map f } := by
  obtain ⟨entry, jobs, counted, owed⟩ := st
  cases entry with
  | none => exact .still
  | some e =>
    obtain ⟨contention, permits, visits, same⟩ := light e
    rw [Option.map_some, same]
    exact .touched rfl contention permits visits

/-- A job comes with the mark of its task, and goes with it. -/
theorem Step.jobs_add {st st' : Standing} {turn : Turn} (step : st.Step turn st') :
    st'.jobs + st.busy.toNat + turn.marks.toNat = st.jobs + st'.busy.toNat := by
  cases step with
  | still => rfl
  | enrolled task contention instant absent => simp [busy, absent, Turn.marks]
  | assigned health => cases entry : st.entry <;> simp [busy, entry, Turn.marks]
  | touched present contention permits visits => simp [busy, present, Turn.marks]
  | muted present clear muted => simp [busy, present, Turn.marks]
  | refused present clear audible => simp [busy, present, Turn.marks]
  | started present now audible free => simp [busy, present, free, Turn.marks, Task.mark]
  | demoted present clear next report audible inProgress overrun =>
    simp [busy, present, Turn.marks]
  | blocked present clear inProgress critical => simp [busy, present, Turn.marks]
  | recorded next => rfl
  | finished present inProgress job began now =>
    simp only [busy, present, inProgress, Option.any_some, Task.complete, Turn.marks,
      Bool.toNat_true, Bool.toNat_false]
    omega
  | failed => rfl

/-- A task has at most one unfinished job while it is in progress, and none otherwise. -/
def Single (st : Standing) : Prop := st.jobs ≤ st.busy.toNat

theorem Step.single {st st' : Standing} {turn : Turn} (step : st.Step turn st')
    (single : st.Single) : st'.Single := by
  have moved := step.jobs_add
  unfold Single at *
  omega

end Standing

end Cadence
