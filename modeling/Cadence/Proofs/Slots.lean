import Mathlib.Tactic.Linarith
import Mathlib.Tactic.Ring
import Cadence.Proofs.Histories
import Cadence.Proofs.Spans

/-!
Every slot of a task is accounted for, once.

A slot that was consumed is a run, or the run in progress, or an event that is recorded for it, or
the end of a tick that found the task blocked (`Standing.Path.booked`).  The due time of a task is
therefore the instant it was registered for, and an interval for each of these and one more.
-/

namespace Cadence

/-- Whether an event stands for a slot. -/
def Event.ofSlot : Event → Bool
  | muted | skippedForMode | skippedInProgress => true
  | markedSlow | unlisted _ _ => false

namespace Turn

/-- Whether a slot is consumed. -/
def consumes : Turn → Bool
  | slot | stop => true
  | aside | enrolled _ _ | assigned | failure => false

/-- The registration, if it is one: the task, and the instant it is registered for. -/
def registered? : Turn → Option (Task × Instant)
  | enrolled task instant => some (task, instant)
  | aside | assigned | slot | stop | failure => none

end Turn

namespace History

/-- How many slots were consumed. -/
def slots (turns : History Turn) : Nat := turns.countP Turn.consumes

/-- How many ticks ended because the task was blocked. -/
def stops (turns : History Turn) : Nat := turns.count .stop

/-- The registration: the task, and the instant it was registered for. -/
def registered? (turns : History Turn) : Option (Task × Instant) :=
  (History.all turns).findSome? Turn.registered?

/-- There is one registration only. -/
theorem registered?_append {turns : History Turn} {registration : Task × Instant}
    (registered : turns.registered? = some registration) (later : History Turn) :
    History.registered? (later ++ turns) = some registration := by
  unfold registered? History.all at *
  rw [List.reverse_append, List.findSome?_append, registered, Option.some_or]

theorem registered?_cons_of_none {turns : History Turn} (unregistered : turns.registered? = none)
    (turn : Turn) : History.registered? (turn :: turns) = turn.registered? := by
  unfold registered? History.all at *
  rw [List.reverse_cons, List.findSome?_append, unregistered, Option.none_or]
  cases turn <;> rfl

end History

/-- Tasks that have not run. -/
def Task.Fresh (t : Task) : Prop := t.inProgress = false ∧ t.stats.runs = 0

theorem Task.one_le_interval (t : Task) : 1 ≤ t.interval.count.toInt := by
  have positive := Int64.lt_iff_toInt_lt.mp t.interval_pos
  have zero : (0 : Int64).toInt = 0 := by decide
  omega

namespace Instant

/-- The nanoseconds of the instant a number of intervals after another, in unbounded numbers. -/
def slotTime (instant : Instant) (interval : Millis) (n : Nat) : Int :=
  instant.nanos.toInt + interval.count.toInt * 1000000 * n

variable (instant : Instant) (t : Task) {m n : Nat}

theorem slotTime_succ (interval : Millis) (n : Nat) : instant.slotTime interval (n + 1) =
    instant.slotTime interval n + interval.count.toInt * 1000000 := by
  unfold slotTime
  push_cast
  ring

theorem slotTime_mono (less : m ≤ n) :
    instant.slotTime t.interval m ≤ instant.slotTime t.interval n := by
  have positive := t.one_le_interval
  unfold slotTime
  nlinarith

theorem slotTime_inj : instant.slotTime t.interval m = instant.slotTime t.interval n ↔ m = n := by
  have positive := t.one_le_interval
  unfold slotTime
  constructor
  · intro same
    have scaled := add_left_cancel same
    exact_mod_cast mul_left_cancel₀ (by omega) scaled
  · rintro rfl
    rfl

/-- So few intervals fit into the range of the clock that a word counts them. -/
theorem lt_word_of_slotTime (fits : instant.slotTime t.interval n < 2 ^ 63) : n < 2 ^ 64 := by
  have positive := t.one_le_interval
  have low := instant.nanos.le_toInt
  unfold slotTime at fits
  zify
  nlinarith

/-- The due time after one slot more. -/
theorem toInt_after_slotTime {due : Instant}
    (value : instant.slotTime t.interval n < 2 ^ 63 → due.nanos.toInt = instant.slotTime t.interval n)
    (fits : instant.slotTime t.interval (n + 1) < 2 ^ 63) :
    (due.after t.interval).nanos.toInt = instant.slotTime t.interval (n + 1) := by
  have earlier := instant.slotTime_mono t (Nat.le_succ n)
  have value := value (lt_of_le_of_lt earlier fits)
  have positive := t.one_le_interval
  rw [slotTime_succ, ← value] at fits ⊢
  exact toInt_after (by omega) fits

end Instant

namespace Standing

/-- How many slots of a task are accounted for: by its runs, by the one in progress, and by the
events that were recorded for it, or are about to be. -/
def accounted (st : Standing) (e : Entry) : Nat :=
  e.task.stats.runs.toNat + e.task.inProgress.toNat + (st.counted .muted).toNat +
    (st.counted .skippedForMode).toNat + (st.counted .skippedInProgress).toNat +
    st.owed.countP Event.ofSlot

theorem toNat_succ {n : UInt64} (room : n.toNat + 1 < 2 ^ 64) : (n + 1).toNat = n.toNat + 1 := by
  rw [UInt64.toNat_add]
  exact Nat.mod_eq_of_lt room

/-- An event is accounted for as much after it was recorded as before. -/
theorem accounted_recorded {st : Standing} {e : Entry} {event : Event} {rest : List Event}
    (next : st.owed = event :: rest) (small : st.accounted e < 2 ^ 64) :
    accounted { st with
      counted := Function.update st.counted event (st.counted event + 1)
      owed := rest } e = st.accounted e := by
  have room : event.ofSlot = true → (st.counted event).toNat + 1 < 2 ^ 64 := by
    intro ofSlot
    simp only [accounted, next, List.countP_cons, ofSlot, if_true] at small
    cases event with
    | markedSlow => cases ofSlot
    | unlisted code unnamed => cases ofSlot
    | _ => omega
  cases event with
  | markedSlow => simp [accounted, next, Event.ofSlot]
  | unlisted code unnamed => simp [accounted, next, Event.ofSlot]
  | _ =>
    simp only [accounted, next, List.countP_cons, Event.ofSlot, if_true, Function.update_self,
      ne_eq, reduceCtorEq, not_false_eq_true, Function.update_of_ne, toNat_succ (room rfl)]
    omega

/-- The slots consumed are those accounted for, and the due time is that many intervals and one more
after the instant of registration; as long as this is within the range of the clock. -/
def Balanced (turns : History Turn) (instant : Instant) (st : Standing) (e : Entry) : Prop :=
  instant.slotTime e.task.interval (turns.slots + 1) < 2 ^ 63 →
    turns.slots = st.accounted e + turns.stops ∧
      e.due.nanos.toInt = instant.slotTime e.task.interval (turns.slots + 1)

namespace Balanced

variable {turns : History Turn} {instant : Instant} {st st' : Standing} {e e' : Entry} {turn : Turn}

/-- A turn that consumes no slot. -/
theorem keep (balanced : Balanced turns instant st e) (quiet : turn.consumes = false)
    (interval : e'.task.interval = e.task.interval) (due : e'.due = e.due)
    (accounted : st.accounted e < 2 ^ 64 → st'.accounted e' = st.accounted e) :
    Balanced (turn :: turns) instant st' e' := by
  have slots : History.slots (turn :: turns) = turns.slots := by simp [History.slots, quiet]
  have stops : History.stops (turn :: turns) = turns.stops := by
    cases turn <;> simp_all [History.stops, Turn.consumes]
  unfold Balanced
  rw [slots, stops, interval, due]
  intro fits
  obtain ⟨once, value⟩ := balanced fits
  have small := instant.lt_word_of_slotTime e.task fits
  exact ⟨by rw [accounted (by omega), once], value⟩

/-- A turn that consumes a slot. -/
theorem consume (balanced : Balanced turns instant st e) (consumes : turn.consumes = true)
    (interval : e'.task.interval = e.task.interval) (due : e'.due = e.due.after e.task.interval)
    (accounted : st'.accounted e' + (if turn = .stop then 1 else 0) = st.accounted e + 1) :
    Balanced (turn :: turns) instant st' e' := by
  have slots : History.slots (turn :: turns) = turns.slots + 1 := by
    simp [History.slots, consumes]
  have stops : History.stops (turn :: turns) = turns.stops + if turn = .stop then 1 else 0 := by
    simp [History.stops, List.count_cons]
  unfold Balanced
  rw [slots, stops, interval, due]
  intro fits
  have earlier := instant.slotTime_mono e.task (Nat.le_succ (turns.slots + 1))
  have once := (balanced (lt_of_le_of_lt earlier fits)).1
  exact ⟨by omega, instant.toInt_after_slotTime e.task (fun fits => (balanced fits).2) fits⟩

end Balanced

/-- A task that was registered is balanced; nothing is known of one that was not. -/
structure Booked (turns : History Turn) (st : Standing) : Prop where
  /-- Before its registration no slot is consumed. -/
  before : st.entry = none → turns.registered? = none ∧ turns.slots = 0 ∧ turns.stops = 0
  /-- Afterwards it has the interval it was registered with, and is balanced. -/
  after : ∀ e, st.entry = some e → ∃ task instant, turns.registered? = some (task, instant) ∧
    e.task.interval = task.interval ∧ Balanced turns instant st e

namespace Booked

variable {turns : History Turn} {st st' : Standing} {e e' : Entry} {turn : Turn}

/-- A turn of a registered task leads to another balanced standing if it does so for every instant
of registration. -/
theorem next (booked : Booked turns st) (present : st.entry = some e)
    (present' : st'.entry = some e') (interval : e'.task.interval = e.task.interval)
    (balanced : ∀ instant, Balanced turns instant st e → Balanced (turn :: turns) instant st' e') :
    Booked (turn :: turns) st' := by
  obtain ⟨task, instant, registered, same, before⟩ := booked.after e present
  refine ⟨by simp [present'], ?_⟩
  intro other found
  rw [present', Option.some.injEq] at found
  subst found
  exact ⟨task, instant, History.registered?_append registered [turn], interval.trans same,
    balanced instant before⟩

/-- A turn that means nothing to a task that is not registered. -/
theorem absent (booked : Booked turns st) (missing : st.entry = none) (missing' : st'.entry = none)
    (quiet : turn.consumes = false) (unregistered : turn.registered? = none) :
    Booked (turn :: turns) st' := by
  obtain ⟨before, slots, stops⟩ := booked.before missing
  refine ⟨?_, by simp [missing']⟩
  intro _
  refine ⟨?_, ?_, ?_⟩
  · rw [History.registered?_cons_of_none before, unregistered]
  · simpa [History.slots, quiet] using slots
  · have other : turn ≠ .stop := by
      rintro rfl
      cases quiet
    simpa [History.stops, other] using stops

/-- A due time is not later than any that follows it. -/
theorem due_le {later : History Turn} (booked : Booked turns st)
    (booked' : Booked (later ++ turns) st') (present : st.entry = some e)
    (present' : st'.entry = some e')
    (fits : ∀ task instant, History.registered? (later ++ turns) = some (task, instant) →
      instant.slotTime e'.task.interval (History.slots (later ++ turns) + 1) < 2 ^ 63) :
    e.due.nanos.toInt ≤ e'.due.nanos.toInt := by
  obtain ⟨task, instant, registered, interval, balanced⟩ := booked.after e present
  obtain ⟨task', instant', registered', interval', balanced'⟩ := booked'.after e' present'
  have fits := fits task' instant' registered'
  have same := History.registered?_append registered later
  rw [registered'] at same
  cases same
  rw [← interval'] at interval
  have slots : turns.slots + 1 ≤ History.slots (later ++ turns) + 1 := by
    rw [History.slots, History.slots, List.countP_append]
    omega
  have less := instant.slotTime_mono e'.task slots
  rw [(balanced (by rw [interval]; omega)).2, (balanced' fits).2, interval]
  exact less

end Booked

/-- A registered task is balanced whatever befalls it. -/
theorem Path.booked {name : String} {turns : History Turn} {st : Standing}
    (path : Path (Turn.Within Task.Fresh Action.Quiet name) turns st) : Booked turns st := by
  induction path with
  | start => exact ⟨fun _ => ⟨rfl, rfl, rfl⟩, by simp [absent]⟩
  | @step turns st st' turn before allowed step booked =>
    cases step with
    | still =>
      cases present : st.entry with
      | none => exact booked.absent present present rfl rfl
      | some e => exact booked.next present present rfl fun _ balanced =>
          balanced.keep rfl rfl rfl fun _ => rfl
    | enrolled task contention instant missing =>
      obtain ⟨unregistered, slots, stops⟩ := booked.before missing
      obtain ⟨nothing, zero⟩ := before.nothing missing
      obtain ⟨free, unrun⟩ := allowed
      constructor
      · simp
      rintro e ⟨⟩
      refine ⟨task, instant, History.registered?_cons_of_none unregistered _, rfl, ?_⟩
      have slots : History.slots (.enrolled task instant :: turns) = 0 := by
        simpa [History.slots, Turn.consumes] using slots
      have stops : History.stops (.enrolled task instant :: turns) = 0 := by
        simpa [History.stops] using stops
      have one := instant.slotTime_succ task.interval 0
      have now : instant.slotTime task.interval 0 = instant.nanos.toInt := by
        simp [Instant.slotTime]
      rw [Balanced, slots, stops]
      intro fits
      refine ⟨by simp [accounted, free, unrun, nothing, zero], ?_⟩
      have positive := task.one_le_interval
      rw [one, now] at fits ⊢
      exact Instant.toInt_after (by omega) fits
    | assigned health =>
      cases present : st.entry with
      | none => exact booked.absent present rfl rfl rfl
      | some e => exact booked.next present rfl rfl fun _ balanced =>
          balanced.keep rfl rfl rfl fun _ => rfl
    | touched present contention permits visits =>
      exact booked.next present rfl rfl fun _ balanced => balanced.keep rfl rfl rfl fun _ => rfl
    | muted present clear muted =>
      refine booked.next present rfl (by simp) fun _ balanced =>
        balanced.consume rfl (by simp) (by simp) ?_
      simp [accounted, clear, Event.ofSlot]
    | refused present clear audible =>
      refine booked.next present rfl (by simp) fun _ balanced =>
        balanced.consume rfl (by simp) (by simp) ?_
      simp [accounted, clear, Event.ofSlot]
    | started present now audible free =>
      refine booked.next present rfl (by simp [Task.mark]) fun _ balanced =>
        balanced.consume rfl (by simp [Task.mark]) (by simp) ?_
      simp only [accounted, Entry.task_startRun, Task.mark, free, Bool.toNat_true,
        Bool.toNat_false, reduceCtorEq, if_false]
      omega
    | demoted present clear next report audible busy overrun =>
      refine booked.next present rfl (by simp) fun _ balanced =>
        balanced.consume rfl (by simp) (by simp) ?_
      cases report <;> simp [accounted, clear, Event.ofSlot]
    | blocked present clear busy critical =>
      refine booked.next present rfl (by simp) fun _ balanced =>
        balanced.consume rfl (by simp) (by simp) ?_
      simp [accounted, clear]
    | @recorded event rest next =>
      cases present : st.entry with
      | none => simp [(before.nothing present).1] at next
      | some e =>
        exact booked.next present rfl rfl fun _ balanced =>
          balanced.keep rfl rfl rfl (accounted_recorded next)
    | @finished e present busy job began now =>
      refine booked.next present rfl rfl fun _ balanced => balanced.keep rfl rfl rfl ?_
      intro small
      have room : e.task.stats.runs.toNat + 1 < 2 ^ 64 := by
        simp only [accounted, busy, Bool.toNat_true] at small
        omega
      simp [accounted, Task.complete, Stats.observe, toNat_succ room, busy]
    | failed =>
      obtain ⟨what, quiet⟩ := allowed
      exact absurd rfl (quiet what)

end Standing

namespace Moment

/-- The account of the slots of a task that was registered for an instant. -/
structure Accounts (h : History Stage) (m : Moment) (instant : Instant) (e : Entry) : Prop where
  /-- Every slot consumed is a run, the run in progress, an event that was counted, the end of a
  tick, or an event that is about to be recorded. -/
  once : (h.turns e.task.name).slots = e.task.stats.runs.toNat + e.task.inProgress.toNat +
    (m.dispatcher.sink.tally.count ⟨.muted, e.task.name⟩).toNat +
    (m.dispatcher.sink.tally.count ⟨.skippedForMode, e.task.name⟩).toNat +
    (m.dispatcher.sink.tally.count ⟨.skippedInProgress, e.task.name⟩).toNat +
    (h.turns e.task.name).stops + (m.standing e.task.name).owed.countP Event.ofSlot
  /-- The due time is an interval after that of the last slot consumed. -/
  next : e.due.nanos.toInt =
    instant.slotTime e.task.interval ((h.turns e.task.name).slots + 1)
  /-- Once its events are recorded, the due time is told by what the slots were consumed for. -/
  due : m.Told e.task.name → e.due.nanos.toInt = instant.slotTime e.task.interval
    (1 + e.task.stats.runs.toNat + e.task.inProgress.toNat +
      (m.dispatcher.sink.tally.count ⟨.muted, e.task.name⟩).toNat +
      (m.dispatcher.sink.tally.count ⟨.skippedForMode, e.task.name⟩).toNat +
      (m.dispatcher.sink.tally.count ⟨.skippedInProgress, e.task.name⟩).toNat +
      (h.turns e.task.name).stops)
  /-- The due time never was later. -/
  later : ∀ stage ∈ h, ∀ before, stage.before.dispatcher.scheduler.entry? e.task.name = some before →
    before.due.nanos.toInt ≤ e.due.nanos.toInt
  /-- It is a whole number of intervals after the instant. -/
  congruent : e.task.interval.count.toInt * 1000000 ∣ e.due.nanos.toInt - instant.nanos.toInt

variable {workers : Nat} {scheduler : Scheduler} {h : History Stage} {m : Moment}

/-- In every run without failing events, the slots of a task that had not run before are accounted
for, as long as its due time is within the range of the clock. -/
theorem slots_accounted (created : Scheduler.create workers = .ok scheduler)
    (passed : Passes (Move.Within Task.Fresh Action.Quiet) (initial scheduler) h m) {e : Entry}
    (member : e ∈ m.dispatcher.scheduler.entries) :
    ∃ task instant, (h.turns e.task.name).registered? = some (task, instant) ∧
      e.task.interval = task.interval ∧
      (instant.slotTime e.task.interval ((h.turns e.task.name).slots + 1) < 2 ^ 63 →
        Accounts h m instant e) := by
  have found := Scheduler.entry?_of_mem (passed.reaches.sound created).scheduler.distinct member
  have booked := (passed.path created e.task.name).booked
  obtain ⟨task, instant, registered, interval, balanced⟩ := booked.after e found
  refine ⟨task, instant, registered, interval, ?_⟩
  intro fits
  obtain ⟨once, value⟩ := balanced fits
  have accounted : (m.standing e.task.name).accounted e = e.task.stats.runs.toNat +
      e.task.inProgress.toNat + (m.dispatcher.sink.tally.count ⟨.muted, e.task.name⟩).toNat +
      (m.dispatcher.sink.tally.count ⟨.skippedForMode, e.task.name⟩).toNat +
      (m.dispatcher.sink.tally.count ⟨.skippedInProgress, e.task.name⟩).toNat +
      (m.standing e.task.name).owed.countP Event.ofSlot := rfl
  refine ⟨by omega, value, ?_, ?_, ?_⟩
  · intro told
    rw [told.owed, List.countP_nil] at accounted
    rw [value]
    congr 1
    omega
  · intro stage within before present
    obtain ⟨later, earlier, rfl, passed'⟩ := passed.split within
    have booked' := (passed'.path created e.task.name).booked
    have turns : (History.turns (later ++ earlier) e.task.name) =
        History.turns later e.task.name ++ History.turns earlier e.task.name := List.map_append
    rw [turns] at booked registered fits
    refine booked'.due_le booked present found ?_
    intro task' instant' same
    rw [registered] at same
    cases same
    exact fits
  · rw [value, Instant.slotTime, add_sub_cancel_left]
    exact Int.dvd_mul_right _ _

/-- In the sample run two slots were consumed: by the run in progress, and by the second slot that was
skipped. -/
theorem slots_accounted_sample : ∃ e ∈ Sample.run.2.dispatcher.scheduler.entries,
    (Sample.run.1.turns e.task.name).slots = 2 ∧ Accounts Sample.run.1 Sample.run.2 .epoch e := by
  have passed : Passes (Move.Within Task.Fresh Action.Quiet) (initial Sample.scheduler) Sample.run.1
      Sample.run.2 :=
    Sample.passes (by simp [Sample.moves, Move.Within, Task.Fresh, Action.Quiet, Sample.gated])
  obtain ⟨e, member, slots, registered, fits⟩ : ∃ e ∈ Sample.run.2.dispatcher.scheduler.entries,
      (Sample.run.1.turns e.task.name).slots = 2 ∧
        (Sample.run.1.turns e.task.name).registered? = some (Sample.gated, .epoch) ∧
        Instant.slotTime .epoch e.task.interval ((Sample.run.1.turns e.task.name).slots + 1) <
          2 ^ 63 := by decide +kernel
  obtain ⟨task, instant, same, _, accounts⟩ := slots_accounted Sample.created passed member
  rw [registered] at same
  cases same
  exact ⟨e, member, slots, accounts fits⟩

end Moment

end Cadence
