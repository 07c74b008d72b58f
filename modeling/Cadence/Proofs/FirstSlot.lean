import Cadence.Proofs.CatchUp

/-!
The first slot of a task.

A registration makes the first slot of a task due an interval after the instant that it is for, up to the
size of a word.  So the due time is that instant only if the clock can show it, and then no tick before it
evaluates the task (`Passes.awaits`).  No check of the interval sees to that: any positive one can be asked
for, and the due time of a very long one lies in the past.
-/

namespace Cadence

/-- An interval after an instant. -/
theorem Instant.slotTime_one (instant : Instant) (interval : Millis) :
    instant.slotTime interval 1 = instant.nanos.toInt + interval.count.toInt * 1000000 := by
  simp [slotTime]

namespace Moment

variable {allowed : Move → Prop} {workers : Nat} {scheduler : Scheduler} {h : History Stage}
  {m m' : Moment} {e : Entry}

/-- The first slot of a task is still to come. -/
structure Awaits (e : Entry) (h : History Stage) (m : Moment) : Prop where
  /-- A tick that is under way comes before it. -/
  early : m.chores ≠ [] → m.now < e.due
  /-- No slot was consumed. -/
  slots : (h.turns e.task.name).slots = 0
  entry : ∃ e', m.dispatcher.scheduler.entry? e.task.name = some e' ∧ e'.task.spec = e.task.spec ∧
    e'.due = e.due

/-- As long as a task waits for its first slot, none is consumed. -/
theorem Awaits.quiet (awaits : Awaits e h m) (move : Move) :
    (m.turn e.task.name move).consumes = false := by
  cases consumes : (m.turn e.task.name move).consumes with
  | false => rfl
  | true =>
    obtain ⟨_, rest, found, front, present, due⟩ := slot_of_consumes consumes
    obtain ⟨e', present', _, same⟩ := awaits.entry
    rw [present', Option.some.injEq] at present
    subst present
    rw [same] at due
    exact absurd (awaits.early (by simp [front])) due

theorem Awaits.step (awaits : Awaits e h m) (sound : m.Sound) {move : Move}
    (made : m.step? move = some m') (early : ∀ now, move.tick? = some now → now < e.due) :
    Awaits e (⟨m, move⟩ :: h) m' := by
  have quiet := awaits.quiet move
  obtain ⟨e', present, same, due⟩ := awaits.entry
  constructor
  · intro within
    rcases now_step made within with begun | ⟨_, kept, within⟩
    · exact early _ begun
    · exact kept ▸ awaits.early within
  · rw [slots_cons, quiet, awaits.slots]
    rfl
  · have step := standing_step sound made e.task.name
    have before : (m.standing e.task.name).entry = some e' := present
    cases found : m'.dispatcher.scheduler.entry? e.task.name with
    | none =>
      have missing := (step.missing found).1
      rw [before] at missing
      cases missing
    | some e'' =>
      rcases step.due_cases found with ⟨_, _, _, missing, _⟩ | ⟨e₁, before₁, _, same₁, due₁⟩
      · rw [before] at missing
        cases missing
      · rw [before, Option.some.injEq] at before₁
        subst before₁
        rw [quiet] at due₁
        exact ⟨e'', rfl, same₁.trans same, due₁.trans due⟩

/-- Ticks before the first slot of a task leave it alone. -/
theorem Passes.awaits (sound : m.Sound) (idle : m.idle = true)
    (found : m.dispatcher.scheduler.entry? e.task.name = some e) (passed : Passes allowed m h m')
    (early : ∀ stage ∈ h, ∀ now, stage.move.tick? = some now → now < e.due) : Awaits e h m' := by
  induction passed with
  | refl =>
    exact ⟨fun within => absurd (List.isEmpty_iff.mp idle) within, rfl, e, found, rfl, rfl⟩
  | step before may made ih =>
    have awaits := ih fun stage old => early stage (List.mem_cons_of_mem _ old)
    exact awaits.step (sound.of_reaches before.reaches) made (early _ List.mem_cons_self)

/-- A task was registered for an instant: its first slot comes due an interval later, up to the size of a
word. -/
structure Debut (instant : Instant) (task : Task) (m : Moment) (e : Entry) : Prop where
  entry : m.dispatcher.scheduler.entry? task.name = some e
  spec : e.task.spec = task.spec
  due : e.due.nanos.toInt = (instant.slotTime task.interval 1).bmod (2 ^ 64)
  /-- The due time is exact if the clock can show it. -/
  exact_iff : e.due.nanos.toInt = instant.slotTime task.interval 1 ↔
    instant.slotTime task.interval 1 < 2 ^ 63

/-- A registration that is not refused. -/
theorem debut (idle : m.idle = true) {task : Task}
    (unrefused : m.dispatcher.scheduler.refusal? task.name = none) (instant : Instant) :
    ∃ m₁ e, m.step? (.register (some task) instant) = some m₁ ∧ m₁.idle = true ∧
      Debut instant task m₁ e := by
  obtain ⟨_, unregistered⟩ := Scheduler.refusal?_eq_none_iff.mp unrefused
  have entry := Scheduler.entry?_enroll_self m.dispatcher.scheduler unregistered instant
  have positive := task.one_le_interval
  have low := instant.nanos.le_toInt
  have due := instant.toInt_after_eq_bmod task.interval
  rw [← instant.slotTime_one] at due
  refine ⟨m.withDispatcher { m.dispatcher with
    scheduler := m.dispatcher.scheduler.enroll task instant }, _, ?_, idle, entry, rfl, due, ?_⟩
  · exact step?_register idle unrefused instant
  · refine toInt_eq_iff_of_bmod due ?_
    rw [instant.slotTime_one]
    omega

/-- Whatever was done to a scheduler, the first slot of a task that is registered comes due an interval after
the instant that the registration is for, if and only if the clock can show that.  Then this is later, and
ticks up to the instant leave the task alone.  The intervals for which it is so after every instant of the
first half of the clock's range are those of up to some 146 years. -/
theorem first_slot_due (created : Scheduler.create workers = .ok scheduler)
    (passed : Passes (fun _ => True) (initial scheduler) h m) (idle : m.idle = true) {task : Task}
    (unrefused : m.dispatcher.scheduler.refusal? task.name = none) (instant : Instant) :
    ∃ m₁ e, m.step? (.register (some task) instant) = some m₁ ∧ Debut instant task m₁ e ∧
      (instant.slotTime task.interval 1 < 2 ^ 63 → instant < e.due ∧
        ∀ h' m', Passes (fun _ => True) m₁ h' m' →
          (∀ stage ∈ h', ∀ now, stage.move.tick? = some now → now ≤ instant) → Awaits e h' m') ∧
      (task.interval.count.toInt ≤ 4611686018427 ↔ ∀ other : Instant, 0 ≤ other.nanos.toInt →
        other.nanos.toInt < 2 ^ 62 → other.slotTime task.interval 1 < 2 ^ 63) := by
  obtain ⟨m₁, e, made, idle₁, debut⟩ := debut idle unrefused instant
  have positive := task.one_le_interval
  refine ⟨m₁, e, made, debut, ?_, ?_⟩
  · intro fits
    have value := debut.exact_iff.mpr fits
    rw [instant.slotTime_one] at value
    have later : instant < e.due := Entry.lt_iff.mpr (by omega)
    refine ⟨later, fun h' m' passed' past => ?_⟩
    have sound := sound_step (passed.reaches.sound created) made
    have name : e.task.name = task.name := congrArg Spec.name debut.spec
    have found : m₁.dispatcher.scheduler.entry? e.task.name = some e := name ▸ debut.entry
    refine passed'.awaits sound idle₁ found fun stage member now begun => ?_
    exact Int64.lt_of_le_of_lt (past stage member now begun) later
  · simp only [Instant.slotTime_one]
    constructor
    · intro tame other _ half
      omega
    · intro fits
      have last : (⟨4611686018427387903⟩ : Instant).nanos.toInt = 4611686018427387903 := by decide
      have latest := fits ⟨4611686018427387903⟩ (by omega) (by omega)
      omega

/-! ## Samples

One worker and one task, which is registered for the epoch. -/

namespace Aeon

/-- A task of an interval, as it is asked for. -/
def asked (interval : Millis) : Spec := { name := "a", interval, body := some {} }

/-- A task of the longest interval that the clock shows, some 292 years. -/
def patient : Task where
  name := "a"
  interval := ⟨9223372036854⟩
  capabilities := .none
  body := {}
  name_ne := by decide
  interval_pos := by decide

/-- A task of an interval that is a millisecond longer. -/
def hasty : Task where
  name := "a"
  interval := ⟨9223372036855⟩
  capabilities := .none
  body := {}
  name_ne := by decide
  interval_pos := by decide

/-- The hasty task is registered, and then a tick is made at the epoch. -/
def run : History Stage × Moment :=
  lead (initial Sample.scheduler)
    [.register (some hasty) .epoch, .act (.setEnabled true), .tick .epoch, .chore]

end Aeon

/-- Ticks up to the epoch leave the patient task alone. -/
theorem first_slot_due_sample : Task.ofSpec (Aeon.asked ⟨9223372036854⟩) = .ok Aeon.patient ∧
    ∃ m₁ e, (initial Sample.scheduler).step? (.register (some Aeon.patient) .epoch) = some m₁ ∧
      Debut .epoch Aeon.patient m₁ e ∧ e.due.nanos.toInt = 9223372036854000000 ∧
      ∀ h' m', Passes (fun _ => True) m₁ h' m' →
        (∀ stage ∈ h', ∀ now, stage.move.tick? = some now → now ≤ .epoch) → Awaits e h' m' := by
  have start : Passes (fun _ => True) (initial Sample.scheduler) [] (initial Sample.scheduler) := .refl
  have unrefused : Sample.scheduler.refusal? Aeon.patient.name = none := rfl
  have promised : Instant.epoch.slotTime Aeon.patient.interval 1 = 9223372036854000000 := by
    decide +kernel
  obtain ⟨m₁, e, made, debut, fits, _⟩ := first_slot_due Sample.created start rfl unrefused .epoch
  have within : Instant.epoch.slotTime Aeon.patient.interval 1 < 2 ^ 63 := by
    rw [promised]
    decide
  exact ⟨rfl, m₁, e, made, debut, (debut.exact_iff.mpr within).trans promised, (fits within).2⟩

/-- The hasty task is asked for as well, but its first slot comes due before the epoch, and the tick starts
it. -/
theorem due_at_once : Task.ofSpec (Aeon.asked ⟨9223372036855⟩) = .ok Aeon.hasty ∧
    Instant.epoch.slotTime Aeon.hasty.interval 1 = 9223372036855000000 ∧
    ((initial Sample.scheduler).step? (.register (some Aeon.hasty) .epoch)).bind
      (·.dispatcher.scheduler.due? "a") = some ⟨-9223372036854551616⟩ ∧
    (Aeon.run.1.turns "a").slots = 1 ∧ Aeon.run.2.now = .epoch ∧
    (Aeon.run.2.dispatcher.scheduler.task? "a").any (·.inProgress) = true := by
  refine ⟨rfl, ?_⟩
  decide +kernel

end Moment

end Cadence
