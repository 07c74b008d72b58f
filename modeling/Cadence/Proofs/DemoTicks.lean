import Cadence.Proofs.DemoSetup
import Cadence.Proofs.Overload

/-!
The demonstration, tick by tick.

The collector that sleeps is started in the first tick, if it is added and the mode admits it.  It is
muted by the time it wakes, between two ticks (`Demo.Beat.rouse`), and then nothing waits any more.  The
critical collector is due for the first time while the other one still sleeps, so that no tick finds it in
progress even if there is one worker only (`Demo.Beat.free_guard`).  The other collectors keep up, if there is
always a worker to spare.  A sleep keeps the state after a number of ticks (`Demo.Beat.sleep`), a tick
leads to the next one (`Demo.Beat.tick`), and the first one is that of the start (`Demo.Furnished.beat`).
-/

namespace Cadence.Demo

open Moment (Lull)

variable {o : Options} {s : Dispatcher} {n : Nat} {now instant : Instant}

/-- The time from one tick to the next: the shortest interval of a collector. -/
def gap (overload : Bool) : Millis := if overload then ⟨10⟩ else ⟨50⟩

/-- Whether the collector that sleeps is ever started. -/
def Overloads (o : Options) : Prop := o.overload = true ∧ o.mode.admits false = true

instance : Decidable (Overloads o) := inferInstanceAs (Decidable (_ ∧ _))

/-- The collector that sleeps. -/
def scan : Spec where
  name := sleeper
  interval := ⟨10⟩
  body := some { wait := .sleep ⟨1000⟩, ownTime := reading }

/-- When the collector that sleeps is started. -/
def began : Instant := ⟨10000000⟩

/-- When it wakes. -/
def ends : Instant := ⟨1010000000⟩

/-- The state of the demonstration after a number of ticks. -/
structure Beat (o : Options) (n : Nat) (s : Dispatcher) : Prop where
  lull : Lull sleeper guard o.workers s
  enabled : s.scheduler.enabled = true
  mode : s.scheduler.mode = o.mode
  /-- Within the first second the guard has not been due. -/
  guarded : n * (gap o.overload).toNat < 1000 → s.scheduler.busy guard = false ∧
    ∃ e, s.scheduler.entry? guard = some e ∧ e.due.nanos.toInt = 1000000000
  /-- The collector that sleeps is demoted while it does, or never started. -/
  scan : if Overloads o then
      ∃ e, e.task.spec = scan ∧ (s.view sleeper).Outrun .epoch began ends n e
    else (s.view sleeper).Barred
  /-- The other collectors keep up, if there is always a worker to spare. -/
  tasks : (Overloads o → 2 ≤ o.workers) → ∀ spec ∈ collectors false,
    ∃ e, e.task.spec = spec ∧ e.task.Healthy ∧
      (s.view spec.name).Paced .epoch (e.slotsAfter (gap o.overload) n) e

theorem gap_forward (overload : Bool) : 0 ≤ (gap overload).count.toInt := by
  cases overload <;> decide

theorem gap_cases (overload : Bool) : (gap overload).toNat = 10 ∨ (gap overload).toNat = 50 := by
  cases overload <;> decide

theorem slotTime_epoch {d : Millis} (forward : 0 ≤ d.count.toInt) (n : Nat) :
    Instant.epoch.slotTime d n = n * d.toNat * 1000000 := by
  have zero : Instant.epoch.nanos.toInt = 0 := by decide
  rw [Instant.slotTime, Millis.toInt_count forward, zero]
  ring

/-- Every collector comes due at the end of a second, and never twice between two ticks. -/
theorem interval_collectors (overload : Bool) : ∀ spec ∈ collectors false,
    spec.interval.toNat ∣ 1000 ∧ (gap overload).toNat ≤ spec.interval.toNat := by
  cases overload <;> decide +kernel

/-- The slot after the last one that comes before the end of a second comes no later than the end. -/
theorem slotsAfter_le {e : Entry} {gap : Millis} {seconds : Nat} (whole : e.task.interval.toNat ∣ 1000)
    (sooner : n * gap.toNat < 1000 * seconds) :
    (e.slotsAfter gap n + 1) * e.task.interval.toNat ≤ 1000 * seconds := by
  obtain ⟨k, total⟩ : e.task.interval.toNat ∣ 1000 * seconds := whole.mul_right seconds
  have last : e.slotsAfter gap n * e.task.interval.toNat < 1000 * seconds :=
    lt_of_le_of_lt (Nat.div_mul_le_self _ _) sooner
  rw [total, Nat.mul_comm] at last ⊢
  exact Nat.mul_le_mul_left _ (Nat.lt_of_mul_lt_mul_left last)

/-- How many slots have come by the last tick before the end of a second. -/
theorem slotsAfter_last {e : Entry} {gap : Millis} {seconds : Nat} (whole : e.task.interval.toNat ∣ 1000)
    (positive : 0 < gap.toNat) (short : gap.toNat ≤ e.task.interval.toNat)
    (last : (n + 1) * gap.toNat = 1000 * seconds) :
    e.slotsAfter gap n = 1000 * seconds / e.task.interval.toNat - 1 := by
  obtain ⟨k, total⟩ : e.task.interval.toNat ∣ 1000 * seconds := whole.mul_right seconds
  rw [total, Nat.succ_mul] at last
  cases k with
  | zero => omega
  | succ k =>
    rw [total, Entry.slotsAfter, Nat.mul_div_cancel_left _ e.toNat_interval_pos, Nat.add_sub_cancel]
    rw [Nat.mul_succ] at last
    apply Nat.div_eq_of_lt_le
    · rw [Nat.mul_comm k]
      omega
    · rw [Nat.mul_comm (k + 1), Nat.mul_succ]
      omega

theorem toInt_ends : ends.nanos.toInt = 1010000000 := by
  decide

theorem Overloads.gap_eq (overloads : Overloads o) : gap o.overload = ⟨10⟩ := by
  rw [overloads.1]
  rfl

theorem Overloads.toNat_gap (overloads : Overloads o) : (gap o.overload).toNat = 10 := by
  rw [overloads.gap_eq]
  decide

namespace Beat

variable (beat : Beat o n s)
include beat

theorem outrun (overloads : Overloads o) :
    ∃ e, e.task.spec = Demo.scan ∧ (s.view sleeper).Outrun .epoch began ends n e := by
  have scan := beat.scan
  rw [if_pos overloads] at scan
  exact scan

theorem barred (easy : ¬ Overloads o) : (s.view sleeper).Barred := by
  have scan := beat.scan
  rw [if_neg easy] at scan
  exact scan

/-- The collector that sleeps wakes not before the next tick, if it sleeps at all. -/
theorem le_of_wakes (clock : s.clock.nanos.toInt = n * (gap o.overload).toNat * 1000000)
    {t : Instant} (wakes : (s.view sleeper).wakes? = some t) :
    Overloads o ∧ t = ends ∧ 1 ≤ n ∧ s.clock < ends ∧ n ≤ 100 := by
  by_cases overloads : Overloads o
  · obtain ⟨e, _, outrun⟩ := beat.outrun overloads
    rw [outrun.wakes?_eq] at wakes
    split at wakes
    · rename_i sleeping
      cases wakes
      refine ⟨overloads, rfl, sleeping.1, sleeping.2, ?_⟩
      have soon := Int64.lt_iff_toInt_lt.mp (Instant.lt_iff.mp sleeping.2)
      have now : (s.view sleeper).clock = s.clock := rfl
      rw [now, clock, overloads.toNat_gap, toInt_ends] at soon
      omega
    · cases wakes
  · rw [View.wakes?, (beat.barred overloads).run] at wakes
    cases wakes

/-- Time passes, before the collector that sleeps wakes. -/
theorem setClock (lull : Lull sleeper guard o.workers { s with clock := instant })
    (forward : s.clock ≤ instant) (asleep : ∀ t ∈ (s.view sleeper).wakes?, instant < t) :
    Beat o n { s with clock := instant } := by
  constructor
  · exact lull
  · exact beat.enabled
  · exact beat.mode
  · exact beat.guarded
  · split
    · rename_i overloads
      obtain ⟨e, same, outrun⟩ := beat.outrun overloads
      refine ⟨e, same, outrun.setClock forward ?_⟩
      intro some before
      apply asleep
      rw [outrun.wakes?_eq, if_pos ⟨some, before⟩]
      rfl
    · rename_i easy
      exact (beat.barred easy).setClock instant
  · intro spare spec member
    obtain ⟨e, same, healthy, paced⟩ := beat.tasks spare spec member
    exact ⟨e, same, healthy, paced.setClock instant⟩

/-- The collector that sleeps wakes. -/
theorem rouse (wakes : (s.view sleeper).wakes? = some ends) (overloads : Overloads o)
    (late : 1000 ≤ n * (gap o.overload).toNat) (some : 1 ≤ n) (before : s.clock < ends) :
    Beat o n (s.sleepUntil ends) := by
  obtain ⟨e, same, outrun⟩ := beat.outrun overloads
  have named : e.task.name = sleeper := congrArg Spec.name same
  obtain ⟨e', outrun', same'⟩ := outrun.rouse some before
  rw [named] at outrun'
  have finished : (View.relax { s.view sleeper with clock := ends } sleeper).run = none := by
    have clock := (View.controls_relax { s.view sleeper with clock := ends } sleeper).1
    rw [outrun'.run, clock]
    simp [Int64.lt_irrefl, Instant.lt_iff]
  obtain ⟨lull, seen⟩ := beat.lull.pass ends
  have view := seen sleeper lull.not_waits
  have controls := View.controls_relax { s.view sleeper with clock := ends } sleeper
  rw [← view] at controls
  rw [beat.lull.rouse wakes before finished]
  constructor
  · exact lull
  · exact controls.2.2.trans beat.enabled
  · exact controls.2.1.trans beat.mode
  · intro early
    omega
  · rw [if_pos overloads, view]
    exact ⟨e', same'.trans same, outrun'⟩
  · intro spare spec member
    obtain ⟨e, own, healthy, paced⟩ := beat.tasks spare spec member
    have nobody := lull.waiting_eq_nil (.inl (spare overloads))
    have passed := paced.setClock ends
    rw [seen spec.name (by simp [nobody]), View.relax_of_idle passed.startable.waits passed.startable.run]
    exact ⟨e, own, healthy, passed⟩

/-- A sleep up to the next tick. -/
theorem sleep (clock : s.clock.nanos.toInt = n * (gap o.overload).toNat * 1000000)
    (comes : instant.nanos.toInt = (n + 1) * (gap o.overload).toNat * 1000000) :
    Beat o n (s.sleepUntil instant) := by
  have forward : s.clock ≤ instant := by
    rw [Instant.le_iff, Int64.le_iff_toInt_le, clock, comes]
    nlinarith
  cases wakes : (s.view sleeper).wakes? with
  | none =>
    have asleep : ∀ t ∈ (s.view sleeper).wakes?, instant < t := by simp [wakes]
    obtain ⟨dozes, lull⟩ := beat.lull.doze asleep
    rw [dozes]
    exact beat.setClock lull forward asleep
  | some t =>
    obtain ⟨overloads, rfl, some, before, few⟩ := beat.le_of_wakes clock wakes
    have length := overloads.toNat_gap
    rw [length] at comes
    by_cases last : n = 100
    · have same : instant = ends := by
        apply Instant.toInt_inj.mp
        rw [comes, toInt_ends, last]
        norm_num
      rw [same]
      exact beat.rouse wakes overloads (by rw [length, last]) some before
    · have ahead : instant < ends := by
        rw [Instant.lt_iff, Int64.lt_iff_toInt_lt, comes, toInt_ends]
        omega
      have asleep : ∀ t ∈ (s.view sleeper).wakes?, instant < t := by simp [wakes, ahead]
      obtain ⟨dozes, lull⟩ := beat.lull.doze asleep
      rw [dozes]
      exact beat.setClock lull forward asleep

/-- A tick finds the guard not in progress. -/
theorem free_guard (clock : s.clock.nanos.toInt = (n + 1) * (gap o.overload).toNat * 1000000) :
    s.scheduler.busy guard = false := by
  by_cases early : n * (gap o.overload).toNat < 1000
  · exact (beat.guarded early).1
  · -- the collector that sleeps has woken
    apply beat.lull.free_of_spare (.inr _) (by decide +kernel)
    by_cases overloads : Overloads o
    · obtain ⟨e, _, outrun⟩ := beat.outrun overloads
      have awake : ¬ s.clock < ends := by
        rw [Instant.lt_iff, Int64.lt_iff_toInt_lt, clock, toInt_ends, overloads.toNat_gap]
        rw [overloads.toNat_gap] at early
        omega
      rw [outrun.run, if_neg fun sleeping => awake sleeping.2]
    · exact (beat.barred overloads).run

/-- What the next tick means to the collector that sleeps. -/
theorem scan_tick (clock : s.clock = now)
    (comes : now.nanos.toInt = (n + 1) * (gap o.overload).toNat * 1000000)
    (sooner : (n + 1) * (gap o.overload).toNat < 1000 * o.seconds)
    (fits : o.seconds * 1000000000 < 2 ^ 63) :
    if Overloads o then
      ∃ e, e.task.spec = Demo.scan ∧
        (((s.view sleeper).evaluate now).relax sleeper).Outrun .epoch began ends (n + 1) e
    else (((s.view sleeper).evaluate now).relax sleeper).Barred := by
  split
  · rename_i overloads
    obtain ⟨e, same, outrun⟩ := beat.outrun overloads
    have named : e.task.name = sleeper := congrArg Spec.name same
    have interval : e.task.interval = ⟨10⟩ := congrArg Spec.interval same
    have time : ∀ k, Instant.epoch.slotTime e.task.interval k = k * 10 * 1000000 := by
      intro k
      rw [interval, ← overloads.gap_eq, slotTime_epoch (gap_forward o.overload), overloads.toNat_gap]
      norm_num
    rw [overloads.toNat_gap] at comes sooner
    obtain ⟨e', outrun', same'⟩ := outrun.tick clock (by rw [time, comes]; push_cast; rfl)
      (by rw [time]; omega)
    rw [named] at outrun'
    exact ⟨e', same'.trans same, outrun'⟩
  · rename_i easy
    exact (beat.barred easy).tick now sleeper

/-- What the next tick means to the other collectors, if there is a worker to spare. -/
theorem tasks_tick (spare : Overloads o → 2 ≤ o.workers)
    (comes : now.nanos.toInt = (n + 1) * (gap o.overload).toNat * 1000000)
    (sooner : (n + 1) * (gap o.overload).toNat < 1000 * o.seconds)
    (fits : o.seconds * 1000000000 < 2 ^ 63) : ∀ spec ∈ collectors false,
      ∃ e, e.task.spec = spec ∧ e.task.Healthy ∧
        (((s.view spec.name).evaluate now).relax spec.name).Paced .epoch
          (e.slotsAfter (gap o.overload) (n + 1)) e := by
  intro spec member
  obtain ⟨e, same, healthy, paced⟩ := beat.tasks spare spec member
  have named : e.task.name = spec.name := congrArg Spec.name same
  obtain ⟨whole, short⟩ := interval_collectors o.overload spec member
  rw [← show e.task.interval = spec.interval from congrArg Spec.interval same] at whole short
  have next := e.slotsAfter_succ (n := n) (gap_forward o.overload) short .epoch
  rw [slotTime_epoch (gap_forward o.overload)] at next
  push_cast at next
  rw [← comes] at next
  have last := slotsAfter_le (n := n + 1) whole sooner
  have time : Instant.epoch.slotTime e.task.interval (e.slotsAfter (gap o.overload) (n + 1) + 1) <
      2 ^ 63 := by
    have positive := e.task.one_le_interval
    rw [slotTime_epoch (by omega)]
    zify at last
    push_cast at last ⊢
    omega
  obtain ⟨e', paced', same', health⟩ := paced.tick next time
  have interval : e'.task.interval = e.task.interval := congrArg Spec.interval same'
  have kept : e'.slotsAfter (gap o.overload) (n + 1) = e.slotsAfter (gap o.overload) (n + 1) := by
    rw [Entry.slotsAfter, Entry.slotsAfter, interval]
  rw [named, ← kept] at paced'
  exact ⟨e', same'.trans same, health.trans healthy, paced'⟩

/-- Each tick before the end leads to the next beat. -/
theorem tick (clock : s.clock = now)
    (comes : now.nanos.toInt = (n + 1) * (gap o.overload).toNat * 1000000)
    (sooner : (n + 1) * (gap o.overload).toNat < 1000 * o.seconds)
    (fits : o.seconds * 1000000000 < 2 ^ 63) :
    (s.tick now).1 = .proceed ∧ Beat o (n + 1) (s.tick now).2 ∧ (s.tick now).2.clock = now := by
  have free := beat.free_guard (clock ▸ comes)
  obtain ⟨proceeds, lull, seen⟩ := beat.lull.tick free now
  simp only [beat.enabled, if_true] at seen
  have view := seen sleeper lull.not_waits
  have controls := (s.view sleeper).controls_relax_evaluate now sleeper
  have scan := beat.scan_tick clock comes sooner fits
  rw [← view] at controls scan
  refine ⟨proceeds, ?_, controls.1.trans clock⟩
  constructor
  · exact lull
  · exact controls.2.2.trans beat.enabled
  · exact controls.2.1.trans beat.mode
  · intro early
    obtain ⟨_, e, found, due⟩ := beat.guarded (by rw [Nat.succ_mul] at early; omega)
    have ahead : now < e.due := by
      rw [Instant.lt_iff, Int64.lt_iff_toInt_lt, comes, due]
      zify at early
      linarith
    obtain ⟨free', e', found', same⟩ := beat.lull.early found ahead free
    exact ⟨free', e', found', same ▸ due⟩
  · exact scan
  · intro spare spec member
    have crew : 2 ≤ o.workers ∨ ((s.tick now).2.view sleeper).run = none := by
      split at scan
      · rename_i overloads
        exact .inl (spare overloads)
      · exact .inr scan.run
    have nobody := lull.waiting_eq_nil crew
    rw [seen spec.name (by simp [nobody])]
    exact beat.tasks_tick spare comes sooner fits spec member

end Beat

/-! ## The start -/

/-- A task without capabilities is admitted as an ordinary one. -/
theorem admittedBy_of_plain {t : Task} (plain : t.capabilities = .none) (mode : Mode) :
    t.admittedBy mode = mode.admits false := by
  rw [Task.admittedBy, Task.has, plain, Capabilities.has_comm, Capabilities.has_none]

namespace Furnished

variable (furnished : Furnished o.workers (collectors o.overload) s)
include furnished

/-- The guard is not due before the first second is over. -/
theorem guarded : ∃ e, s.scheduler.entry? guard = some e ∧ e.task.inProgress = false ∧
    e.due.nanos.toInt = 1000000000 := by
  obtain ⟨spec, member, named, interval⟩ : ∃ spec ∈ collectors o.overload,
      spec.name = guard ∧ spec.interval = ⟨1000⟩ := by
    cases o.overload <;> decide +kernel
  obtain ⟨e, _, found, made, due⟩ := furnished.entry member
  rw [named] at found
  rw [interval] at due
  have time : (Instant.epoch.after ⟨1000⟩).nanos.toInt = 1000000000 := by decide
  exact ⟨e, found, made.fresh.1, by rw [due, time]⟩

/-- The collector that sleeps is about to start, if it ever does. -/
theorem outrun (overloads : Overloads o) (mode : s.scheduler.mode = o.mode) :
    ∃ e, e.task.spec = scan ∧ (s.view sleeper).Outrun .epoch began ends 0 e := by
  have member : scan ∈ collectors o.overload := by
    rw [overloads.1]
    decide +kernel
  obtain ⟨e, _, found, made, due⟩ := furnished.entry member
  obtain ⟨clock, waits, run, events⟩ := furnished.view sleeper
  obtain ⟨spec, fresh, healthy, unvisited⟩ := made
  have interval : e.task.interval = ⟨10⟩ := congrArg Spec.interval spec
  have body : e.task.body = { wait := .sleep ⟨1000⟩, ownTime := reading } :=
    Option.some.inj (congrArg Spec.body spec)
  have capabilities : e.task.capabilities = .none := congrArg Spec.capabilities spec
  refine ⟨e, spec, ?_⟩
  constructor
  · exact found
  · exact waits
  · simp [run]
  · simp [fresh.1]
  · exact healthy
  · rw [due, interval]
    decide
  · simp [unvisited]
  · exact events
  · rw [admittedBy_of_plain capabilities, show (s.view sleeper).mode = o.mode from mode]
    exact overloads.2
  · rw [Task.has, capabilities]
    decide
  · rw [interval]
    decide
  · rw [body]
    decide
  · rw [interval]
    decide

/-- The collector that sleeps never starts. -/
theorem barred (easy : ¬ Overloads o) (mode : s.scheduler.mode = o.mode) :
    (s.view sleeper).Barred := by
  obtain ⟨clock, waits, run, events⟩ := furnished.view sleeper
  refine ⟨waits, run, ?_⟩
  intro e found
  have only : ∀ spec ∈ collectors o.overload, spec.name = sleeper →
      o.overload = true ∧ spec.capabilities = .none := by
    cases o.overload <;> decide +kernel
  have named : e.task.spec.name = sleeper := Scheduler.entry?_name found
  obtain ⟨overload, capabilities⟩ := only _ (furnished.asked (Scheduler.mem_of_found found)) named
  rw [admittedBy_of_plain capabilities, show (s.view sleeper).mode = o.mode from mode]
  exact Bool.eq_false_iff.mpr fun admitted => easy ⟨overload, admitted⟩

/-- The other collectors have consumed no slot. -/
theorem paced : ∀ spec ∈ collectors false, ∃ e, e.task.spec = spec ∧ e.task.Healthy ∧
    (s.view spec.name).Paced .epoch 0 e := by
  have others : ∀ spec ∈ collectors false, spec.name ≠ sleeper ∧
      spec ∈ collectors o.overload ∧
      (Instant.epoch.after spec.interval).nanos.toInt = Instant.epoch.slotTime spec.interval 1 := by
    cases o.overload <;> decide +kernel
  intro spec member
  obtain ⟨other, member, time⟩ := others spec member
  obtain ⟨e, present, found, made, due⟩ := furnished.entry member
  obtain ⟨clock, waits, run, events⟩ := furnished.view spec.name
  have named : e.task.name = spec.name := congrArg Spec.name made.spec
  have interval : e.task.interval = spec.interval := congrArg Spec.interval made.spec
  refine ⟨e, made.spec, made.healthy, ?_⟩
  constructor
  · constructor
    · exact found
    · exact waits
    · exact run
    · exact made.fresh.1
    · rw [made.healthy]
      decide
    · exact (furnished.lull.light present).2.1 (named ▸ other)
  · rw [due, interval, time]
  · simp [made.fresh.2]
  · simp [events]

/-- The demonstration is at its first beat when the pool is made. -/
theorem beat (enabled : s.scheduler.enabled = true) (mode : s.scheduler.mode = o.mode) :
    Beat o 0 s.start := by
  have vacant := Dispatcher.Vacant.of_unstarted furnished.unstarted
  constructor
  · have order : Move.Order (Task.Light sleeper guard) .start := trivial
    have within : Move.Within Moment.Unmarked (fun _ => True) .start := trivial
    exact furnished.lull.step order within (fun _ _ => rfl) vacant.start.settled
  · simpa [Scheduler.start] using enabled
  · simpa [Scheduler.start] using mode
  · intro _
    obtain ⟨e, found, free, due⟩ := furnished.guarded
    have same : s.start.scheduler.entry? guard = some e :=
      (congrArg View.entry (s.view_start guard)).trans found
    exact ⟨(Scheduler.busy_of_found same).trans free, e, same, due⟩
  · rw [Dispatcher.view_start]
    split
    · rename_i overloads
      exact furnished.outrun overloads mode
    · rename_i easy
      exact furnished.barred easy mode
  · intro _ spec member
    obtain ⟨e, same, healthy, paced⟩ := furnished.paced spec member
    rw [Dispatcher.view_start]
    exact ⟨e, same, healthy, e.slotsAfter_zero.symm ▸ paced⟩

end Furnished

end Cadence.Demo
