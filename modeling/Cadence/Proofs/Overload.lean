import Cadence.Proofs.SleepingBody
import Cadence.Proofs.SwiftLoop

/-!
A task that is evaluated in each of its slots, and whose first run outlasts two more.

It is demoted in its second slot and again in its third, and muted from then on, also after the run has
ended; so it is started once (`View.Outrun`).  A task that the mode does not admit is never started
(`View.Barred`).
-/

namespace Cadence

/-- The health of a task after so many slots, if its run in the first outlasts two more. -/
def Health.worn : Nat → Health
  | 0 | 1 => .healthy
  | 2 => .slow
  | _ + 3 => .muted

/-- What was recorded of such a task. -/
def Event.worn : Nat → History Event
  | 0 | 1 => []
  | 2 => [.skippedInProgress, .markedSlow]
  | n + 3 => List.replicate n .muted ++ [.skippedInProgress, .skippedInProgress, .markedSlow]

/-- A body that sleeps can end when it wakes. -/
theorem Body.ready_of_wakeTime? {b : Body} {began t : Instant} (wakes : b.wakeTime? began = some t)
    (now : Instant) (permits : Nat) : b.ready began now permits = decide (t ≤ now) := by
  unfold Body.ready
  cases wait : b.wait with
  | nothing => simp [Body.wakeTime?, wait] at wakes
  | permit => simp [Body.wakeTime?, wait] at wakes
  | sleep length => simp [wakes]

namespace View

variable {v : View} {e : Entry} {now start began ends : Instant} {slots : Nat} {name : String}

/-! ## Evaluations -/

/-- A task that is due is muted. -/
theorem evaluate_muted (present : v.entry = some e) (late : ¬ now < e.due)
    (muted : e.task.health = .muted) : v.evaluate now =
      { v with
        entry := some ⟨e.task, e.due.after e.task.interval⟩
        events := .muted :: v.events } := by
  have ruling : e.ruling v.mode now =
      { result := .proceed [.record .muted e.task.name], change := Entry.consumeSlot } := by
    simp [Entry.ruling, late, muted]
  have consumed : e.consumeSlot = ⟨e.task, e.due.after e.task.interval⟩ := rfl
  rw [evaluate, present]
  simp [ruling, consumed, Chore.Result.next, Chore.owes?, tell]

/-- A task that is due is found in progress, and demoted. -/
theorem evaluate_overrun (present : v.entry = some e) (late : ¬ now < e.due)
    (audible : e.task.health ≠ .muted) (admitted : e.task.admittedBy v.mode = true)
    (busy : e.task.inProgress = true) {next : Health} {report : Bool}
    (overrun : e.task.overrun = .demote next report) : v.evaluate now =
      { v with
        entry := some ⟨{ e.task with health := next }, e.due.after e.task.interval⟩
        events := (.skippedInProgress :: if report then [.markedSlow] else []) ++ v.events } := by
  have ruling : e.ruling v.mode now =
      { result := .proceed (Dispatcher.skipChores e.task.name report)
        change := Entry.demote next
        lines := [⟨.info, "Collector " ++ e.task.name ++ " " ++ e.task.health.name ++ " -> " ++
          next.name⟩] } := by
    simp [Entry.ruling, late, audible, admitted, busy, overrun]
  have parts : ∀ f : Entry, f = ⟨f.task, f.due⟩ := fun _ => rfl
  have demoted : e.demote next = ⟨{ e.task with health := next }, e.due.after e.task.interval⟩ := by
    rw [parts (e.demote next), Entry.task_demote, Entry.due_demote]
  have told : (Dispatcher.skipChores e.task.name report).filterMap (Chore.owes? e.task.name) =
      (if report then [.markedSlow] else []) ++ [.skippedInProgress] := by
    cases report <;> simp [Dispatcher.skipChores, List.filterMap_cons, Chore.owes?]
  rw [evaluate, present]
  simp only [ruling, demoted, Chore.Result.next, List.append_nil, told, tell, Bool.or_false]
  cases report <;> rfl

/-! ## A task that is not admitted -/

/-- Nothing is under way for the task that is seen, and the mode does not admit it. -/
structure Barred (v : View) : Prop where
  waits : v.waits = false
  run : v.run = none
  denied : ∀ e ∈ v.entry, e.task.admittedBy v.mode = false

theorem Barred.tick (barred : v.Barred) (now : Instant) (name : String) :
    ((v.evaluate now).relax name).Barred := by
  obtain ⟨waits, run, denied⟩ := barred
  have evaluated : (v.evaluate now).Barred := by
    cases present : v.entry with
    | none =>
      have nothing : v.evaluate now = v := by rw [evaluate, present]
      rw [nothing]
      exact ⟨waits, run, denied⟩
    | some e =>
      have denied := denied e present
      by_cases early : now < e.due
      · rw [evaluate_early present early]
        exact ⟨waits, run, by simp [present, denied]⟩
      · by_cases muted : e.task.health = .muted
        · rw [evaluate_muted present early muted]
          exact ⟨waits, run, by simp [denied]⟩
        · rw [evaluate_refused present early muted denied]
          exact ⟨waits, run, by simp [denied]⟩
  rw [relax_of_idle evaluated.waits evaluated.run]
  exact evaluated

theorem Barred.setClock (barred : v.Barred) (clock : Instant) :
    View.Barred { v with clock } :=
  ⟨barred.waits, barred.run, barred.denied⟩

/-! ## A task that outlasts its slots -/

/-- So many slots of a task have come since it was registered for an instant.  A run began in the first of
them, and ends after the third. -/
structure Outrun (v : View) (start began ends : Instant) (slots : Nat) (e : Entry) : Prop where
  entry : v.entry = some e
  waits : v.waits = false
  run : v.run = if 1 ≤ slots ∧ v.clock < ends then some ⟨e.task.name, began⟩ else none
  busy : e.task.inProgress = decide (1 ≤ slots ∧ v.clock < ends)
  health : e.task.health = .worn slots
  due : e.due.nanos.toInt = start.slotTime e.task.interval (slots + 1)
  visits : e.task.visits.length = min slots 1
  events : v.events = Event.worn slots
  admitted : e.task.admittedBy v.mode = true
  ordinary : e.task.has .critical = false
  first : began.nanos.toInt = start.slotTime e.task.interval 1
  wakes : e.task.body.wakeTime? began = some ends
  long : start.slotTime e.task.interval 3 < ends.nanos.toInt

namespace Outrun

variable (outrun : v.Outrun start began ends slots e)
include outrun

/-- The task that sleeps wakes when the run ends. -/
theorem wakes?_eq : v.wakes? = if 1 ≤ slots ∧ v.clock < ends then some ends else none := by
  rw [View.wakes?, outrun.run, outrun.entry]
  split
  · exact outrun.wakes
  · rfl

/-- As long as the time has not come, there is nothing to do for the task. -/
theorem relax : v.relax e.task.name = v := by
  rw [View.relax, enter_of_not_waits v _ outrun.waits, leave, outrun.run]
  split
  · rfl
  · rename_i run running
    split at running
    · rename_i sleeping
      cases running
      have blocked : v.ready ⟨e.task.name, began⟩ = false := by
        rw [View.ready, outrun.entry, Option.any_some, Body.ready_of_wakeTime? outrun.wakes]
        exact decide_eq_false (Int64.not_le.mpr sleeping.2)
      rw [blocked]
      rfl
    · cases running

/-- The task is due in its next slot. -/
theorem late (comes : now.nanos.toInt = start.slotTime e.task.interval (slots + 1)) :
    ¬ now < e.due := by
  rw [Instant.lt_iff, Int64.lt_iff_toInt_lt, outrun.due, comes]
  exact lt_irrefl _

/-- The run that began in the first slot has not ended before the third is over. -/
theorem before_end (few : slots ≤ 2)
    (comes : now.nanos.toInt = start.slotTime e.task.interval (slots + 1)) : now < ends := by
  rw [Instant.lt_iff, Int64.lt_iff_toInt_lt, comes]
  exact lt_of_le_of_lt (start.slotTime_mono e.task (Nat.succ_le_succ few)) outrun.long

/-- A run begins in the first slot. -/
theorem starts (none : slots = 0) (comes : now.nanos.toInt = start.slotTime e.task.interval 1)
    (clock : v.clock = now) (fits : start.slotTime e.task.interval 2 < 2 ^ 63) :
    ((v.evaluate now).relax e.task.name).Outrun start began ends 1
      ⟨(e.task.mark now).enter, e.due.after e.task.interval⟩ := by
  subst none
  have same : began = now := Instant.toInt_inj.mp (outrun.first.trans comes.symm)
  have due := outrun.due
  have free : e.task.inProgress = false := by simp [outrun.busy]
  have audible : e.task.health ≠ .muted := by rw [outrun.health]; simp [Health.worn]
  have late := outrun.late comes
  have idle : v.run = none := by simp [outrun.run]
  have unvisited : e.task.visits = [] := by
    apply List.eq_nil_of_length_eq_zero
    simpa using outrun.visits
  have ahead := outrun.before_end (Nat.zero_le 2) comes
  rw [evaluate_starts outrun.entry late audible outrun.admitted free, View.relax, enter, if_pos rfl]
  have blocked : (e.task.mark now).enter.body.ready now now (e.task.mark now).enter.permits = false := by
    have wakes := outrun.wakes
    rw [same] at wakes
    rw [Body.ready_of_wakeTime? (b := (e.task.mark now).enter.body) wakes]
    exact decide_eq_false (Int64.not_le.mpr ahead)
  simp only [leave, View.ready, Option.map_some, Option.any_some, clock, blocked]
  rw [if_neg Bool.false_ne_true]
  constructor
  · rfl
  · rfl
  · simp [same, ahead]
    rfl
  · simp [Task.enter, Task.mark, ahead]
  · exact outrun.health
  · exact start.toInt_after_slotTime e.task (fun _ => due) fits
  · simp [Task.enter, Task.mark, unvisited]
  · exact outrun.events
  · exact outrun.admitted
  · exact outrun.ordinary
  · exact outrun.first
  · exact outrun.wakes
  · exact outrun.long

/-- In a later slot the health and the events change, and no run begins. -/
theorem later (some : 1 ≤ slots) (fits : start.slotTime e.task.interval (slots + 2) < 2 ^ 63)
    (evaluated : v.evaluate now =
      { v with
        entry := .some ⟨{ e.task with health := .worn (slots + 1) }, e.due.after e.task.interval⟩
        events := Event.worn (slots + 1) }) :
    ((v.evaluate now).relax e.task.name).Outrun start began ends (slots + 1)
      ⟨{ e.task with health := .worn (slots + 1) }, e.due.after e.task.interval⟩ := by
  have run := outrun.run
  have busy := outrun.busy
  have visits := outrun.visits
  simp only [some, true_and, Nat.min_eq_right] at run busy visits
  have next : (v.evaluate now).Outrun start began ends (slots + 1)
      ⟨{ e.task with health := .worn (slots + 1) }, e.due.after e.task.interval⟩ := by
    rw [evaluated]
    constructor
    · rfl
    · exact outrun.waits
    · simpa only [Nat.le_add_left, true_and] using run
    · simpa only [Nat.le_add_left, true_and] using busy
    · rfl
    · exact start.toInt_after_slotTime e.task (fun _ => outrun.due) fits
    · simpa using visits
    · rfl
    · exact outrun.admitted
    · exact outrun.ordinary
    · exact outrun.first
    · exact outrun.wakes
    · exact outrun.long
  have relaxed : (v.evaluate now).relax e.task.name = v.evaluate now := next.relax
  rw [relaxed]
  exact next

/-- In its next slot the task starts if it is the first, and is demoted or muted otherwise. -/
theorem tick (clock : v.clock = now)
    (comes : now.nanos.toInt = start.slotTime e.task.interval (slots + 1))
    (fits : start.slotTime e.task.interval (slots + 2) < 2 ^ 63) :
    ∃ e', ((v.evaluate now).relax e.task.name).Outrun start began ends (slots + 1) e' ∧
      e'.task.spec = e.task.spec := by
  have late := outrun.late comes
  have health := outrun.health
  have events := outrun.events
  have busy : slots = 1 ∨ slots = 2 → e.task.inProgress = true := by
    intro few
    have ahead := outrun.before_end (by omega) comes
    rw [outrun.busy, clock]
    exact decide_eq_true ⟨by omega, ahead⟩
  match slots, outrun with
  | 0, outrun => exact ⟨_, outrun.starts rfl comes clock fits, rfl⟩
  | 1, outrun =>
    have overrun : e.task.overrun = .demote .slow true := by
      rw [Task.overrun, health, outrun.ordinary]
      rfl
    refine ⟨_, outrun.later (Nat.le_refl 1) fits ?_, rfl⟩
    rw [evaluate_overrun outrun.entry late (by simp [health, Health.worn]) outrun.admitted
      (busy (.inl rfl)) overrun, events]
    rfl
  | 2, outrun =>
    have overrun : e.task.overrun = .demote .muted false := by
      rw [Task.overrun, health, outrun.ordinary]
      rfl
    refine ⟨_, outrun.later (Nat.le_succ 1) fits ?_, rfl⟩
    rw [evaluate_overrun outrun.entry late (by simp [health, Health.worn]) outrun.admitted
      (busy (.inr rfl)) overrun, events]
    rfl
  | n + 3, outrun =>
    have muted : e.task.health = .worn (n + 3 + 1) := health
    refine ⟨_, outrun.later (by omega) fits ?_, rfl⟩
    rw [evaluate_muted outrun.entry late muted, events, ← muted]
    rfl

/-- Time passes, up to the end of the run at most. -/
theorem setClock {instant : Instant} (forward : v.clock ≤ instant)
    (asleep : 1 ≤ slots → v.clock < ends → instant < ends) :
    View.Outrun { v with clock := instant } start began ends slots e := by
  have same : (1 ≤ slots ∧ instant < ends) ↔ 1 ≤ slots ∧ v.clock < ends := by
    constructor
    · exact fun sleeps => ⟨sleeps.1, Int64.lt_of_le_of_lt forward sleeps.2⟩
    · exact fun sleeps => ⟨sleeps.1, asleep sleeps.1 sleeps.2⟩
  constructor
  · exact outrun.entry
  · exact outrun.waits
  · simpa only [same] using outrun.run
  · simpa only [same] using outrun.busy
  · exact outrun.health
  · exact outrun.due
  · exact outrun.visits
  · exact outrun.events
  · exact outrun.admitted
  · exact outrun.ordinary
  · exact outrun.first
  · exact outrun.wakes
  · exact outrun.long

/-- The run ends. -/
theorem rouse (some : 1 ≤ slots) (sleeps : v.clock < ends) :
    ∃ e', View.Outrun (View.relax { v with clock := ends } e.task.name) start began ends slots e' ∧
      e'.task.spec = e.task.spec := by
  have running := outrun.run
  rw [if_pos ⟨some, sleeps⟩] at running
  have awake : ¬ ends < ends := Int64.lt_irrefl
  have ready : e.task.body.ready began ends e.task.permits = true := by
    rw [Body.ready_of_wakeTime? outrun.wakes]
    exact decide_eq_true (Int64.le_refl _)
  have relaxed : View.relax { v with clock := ends } e.task.name =
      { v with
        clock := ends
        run := none
        entry := .some ⟨e.task.complete began ends, e.due⟩ } := by
    have entered : View.enter { v with clock := ends } e.task.name = { v with clock := ends } :=
      enter_of_not_waits _ _ outrun.waits
    rw [View.relax, entered]
    simp [leave, View.ready, running, outrun.entry, ready]
  refine ⟨⟨e.task.complete began ends, e.due⟩, ?_, rfl⟩
  rw [relaxed]
  constructor
  · rfl
  · exact outrun.waits
  · simp [awake]
  · simp [awake, Task.complete]
  · exact outrun.health
  · exact outrun.due
  · exact outrun.visits
  · exact outrun.events
  · exact outrun.admitted
  · exact outrun.ordinary
  · exact outrun.first
  · exact outrun.wakes
  · exact outrun.long

end Outrun

end View

end Cadence
