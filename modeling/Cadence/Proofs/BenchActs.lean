import Cadence.Bench
import Cadence.Proofs.Attribution

/-!
A task that is worked by hand shows what was done to it.

On the bench a task is marked, run and set in any order, and its body may do another thing at each run.
What its fields, its account and the log are after that is read off what was done (`Bench.Shows`): a setting
has the value it was last given, and each run is one execution, entered when the clock stood where it was
last moved to and measured from the last mark before it.  One more act adds to the past what it does to the
task (`Bench.Shows.act`), so all of it is shown after any number of acts (`Bench.task_determined_by_acts`).
-/

namespace Cadence

/-- The time from one instant to another is within the range of a word. -/
def Instant.Near (t u : Instant) : Prop :=
  -2 ^ 63 ≤ t.nanos.toInt - u.nanos.toInt ∧ t.nanos.toInt - u.nanos.toInt < 2 ^ 63

namespace Body

/-- When a body ends that is entered at an instant, by the clock it shares with the others. -/
def ends (b : Body) (entered : Instant) : Instant :=
  (b.wakeTime? entered).getD (entered.advance b.work)

/-- Only the wait for a permit can keep a body from its end. -/
theorem ready_ends (b : Body) (entered : Instant) (permits : Nat) :
    b.ready entered (b.ends entered) permits = true ↔ (b.wait = .permit → 0 < permits) := by
  unfold ready ends wakeTime?
  cases b.wait with
  | nothing => simp
  | permit => simp
  | sleep length =>
    have other : Wait.sleep length ≠ .permit := by simp
    rw [Option.getD_some, Option.all_some, decide_eq_true_eq]
    exact iff_of_true (Int64.le_refl _) fun permit => absurd permit other

end Body

namespace Ending

/-- What is logged when the body of a task of a name ends so. -/
def line? (name : String) : Ending → Option Line
  | returns => none
  | fails what => some ⟨.err, "Collector " ++ name ++ " failed: " ++ Text.untilNul what⟩
  | failsSilently => some ⟨.err, "Collector " ++ name ++ " failed with a non-standard exception"⟩

/-- A failure is logged, and nothing else. -/
theorem line?_isSome (name : String) (e : Ending) : (e.line? name).isSome = e.failed := by
  cases e <;> rfl

/-- It is logged as an error. -/
theorem level_of_line? {name : String} {e : Ending} {line : Line} (logged : e.line? name = some line) :
    line.level = .err := by
  cases e <;> cases logged <;> rfl

end Ending

theorem Task.complaints_eq (t : Task) : t.complaints = (t.body.ending.line? t.name).toList := by
  unfold complaints
  cases t.body.ending <;> rfl

namespace Bench

/-- One thing that is done to a task, and what its body does at that time. -/
structure Act where
  step : Step
  body : Body
  deriving DecidableEq, Repr

/-- All that was done to a task, the latest first. -/
abbrev Past := History Act

/-- Does one thing; `none` if it does not end. -/
def act? (b : Bench) (a : Act) : Option Bench :=
  { b with task := { b.task with body := a.body } }.perform? a.step

theorem body_of_perform? {b b' : Bench} {step : Step} (done : b.perform? step = some b') :
    b'.task.body = b.task.body := by
  cases step with
  | run =>
    simp only [perform?, run?] at done
    split at done <;> cases done
    rfl
  | mark | setClock | setHealth | setContention | permit =>
    cases done
    rfl

/-- Steps are acts with a body that stays the same. -/
theorem performAll?_eq (b : Bench) (steps : List Step) :
    b.performAll? steps = (steps.map (Act.mk · b.task.body)).foldlM act? b := by
  unfold performAll?
  induction steps generalizing b with
  | nil => rfl
  | cons step steps ih =>
    rw [List.map_cons, List.foldlM_cons, List.foldlM_cons]
    show (b.perform? step).bind _ = (b.perform? step).bind _
    refine Option.bind_congr fun b' done => ?_
    rw [ih b', body_of_perform? done]

namespace Step

/-- The instant the task is marked for. -/
def mark? : Step → Option Instant
  | mark instant => some instant
  | run | setClock _ | setHealth _ | setContention _ | permit => none

/-- Whether the task is in progress from then on, if the step tells. -/
def busy? : Step → Option Bool
  | mark _ => some true
  | run => some false
  | setClock _ | setHealth _ | setContention _ | permit => none

/-- The health the task is given. -/
def health? : Step → Option Health
  | setHealth health => some health
  | mark _ | run | setClock _ | setContention _ | permit => none

/-- Whether contention is monitored from then on, if the step tells. -/
def contention? : Step → Option Bool
  | setContention on => some on
  | mark _ | run | setClock _ | setHealth _ | permit => none

end Step

/-! ## What the past tells -/

namespace Past

variable (past : Past) (start : Instant)

/-- What a step gave last, or `first` if none gave anything. -/
def last {α : Type} (get : Step → Option α) (first : α) : α :=
  (past.findSome? fun a => get a.step).getD first

/-- The instant the task was last marked for. -/
def marked : Instant := past.last Step.mark? .epoch

/-- Whether the last of all marks and runs was a mark. -/
def busy : Bool := past.last Step.busy? false

/-- Whether contention was last set to be monitored. -/
def contention : Bool := past.last Step.contention? false

/-- Where the clock stands that stood at `start`: it was set, or the last run has moved it. -/
def clock (start : Instant) : Past → Instant
  | [] => start
  | ⟨.setClock instant, _⟩ :: _ => instant
  | ⟨.run, body⟩ :: past => body.ends (clock start past)
  | _ :: past => clock start past

/-- The permits that were given and not used up. -/
def permits : Past → Nat
  | [] => 0
  | ⟨.permit, _⟩ :: past => permits past + 1
  | ⟨.run, body⟩ :: past => if body.wait = .permit then permits past - 1 else permits past
  | _ :: past => permits past

/-- No run waits for a permit that was not given. -/
def Unblocked : Past → Prop
  | [] => True
  | a :: past => (a.step = .run → a.body.wait = .permit → 0 < permits past) ∧ Unblocked past

/-- A run of a body after all that: it is entered where the clock stands, and measured from the last mark. -/
def execution (body : Body) : Execution where
  submitted := past.marked
  entered := past.clock start
  ended := (body.ends (past.clock start)).advance
    (body.ownTime.nanos + if past.contention then body.samplingTime.nanos else 0)
  failed := body.ending.failed

/-- The runs, the latest first. -/
def executions (start : Instant) : Past → History Execution
  | [] => []
  | ⟨.run, body⟩ :: past => execution past start body :: executions start past
  | _ :: past => executions start past

/-- What the body saw at each run, the latest first. -/
def visits : Past → History Visit
  | [] => []
  | ⟨.run, _⟩ :: past => ⟨marked past, busy past, contention past⟩ :: visits past
  | _ :: past => visits past

end Past

/-- What an act leaves in the log, done to a task of a name. -/
def Act.line? (name : String) : Act → Option Line
  | ⟨.run, body⟩ => body.ending.line? name
  | _ => none

/-- The task shows what was done to it since it was made as it was asked for. -/
structure Shows (b : Bench) (spec : Spec) (start : Instant) (past : Past) : Prop where
  name : b.task.name = spec.name
  interval : b.task.interval = spec.interval
  capabilities : b.task.capabilities = spec.capabilities
  startTime : b.task.startTime = past.marked
  inProgress : b.task.inProgress = past.busy
  health : b.task.health = past.last Step.health? .healthy
  contention : b.task.contention = past.contention
  permits : b.task.permits = past.permits
  clock : b.clock = past.clock start
  visits : b.task.visits = past.visits
  /-- One observation for each run, in their order. -/
  stats : b.task.stats = ((past.executions start).all.map Execution.observation).foldl Stats.observe {}
  /-- One line for each run whose body failed, in their order. -/
  log : b.log = past.filterMap (Act.line? spec.name)

variable {b b' : Bench} {spec : Spec} {task : Task} {start : Instant} {past : Past} {a : Act}

namespace Shows

/-- A task that was just made. -/
theorem made (made : Task.ofSpec spec = .ok task) (start : Instant) :
    Shows { task, clock := start } spec start [] := by
  unfold Task.ofSpec at made
  split at made
  · cases made
  split at made
  · split at made <;> cases made
    constructor <;> rfl
  · cases made

/-- Only a run whose body waits for a permit that was not given does not end. -/
theorem act?_isSome (shows : b.Shows spec start past) (a : Act) :
    (b.act? a).isSome ↔ (a.step = .run → a.body.wait = .permit → 0 < past.permits) := by
  obtain ⟨step, body⟩ := a
  cases step with
  | run =>
    have ready := body.ready_ends b.clock b.task.permits
    rw [shows.permits] at ready
    simpa [act?, perform?, run?, Task.enter, shows.permits, Body.ends] using ready
  | mark | setClock | setHealth | setContention | permit => simp [act?, perform?]

/-- What is observed of a run. -/
theorem observation_eq (shows : b.Shows spec start past) (body : Body) :
    ({ b.task with body }.enter.observation b.clock (body.ends b.clock)) =
      (past.execution start body).observation := by
  simp only [Task.observation, Task.enter, Task.ownTime, Past.execution, Execution.observation,
    shows.startTime, shows.clock, shows.contention]

/-- One more act. -/
theorem act (shows : b.Shows spec start past) (done : b.act? a = some b') :
    b'.Shows spec start (a :: past) := by
  obtain ⟨step, body⟩ := a
  cases step with
  | run =>
    simp only [act?, perform?, run?] at done
    split at done <;> cases done
    exact { shows with
      inProgress := rfl
      permits := by
        show (if body.wait = .permit then b.task.permits - 1 else b.task.permits) = _
        rw [shows.permits]
        rfl
      clock := congrArg body.ends shows.clock
      visits := by
        show ⟨b.task.startTime, b.task.inProgress, b.task.contention⟩ :: b.task.visits = _
        rw [shows.startTime, shows.inProgress, shows.contention, shows.visits]
        rfl
      stats := by
        show b.task.stats.observe ({ b.task with body }.enter.observation b.clock (body.ends b.clock)) = _
        rw [shows.observation_eq, shows.stats]
        simp [Past.executions, History.all]
      log := by
        show ({ b.task with body }.enter.complaints.reverse) ++ b.log = _
        rw [Task.complaints_eq, shows.log]
        show ((body.ending.line? b.task.name).toList.reverse) ++ _ = _
        rw [shows.name, List.filterMap_cons, Act.line?]
        cases body.ending <;> rfl }
  | mark instant =>
    cases done
    exact { shows with startTime := rfl, inProgress := rfl, log := shows.log }
  | setClock instant =>
    cases done
    exact { shows with clock := rfl, log := shows.log }
  | setHealth health =>
    cases done
    exact { shows with health := rfl, log := shows.log }
  | setContention on =>
    cases done
    exact { shows with contention := rfl, log := shows.log }
  | permit =>
    cases done
    exact { shows with permits := congrArg (· + 1) shows.permits, log := shows.log }

end Shows

theorem foldlM_act?_cons (b : Bench) (a : Act) (past : Past) :
    (History.all (a :: past)).foldlM act? b = (past.all.foldlM act? b).bind (act? · a) := by
  simp [History.all, List.foldlM_append]

/-- Any number of acts, one after the other. -/
theorem Shows.acts (shows : b.Shows spec start []) (past : Past) :
    ((past.all.foldlM act? b).isSome ↔ past.Unblocked) ∧
      ∀ b', past.all.foldlM act? b = some b' → b'.Shows spec start past := by
  induction past with
  | nil =>
    refine ⟨iff_of_true rfl trivial, ?_⟩
    rintro _ ⟨⟩
    exact shows
  | cons a past ih =>
    obtain ⟨ends, shows⟩ := ih
    rw [foldlM_act?_cons, Past.Unblocked, ← ends]
    cases sooner : (History.all past).foldlM act? b with
    | none => simp
    | some sooner' =>
      have next := shows sooner' sooner
      refine ⟨?_, fun b' done => next.act done⟩
      simp only [Option.bind_some, Option.isSome_some, and_true]
      exact next.act?_isSome a

/-- What is observed of an execution is exact if its times are not too far apart. -/
theorem toInt_observation (x : Execution) :
    (x.entered.Near x.submitted →
      x.observation.latency.toInt = x.entered.nanos.toInt - x.submitted.nanos.toInt) ∧
    (x.ended.Near x.entered →
      x.observation.exec.toInt = x.ended.nanos.toInt - x.entered.nanos.toInt) :=
  ⟨fun near => Instant.toInt_since near.1 near.2, fun near => Instant.toInt_since near.1 near.2⟩

/-- A run whose body fails leaves one line, an error, and no other act leaves any. -/
theorem Act.logs_errors (name : String) (a : Act) :
    ((a.line? name).isSome ↔ a.step = .run ∧ a.body.ending.failed) ∧
      ∀ line ∈ a.line? name, line.level = .err := by
  obtain ⟨step, body⟩ := a
  cases step with
  | run =>
    refine ⟨?_, fun line logged => Ending.level_of_line? logged⟩
    simp [line?, Ending.line?_isSome]
  | mark | setClock | setHealth | setContention | permit => simp [line?]

/-- A task that is worked by hand shows what was done to it.  A run always ends, unless its body waits for a
permit that was not given; what is observed of it is exact, unless its times are too far apart; and it leaves
an error in the log if its body fails. -/
theorem task_determined_by_acts (made : Task.ofSpec spec = .ok task) (start : Instant) (past : Past) :
    ((past.all.foldlM act? { task, clock := start }).isSome ↔ past.Unblocked) ∧
    (∀ b, past.all.foldlM act? { task, clock := start } = some b → b.Shows spec start past) ∧
    (∀ x ∈ past.executions start,
      (x.entered.Near x.submitted →
        x.observation.latency.toInt = x.entered.nanos.toInt - x.submitted.nanos.toInt) ∧
      (x.ended.Near x.entered →
        x.observation.exec.toInt = x.ended.nanos.toInt - x.entered.nanos.toInt)) ∧
    (∀ a ∈ past, ((a.line? spec.name).isSome ↔ a.step = .run ∧ a.body.ending.failed) ∧
      ∀ line ∈ a.line? spec.name, line.level = .err) ∧
    ∀ steps, performAll? { task, clock := start } steps =
      (steps.map (Act.mk · task.body)).foldlM act? { task, clock := start } := by
  obtain ⟨ends, shows⟩ := (Shows.made made start).acts past
  exact ⟨ends, shows, fun x _ => toInt_observation x, fun a _ => a.logs_errors spec.name,
    performAll?_eq _⟩

/-! ## A sample

A task is run twice after one mark: its body fails, and then, once the clock is set back and a permit is
given, it waits for that permit.  Then the task is marked again. -/

namespace Vise

/-- The task as it is asked for. -/
def asked : Spec := { name := "gated", interval := ⟨1000⟩, body := some { work := 7, wait := .permit } }

/-- The task, whose body waits for a permit once its work is done. -/
def piece : Task := { Sample.gated with body := { work := 7, wait := .permit } }

/-- What is done, one thing after the other. -/
def acts : List Act :=
  [⟨.mark ⟨100⟩, piece.body⟩, ⟨.setClock ⟨130⟩, piece.body⟩, ⟨.setHealth .slow, piece.body⟩,
    ⟨.run, { work := 20, ending := .failsSilently }⟩, ⟨.setClock ⟨90⟩, piece.body⟩,
    ⟨.permit, piece.body⟩, ⟨.run, piece.body⟩, ⟨.mark ⟨110⟩, piece.body⟩]

/-- What it comes to. -/
def bench : Bench where
  task := { piece with
    startTime := ⟨110⟩
    inProgress := true
    health := .slow
    stats := ⟨2, 1, 30, 30, 7, 20, 27⟩
    visits := [⟨⟨100⟩, false, false⟩, ⟨⟨100⟩, true, false⟩] }
  clock := ⟨97⟩
  log := [⟨.err, "Collector gated failed with a non-standard exception"⟩]

end Vise

/-- The second run begins ten nanoseconds before the instant the task was marked for. -/
theorem task_determined_by_acts_sample : Task.ofSpec Vise.asked = .ok Vise.piece ∧
    Vise.acts.foldlM act? { task := Vise.piece } = some Vise.bench ∧
    Vise.bench.Shows Vise.asked .epoch Vise.acts.reverse ∧
    Past.executions .epoch Vise.acts.reverse =
      [⟨⟨100⟩, ⟨90⟩, ⟨97⟩, false⟩, ⟨⟨100⟩, ⟨130⟩, ⟨150⟩, true⟩] := by
  have made : Task.ofSpec Vise.asked = .ok Vise.piece := rfl
  have done : Vise.acts.foldlM act? { task := Vise.piece } = some Vise.bench := by decide +kernel
  obtain ⟨_, shows, _⟩ := task_determined_by_acts made .epoch Vise.acts.reverse
  refine ⟨made, done, shows Vise.bench ?_, by decide +kernel⟩
  rw [History.all, List.reverse_reverse]
  exact done

end Bench

end Cadence
