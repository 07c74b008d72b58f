import Cadence.Dispatcher.Interleaving
import Cadence.Proofs.Evaluation

/-!
What a move can do, said once: `Moment.Makes` has a constructor for each way in which a move leads
from one moment to another.
-/

namespace Cadence

/-- What is left to do after a chore. -/
def Chore.Result.next (rest : List Chore) : Chore.Result → List Chore
  | .proceed further => further ++ rest
  | .stop | .fail _ => []

/-- What the tick has come to after a chore. -/
def Chore.Result.verdict (before : Verdict) : Chore.Result → Verdict
  | .proceed _ => before
  | .stop => .stop
  | .fail fault => .fail fault

namespace Dispatcher

/-- What a chore leads to is not the evaluation of a task. -/
theorem count_next_le {s t : Dispatcher} {now : Instant} {c : Chore} {result : Chore.Result}
    (done : s.perform now c = (result, t)) (rest : List Chore) (name : String) :
    (result.next rest).count (.consider name) ≤ rest.count (.consider name) := by
  cases result with
  | proceed further =>
    have none : further.count (.consider name) = 0 := by
      rw [List.count_eq_zero]
      intro member
      have lower := level_lt_of_perform done _ member
      have most : c.level ≤ 3 := by cases c <;> simp [Chore.level]
      have three : (Chore.consider name).level = 3 := rfl
      omega
    simp [Chore.Result.next, List.count_append, none]
  | stop => exact Nat.zero_le _
  | fail fault => exact Nat.zero_le _

/-- A task that is not refused is registered. -/
theorem register_of_unrefused {s : Dispatcher} {new : Task}
    (unrefused : s.scheduler.refusal? new.name = none) (instant : Instant) :
    s.register (some new) instant = .ok { s with scheduler := s.scheduler.enroll new instant } := by
  rw [register, Scheduler.register_of_unrefused unrefused]

/-- A registration that is accepted: the pool does not exist, and the name is new. -/
theorem register_eq_ok {s t : Dispatcher} {task : Option Task} {instant : Instant}
    (done : s.register task instant = .ok t) : ∃ new, task = some new ∧
      s.scheduler.refusal? new.name = none ∧ s.scheduler.started = false ∧
      new.name ∉ s.scheduler.names ∧ t = { s with scheduler := s.scheduler.enroll new instant } := by
  cases task with
  | none => cases done
  | some new =>
    cases refusal : s.scheduler.refusal? new.name with
    | some fault =>
      simp only [register, Scheduler.register, refusal] at done
      cases done
    | none =>
      obtain ⟨unstarted, unregistered⟩ := Scheduler.refusal?_eq_none_iff.mp refusal
      rw [register_of_unrefused refusal] at done
      cases done
      exact ⟨new, rfl, refusal, unstarted, unregistered, rfl⟩

/-- A fault is reported if the task is refused, and then the scheduler and the task that was offered are as
they were. -/
theorem register_eq_error {s : Dispatcher} {task : Option Task} {instant : Instant} {fault : Fault}
    (refused : s.register task instant = .error fault) : s.scheduler.register task instant =
      { fault? := some fault, offered := task, scheduler := s.scheduler } := by
  apply Scheduler.register_of_fault
  unfold register at refused
  split at refused
  · rename_i reason reported
    cases refused
    exact reported
  · cases refused

/-- Something speaks against a task that is refused. -/
theorem refusal?_of_error {s : Dispatcher} {new : Task} {instant : Instant} {fault : Fault}
    (refused : s.register (some new) instant = .error fault) :
    s.scheduler.refusal? new.name ≠ none := by
  intro unrefused
  rw [register_of_unrefused unrefused] at refused
  cases refused

/-- A worker that takes a job gets it from the pool, and enters the body of the job's task. -/
theorem take?_eq_some {s t : Dispatcher} (taken : s.take? = some t) : ∃ name after pool,
    s.scheduler.pool = some pool ∧ pool.take? (fun n => ⟨n, s.clock⟩) = some (name, after) ∧
      t.scheduler = { s.scheduler with pool := some after }.modifyTask name Task.enter ∧
      t.sink = s.sink := by
  simp only [take?, Option.map_eq_some_iff, Option.bind_eq_some_iff] at taken
  obtain ⟨⟨name, after⟩, ⟨pool, present, taken⟩, rfl⟩ := taken
  exact ⟨name, after, pool, present, taken, rfl, rfl⟩

end Dispatcher

namespace Moment

/-- The ways in which a move leads from a moment to the next. -/
inductive Makes (m : Moment) : Move → Moment → Prop
  /-- A task is registered. -/
  | registered {new : Task} {instant : Instant} (idle : m.idle = true)
    (unrefused : m.dispatcher.scheduler.refusal? new.name = none)
    (unstarted : m.dispatcher.scheduler.started = false)
    (unregistered : new.name ∉ m.dispatcher.scheduler.names) :
    m.Makes (.register (some new) instant) (m.withDispatcher
      { m.dispatcher with scheduler := m.dispatcher.scheduler.enroll new instant })
  /-- A registration is refused. -/
  | refused {task : Option Task} {instant : Instant} {fault : Fault} (idle : m.idle = true)
    (refused : m.dispatcher.register task instant = .error fault) :
    m.Makes (.register task instant) m
  | started (idle : m.idle = true) : m.Makes .start (m.withDispatcher m.dispatcher.start)
  | begun {now : Instant} (idle : m.idle = true) : m.Makes (.tick now) (m.beginTick now)
  /-- A chore is done. -/
  | performed {chore : Chore} {rest : List Chore} {result : Chore.Result} {t : Dispatcher}
    (left : m.chores = chore :: rest) (done : m.dispatcher.perform m.now chore = (result, t)) :
    m.Makes .chore { m with
      dispatcher := t, chores := result.next rest, verdict := result.verdict m.verdict }
  | noted {line : Line} (idle : m.idle = true) :
    m.Makes (.note line) (m.withDispatcher (m.dispatcher.note line.level line.text))
  | acted {action : Action} {t : Dispatcher} (done : m.dispatcher.act action = .ok t) :
    m.Makes (.act action) (m.withDispatcher t)
  /-- An action from outside fails. -/
  | failed {what : String} : m.Makes (.act (.raise what)) m
  | hooked {hook : Hook} : m.Makes (.hook hook) (m.withDispatcher (m.dispatcher.addHook hook))
  | taken {t : Dispatcher} (taken : m.dispatcher.take? = some t) : m.Makes .take (m.withDispatcher t)
  | finished {run : Run} (held : run ∈ m.dispatcher.held)
    (ready : m.dispatcher.ready run = true) :
    m.Makes (.finish run) (m.withDispatcher (m.dispatcher.finish run))

/-- Every step is one of those listed. -/
theorem makes {m m' : Moment} {move : Move} (made : m.step? move = some m') : m.Makes move m' := by
  cases move with
  | register task instant =>
    simp only [step?] at made
    split at made
    · rename_i idle
      cases done : m.dispatcher.register task instant with
      | ok t =>
        obtain ⟨new, rfl, unrefused, unstarted, unregistered, rfl⟩ := Dispatcher.register_eq_ok done
        rw [Dispatcher.modifyScheduler, Scheduler.register_of_unrefused unrefused] at made
        cases made
        exact .registered idle unrefused unstarted unregistered
      | error fault =>
        rw [Dispatcher.modifyScheduler, Dispatcher.register_eq_error done] at made
        cases made
        exact .refused idle done
    · cases made
  | start =>
    simp only [step?] at made
    split at made
    · cases made
      exact .started ‹_›
    · cases made
  | tick now =>
    simp only [step?] at made
    split at made
    · cases made
      exact .begun ‹_›
    · cases made
  | chore =>
    simp only [step?, doChore?] at made
    split at made
    · cases made
    rename_i chore rest left
    split at made
    all_goals
      rename_i done
      cases made
      exact .performed left done
  | note line =>
    simp only [step?] at made
    split at made
    · cases made
      exact .noted ‹_›
    · cases made
  | act action =>
    simp only [step?] at made
    split at made
    · rename_i t done
      cases made
      exact .acted done
    · rename_i fault refused
      cases made
      cases action with
      | raise what => exact .failed
      | _ => cases refused
  | hook hook =>
    cases made
    exact .hooked
  | take =>
    obtain ⟨t, taken, rfl⟩ := Option.map_eq_some_iff.mp made
    exact .taken taken
  | finish run =>
    simp only [step?] at made
    split at made
    · rename_i may
      cases made
      exact .finished may.1 may.2
    · cases made

variable {m : Moment}

/-- A registration that is not refused is a step. -/
theorem step?_register (idle : m.idle = true) {new : Task}
    (unrefused : m.dispatcher.scheduler.refusal? new.name = none) (instant : Instant) :
    m.step? (.register (some new) instant) = some (m.withDispatcher
      { m.dispatcher with scheduler := m.dispatcher.scheduler.enroll new instant }) := by
  simp only [step?, idle, if_true, Dispatcher.modifyScheduler,
    Scheduler.register_of_unrefused unrefused]

/-- A registration that is refused is a step that leaves everything as it was. -/
theorem step?_register_of_error (idle : m.idle = true) {task : Option Task} {instant : Instant}
    {fault : Fault} (refused : m.dispatcher.register task instant = .error fault) :
    m.step? (.register task instant) = some m := by
  simp only [step?, idle, if_true, Dispatcher.modifyScheduler, Dispatcher.register_eq_error refused]
  rfl

end Moment

end Cadence
