import Cadence.Dispatcher.Workers
import Cadence.Verdict

/-!
One evaluation of the due tasks.

The work of the control thread is cut into chores, and a chore may lead to others that come before
anything else: the evaluation of a task leads to events, an event to the actions that answer it.
`Dispatcher.perform` does a single chore; between two chores the workers may do as they like.  A
tick (`Dispatcher.tick`) does all its chores in order and lets the workers settle after each.
-/

namespace Cadence

/-- A piece of the control thread's work. -/
inductive Chore
  | consider (name : String)
  | record (event : Event) (name : String)
  | note (line : Line)
  /-- Does what a hook says. -/
  | act (action : Action)
  deriving DecidableEq, Repr

/-- How many levels of chores a chore opens, itself included: an evaluation leads to events, an
event to actions, and an action to nothing. -/
def Chore.level : Chore → Nat
  | consider _ => 3
  | record _ _ => 2
  | note _ | act _ => 1

theorem Chore.level_pos (c : Chore) : 0 < c.level := by cases c <;> simp [level]

/-- What a chore comes to. -/
inductive Chore.Result
  /-- The tick goes on, with further chores first. -/
  | proceed (chores : List Chore)
  /-- A critical task is blocked: the dispatch loop has to end. -/
  | stop
  | fail (fault : Fault)
  deriving DecidableEq, Repr

namespace Dispatcher

/-- Marks a task as in progress from an instant on (`Task::set_start_time`). -/
def mark (s : Dispatcher) (name : String) (now : Instant) : Dispatcher :=
  s.modifyScheduler (·.modifyTask name (·.mark now))

/-- Hands a task to the pool (`WorkerPool::submit`). -/
def submit (s : Dispatcher) (name : String) : Chore.Result × Dispatcher :=
  match s.scheduler.submit name with
  | .ok scheduler => (.proceed [], { s with scheduler })
  | .error fault => (.fail fault, s)

/-- Gives a task the health that follows an overrun.  A change is logged. -/
def demote (s : Dispatcher) (t : Task) (next : Health) : Dispatcher :=
  if next = t.health then s
  else
    (s.note .info ("Collector " ++ t.name ++ " " ++ t.health.name ++ " -> " ++ next.name)).setHealth
      t.name next

/-- What follows the demotion of a task: its report, if it is reported, and the slot skipped. -/
def skipChores (name : String) (report : Bool) : List Chore :=
  (if report then [Chore.record .markedSlow name] else []) ++
    [.note ⟨.info, "Collector " ++ name ++ " is still in progress, so skipping this interval"⟩,
     .record .skippedInProgress name]

/-- A due task is found still in progress: the end of `Scheduler::dispatch`, with `on_overrun`. -/
def overrun (s : Dispatcher) (t : Task) : Chore.Result × Dispatcher :=
  match t.overrun with
  | .stop =>
    (.stop, s.note .critical
      (t.name ++ " is still in progress; it is critical and cannot be skipped"))
  | .demote next report => (.proceed (skipChores t.name report), s.demote t next)

/-- The mode does not admit a due task (`can_schedule`). -/
def refuse (s : Dispatcher) (name : String) : Chore.Result × Dispatcher :=
  (.proceed [.record .skippedForMode name],
    s.note .debug ("Skipping " ++ name ++ " collector execution since running in collector mode " ++
      s.scheduler.mode.name))

/-- Evaluates a task whose slot has been consumed (`Scheduler::dispatch`).  The first of these holds: it is
muted, the mode does not admit it, it is still in progress, or it can start.  A task that starts is marked
and handed over; if the pool refuses it, it stays marked. -/
def evaluate (s : Dispatcher) (t : Task) (now : Instant) : Chore.Result × Dispatcher :=
  if t.health = .muted then (.proceed [.record .muted t.name], s)
  else if !t.admittedBy s.scheduler.mode then s.refuse t.name
  else if t.inProgress then s.overrun t
  else (s.mark t.name now).submit t.name

/-- Evaluates the task of a name, if it is due: the body of the loop in `Scheduler::tick`.  Its slot is
consumed, whatever comes of it. -/
def consider (s : Dispatcher) (name : String) (now : Instant) : Chore.Result × Dispatcher :=
  match s.scheduler.entry? name with
  | some e =>
    if now < e.due then (.proceed [], s)
    else (s.modifyScheduler (·.modifyEntry name Entry.consumeSlot)).evaluate e.task now
  | none => (.proceed [], s)

/-- Sends an event to its destination (`StatsSink::record`), and tells the actions that answer it. -/
def send (s : Dispatcher) (key : Tally.Key) : List Action × Dispatcher :=
  ((s.sink.record key).actions key, { s with sink := s.sink.record key })

/-- Does one chore of a tick at `now`. -/
def perform (now : Instant) (s : Dispatcher) : Chore → Chore.Result × Dispatcher
  | .consider name => s.consider name now
  | .record event name =>
    match s.send ⟨event, name⟩ with
    | (actions, s) => (.proceed (actions.map .act), s)
  | .note line => (.proceed [], s.note line.level line.text)
  | .act action =>
    match s.act action with
    | .ok s => (.proceed [], s)
    | .error fault => (.fail fault, s)

theorem level_of_mem_skipChores {name : String} {report : Bool} :
    ∀ c ∈ skipChores name report, c.level < 3 := by
  cases report <;> simp [skipChores, Chore.level]

theorem level_of_evaluate {s t : Dispatcher} {task : Task} {now : Instant} {chores : List Chore}
    (done : s.evaluate task now = (.proceed chores, t)) : ∀ c ∈ chores, c.level < 3 := by
  unfold evaluate refuse overrun submit at done
  split at done
  · cases done
    simp [Chore.level]
  split at done
  · cases done
    simp [Chore.level]
  split at done
  · split at done
    · cases done
    · cases done
      exact level_of_mem_skipChores
  · split at done
    · cases done
      simp
    · cases done

/-- The chores that a chore leads to are of a lower level. -/
theorem level_lt_of_perform {s t : Dispatcher} {now : Instant} {chore : Chore} {chores : List Chore}
    (done : s.perform now chore = (.proceed chores, t)) : ∀ c ∈ chores, c.level < chore.level := by
  cases chore with
  | consider name =>
    simp only [perform, consider] at done
    split at done
    · split at done
      · cases done
        simp
      · exact level_of_evaluate done
    · cases done
      simp
  | record event name =>
    cases done
    intro c member
    obtain ⟨action, _, rfl⟩ := List.mem_map.mp member
    simp [Chore.level]
  | note line =>
    cases done
    simp
  | act action =>
    simp only [perform] at done
    split at done
    · cases done
      simp
    · cases done

/-- Does one thing after the other, up to the first that does not let the tick go on. -/
def inOrder {α : Type} (f : α → Dispatcher → Verdict × Dispatcher) :
    List α → Dispatcher → Verdict × Dispatcher
  | [], s => (.proceed, s)
  | a :: rest, s =>
    match f a s with
    | (.proceed, s) => inOrder f rest s
    | ended => ended

theorem inOrder_congr {α : Type} {f g : α → Dispatcher → Verdict × Dispatcher} {as : List α}
    (same : ∀ a ∈ as, ∀ s, f a s = g a s) (s : Dispatcher) : inOrder f as s = inOrder g as s := by
  induction as generalizing s with
  | nil => rfl
  | cons a rest ih =>
    have tail := fun s => ih (fun b member => same b (List.mem_cons_of_mem a member)) s
    simp only [inOrder, same a List.mem_cons_self s, tail]

/-- Does a chore and, right after it, those it leads to, down to a number of levels.  The workers
settle after every chore. -/
def carryOut (now : Instant) : Nat → Chore → Dispatcher → Verdict × Dispatcher
  | 0, _, s => (.proceed, s)
  | depth + 1, chore, s =>
    match s.perform now chore with
    | (.proceed chores, s) => inOrder (carryOut now depth) chores s.settle
    | (.stop, s) => (.stop, s.settle)
    | (.fail fault, s) => (.fail fault, s.settle)

/-- Any depth of at least the level of a chore is deep enough. -/
theorem carryOut_eq_of_level_le {now : Instant} {m n : Nat} {c : Chore} (hm : c.level ≤ m)
    (hn : c.level ≤ n) (s : Dispatcher) : carryOut now m c s = carryOut now n c s := by
  induction m generalizing n c s with
  | zero => exact absurd hm (Nat.not_le_of_lt c.level_pos)
  | succ m ih =>
    cases n with
    | zero => exact absurd hn (Nat.not_le_of_lt c.level_pos)
    | succ n =>
      unfold carryOut
      split
      · rename_i chores t done
        refine inOrder_congr (fun d member s => ih ?_ ?_ s) t.settle
        · have := level_lt_of_perform done d member
          omega
        · have := level_lt_of_perform done d member
          omega
      · rfl
      · rfl

/-- Does a chore and all that it leads to. -/
def fulfil (now : Instant) (c : Chore) (s : Dispatcher) : Verdict × Dispatcher :=
  carryOut now c.level c s

/-- A chore is done by performing it, and then what it leads to. -/
theorem fulfil_eq (now : Instant) (c : Chore) (s : Dispatcher) : fulfil now c s =
    match s.perform now c with
    | (.proceed chores, s) => inOrder (fulfil now) chores s.settle
    | (.stop, s) => (.stop, s.settle)
    | (.fail fault, s) => (.fail fault, s.settle) := by
  unfold fulfil
  obtain ⟨depth, level⟩ : ∃ depth, c.level = depth + 1 := Nat.exists_eq_add_one.mpr c.level_pos
  rw [level, carryOut]
  split
  · rename_i chores t done
    refine inOrder_congr (fun d member s => carryOut_eq_of_level_le ?_ (Nat.le_refl _) s) t.settle
    have := level_lt_of_perform done d member
    omega
  · rfl
  · rfl

/-- What a tick has to do: to evaluate every task, in the order of registration, if evaluation is
enabled. -/
def agenda (s : Dispatcher) : List Chore :=
  if s.scheduler.enabled then s.scheduler.names.map .consider else []

/-- Makes ready for a tick: there is a pool, unless evaluation is disabled. -/
def opened (s : Dispatcher) : Dispatcher := if s.scheduler.enabled then s.start else s

/-- Evaluates the tasks at `now` (`Scheduler::tick`). -/
def tick (s : Dispatcher) (now : Instant) : Verdict × Dispatcher :=
  inOrder (fulfil now) s.agenda s.opened

end Dispatcher

end Cadence
