import Cadence.Dispatcher.Tick

/-!
Interleavings of the control thread with the workers.

A `Moment` is a dispatcher whose control thread may be in the middle of a tick; a `Move` is one
step of the control thread, of a worker, or of somebody who uses the controls.  Between any two
chores of a tick any number of workers may take jobs or finish runs, in any order.
`Moment.Reaches` says that some sequence of moves, all of an allowed kind, leads from one moment
to another.
-/

namespace Cadence

/-- A dispatcher, and what its control thread still has to do in the tick it is in. -/
structure Moment where
  dispatcher : Dispatcher
  /-- The instant of the tick. -/
  now : Instant := .epoch
  /-- What is left to do; nothing between two ticks. -/
  chores : List Chore := []
  /-- What the tick has come to. -/
  verdict : Verdict := .proceed
  deriving DecidableEq, Repr

/-- A step that can be made. -/
inductive Move
  /-- The control thread registers a task. -/
  | register (task : Option Task) (instant : Instant)
  /-- The control thread makes the pool. -/
  | start
  /-- The control thread begins a tick. -/
  | tick (now : Instant)
  /-- The control thread does the next chore of its tick. -/
  | chore
  /-- The control thread logs a line between two ticks. -/
  | note (line : Line)
  /-- Somebody uses a control, gives a permit, or lets time pass. -/
  | act (action : Action)
  /-- Somebody adds a hook. -/
  | hook (hook : Hook)
  /-- A worker takes the front job. -/
  | take
  /-- A worker finishes a run. -/
  | finish (run : Run)
  deriving DecidableEq, Repr

namespace Moment

/-- Whether the control thread is between two ticks. -/
def idle (m : Moment) : Bool := m.chores.isEmpty

def beginTick (m : Moment) (now : Instant) : Moment :=
  { dispatcher := m.dispatcher.opened, now, chores := m.dispatcher.agenda }

/-- The control thread does its next chore. -/
def doChore? (m : Moment) : Option Moment :=
  match m.chores with
  | [] => none
  | chore :: rest =>
    match m.dispatcher.perform m.now chore with
    | (.proceed further, dispatcher) => some { m with dispatcher, chores := further ++ rest }
    | (.stop, dispatcher) => some { m with dispatcher, chores := [], verdict := .stop }
    | (.fail fault, dispatcher) => some { m with dispatcher, chores := [], verdict := .fail fault }

def withDispatcher (m : Moment) (dispatcher : Dispatcher) : Moment := { m with dispatcher }

/-- Makes a move, if it can be made.  A registration leaves what it leaves, whether or not it is refused;
an action that fails leaves everything as it was. -/
def step? (m : Moment) : Move → Option Moment
  | .register task instant =>
    if m.idle then
      some (m.withDispatcher
        (m.dispatcher.modifyScheduler fun scheduler => (scheduler.register task instant).scheduler))
    else none
  | .start => if m.idle then some (m.withDispatcher m.dispatcher.start) else none
  | .tick now => if m.idle then some (m.beginTick now) else none
  | .chore => m.doChore?
  | .note line =>
    if m.idle then some (m.withDispatcher (m.dispatcher.note line.level line.text)) else none
  | .act action =>
    match m.dispatcher.act action with
    | .ok dispatcher => some (m.withDispatcher dispatcher)
    | .error _ => some m
  | .hook hook => some (m.withDispatcher (m.dispatcher.addHook hook))
  | .take => m.dispatcher.take?.map m.withDispatcher
  | .finish run =>
    if run ∈ m.dispatcher.held ∧ m.dispatcher.ready run then
      some (m.withDispatcher (m.dispatcher.finish run))
    else none

/-- Some sequence of allowed moves leads from one moment to another. -/
inductive Reaches (allowed : Move → Prop) (m : Moment) : Moment → Prop
  | refl : Reaches allowed m m
  | step {m₁ m₂ : Moment} {move : Move} (before : Reaches allowed m m₁) (may : allowed move)
    (made : m₁.step? move = some m₂) : Reaches allowed m m₂

/-- The moment before anything happened. -/
def initial (scheduler : Scheduler) : Moment := { dispatcher := { scheduler } }

end Moment

end Cadence
