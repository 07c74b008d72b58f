import Cadence.Proofs.Soundness

/-!
Runs of a scheduler at work, with their history.

A history lists the steps of a run, each with the moment before it.  For one task it is a list of
turns, and the run is a path of that task's standing (`Moment.Passes.path`).  `Moment.follow` carries
out a list of moves.
-/

namespace Cadence

/-- A step of a run: the moment before it, and the move that is made. -/
structure Stage where
  /-- The moment before. -/
  before : Moment
  /-- The move. -/
  move : Move
  deriving DecidableEq, Repr

/-- What a step of a run means to the task of a name. -/
def Stage.turn (stage : Stage) (name : String) : Turn := stage.before.turn name stage.move

/-- What the steps of a run mean to the task of a name. -/
def History.turns (h : History Stage) (name : String) : History Turn := h.map (·.turn name)

/-- Moves that register tasks of a kind only, and act in a way only. -/
def Move.Within (task : Task → Prop) (action : Action → Prop) : Move → Prop
  | .register (some new) _ => task new
  | .act a => action a
  | .hook added => action added.action
  | _ => True

/-- Actions that do not fail. -/
def Action.Quiet (a : Action) : Prop := ∀ what, a ≠ .raise what

/-- What such moves can mean to the task of a name. -/
def Turn.Within (task : Task → Prop) (action : Action → Prop) (name : String) : Turn → Prop
  | .enrolled new _ => task new
  | .assigned => ∃ health, action (.setHealth name health)
  | .failure => ∃ what, action (.raise what)
  | .aside | .slot | .stop => True

/-- What can befall a task, turn by turn, from before it is registered. -/
inductive Standing.Path (may : Turn → Prop) : History Turn → Standing → Prop
  | start : Path may [] Standing.absent
  | step {turns : History Turn} {st st' : Standing} {turn : Turn} (before : Path may turns st)
    (allowed : may turn) (step : st.Step turn st') : Path may (turn :: turns) st'

/-- Nothing was recorded for a task that is not registered, and nothing will be. -/
theorem Standing.Path.nothing {may : Turn → Prop} {turns : History Turn} {st : Standing}
    (path : Path may turns st) (missing : st.entry = none) :
    st.owed = [] ∧ ∀ event, st.counted event = 0 := by
  induction path with
  | start => exact ⟨rfl, fun _ => rfl⟩
  | @step turns st st' turn before allowed step ih =>
    cases step with
    | still => exact ih missing
    | assigned health => exact ih (Option.map_eq_none_iff.mp missing)
    | recorded next =>
      have nothing := (ih missing).1
      rw [next] at nothing
      cases nothing
    | failed => exact ⟨rfl, (ih missing).2⟩
    | _ => cases missing

namespace Moment

/-- A run of allowed moves leads from one moment to another, with this history. -/
inductive Passes (allowed : Move → Prop) (first : Moment) : History Stage → Moment → Prop
  | refl : Passes allowed first [] first
  | step {h : History Stage} {m m' : Moment} {move : Move} (before : Passes allowed first h m)
    (may : allowed move) (made : m.step? move = some m') :
    Passes allowed first (⟨m, move⟩ :: h) m'

variable {allowed : Move → Prop} {first m m' : Moment} {h : History Stage}

theorem Reaches.passes (reached : Reaches allowed first m) : ∃ h, Passes allowed first h m := by
  induction reached with
  | refl => exact ⟨[], .refl⟩
  | step before may made ih =>
    obtain ⟨h, passed⟩ := ih
    exact ⟨_, .step passed may made⟩

theorem Passes.reaches (passed : Passes allowed first h m) : Reaches allowed first m := by
  induction passed with
  | refl => exact .refl
  | step before may made ih => exact .step ih may made

/-- Carries out moves, one after the other, if all can be made. -/
def follow (run : History Stage × Moment) : List Move → Option (History Stage × Moment)
  | [] => some run
  | move :: rest =>
    (run.2.step? move).bind fun next => follow (⟨run.2, move⟩ :: run.1, next) rest

theorem passes_of_follow {moves : List Move} {h' : History Stage}
    (passed : Passes allowed first h m) (may : ∀ move ∈ moves, allowed move)
    (followed : follow (h, m) moves = some (h', m')) : Passes allowed first h' m' := by
  induction moves generalizing h m with
  | nil =>
    cases followed
    exact passed
  | cons move rest ih =>
    obtain ⟨next, made, followed⟩ := Option.bind_eq_some_iff.mp followed
    exact ih (.step passed (may move List.mem_cons_self) made)
      (fun other member => may other (List.mem_cons_of_mem _ member)) followed

/-- Where some moves lead, and the history on the way; nowhere, if one of them cannot be made. -/
def lead (first : Moment) (moves : List Move) : History Stage × Moment :=
  (follow ([], first) moves).getD ([], first)

theorem passes_lead {moves : List Move} (may : ∀ move ∈ moves, allowed move)
    (carried : (follow ([], first) moves).isSome = true) :
    Passes allowed first (lead first moves).1 (lead first moves).2 := by
  obtain ⟨last, followed⟩ := Option.isSome_iff_exists.mp carried
  refine passes_of_follow .refl may ?_
  rw [lead, followed, Option.getD_some]

theorem Passes.mono {more : Move → Prop} (wider : ∀ move, allowed move → more move)
    (passed : Passes allowed first h m) : Passes more first h m := by
  induction passed with
  | refl => exact .refl
  | step before may made ih => exact .step ih (wider _ may) made

/-- A run can be continued by another. -/
theorem Passes.append {h' : History Stage} (passed : Passes allowed first h m)
    (passed' : Passes allowed m h' m') : Passes allowed first (h' ++ h) m' := by
  induction passed' with
  | refl => exact passed
  | step before may made ih => exact .step ih may made

/-- A run can be cut into two. -/
theorem Passes.of_append {later earlier : History Stage}
    (passed : Passes allowed first (later ++ earlier) m) :
    ∃ between, Passes allowed first earlier between ∧ Passes allowed between later m := by
  induction later generalizing m with
  | nil => exact ⟨m, passed, .refl⟩
  | cons stage later ih =>
    cases passed with
    | step before may made =>
      obtain ⟨between, sooner, last⟩ := ih before
      exact ⟨between, sooner, .step last may made⟩

/-- What is done before a step of a run is a run. -/
theorem Passes.split (passed : Passes allowed first h m) {stage : Stage} (member : stage ∈ h) :
    ∃ later earlier, h = later ++ earlier ∧ Passes allowed first earlier stage.before := by
  induction passed with
  | refl => cases member
  | @step h m m' move before may made ih =>
    rcases List.mem_cons.mp member with rfl | old
    · exact ⟨[⟨m, move⟩], h, rfl, before⟩
    · obtain ⟨later, earlier, same, passed⟩ := ih old
      exact ⟨⟨m, move⟩ :: later, earlier, congrArg _ same, passed⟩

/-- Every event of a task was recorded. -/
def Told (m : Moment) (name : String) : Prop := ∀ event, .record event name ∉ m.chores

theorem Told.owed {name : String} (told : m.Told name) : (m.standing name).owed = [] := by
  apply List.filterMap_eq_nil_iff.mpr
  intro c member
  cases c with
  | record event target =>
    have other : target ≠ name := by
      rintro rfl
      exact told event member
    simp [Chore.owes?, other]
  | _ => rfl

/-! ## Turns of a run -/

variable {task : Task → Prop} {action : Action → Prop} {workers : Nat} {scheduler : Scheduler}

/-- The hooks of a run act as its moves allow, if those that were there before do. -/
theorem Passes.hooks_of (hooked : ∀ hook ∈ first.dispatcher.sink.hooks, action hook.action)
    (passed : Passes (Move.Within task action) first h m) :
    ∀ hook ∈ m.dispatcher.sink.hooks, action hook.action := by
  induction passed with
  | refl => exact hooked
  | step before may made ih =>
    rcases sink_step made with same | ⟨key, counted⟩ | ⟨added, rfl, after⟩
    · exact same ▸ ih
    · exact counted ▸ ih
    · intro hook member
      rw [after] at member
      rcases List.mem_append.mp member with old | new
      · exact ih hook old
      · rw [List.mem_singleton] at new
        exact new ▸ may

theorem Passes.hooks (passed : Passes (Move.Within task action) (initial scheduler) h m) :
    ∀ hook ∈ m.dispatcher.sink.hooks, action hook.action :=
  passed.hooks_of (by simp [initial])

/-- The counters count the events that are listed. -/
theorem Reaches.counted (created : Scheduler.create workers = .ok scheduler)
    (reached : Reaches allowed (initial scheduler) m) (key : Tally.Key) :
    m.dispatcher.sink.tally.count key = UInt64.ofNat (m.dispatcher.sink.events.count key) := by
  induction reached with
  | refl => rfl
  | @step m₁ m₂ move before may made ih =>
    have ascending := (before.sound created).counters
    rcases sink_step made with same | ⟨other, counted⟩ | ⟨hook, _, added⟩
    · rw [same]
      exact ih
    · rw [counted]
      by_cases same : other = key
      · subst same
        simp only [Sink.record, Tally.count_record_self ascending, List.count_cons_self, ih]
        exact (UInt64.ofNat_add _ 1).symm
      · simp only [Sink.record, Tally.count_record_of_ne _ (Ne.symm same),
          List.count_cons_of_ne same, ih]
    · rw [added]
      exact ih

/-- A chore means to a task what the hooks allow. -/
theorem turn_of_chore (sound : m.Sound)
    (hooks : ∀ hook ∈ m.dispatcher.sink.hooks, action hook.action) {chore : Chore}
    {rest : List Chore} (left : m.chores = chore :: rest) (name : String) :
    (m.dispatcher.turn m.now name chore).Within task action name := by
  cases chore with
  | consider target =>
    unfold Dispatcher.turn
    repeat' split
    all_goals trivial
  | record event target => trivial
  | note line => trivial
  | act answer =>
    obtain ⟨hook, hooked, same⟩ := sound.answered answer (by simp [left])
    have may : action answer := same ▸ hooks hook hooked
    cases answer with
    | setHealth target health =>
      by_cases same : target = name
      · rw [Dispatcher.turn, if_pos same]
        exact ⟨health, same ▸ may⟩
      · rw [Dispatcher.turn, if_neg same]
        trivial
    | raise what => exact ⟨what, may⟩
    | _ => trivial

/-- A move means to a task what it is allowed to. -/
theorem turn_within (sound : m.Sound)
    (hooks : ∀ hook ∈ m.dispatcher.sink.hooks, action hook.action) {move : Move}
    (may : move.Within task action) (name : String) :
    (m.turn name move).Within task action name := by
  cases move with
  | register new instant =>
    cases new with
    | none => trivial
    | some new =>
      rw [turn]
      split
      · exact may
      · trivial
  | chore =>
    cases left : m.chores with
    | nil => simp [turn, left, Turn.Within]
    | cons chore rest =>
      have meaning : (m.dispatcher.turn m.now name chore).Within task action name :=
        turn_of_chore sound hooks left name
      simpa [turn, left] using meaning
  | act a =>
    cases a with
    | setHealth target health =>
      by_cases same : target = name
      · rw [turn, if_pos same]
        exact ⟨health, same ▸ may⟩
      · rw [turn, if_neg same]
        trivial
    | _ => trivial
  | _ => trivial

theorem standing_initial (created : Scheduler.create workers = .ok scheduler) (name : String) :
    (initial scheduler).standing name = Standing.absent := by
  obtain ⟨_, rfl⟩ := Scheduler.eq_of_create created
  rfl

/-- A run is, for every name, a path of that task's standing. -/
theorem Passes.path (created : Scheduler.create workers = .ok scheduler)
    (passed : Passes (Move.Within task action) (initial scheduler) h m) (name : String) :
    Standing.Path (Turn.Within task action name) (h.turns name) (m.standing name) := by
  induction passed with
  | refl =>
    rw [standing_initial created]
    exact .start
  | step before may made ih =>
    have sound := before.reaches.sound created
    have meaning := turn_within sound before.hooks may name
    exact .step ih meaning (standing_step sound made name)

end Moment

/-! ## A sample run

One worker and one task, whose body waits for a permit.  The task is started, a worker enters its
body, and its next slot comes due before it gets a permit. -/

namespace Sample

/-- The task. -/
def gated : Task where
  name := "gated"
  interval := ⟨1000⟩
  capabilities := .none
  body := { wait := .permit }
  name_ne := by decide
  interval_pos := by decide

/-- Another task, whose body does not wait. -/
def brief : Task where
  name := "brief"
  interval := ⟨1000⟩
  capabilities := .none
  body := {}
  name_ne := by decide
  interval_pos := by decide

/-- The scheduler. -/
def scheduler : Scheduler := { workers := 1, workers_pos := Nat.one_pos }

theorem created : Scheduler.create 1 = .ok scheduler := rfl

/-- What is done, one thing after the other. -/
def moves : List Move :=
  [.register (some gated) .epoch, .act (.setEnabled true), .tick ⟨1000000000⟩, .chore, .take,
    .tick ⟨2000000000⟩, .chore, .chore, .chore, .chore]

/-- The history of the run, and the moment it leads to. -/
def run : History Stage × Moment :=
  (Moment.follow ([], .initial scheduler) moves).getD ([], .initial scheduler)

theorem passes {allowed : Move → Prop} (may : ∀ move ∈ moves, allowed move) :
    Moment.Passes allowed (.initial scheduler) run.1 run.2 := by
  exact Moment.passes_lead may (by decide +kernel)

end Sample

end Cadence
