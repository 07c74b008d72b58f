import Cadence.Proofs.Execution

/-!
Timetables.

The row of a task says how often a slot of it comes due, and when the next one does.  Only the evaluation
of a task changes its row (`Dispatcher.plan_consider`): what the workers, the controls and sleeping bodies
do leaves the timetable as it is.  So a tick that goes on serves each row once (`Dispatcher.plan_tick`),
and the shortest interval is always the least of those in the timetable (`Moment.Reaches.gauged`).
-/

namespace Cadence

/-- When a task comes due. -/
structure Row where
  name : String
  interval : Millis
  /-- The instant its next slot comes due. -/
  due : Instant

namespace Row

/-- The next slot is taken. -/
def next (r : Row) : Row := { r with due := r.due.after r.interval }

/-- The next slot is taken if it is due. -/
def serve (now : Instant) (r : Row) : Row := if now < r.due then r else r.next

variable (now : Instant) (r : Row)

@[simp] theorem name_next : r.next.name = r.name := by
  -- by cases on the row: the two due times are never to be compared by computation
  obtain ⟨name, interval, due⟩ := r
  show (Row.mk name interval (due.after interval)).name = name
  rfl

@[simp] theorem interval_next : r.next.interval = r.interval := by
  obtain ⟨name, interval, due⟩ := r
  show (Row.mk name interval (due.after interval)).interval = interval
  rfl

@[simp] theorem name_serve : (r.serve now).name = r.name := by
  unfold serve
  split
  · rfl
  · exact r.name_next

@[simp] theorem interval_serve : (r.serve now).interval = r.interval := by
  unfold serve
  split
  · rfl
  · exact r.interval_next

end Row

def Entry.row (e : Entry) : Row := ⟨e.task.name, e.task.interval, e.due⟩

/-- What the dispatch loop goes by. -/
structure Plan where
  /-- The tasks, in the order of their registration. -/
  rows : List Row
  /-- How long the loop sleeps between two ticks. -/
  shortest : Millis

namespace Plan

def names (p : Plan) : List String := p.rows.map (·.name)

/-- The tasks of these names are evaluated. -/
def serve (now : Instant) (names : List String) (p : Plan) : Plan :=
  { p with rows := p.rows.map fun r => if r.name ∈ names then r.serve now else r }

def enroll (row : Row) (p : Plan) : Plan :=
  { rows := p.rows ++ [row], shortest := p.shortest.shorter row.interval }

variable {now : Instant} {p : Plan} {name : String} {rest : List String}

@[simp] theorem shortest_serve (names : List String) : (p.serve now names).shortest = p.shortest := rfl

@[simp] theorem serve_nil : p.serve now [] = p := by simp [serve]

/-- The evaluation of tasks that are not due changes nothing. -/
theorem serve_of_early (early : ∀ r ∈ p.rows, r.name ∈ rest → now < r.due) : p.serve now rest = p := by
  have same : (p.rows.map fun r => if r.name ∈ rest then r.serve now else r) = p.rows.map id := by
    apply List.map_congr_left
    intro r member
    split
    · rename_i named
      exact if_pos (early r member named)
    · rfl
  rw [serve, same, List.map_id]

@[simp] theorem names_serve (names : List String) : (p.serve now names).names = p.names := by
  simp only [Plan.names, serve, List.map_map]
  apply List.map_congr_left
  intro r _
  rw [Function.comp_apply]
  split <;> simp

/-- Tasks are evaluated one after the other. -/
theorem serve_cons (absent : name ∉ rest) :
    (p.serve now [name]).serve now rest = p.serve now (name :: rest) := by
  simp only [serve, List.map_map, mk.injEq, and_true]
  apply List.map_congr_left
  intro r _
  by_cases same : r.name = name
  · simp [same, absent]
  · simp [same]

/-- The evaluation of all tasks. -/
theorem serve_names : (p.serve now p.names).rows = p.rows.map (Row.serve now) := by
  apply List.map_congr_left
  intro r member
  exact if_pos (List.mem_map_of_mem member)

/-- The shortest interval is the least of all. -/
def Gauged (p : Plan) : Prop := p.shortest = (p.rows.map (·.interval)).foldl Millis.shorter .longest

theorem Gauged.serve (gauged : p.Gauged) (names : List String) : (p.serve now names).Gauged := by
  have intervals : (p.serve now names).rows.map (·.interval) = p.rows.map (·.interval) := by
    simp only [Plan.serve, List.map_map]
    apply List.map_congr_left
    intro r _
    rw [Function.comp_apply]
    split <;> simp
  rw [Gauged, intervals]
  exact gauged

theorem Gauged.enroll (gauged : p.Gauged) (row : Row) : (p.enroll row).Gauged := by
  simp only [Gauged, Plan.enroll, List.map_append, List.foldl_append]
  rw [← gauged]
  rfl

end Plan

namespace Scheduler

def plan (s : Scheduler) : Plan := ⟨s.entries.map Entry.row, s.minInterval⟩

variable (s : Scheduler)

theorem names_plan : s.plan.names = s.names := by
  simp [Plan.names, plan, names, Entry.row]

/-- A change of a task that leaves its row alone. -/
theorem plan_modifyTask (name : String) {f : Task → Task}
    (keeps : ∀ t, (f t).name = t.name ∧ (f t).interval = t.interval) :
    (s.modifyTask name f).plan = s.plan := by
  simp only [plan, modifyTask, modifyEntry, List.map_map, Plan.mk.injEq, and_true]
  apply List.map_congr_left
  intro e _
  rw [Function.comp_apply]
  split
  · simp [Entry.row, keeps]
  · rfl

/-- The slot of a task is consumed. -/
theorem plan_modifyEntry {name : String} {f : Entry → Entry} (takes : ∀ e, (f e).row = e.row.next) :
    (s.modifyEntry name f).plan =
      { s.plan with rows := s.plan.rows.map fun r => if r.name = name then r.next else r } := by
  simp only [plan, modifyEntry, List.map_map, Plan.mk.injEq, and_true]
  apply List.map_congr_left
  intro e _
  simp only [Function.comp_apply]
  by_cases same : e.task.name = name
  · rw [if_pos same, if_pos (show e.row.name = name from same), takes]
  · rw [if_neg same, if_neg (show ¬ e.row.name = name from same)]

@[simp] theorem plan_setContention (on : Bool) : (s.setContention on).plan = s.plan := by
  simp [plan, setContention, Entry.row, Function.comp_def]

@[simp] theorem plan_start : s.start.plan = s.plan := rfl

theorem plan_enroll (task : Task) (instant : Instant) : (s.enroll task instant).plan =
    s.plan.enroll ⟨task.name, task.interval, instant.after task.interval⟩ := by
  simp [plan, enroll, Plan.enroll, Entry.row]

end Scheduler

namespace Entry

variable (e : Entry)

theorem row_next : e.row.next = ⟨e.task.name, e.task.interval, e.due.after e.task.interval⟩ := rfl

theorem row_consumeSlot : e.consumeSlot.row = e.row.next := by
  rw [row_next, row, task_consumeSlot, due_consumeSlot]

theorem row_startRun (now : Instant) : (e.startRun now).row = e.row.next := by
  rw [row_next, row, task_startRun, due_startRun, Task.mark]

theorem row_demote (health : Health) : (e.demote health).row = e.row.next := by
  rw [row_next, row, task_demote, due_demote]

end Entry

namespace Dispatcher

variable {s t : Dispatcher}

/-! ## What leaves the timetable as it is -/

theorem plan_act {action : Action} (done : s.act action = .ok t) :
    t.scheduler.plan = s.scheduler.plan := by
  cases action with
  | setMode mode =>
    cases done
    simp [setMode, Scheduler.plan]
  | setEnabled on =>
    cases done
    simp [setEnabled, Scheduler.plan]
  | setContention on =>
    cases done
    exact Scheduler.plan_setContention _ on
  | setHealth name health =>
    cases done
    exact Scheduler.plan_modifyTask _ name fun _ => ⟨rfl, rfl⟩
  | permit name =>
    cases done
    exact Scheduler.plan_modifyTask _ name fun _ => ⟨rfl, rfl⟩
  | advance ns =>
    cases done
    rfl
  | raise what => cases done

theorem plan_finish (s : Dispatcher) (run : Run) : (s.finish run).scheduler.plan = s.scheduler.plan :=
  Scheduler.plan_modifyTask { s.scheduler with pool := s.scheduler.pool.map (·.release run) } run.name
    fun _ => ⟨rfl, rfl⟩

theorem plan_take? (taken : s.take? = some t) : t.scheduler.plan = s.scheduler.plan := by
  obtain ⟨name, after, pool, _, _, scheduler, _⟩ := take?_eq_some taken
  rw [scheduler]
  exact Scheduler.plan_modifyTask { s.scheduler with pool := some after } name fun _ => ⟨rfl, rfl⟩

theorem plan_work? (worked : s.work? = some t) : t.scheduler.plan = s.scheduler.plan := by
  cases found : s.held.find? s.ready with
  | some run =>
    simp only [work?, finish?, found, Option.map_some, Option.some_or, Option.some.injEq] at worked
    subst worked
    exact s.plan_finish run
  | none =>
    simp only [work?, finish?, found, Option.map_none, Option.none_or] at worked
    exact plan_take? worked

theorem plan_settle (s : Dispatcher) : s.settle.scheduler.plan = s.scheduler.plan :=
  exhaust_invariant (fun t => t.scheduler.plan = s.scheduler.plan)
    (fun _ _ same worked => (plan_work? worked).trans same) s.weight s rfl

theorem plan_sleepUntil (s : Dispatcher) (instant : Instant) :
    (s.sleepUntil instant).scheduler.plan = s.scheduler.plan := by
  refine exhaust_invariant (fun t => t.scheduler.plan = s.scheduler.plan) ?_ s.weight s rfl
  intro u v same woke
  obtain ⟨next, _, rfl⟩ := Option.map_eq_some_iff.mp woke
  rw [plan_settle]
  exact same

theorem plan_opened (s : Dispatcher) : s.opened.scheduler.plan = s.scheduler.plan := by
  unfold opened
  split <;> simp

/-! ## Evaluations -/

/-- The evaluation of a task serves its row. -/
theorem plan_consider {target : String} {now : Instant} {result : Chore.Result}
    (distinct : s.scheduler.names.Nodup) (done : s.perform now (.consider target) = (result, t)) :
    t.scheduler.plan = s.scheduler.plan.serve now [target] := by
  -- the row of the name is that of the entry that is evaluated
  have row : ∀ r ∈ s.scheduler.plan.rows, r.name = target →
      ∃ e, s.scheduler.entry? target = some e ∧ r = e.row := by
    intro r member named
    obtain ⟨e, registered, rfl⟩ := List.mem_map.mp member
    exact ⟨e, named ▸ Scheduler.entry?_of_mem distinct registered, rfl⟩
  have taken : ∀ {f : Entry → Entry} {e : Entry}, s.Due target now e → (∀ e, (f e).row = e.row.next) →
      (s.scheduler.modifyEntry target f).plan = s.scheduler.plan.serve now [target] := by
    intro f e due takes
    rw [Scheduler.plan_modifyEntry _ takes]
    simp only [Plan.serve, List.mem_singleton, Plan.mk.injEq, and_true]
    apply List.map_congr_left
    intro r member
    split
    · rename_i named
      obtain ⟨e', found, rfl⟩ := row r member named
      rw [due.found] at found
      cases found
      exact (if_neg due.due).symm
    · rfl
  have considers := considers done
  generalize t.scheduler = scheduler at considers
  cases considers with
  | notDue early =>
    refine (Plan.serve_of_early ?_).symm
    intro r member named
    obtain ⟨e, found, rfl⟩ := row r member (List.mem_singleton.mp named)
    exact early e found
  | muted e due muted => exact taken due Entry.row_consumeSlot
  | refused e due audible denied => exact taken due Entry.row_consumeSlot
  | blocked e due audible admitted busy critical => exact taken due Entry.row_consumeSlot
  | demoted e next report due audible admitted busy overrun =>
    exact taken due fun e => e.row_demote next
  | started e pool due audible admitted free submitted => exact taken due fun e => e.row_startRun now
  | rejected e fault due free refused => exact taken due fun e => e.row_startRun now

/-- No other chore touches a row. -/
theorem plan_perform {now : Instant} {chore : Chore} {result : Chore.Result} (lower : chore.level < 3)
    (done : s.perform now chore = (result, t)) : t.scheduler.plan = s.scheduler.plan := by
  cases chore with
  | consider target => exact absurd lower (Nat.lt_irrefl 3)
  | record event target =>
    cases done
    rfl
  | note line =>
    cases done
    rfl
  | act action =>
    simp only [perform] at done
    split at done
    · rename_i acted
      cases done
      exact plan_act acted
    · cases done
      rfl

theorem plan_inOrder {α : Type} {f : α → Dispatcher → Verdict × Dispatcher} {as : List α}
    (keeps : ∀ a ∈ as, ∀ s, (f a s).2.scheduler.plan = s.scheduler.plan) (s : Dispatcher) :
    (inOrder f as s).2.scheduler.plan = s.scheduler.plan := by
  induction as generalizing s with
  | nil => rfl
  | cons a rest ih =>
    have first := keeps a List.mem_cons_self s
    unfold inOrder
    split
    · rename_i t done
      rw [done] at first
      exact (ih (fun b member => keeps b (List.mem_cons_of_mem a member)) t).trans first
    · exact first

/-- What an evaluation leads to leaves the timetable as it is. -/
theorem plan_fulfil_of_lower {now : Instant} {c : Chore} (lower : c.level < 3) (s : Dispatcher) :
    (fulfil now c s).2.scheduler.plan = s.scheduler.plan := by
  generalize bound : c.level = level
  induction level using Nat.strongRecOn generalizing c s with
  | ind level ih =>
    rw [fulfil_eq]
    cases performed : s.perform now c with
    | mk result u =>
      have first := plan_perform lower performed
      cases result with
      | proceed further =>
        refine Eq.trans (plan_inOrder ?_ u.settle) (u.plan_settle.trans first)
        intro d member v
        have less := level_lt_of_perform performed d member
        exact ih d.level (bound ▸ less) (by omega) v rfl
      | stop => exact u.plan_settle.trans first
      | fail fault => exact u.plan_settle.trans first

/-- An evaluation, with all that it leads to, serves the row of its task. -/
theorem plan_fulfil (now : Instant) (target : String) (distinct : s.scheduler.names.Nodup) :
    (fulfil now (.consider target) s).2.scheduler.plan = s.scheduler.plan.serve now [target] := by
  rw [fulfil_eq]
  cases performed : s.perform now (.consider target) with
  | mk result u =>
    have first := plan_consider distinct performed
    cases result with
    | proceed further =>
      refine Eq.trans (plan_inOrder ?_ u.settle) (u.plan_settle.trans first)
      intro d member v
      exact plan_fulfil_of_lower (level_lt_of_perform performed d member) v
    | stop => exact u.plan_settle.trans first
    | fail fault => exact u.plan_settle.trans first

/-- Evaluations in order, all of which go on, serve the rows of their tasks. -/
theorem plan_evaluations {now : Instant} {names : List String} (once : names.Nodup)
    (distinct : s.scheduler.names.Nodup)
    (done : inOrder (fulfil now) (names.map .consider) s = (.proceed, t)) :
    t.scheduler.plan = s.scheduler.plan.serve now names := by
  induction names generalizing s with
  | nil =>
    cases done
    simp
  | cons name rest ih =>
    obtain ⟨absent, once⟩ := List.nodup_cons.mp once
    have first := plan_fulfil now name distinct
    simp only [List.map_cons, inOrder] at done
    cases fulfilled : fulfil now (.consider name) s with
    | mk verdict u =>
      rw [fulfilled] at done first
      cases verdict with
      | proceed =>
        have distinct' : u.scheduler.names.Nodup := by
          rw [← Scheduler.names_plan, first, Plan.names_serve, Scheduler.names_plan]
          exact distinct
        rw [ih once distinct' done, first, Plan.serve_cons absent]
      | stop => cases done
      | fail fault => cases done

/-- A tick that goes on serves each row, if evaluation is enabled. -/
theorem plan_tick {now : Instant} (distinct : s.scheduler.names.Nodup)
    (enabled : s.scheduler.enabled = true) (done : s.tick now = (.proceed, t)) :
    t.scheduler.plan.rows = s.scheduler.plan.rows.map (Row.serve now) ∧
      t.scheduler.plan.shortest = s.scheduler.plan.shortest := by
  have names : s.opened.scheduler.names = s.scheduler.names := by
    rw [← Scheduler.names_plan, plan_opened, Scheduler.names_plan]
  rw [tick, agenda, if_pos enabled] at done
  have served := plan_evaluations distinct (names.symm ▸ distinct) done
  rw [plan_opened] at served
  constructor
  · rw [served, ← Scheduler.names_plan, Plan.serve_names]
  · rw [served, Plan.shortest_serve]

end Dispatcher

/-! ## Moves -/

namespace Moment

variable {m m' : Moment} {move : Move} {workers : Nat} {scheduler : Scheduler} {allowed : Move → Prop}

/-- A step leaves the timetable as it is, or adds a row, or serves one. -/
theorem plan_cases (sound : m.Sound) (made : m.step? move = some m') :
    m'.dispatcher.scheduler.plan = m.dispatcher.scheduler.plan ∨
      (∃ row, m'.dispatcher.scheduler.plan = m.dispatcher.scheduler.plan.enroll row) ∨
      ∃ now name, m'.dispatcher.scheduler.plan = m.dispatcher.scheduler.plan.serve now [name] := by
  cases makes made with
  | @registered new instant _ _ _ _ =>
    exact .inr (.inl ⟨_, Scheduler.plan_enroll _ new instant⟩)
  | refused _ _ => exact .inl rfl
  | started _ => exact .inl (by simp [withDispatcher])
  | begun _ => exact .inl m.dispatcher.plan_opened
  | @performed chore rest result t left done =>
    cases chore with
    | consider name => exact .inr (.inr ⟨m.now, name, Dispatcher.plan_consider sound.scheduler.distinct done⟩)
    | record event name => exact .inl (Dispatcher.plan_perform (by simp [Chore.level]) done)
    | note line => exact .inl (Dispatcher.plan_perform (by simp [Chore.level]) done)
    | act action => exact .inl (Dispatcher.plan_perform (by simp [Chore.level]) done)
  | noted _ => exact .inl rfl
  | acted done => exact .inl (Dispatcher.plan_act done)
  | failed => exact .inl rfl
  | hooked => exact .inl rfl
  | taken taken => exact .inl (Dispatcher.plan_take? taken)
  | finished held ready => exact .inl (Dispatcher.plan_finish _ _)

/-- The shortest interval is the least of all, whatever happened. -/
theorem Reaches.gauged (created : Scheduler.create workers = .ok scheduler)
    (reached : Reaches allowed (initial scheduler) m) : m.dispatcher.scheduler.plan.Gauged := by
  induction reached with
  | refl =>
    obtain ⟨_, rfl⟩ := Scheduler.eq_of_create created
    rfl
  | step before may made ih =>
    rcases plan_cases (before.sound created) made with same | ⟨row, enrolled⟩ | ⟨now, name, served⟩
    · rw [same]
      exact ih
    · rw [enrolled]
      exact ih.enroll row
    · rw [served]
      exact ih.serve [name]

end Moment

end Cadence
