import Cadence.Proofs.Execution
import Cadence.Proofs.Outcomes

/-!
The proceedings of a tick.

However the workers interleave with a tick, it evaluates the tasks in the order of their registration, and
what was recorded, logged and handed over is what the findings of its evaluations say, in their order
(`Moment.Recounts`).  Between its evaluation and the ends of the tick a task keeps its slot and its start
time, and is marked by nobody (`Moment.Passes.kept`).  From these follows what a tick comes to, whatever
the hooks do short of raising a fault (`Moment.tick_accounted`).
-/

namespace Cadence

/-! ## What is done at a step -/

/-- The mode that an action sets. -/
def Action.mode? : Action → Option Mode
  | .setMode mode => some mode
  | _ => none

/-- The health that an action gives to the task of a name. -/
def Action.health? (name : String) : Action → Option Health
  | .setHealth target health => if target = name then some health else none
  | _ => none

namespace Stage

variable (stage : Stage)

/-- What is found, if a task is evaluated. -/
def finding? : Option Finding :=
  match stage.move, stage.before.chores with
  | .chore, .consider name :: _ => (stage.before.dispatcher.scheduler.entry? name).map
      (⟨·, stage.before.dispatcher.scheduler.mode, stage.before.now⟩)
  | _, _ => none

/-- The action that the control thread does in answer to an event. -/
def obeyed? : Option Action :=
  match stage.move, stage.before.chores with
  | .chore, .act action :: _ => some action
  | _, _ => none

/-- If an action is done in answer to an event, it does not fail. -/
def Unfailing : Prop := ∀ action, stage.obeyed? = some action → action.Quiet

/-- The actions with which hooks answer the event that is recorded. -/
def answers : List Action :=
  match stage.move, stage.before.chores with
  | .chore, .record event name :: _ =>
    (stage.before.dispatcher.sink.record ⟨event, name⟩).actions ⟨event, name⟩
  | _, _ => []

/-- The jobs that the control thread puts at the end of the backlog. -/
def handed : List String :=
  match stage.move with
  | .chore => ((stage.before.doChore?.map (·.dispatcher.waiting)).getD []).drop
      stage.before.dispatcher.waiting.length
  | _ => []

end Stage

namespace History

variable (h : History Stage)

/-- What the evaluations found, in their order. -/
def findings : List Finding := h.all.filterMap Stage.finding?

/-- The actions that the control thread did in answer to events, in their order. -/
def obeyed : List Action := h.all.filterMap Stage.obeyed?

/-- The actions with which hooks answered events, in their order. -/
def answers : List Action := h.all.flatMap Stage.answers

/-- The jobs that were handed over, in their order. -/
def handed : List String := h.all.flatMap Stage.handed

/-- The mode that an answer set last. -/
def mode? : Option Mode := (h.obeyed.filterMap Action.mode?).getLast?

/-- The health that an answer gave last to the task of a name. -/
def health? (name : String) : Option Health := (h.obeyed.filterMap (Action.health? name)).getLast?

variable {h} (stage : Stage) (later : History Stage)

@[simp] theorem findings_cons : findings (stage :: h) = h.findings ++ stage.finding?.toList := by
  simp only [findings, all, List.reverse_cons, List.filterMap_append]
  cases found : stage.finding? <;> simp [found]

@[simp] theorem obeyed_cons : obeyed (stage :: h) = h.obeyed ++ stage.obeyed?.toList := by
  simp only [obeyed, all, List.reverse_cons, List.filterMap_append]
  cases found : stage.obeyed? <;> simp [found]

@[simp] theorem answers_cons : answers (stage :: h) = h.answers ++ stage.answers := by
  simp [answers, all]

@[simp] theorem handed_cons : handed (stage :: h) = h.handed ++ stage.handed := by
  simp [handed, all]

theorem findings_append : findings (later ++ h) = h.findings ++ later.findings := by
  simp [findings, all]

theorem mode?_cons : mode? (stage :: h) = (stage.obeyed?.bind Action.mode?).or h.mode? := by
  simp only [mode?, obeyed_cons, List.filterMap_append, List.getLast?_append]
  cases found : stage.obeyed? with
  | none => rfl
  | some action => cases sets : action.mode? <;> simp [sets]

theorem health?_cons (name : String) :
    health? (stage :: h) name = (stage.obeyed?.bind (Action.health? name)).or (h.health? name) := by
  simp only [health?, obeyed_cons, List.filterMap_append, List.getLast?_append]
  cases found : stage.obeyed? with
  | none => rfl
  | some action => cases sets : action.health? name <;> simp [sets]

end History

/-! ## Entries that are not evaluated -/

/-- What becomes of an entry while its task is not evaluated: it keeps its slot and its start time, it is
not marked, and it has the health that it was given. -/
structure Entry.Kept (e : Entry) (given : Option Health) (e' : Entry) : Prop where
  spec : e'.task.spec = e.task.spec
  due : e'.due = e.due
  start : e'.task.startTime = e.task.startTime
  unmarked : e'.task.inProgress = true → e.task.inProgress = true
  health : e'.task.health = given.getD e.task.health

namespace Entry.Kept

variable {e e' e'' : Entry} {given given' : Option Health}

theorem refl : e.Kept none e := ⟨rfl, rfl, rfl, id, rfl⟩

theorem trans (first : e.Kept given e') (second : e'.Kept given' e'') : e.Kept (given'.or given) e'' where
  spec := second.spec.trans first.spec
  due := second.due.trans first.due
  start := second.start.trans first.start
  unmarked := first.unmarked ∘ second.unmarked
  health := by
    rw [second.health, first.health]
    cases given' <;> rfl

end Entry.Kept

namespace Dispatcher

variable {s t : Dispatcher} {action : Action} {move : Move} {l : Labour} {name : String} {e : Entry}

theorem kept_act (done : s.act action = .ok t) (found : s.scheduler.entry? name = some e) :
    ∃ e', t.scheduler.entry? name = some e' ∧ e.Kept (action.health? name) e' := by
  cases action with
  | setMode mode =>
    cases done
    exact ⟨e, by simpa [setMode, Scheduler.entry?] using found, .refl⟩
  | setEnabled on =>
    cases done
    exact ⟨e, by simpa [setEnabled, Scheduler.entry?] using found, .refl⟩
  | setContention on =>
    cases done
    refine ⟨{ e with task := { e.task with contention := on } }, ?_, ⟨rfl, rfl, rfl, id, rfl⟩⟩
    rw [setContention, scheduler_modifyScheduler, Scheduler.entry?_setContention, found, Option.map_some]
  | setHealth target health =>
    cases done
    have keeps : ∀ e : Entry, ({ e with task := { e.task with health } } : Entry).task.name =
        e.task.name := fun _ => rfl
    by_cases same : target = name
    · subst same
      have changed := Scheduler.entry?_modifyEntry_self s.scheduler target keeps
      rw [found, Option.map_some] at changed
      exact ⟨_, changed, ⟨rfl, rfl, rfl, id, by simp [Action.health?]⟩⟩
    · have other := Scheduler.entry?_modifyEntry_of_ne s.scheduler (Ne.symm same) keeps
      refine ⟨e, other.trans found, ?_⟩
      rw [Action.health?, if_neg same]
      exact .refl
  | permit target =>
    cases done
    have keeps : ∀ e : Entry, ({ e with task := e.task.permit } : Entry).task.name =
        e.task.name := fun _ => rfl
    by_cases same : target = name
    · subst same
      have changed := Scheduler.entry?_modifyEntry_self s.scheduler target keeps
      rw [found, Option.map_some] at changed
      exact ⟨_, changed, ⟨rfl, rfl, rfl, id, rfl⟩⟩
    · have other := Scheduler.entry?_modifyEntry_of_ne s.scheduler (Ne.symm same) keeps
      exact ⟨e, other.trans found, .refl⟩
  | advance ns =>
    cases done
    exact ⟨e, found, .refl⟩
  | raise what => cases done

theorem kept_does (toils : s.Toils move l) (found : s.scheduler.entry? name = some e) :
    ∃ e', (s.does l).scheduler.entry? name = some e' ∧ e.Kept none e' := by
  obtain ⟨p, _, proper⟩ := toils.proper
  by_cases same : name = l.name
  · subst same
    have changed := entry?_does_self (s := s) proper.keeps
    rw [found, Option.map_some] at changed
    refine ⟨_, changed, ?_⟩
    cases toils with
    | take offers => exact ⟨rfl, rfl, rfl, id, rfl⟩
    | finish held ready => exact ⟨rfl, rfl, rfl, nofun, rfl⟩
  · exact ⟨e, (entry?_does_of_ne proper.keeps same).trans found, .refl⟩

theorem mode_act (done : s.act action = .ok t) :
    t.scheduler.mode = action.mode?.getD s.scheduler.mode := by
  cases action <;> cases done <;> simp [setMode, setEnabled, setContention, setHealth, permit,
    Action.mode?, Scheduler.setContention, Scheduler.modifyTask, Scheduler.modifyEntry]

/-- The lines of the gravest level that the control thread logged. -/
def alarms (s : Dispatcher) : History Line := s.log.filter (·.level = .critical)

theorem alarms_note {level : Level} (harmless : level ≠ .critical) (text : String) :
    (s.note level text).alarms = s.alarms := by
  simp [alarms, note, harmless]

theorem alarms_noteWhen {level : Level} (harmless : level ≠ .critical) (condition : Bool)
    (text : String) : (s.noteWhen condition level text).alarms = s.alarms := by
  unfold noteWhen
  split
  · exact alarms_note harmless text
  · rfl

theorem alarms_act (done : s.act action = .ok t) : t.alarms = s.alarms := by
  cases action with
  | setMode mode | setEnabled on =>
    cases done
    exact alarms_noteWhen (by simp) _ _
  | raise what => cases done
  | _ =>
    cases done
    rfl

theorem alarms_opened (s : Dispatcher) : s.opened.alarms = s.alarms := by
  unfold opened start
  split
  · split
    · rfl
    · rw [alarms_note (by simp)]
      exact alarms_noteWhen (by simp) _ _
  · rfl

end Dispatcher

namespace Moment

variable {m m' first x : Moment} {move : Move} {h : History Stage} {name : String}

/-! ## One step -/

/-- The tasks that are still to be evaluated. -/
def ahead (m : Moment) : List String := m.chores.filterMap Chore.considers?

/-- The answers that are still to be done. -/
def acts (m : Moment) : List Action := m.chores.filterMap Chore.acts?

/-- The events that were recorded and those that are about to be, in their order. -/
def tale (m : Moment) : List Tally.Key :=
  History.all m.dispatcher.sink.events ++ m.chores.filterMap Chore.records?

/-- The tick has not failed. -/
def Sane (m : Moment) : Prop := ∀ fault, m.verdict ≠ .fail fault

/-- What a move within a tick adds to an account of it. -/
structure Advances (m : Moment) (move : Move) (m' : Moment) : Prop where
  now : m'.now = m.now
  mode : m'.dispatcher.scheduler.mode =
    ((Stage.obeyed? ⟨m, move⟩).bind Action.mode?).getD m.dispatcher.scheduler.mode
  handed : Stage.handed ⟨m, move⟩ =
    ((Stage.finding? ⟨m, move⟩).toList.filter (·.outcome = .started)).map (·.name)
  alarms : m'.dispatcher.alarms =
    ((Stage.finding? ⟨m, move⟩).toList.filter (·.outcome = .blocked)).map (·.alarm) ++
      m.dispatcher.alarms
  tale : Stage.Unfailing ⟨m, move⟩ →
    m'.tale = m.tale ++ (Stage.finding? ⟨m, move⟩).toList.flatMap (·.keys)
  acts : Stage.Unfailing ⟨m, move⟩ →
    m.acts ++ Stage.answers ⟨m, move⟩ = (Stage.obeyed? ⟨m, move⟩).toList ++ m'.acts

theorem finding?_of_finds {f : Finding} {rest : List Chore} (finds : m.Finds f rest) :
    Stage.finding? ⟨m, .chore⟩ = some f := by
  simp [Stage.finding?, finds.left, finds.found, finds.mode, finds.now]

theorem obeyed?_of_left {c : Chore} {rest : List Chore} (left : m.chores = c :: rest) :
    Stage.obeyed? ⟨m, .chore⟩ = c.acts? := by
  cases c <;> simp [Stage.obeyed?, left, Chore.acts?]

/-- A chore that puts nothing at the end of the backlog. -/
theorem handed_of_waiting (made : m.step? .chore = some m')
    (same : m'.dispatcher.waiting = m.dispatcher.waiting) : Stage.handed ⟨m, .chore⟩ = [] := by
  have done : m.doChore? = some m' := made
  simp [Stage.handed, done, same]

/-- A step of a worker adds nothing to an account. -/
theorem Advances.of_toils {l : Labour} (toils : m.dispatcher.Toils move l) :
    m.Advances move (m.withDispatcher (m.dispatcher.does l)) := by
  cases toils <;>
    exact ⟨rfl, rfl, rfl, rfl, fun _ => (List.append_nil _).symm, fun _ => List.append_nil _⟩

theorem Advances.of_finds (tidy : m.Tidy) {f : Finding} {rest : List Chore} (finds : m.Finds f rest) :
    m.Advances .chore (m.evaluated f rest) := by
  have made : m.doChore? = some (m.evaluated f rest) := step_finds tidy.sound finds
  have found := finding?_of_finds finds
  have unobeyed : Stage.obeyed? ⟨m, .chore⟩ = none := obeyed?_of_left finds.left
  have present : m.dispatcher.scheduler.pool.isSome := tidy.sound.started (by simp [finds.left])
  have silent := tidy.no_acts finds.left rfl
  constructor
  · rfl
  · rw [unobeyed]
    rfl
  · simp only [Stage.handed, made, found, Option.map_some, Option.getD_some,
      waiting_evaluated m f rest present, List.drop_left]
    by_cases starts : f.outcome = .started <;> simp [starts]
  · have lines := f.ruling_lines
    simp only [Dispatcher.alarms, evaluated, List.filter_append, lines, found]
    by_cases blocked : f.outcome = .blocked <;> simp [blocked]
  · intro _
    have before : m.chores.filterMap Chore.records? = [] := by
      have clear := tidy.no_records finds.left
      rw [finds.left]
      exact clear
    have after : (m.evaluated f rest).chores.filterMap Chore.records? = f.keys := by
      rw [chores_evaluated]
      split
      · rename_i blocked
        simp [Finding.keys, Finding.events, blocked]
      · rw [List.filterMap_append, f.followUp_records, tidy.no_records finds.left, List.append_nil]
    rw [Moment.tale, Moment.tale, before, after, found]
    simp [evaluated]
  · intro _
    have before : m.acts = [] := by
      rw [Moment.acts, finds.left]
      exact silent
    have after : (m.evaluated f rest).acts = [] := by
      rw [Moment.acts, chores_evaluated]
      split
      · rfl
      · rw [List.filterMap_append, f.followUp_acts, silent, List.append_nil]
    simp [before, after, unobeyed, Stage.answers, finds.left]

/-- A chore that is not the evaluation of a task finds nothing. -/
theorem finding?_of_other {c : Chore} {rest : List Chore} (left : m.chores = c :: rest)
    (other : c.considers? = none) : Stage.finding? ⟨m, .chore⟩ = none := by
  cases c with
  | consider name => cases other
  | _ => simp [Stage.finding?, left]

theorem Advances.of_other {c : Chore} {rest : List Chore} (left : m.chores = c :: rest)
    (other : c.considers? = none) (made : m.step? .chore = some m') (now : m'.now = m.now)
    (mode : m'.dispatcher.scheduler.mode =
      (c.acts?.bind Action.mode?).getD m.dispatcher.scheduler.mode)
    (waiting : m'.dispatcher.waiting = m.dispatcher.waiting)
    (alarms : m'.dispatcher.alarms = m.dispatcher.alarms)
    (told : Stage.Unfailing ⟨m, .chore⟩ →
      m'.tale = m.tale ∧ m.acts ++ Stage.answers ⟨m, .chore⟩ = c.acts?.toList ++ m'.acts) :
    m.Advances .chore m' := by
  have unfound := finding?_of_other left other
  have obeyed := obeyed?_of_left left
  constructor
  · exact now
  · rw [obeyed, mode]
  · rw [handed_of_waiting made waiting, unfound]
    rfl
  · rw [unfound]
    exact alarms
  · intro unfailing
    rw [(told unfailing).1, unfound]
    exact (List.append_nil _).symm
  · intro unfailing
    rw [obeyed, (told unfailing).2]

theorem advances (tidy : m.Tidy) (inside : move.Inside) (made : m.step? move = some m') :
    m.Advances move m' := by
  cases tidy.continues inside made with
  | evaluated finds => exact .of_finds tidy finds
  | @recorded event target rest left =>
    have silent := tidy.no_acts left rfl
    have answers : Stage.answers ⟨m, .chore⟩ =
        (m.dispatcher.sink.record ⟨event, target⟩).actions ⟨event, target⟩ := by
      simp [Stage.answers, left]
    refine .of_other left rfl made rfl rfl rfl rfl fun _ => ⟨?_, ?_⟩
    · rw [Moment.tale, Moment.tale, left, List.filterMap_append, Chore.records?_acts]
      simp [Sink.record, History.all, Chore.records?]
    · rw [answers, Moment.acts, Moment.acts, left, List.filterMap_append, Chore.acts?_acts, silent,
        List.filterMap_cons_none rfl, silent, List.append_nil]
      rfl
  | @noted line rest left =>
    have harmless : line.level ≠ .critical := by
      rw [tidy.notes line (by simp [left])]
      simp
    have unanswered : Stage.answers ⟨m, .chore⟩ = [] := by simp [Stage.answers, left]
    refine .of_other left rfl made rfl rfl rfl (Dispatcher.alarms_note harmless line.text)
      fun _ => ⟨?_, ?_⟩
    · rw [Moment.tale, Moment.tale, left, List.filterMap_cons_none rfl]
      rfl
    · rw [unanswered, Moment.acts, Moment.acts, left, List.filterMap_cons_none rfl, List.append_nil]
      rfl
  | @obeyed action rest t left done =>
    have unanswered : Stage.answers ⟨m, .chore⟩ = [] := by simp [Stage.answers, left]
    have waiting : t.waiting = m.dispatcher.waiting := by
      simp only [Dispatcher.waiting, (Dispatcher.pool_act done).1]
    refine .of_other left rfl made rfl (Dispatcher.mode_act done) waiting (Dispatcher.alarms_act done)
      fun _ => ⟨?_, ?_⟩
    · rw [Moment.tale, Moment.tale, left, List.filterMap_cons_none rfl, Dispatcher.sink_act done]
    · rw [unanswered, Moment.acts, Moment.acts, left, List.append_nil]
      rfl
  | @failed what rest left =>
    -- the answer is lost, and so is whatever was to follow it
    refine .of_other left rfl made rfl rfl rfl rfl fun unfailing => ?_
    exact absurd rfl (unfailing _ (obeyed?_of_left left) what)
  | worked toils => exact .of_toils toils

/-! ## A whole tick -/

/-- When nothing is left to do, the workers go on by themselves. -/
theorem spent_step (tidy : m.Tidy) (spent : m.chores = []) (inside : move.Inside)
    (made : m.step? move = some m') :
    m'.chores = [] ∧ m'.verdict = m.verdict ∧ Stage.finding? ⟨m, move⟩ = none := by
  cases tidy.continues inside made with
  | evaluated finds =>
    have left := finds.left
    rw [spent] at left
    cases left
  | recorded left | noted left | obeyed left done | failed left =>
    rw [spent] at left
    cases left
  | worked toils => exact ⟨spent, rfl, by cases toils <;> rfl⟩

/-- How far a tick has come: the tasks were evaluated in their order, up to the one that is next, or to
one that is blocked, or to a failure. -/
inductive Sofar (first : Moment) (h : History Stage) (m : Moment) : Prop
  | going (verdict : m.verdict = .proceed) (clear : ∀ f ∈ h.findings, f.outcome ≠ .blocked)
    (order : h.findings.map (·.name) ++ m.ahead = first.ahead)
  | stopped {earlier : List Finding} {f : Finding} {rest : List String} (verdict : m.verdict = .stop)
    (spent : m.chores = []) (last : h.findings = earlier ++ [f]) (blocked : f.outcome = .blocked)
    (clear : ∀ g ∈ earlier, g.outcome ≠ .blocked)
    (order : h.findings.map (·.name) ++ rest = first.ahead)
  | failed {fault : Fault} {rest : List String} (verdict : m.verdict = .fail fault)
    (spent : m.chores = []) (clear : ∀ f ∈ h.findings, f.outcome ≠ .blocked)
    (order : h.findings.map (·.name) ++ rest = first.ahead)

/-- A move that evaluates nothing takes a tick no further. -/
theorem Sofar.keep (sofar : Sofar first h m) {stage : Stage} (unfound : stage.finding? = none)
    (ahead : m'.ahead = m.ahead) (spent : m.chores = [] → m'.chores = [])
    (verdict : m'.verdict = m.verdict) : Sofar first (stage :: h) m' := by
  have same : History.findings (stage :: h) = h.findings := by simp [unfound]
  cases sofar with
  | going going clear order =>
    exact .going (verdict.trans going) (same ▸ clear) (by rw [same, ahead, order])
  | stopped stopped none last blocked clear order =>
    exact .stopped (verdict.trans stopped) (spent none) (same.trans last) blocked clear (same ▸ order)
  | failed failed none clear order =>
    exact .failed (verdict.trans failed) (spent none) (same ▸ clear) (same ▸ order)

theorem Sofar.step (sofar : Sofar first h m) (tidy : m.Tidy) (inside : move.Inside)
    (made : m.step? move = some m') : Sofar first (⟨m, move⟩ :: h) m' := by
  have within : ∀ {c : Chore} {rest : List Chore}, m.chores = c :: rest →
      (m.chores = [] → m'.chores = []) := fun left spent => by simp [left] at spent
  cases tidy.continues inside made with
  | @recorded event target rest left =>
    refine sofar.keep (finding?_of_other left rfl) ?_ (within left) rfl
    rw [ahead, ahead, left, List.filterMap_append, Chore.considers?_acts]
    rfl
  | noted left | obeyed left done =>
    refine sofar.keep (finding?_of_other left rfl) ?_ (within left) rfl
    rw [ahead, ahead, left]
    rfl
  | worked toils => exact sofar.keep (by cases toils <;> rfl) rfl id rfl
  | @evaluated f rest finds =>
    have found := finding?_of_finds finds
    cases sofar with
    | stopped verdict spent | failed verdict spent =>
      have left := finds.left
      rw [spent] at left
      cases left
    | going verdict clear order =>
      have front : m.ahead = f.name :: rest.filterMap Chore.considers? := by
        rw [ahead, finds.left]
        rfl
      have findings : History.findings (⟨m, .chore⟩ :: h) = h.findings ++ [f] := by simp [found]
      rw [front] at order
      by_cases blocked : f.outcome = .blocked
      · refine .stopped ?_ ?_ findings blocked clear (show _ ++ rest.filterMap Chore.considers? = _ from ?_)
        · rw [verdict_evaluated, if_pos blocked]
        · rw [chores_evaluated, if_pos blocked]
        · simpa [findings] using order
      · refine .going ?_ ?_ ?_
        · rw [verdict_evaluated, if_neg blocked, verdict]
        · rw [findings]
          exact List.forall_mem_append.mpr ⟨clear, by simpa using blocked⟩
        · rw [findings, ahead, chores_evaluated, if_neg blocked, List.filterMap_append,
            f.followUp_considers]
          simpa using order
  | @failed what rest left =>
    cases sofar with
    | stopped verdict spent | failed verdict spent =>
      rw [spent] at left
      cases left
    | going verdict clear order =>
      refine .failed rfl rfl (by simpa [finding?_of_other left rfl] using clear)
        (show _ ++ m.ahead = _ from ?_)
      simpa [finding?_of_other left rfl] using order

/-- An account of a tick so far. -/
structure Recounts (first : Moment) (h : History Stage) (m : Moment) : Prop where
  tidy : m.Tidy
  sofar : Sofar first h m
  now : m.now = first.now
  /-- The mode in force is the one that an answer set last. -/
  mode : m.dispatcher.scheduler.mode = h.mode?.getD first.dispatcher.scheduler.mode
  /-- The tasks that started were handed over, in their order, and no others. -/
  handed : h.handed = (h.findings.filter (·.outcome = .started)).map (·.name)
  alarms : m.dispatcher.alarms =
    ((h.findings.filter (·.outcome = .blocked)).map (·.alarm)).reverse ++ first.dispatcher.alarms
  /-- The events are those of the findings, in their order. -/
  tale : m.Sane → m.tale = first.tale ++ h.findings.flatMap (·.keys)
  /-- Each answer is done after those before it. -/
  acts : m.Sane → first.acts ++ h.answers = h.obeyed ++ m.acts

theorem Sane.of_step (tidy : m.Tidy) (inside : move.Inside) (made : m.step? move = some m')
    (sane : m'.Sane) : m.Sane := by
  intro fault failed
  have spent : m.chores = [] := by
    by_contra left
    have going := tidy.going left
    rw [failed] at going
    cases going
  exact sane fault ((spent_step tidy spent inside made).2.1.trans failed)

/-- An answer that fails makes the tick fail. -/
theorem Sane.unfailing (tidy : m.Tidy) (inside : move.Inside) (made : m.step? move = some m')
    (sane : m'.Sane) : Stage.Unfailing ⟨m, move⟩ := by
  rintro action obeys what rfl
  cases tidy.continues inside made with
  | evaluated finds =>
    rw [obeyed?_of_left finds.left] at obeys
    cases obeys
  | recorded left | noted left =>
    rw [obeyed?_of_left left] at obeys
    cases obeys
  | obeyed left done =>
    rw [obeyed?_of_left left] at obeys
    cases obeys
    cases done
  | failed left => exact sane _ rfl
  | worked toils => cases toils <;> cases obeys

theorem Recounts.step (recounts : Recounts first h m) (inside : move.Inside)
    (made : m.step? move = some m') : Recounts first (⟨m, move⟩ :: h) m' := by
  have tidy := recounts.tidy
  have advances := advances tidy inside made
  constructor
  · exact tidy.step inside made
  · exact recounts.sofar.step tidy inside made
  · exact advances.now.trans recounts.now
  · rw [advances.mode, recounts.mode, History.mode?_cons]
    cases (Stage.obeyed? ⟨m, move⟩).bind Action.mode? <;> rfl
  · simp [advances.handed, recounts.handed]
  · rw [advances.alarms, recounts.alarms]
    cases found : Stage.finding? ⟨m, move⟩ with
    | none => simp [found]
    | some f => by_cases blocked : f.outcome = .blocked <;> simp [found, blocked]
  · intro sane
    rw [advances.tale (sane.unfailing tidy inside made),
      recounts.tale (sane.of_step tidy inside made)]
    simp
  · intro sane
    have before := recounts.acts (sane.of_step tidy inside made)
    rw [History.answers_cons, History.obeyed_cons, ← List.append_assoc, before, List.append_assoc,
      advances.acts (sane.unfailing tidy inside made), List.append_assoc]

theorem Passes.recounts (tidy : first.Tidy) (going : first.verdict = .proceed)
    (passed : Passes Move.Inside first h m) : Recounts first h m := by
  induction passed with
  | refl =>
    refine ⟨tidy, .going going ?_ ?_, rfl, rfl, rfl, rfl, ?_, ?_⟩
    all_goals simp [History.findings, History.answers, History.obeyed, History.all]
  | step before inside made ih => exact ih.step inside made

/-- A move that does not evaluate a task leaves it alone. -/
theorem kept_step (tidy : m.Tidy) (inside : move.Inside) (made : m.step? move = some m')
    (unevaluated : name ∉ (Stage.finding? ⟨m, move⟩).toList.map (·.name)) {e : Entry}
    (found : m.dispatcher.scheduler.entry? name = some e) :
    ∃ e', m'.dispatcher.scheduler.entry? name = some e' ∧
      e.Kept ((Stage.obeyed? ⟨m, move⟩).bind (Action.health? name)) e' := by
  cases tidy.continues inside made with
  | @evaluated f rest finds =>
    have other : name ≠ f.name := by simpa [finding?_of_finds finds] using unevaluated
    have unobeyed : Stage.obeyed? ⟨m, .chore⟩ = none := obeyed?_of_left finds.left
    rw [unobeyed]
    exact ⟨e, (entry?_evaluated_of_ne m f rest other).trans found, .refl⟩
  | recorded left | noted left =>
    have unobeyed : Stage.obeyed? ⟨m, .chore⟩ = none := obeyed?_of_left left
    rw [unobeyed]
    exact ⟨e, found, .refl⟩
  | @obeyed action rest t left done =>
    have obeys : Stage.obeyed? ⟨m, .chore⟩ = some action := obeyed?_of_left left
    rw [obeys]
    exact Dispatcher.kept_act done found
  | @failed what rest left =>
    have obeys : Stage.obeyed? ⟨m, .chore⟩ = some (.raise what) := obeyed?_of_left left
    rw [obeys]
    exact ⟨e, found, .refl⟩
  | worked toils =>
    have unobeyed : Stage.obeyed? ⟨m, move⟩ = none := by cases toils <;> rfl
    rw [unobeyed]
    exact Dispatcher.kept_does toils found

/-- While a task is not evaluated, it is left alone. -/
theorem Passes.kept (tidy : first.Tidy) (passed : Passes Move.Inside first h m)
    (unevaluated : name ∉ h.findings.map (·.name)) {e : Entry}
    (found : first.dispatcher.scheduler.entry? name = some e) :
    m.Tidy ∧ ∃ e', m.dispatcher.scheduler.entry? name = some e' ∧ e.Kept (h.health? name) e' := by
  induction passed with
  | refl => exact ⟨tidy, e, found, .refl⟩
  | @step h m₁ m₂ move before inside made ih =>
    rw [History.findings_cons, List.map_append, List.mem_append, not_or] at unevaluated
    obtain ⟨tidy₁, e₁, found₁, kept₁⟩ := ih unevaluated.1
    obtain ⟨e₂, found₂, kept₂⟩ := kept_step tidy₁ inside made unevaluated.2 found₁
    rw [History.health?_cons]
    exact ⟨tidy₁.step inside made, e₂, found₂, kept₁.trans kept₂⟩

/-! ## One evaluation of a tick -/

theorem finds_of_finding? {stage : Stage} {f : Finding} (found : stage.finding? = some f) :
    stage.move = .chore ∧ ∃ rest, stage.before.Finds f rest := by
  obtain ⟨m, move⟩ := stage
  cases move with
  | chore =>
    cases left : m.chores with
    | nil => simp [Stage.finding?, left] at found
    | cons c rest =>
      cases c with
      | consider name =>
        simp only [Stage.finding?, left, Option.map_eq_some_iff] at found
        obtain ⟨e, present, rfl⟩ := found
        have named : e.task.name = name := Scheduler.entry?_name present
        exact ⟨rfl, rest, by rw [Finding.name, left, named], by rw [Finding.name, named, present], rfl, rfl⟩
      | _ => simp [Stage.finding?, left] at found
  | _ => simp [Stage.finding?] at found

/-- A run can be cut before and after each of its steps. -/
theorem Passes.cut {allowed : Move → Prop} {later earlier : History Stage} {stage : Stage}
    (passed : Passes allowed first (later ++ stage :: earlier) m) :
    Passes allowed first earlier stage.before ∧ allowed stage.move ∧
      ∃ next, stage.before.step? stage.move = some next ∧ Passes allowed next later m := by
  obtain ⟨next, sooner, rest⟩ := passed.of_append
  cases sooner with
  | step before may made => exact ⟨before, may, next, made, rest⟩

/-- The tasks that were evaluated are some of those that were to be, from the first one on. -/
theorem Sofar.order (sofar : Sofar first h m) : h.findings.map (·.name) <+: first.ahead := by
  cases sofar with
  | going verdict clear order => exact ⟨_, order⟩
  | stopped verdict spent last blocked clear order => exact ⟨_, order⟩
  | failed verdict spent clear order => exact ⟨_, order⟩

theorem ahead_beginTick (enabled : m.dispatcher.scheduler.enabled = true) (now : Instant) :
    (m.beginTick now).ahead = m.dispatcher.scheduler.names := by
  simp only [ahead, beginTick, Dispatcher.agenda, enabled, if_true]
  induction m.dispatcher.scheduler.names with
  | nil => rfl
  | cons name rest ih => exact congrArg (name :: ·) ih

theorem mode_beginTick (now : Instant) :
    (m.beginTick now).dispatcher.scheduler.mode = m.dispatcher.scheduler.mode := by
  rw [beginTick, Dispatcher.opened]
  split
  · rw [Dispatcher.scheduler_start]
    rfl
  · rfl

theorem acts_beginTick (now : Instant) : (m.beginTick now).acts = [] := by
  refine List.filterMap_eq_nil_iff.mpr fun c member => ?_
  obtain ⟨name, _, rfl⟩ := consider_of_mem_agenda member
  rfl

theorem tale_beginTick (now : Instant) :
    (m.beginTick now).tale = History.all m.dispatcher.sink.events := by
  have silent : (m.beginTick now).chores.filterMap Chore.records? = [] := by
    refine List.filterMap_eq_nil_iff.mpr fun c member => ?_
    obtain ⟨name, _, rfl⟩ := consider_of_mem_agenda member
    rfl
  rw [tale, silent, List.append_nil, beginTick, Dispatcher.sink_opened]

/-- An evaluation of the tick of `m` at `now` that ends in `x`, after the steps `earlier` and before the
steps `later`. -/
structure Evaluated (m : Moment) (now : Instant) (earlier : History Stage) (f : Finding)
    (later : History Stage) (x : Moment) : Prop where
  now : f.now = now
  /-- The mode is the one that an answer set last before the evaluation. -/
  mode : f.mode = earlier.mode?.getD m.dispatcher.scheduler.mode
  /-- All answers to the events before it were done. -/
  obeyed : earlier.obeyed = earlier.answers
  /-- Before it the task was left alone, but for the health that answers gave it. -/
  before : ∃ e, m.dispatcher.scheduler.entry? f.name = some e ∧
    e.Kept (earlier.health? f.name) f.entry
  /-- After it the task was left alone, but for the health that answers gave it. -/
  after : ∃ e, x.dispatcher.scheduler.entry? f.name = some e ∧ f.left.Kept (later.health? f.name) e

theorem Passes.evaluated (sound : m.Sound) (idle : m.idle = true)
    (enabled : m.dispatcher.scheduler.enabled = true) {now : Instant} {later earlier : History Stage}
    {stage : Stage} {f : Finding} (found : stage.finding? = some f)
    (passed : Passes Move.Inside (m.beginTick now) (later ++ stage :: earlier) x) :
    m.Evaluated now earlier f later x := by
  have tidy := Tidy.beginTick sound idle now
  obtain ⟨sooner, _, next, made, rest⟩ := passed.cut
  obtain ⟨chore, left, finds⟩ := finds_of_finding? found
  have recounts := sooner.recounts tidy rfl
  have order := (passed.recounts tidy rfl).sofar.order
  -- no task is evaluated twice
  have once : ((later ++ stage :: earlier : History Stage).findings.map (·.name)).Nodup := by
    refine order.sublist.nodup ?_
    rw [ahead_beginTick enabled]
    exact sound.scheduler.distinct
  rw [History.findings_append, History.findings_cons, found, Option.toList_some, List.append_assoc,
    List.map_append, List.singleton_append, List.map_cons] at once
  obtain ⟨apart, unevaluated⟩ := List.nodup_middle.mp once |> List.nodup_cons.mp
  rw [List.mem_append, not_or] at apart
  constructor
  · exact finds.now.symm.trans recounts.now
  · have mode := recounts.mode
    rwa [finds.mode, mode_beginTick] at mode
  · have going := recounts.tidy.going (by simp [finds.left])
    have acts := recounts.acts fun fault => by simp [going]
    have none : stage.before.acts = [] := by
      have silent := recounts.tidy.no_acts finds.left rfl
      rw [Moment.acts, finds.left]
      exact silent
    rw [acts_beginTick, none, List.nil_append, List.append_nil] at acts
    exact acts.symm
  · have registered : f.name ∈ (m.beginTick now).ahead :=
      order.subset (List.mem_map_of_mem (by simp [History.findings_append, found]))
    rw [ahead_beginTick enabled] at registered
    obtain ⟨e, present⟩ := Option.ne_none_iff_exists'.mp fun none =>
      Scheduler.entry?_eq_none_iff.mp none registered
    obtain ⟨_, e', present', kept⟩ := sooner.kept tidy apart.1
      (by rw [beginTick, Dispatcher.entry?_opened, present])
    rw [finds.found] at present'
    cases present'
    exact ⟨e, present, kept⟩
  · rw [chore, step_finds recounts.tidy.sound finds] at made
    cases made
    have inside : Move.Inside .chore := trivial
    have tidy := recounts.tidy.step inside (step_finds recounts.tidy.sound finds)
    exact (rest.kept tidy apart.2 (entry?_evaluated_self _ f left finds.found)).2

/-! ## The account of a tick -/

/-- The account of the tick of `m` at `now` that ends in `x` after the steps `h`. -/
structure Account (m : Moment) (now : Instant) (h : History Stage) (x : Moment) : Prop where
  /-- The tick goes through, or it stops. -/
  verdict : x.verdict = .proceed ∨ x.verdict = .stop
  /-- It stops if and only if an evaluation finds a task blocked. -/
  stops : x.verdict = .stop ↔ ∃ f ∈ h.findings, f.outcome = .blocked
  /-- The tasks are evaluated in the order of their registration. -/
  order : h.findings.map (·.name) <+: m.dispatcher.scheduler.names
  /-- All of them are, whatever hooks did, unless the tick stops. -/
  whole : x.verdict = .proceed → h.findings.map (·.name) = m.dispatcher.scheduler.names
  /-- Nothing is evaluated after a task that is blocked, and one line tells of it. -/
  last : ∀ f ∈ h.findings, f.outcome = .blocked →
    (∃ earlier, h.findings = earlier ++ [f]) ∧ x.dispatcher.alarms = f.alarm :: m.dispatcher.alarms
  /-- Otherwise there is no such line. -/
  silent : x.verdict = .proceed → x.dispatcher.alarms = m.dispatcher.alarms
  /-- The events that are recorded are those of the findings. -/
  events : History.all x.dispatcher.sink.events =
    History.all m.dispatcher.sink.events ++ h.findings.flatMap (·.keys)
  /-- The tasks that start are handed to the pool, each once, and no others. -/
  handed : h.handed = (h.findings.filter (·.outcome = .started)).map (·.name)
  evaluated : ∀ later stage earlier f, h = later ++ stage :: earlier → stage.finding? = some f →
    m.Evaluated now earlier f later x
  /-- A task that is not evaluated is left alone, but for the health that answers gave it. -/
  spared : ∀ name e, name ∉ h.findings.map (·.name) → m.dispatcher.scheduler.entry? name = some e →
    ∃ e', x.dispatcher.scheduler.entry? name = some e' ∧ e.Kept (h.health? name) e'

theorem Passes.account (sound : m.Sound) (idle : m.idle = true)
    (enabled : m.dispatcher.scheduler.enabled = true) {now : Instant}
    (passed : Passes Move.Inside (m.beginTick now) h x) (spent : x.idle = true) (sane : x.Sane) :
    m.Account now h x := by
  have tidy := Tidy.beginTick sound idle now
  have recounts := passed.recounts tidy rfl
  have none : x.chores = [] := List.isEmpty_iff.mp spent
  have order := recounts.sofar.order
  have alarms := recounts.alarms
  have tale := recounts.tale sane
  rw [ahead_beginTick enabled] at order
  rw [beginTick, Dispatcher.alarms_opened] at alarms
  rw [tale_beginTick, Moment.tale, none, List.filterMap_nil, List.append_nil] at tale
  have evaluated : ∀ later stage earlier f, h = later ++ stage :: earlier → stage.finding? = some f →
      m.Evaluated now earlier f later x := by
    rintro later stage earlier f rfl found
    exact passed.evaluated sound idle enabled found
  have spared : ∀ name e, name ∉ h.findings.map (·.name) →
      m.dispatcher.scheduler.entry? name = some e →
        ∃ e', x.dispatcher.scheduler.entry? name = some e' ∧ e.Kept (h.health? name) e' := by
    intro name e unevaluated found
    exact (passed.kept tidy unevaluated (by rw [beginTick, Dispatcher.entry?_opened, found])).2
  cases recounts.sofar with
  | going verdict clear whole =>
    rw [ahead_beginTick enabled, ahead, none, List.filterMap_nil, List.append_nil] at whole
    have unblocked : h.findings.filter (·.outcome = .blocked) = [] := by
      simpa using clear
    rw [unblocked] at alarms
    exact {
      verdict := .inl verdict
      stops := by
        refine ⟨fun stops => by simp [verdict] at stops, ?_⟩
        rintro ⟨f, member, blocked⟩
        exact absurd blocked (clear f member)
      order, whole := fun _ => whole
      last := fun f member blocked => absurd blocked (clear f member)
      silent := fun _ => alarms
      events := tale, handed := recounts.handed, evaluated, spared }
  | @stopped sooner f rest verdict _ last blocked clear whole =>
    have one : h.findings.filter (·.outcome = .blocked) = [f] := by
      have others : sooner.filter (·.outcome = .blocked) = [] := by simpa using clear
      rw [last, List.filter_append, others]
      simp [blocked]
    rw [one] at alarms
    exact {
      verdict := .inr verdict
      stops := ⟨fun _ => ⟨f, by simp [last], blocked⟩, fun _ => verdict⟩
      order, whole := fun goes => by simp [verdict] at goes
      last := by
        intro g member blocked
        have same : g ∈ h.findings.filter (·.outcome = .blocked) := by simp [member, blocked]
        rw [one, List.mem_singleton] at same
        subst same
        exact ⟨⟨sooner, last⟩, alarms⟩
      silent := fun goes => by simp [verdict] at goes
      events := tale, handed := recounts.handed, evaluated, spared }
  | failed verdict => exact absurd verdict (sane _)

/-- Within a tick no hook is added. -/
theorem Passes.hooks_inside (passed : Passes Move.Inside first h x) :
    x.dispatcher.sink.hooks = first.dispatcher.sink.hooks := by
  induction passed with
  | refl => rfl
  | step before inside made ih =>
    rcases sink_step made with same | ⟨key, counted⟩ | ⟨hook, rfl, _⟩
    · rw [same, ih]
    · rw [counted]
      exact ih
    · cases inside

/-- If no hook raises a fault, the tick does not fail. -/
theorem Passes.sane (tidy : first.Tidy) (going : first.verdict = .proceed)
    (quiet : ∀ hook ∈ first.dispatcher.sink.hooks, hook.action.Quiet)
    (passed : Passes Move.Inside first h x) : x.Sane := by
  intro fault failed
  obtain ⟨hook, hooked, what, raises, _⟩ := (passed.recounts tidy going).tidy.sound.faulted fault failed
  rw [passed.hooks_inside] at hooked
  exact quiet hook hooked what raises

/-- Whatever was done of a tick, it can be brought to its end. -/
theorem Tidy.ends (tidy : m.Tidy) : ∃ later last, Passes Move.Inside m later last ∧ last.idle = true := by
  by_cases spent : m.chores = []
  · exact ⟨[], m, .refl, by simp [idle, spent]⟩
  have going := tidy.going spent
  cases done : Dispatcher.inOrder (Dispatcher.fulfil m.now) m.chores m.dispatcher with
  | mk verdict t =>
    have reached := (carries_inside.chores trivial done).1
    rw [← going] at reached
    obtain ⟨later, passed⟩ := reached.passes
    exact ⟨later, _, passed, rfl⟩

/-- A tick that begins while evaluation is disabled changes nothing.  Otherwise it can always be brought
to its end, however the workers interleave with it, and then it has this account, whatever the hooks did
short of raising a fault.  The tick that is carried out at once is one of these. -/
theorem tick_accounted {workers : Nat} {scheduler : Scheduler}
    (created : Scheduler.create workers = .ok scheduler)
    (reached : Reaches (fun _ => True) (initial scheduler) m) (idle : m.idle = true) (now : Instant) :
    (m.dispatcher.scheduler.enabled = false →
      m.dispatcher.tick now = (.proceed, m.dispatcher) ∧
      m.beginTick now = { dispatcher := m.dispatcher, now }) ∧
    (m.dispatcher.scheduler.enabled = true →
      (∀ h x, Passes Move.Inside (m.beginTick now) h x →
        (∃ later last, Passes Move.Inside x later last ∧ last.idle = true) ∧
        (x.idle = true → x.Sane → m.Account now h x) ∧
        ((∀ hook ∈ m.dispatcher.sink.hooks, hook.action.Quiet) → x.Sane)) ∧
      ∃ h, Passes Move.Inside (m.beginTick now) h
        { dispatcher := (m.dispatcher.tick now).2, now, verdict := (m.dispatcher.tick now).1 }) := by
  have sound := reached.sound created
  have tidy := Tidy.beginTick sound idle now
  constructor
  · intro disabled
    simp [Dispatcher.tick, beginTick, Dispatcher.agenda, Dispatcher.opened, disabled, Dispatcher.inOrder]
  · intro enabled
    constructor
    · intro h x passed
      have recounts := passed.recounts tidy rfl
      refine ⟨recounts.tidy.ends, passed.account sound idle enabled, fun quiet => ?_⟩
      refine passed.sane tidy rfl ?_
      rw [beginTick, Dispatcher.sink_opened]
      exact quiet
    · have done : m.dispatcher.tick now = ((m.dispatcher.tick now).1, (m.dispatcher.tick now).2) := rfl
      have inside : Reaches Move.Inside (beginTick ⟨m.dispatcher, m.now, [], m.verdict⟩ now) _ :=
        tick_inside done
      exact inside.passes

/-! ## A sample tick

One worker and three tasks, the second of which is critical.  The first one waits for a permit and keeps the
worker for itself.  When their next slots come due, a hook answers to the first of them by disabling
evaluation. -/

namespace Guard

/-- A critical task. -/
def vital : Task := { Sample.brief with name := "vital", name_ne := by decide, capabilities := .critical }

/-- What is done before the tick. -/
def moves : List Move :=
  [.register (some Sample.gated) .epoch, .register (some vital) .epoch,
    .register (some Sample.brief) .epoch, .act (.setEnabled true),
    .hook ⟨.markedSlow, "gated", 1, .setEnabled false⟩, .tick ⟨1000000000⟩, .chore, .take, .chore, .chore]

/-- When the tick begins. -/
def start : Moment := (lead (initial Sample.scheduler) moves).2

/-- The tick, and the moment it leads to. -/
def run : History Stage × Moment :=
  lead (start.beginTick ⟨2000000000⟩) [.chore, .chore, .chore, .chore, .chore, .chore]

end Guard

/-- The first task is skipped, the second one stops the tick, and the third one is left alone. -/
theorem tick_accounted_sample :
    Guard.run.1.findings.map (fun f => (f.name, f.outcome)) = [("gated", .skipped), ("vital", .blocked)] ∧
      Guard.run.1.obeyed = [.setEnabled false] ∧
      Guard.start.Account ⟨2000000000⟩ Guard.run.1 Guard.run.2 := by
  have before : Passes (Move.Within (fun _ => True) Action.Quiet) (initial Sample.scheduler)
      (lead (initial Sample.scheduler) Guard.moves).1 Guard.start := by
    refine passes_lead ?_ (by decide +kernel)
    simp [Guard.moves, Move.Within, Action.Quiet]
  have accounted := (tick_accounted Sample.created (before.mono fun _ _ => trivial).reaches
    (by decide +kernel) ⟨2000000000⟩).2 (by decide +kernel)
  have passed : Passes Move.Inside (Guard.start.beginTick ⟨2000000000⟩) Guard.run.1 Guard.run.2 := by
    refine passes_lead ?_ (by decide +kernel)
    simp [Move.Inside]
  obtain ⟨_, account, sane⟩ := accounted.1 _ _ passed
  exact ⟨by decide +kernel, by decide +kernel, account (by decide +kernel) (sane before.hooks)⟩

end Moment

end Cadence
