import Cadence.Proofs.Promptness
import Cadence.Proofs.TickAccount

/-!
Two runs of a tick, side by side.

Two moments are akin if the workers see the same in them (`Moment.Akin`); then the same evaluations and
the same work lead to moments that are akin again.  The second of the two runs is one whose sink only
counts (`Moment.Underway`).  If each step of the first one is echoed in the second, then so is the whole
run (`Moment.Passes.echoed`), and the same work is done in both (`History.Echoes`).
-/

namespace Cadence

/-! ## Runs that do the same -/

namespace History

/-- The steps of the workers, in their order. -/
def toil (h : History Stage) : List Move := (h.all.map (·.move)).filter (· ≠ .chore)

theorem toil_append (later earlier : History Stage) :
    toil (later ++ earlier) = earlier.toil ++ later.toil := by
  simp [toil, all]

theorem handed_append (later earlier : History Stage) :
    handed (later ++ earlier) = earlier.handed ++ later.handed := by
  simp [handed, all]

/-- The second history tells of the same work as the first: the same jobs are handed over, and the workers
make the same steps.  If they are never kept waiting in the first one, then neither are they in the
second. -/
structure Echoes (h h' : History Stage) : Prop where
  handed : h'.handed = h.handed
  toil : h'.toil = h.toil
  prompt : h.Prompt → h'.Prompt

theorem Echoes.nil : Echoes [] [] := ⟨rfl, rfl, id⟩

theorem Echoes.append {h h' k k' : History Stage} (first : Echoes h h') (second : Echoes k k') :
    Echoes (k ++ h) (k' ++ h') where
  handed := by rw [handed_append, handed_append, first.handed, second.handed]
  toil := by rw [toil_append, toil_append, first.toil, second.toil]
  prompt prompt :=
    have ⟨later, earlier⟩ := prompt_append.mp prompt
    prompt_append.mpr ⟨second.prompt later, first.prompt earlier⟩

end History

/-! ## What the workers see -/

/-- Two dispatchers that differ at most in what the control thread told. -/
structure Dispatcher.Akin (s t : Dispatcher) : Prop where
  scheduler : t.scheduler = s.scheduler
  clock : t.clock = s.clock
  workerLog : t.workerLog = s.workerLog

namespace Dispatcher.Akin

variable {s t : Dispatcher}

theorem of_told (s : Dispatcher) (sink : Sink) (log : History Line) : s.Akin { s with sink, log } :=
  ⟨rfl, rfl, rfl⟩

theorem eq (akin : s.Akin t) : t = { s with sink := t.sink, log := t.log } := by
  obtain ⟨scheduler, clock, workerLog⟩ := akin
  cases t
  simp_all

theorem trans {u : Dispatcher} (akin : s.Akin t) (akin' : t.Akin u) : s.Akin u :=
  ⟨akin'.scheduler.trans akin.scheduler, akin'.clock.trans akin.clock,
    akin'.workerLog.trans akin.workerLog⟩

/-- The workers can do the same. -/
theorem toils (akin : s.Akin t) {move : Move} {l : Labour} (toils : s.Toils move l) :
    t.Toils move l := by
  rw [akin.eq]
  cases toils with
  | take offers => exact .take ⟨offers.present, offers.front, offers.free, offers.running⟩
  | finish held ready => exact .finish held ready

theorem does (akin : s.Akin t) (l : Labour) : (s.does l).Akin (t.does l) := by
  rw [akin.eq]
  exact .of_told _ _ _

theorem urge? (akin : s.Akin t) : t.urge? = s.urge? := by
  rw [akin.eq]
  simp only [Dispatcher.urge?, Dispatcher.take?, Option.map_map]
  rfl

end Dispatcher.Akin

theorem Dispatcher.urge?_ne_chore {s : Dispatcher} : s.urge? ≠ some .chore := by
  unfold urge?
  cases s.held.find? s.ready <;> simp

namespace Moment

variable {m m' w w' first x : Moment} {move : Move} {h : History Stage} {f : Finding} {rest : List Chore}
  {name : String}

/-- Two moments at which the same instant is the present one, and the workers see the same. -/
structure Akin (m m' : Moment) : Prop where
  now : m'.now = m.now
  dispatcher : m.dispatcher.Akin m'.dispatcher

theorem Akin.trans {m'' : Moment} (akin : m.Akin m') (akin' : m'.Akin m'') : m.Akin m'' :=
  ⟨akin'.now.trans akin.now, akin.dispatcher.trans akin'.dispatcher⟩

/-- What the control thread tells and has to do is not seen. -/
theorem Akin.retold (akin : m.Akin m') (sink : Sink) (log : History Line) (chores : List Chore)
    (verdict : Verdict) :
    Akin { m with dispatcher := { m.dispatcher with sink, log }, chores, verdict } m' :=
  ⟨akin.now, akin.dispatcher.scheduler, akin.dispatcher.clock, akin.dispatcher.workerLog⟩

/-- A step that is made at the one is prompt if the same step at the other is. -/
theorem Akin.prompt (akin : w.Akin w') (prompt : Stage.Prompt ⟨w, move⟩) :
    Stage.Prompt ⟨w', move⟩ := by
  intro next urged
  rw [akin.dispatcher.urge?] at urged
  exact prompt next urged

/-- The same is found. -/
theorem Akin.finds (akin : w.Akin w') (finds : w.Finds f rest) {rest' : List Chore}
    (left : w'.chores = .consider f.name :: rest') : w'.Finds f rest' where
  left
  found := by rw [akin.dispatcher.scheduler, finds.found]
  mode := by rw [akin.dispatcher.scheduler, finds.mode]
  now := akin.now.trans finds.now

/-- What is found has the same consequences. -/
theorem Akin.evaluated (akin : w.Akin w') (f : Finding) (rest rest' : List Chore) :
    (w.evaluated f rest).Akin (w'.evaluated f rest') := by
  refine ⟨akin.now, ?_⟩
  simp only [Moment.evaluated]
  rw [akin.dispatcher.eq]
  exact .of_told _ _ _

/-- The same step, that evaluates the same, is an echo. -/
theorem Akin.echoes (akin : w.Akin w') (tidy : w.Tidy) (tidy' : w'.Tidy) (inside : move.Inside)
    {u u' : Moment} (made : w.step? move = some u) (made' : w'.step? move = some u')
    (found : Stage.finding? ⟨w', move⟩ = Stage.finding? ⟨w, move⟩) :
    History.Echoes [⟨w, move⟩] [⟨w', move⟩] where
  handed := by
    rw [History.handed_cons, History.handed_cons, (advances tidy inside made).handed,
      (advances tidy' inside made').handed, found]
  toil := rfl
  prompt prompt := History.prompt_cons.mpr
    ⟨akin.prompt (History.prompt_cons.mp prompt).1, History.prompt_nil⟩

/-- What is only told is an echo of a chore that hands nothing over. -/
theorem Akin.echoed_told (akin : w.Akin w') (unhanded : Stage.handed ⟨w, .chore⟩ = [])
    (handed : h.handed = []) (toil : h.toil = []) (prompt : w'.dispatcher.urge? = none → h.Prompt) :
    History.Echoes [⟨w, .chore⟩] h where
  handed := by
    rw [History.handed_cons, unhanded, handed]
    rfl
  toil := toil
  prompt hurried := by
    refine prompt ?_
    rw [akin.dispatcher.urge?]
    by_contra urged
    obtain ⟨move, urged⟩ := Option.ne_none_iff_exists'.mp urged
    have chore : Move.chore = move := (History.prompt_cons.mp hurried).1 move urged
    exact Dispatcher.urge?_ne_chore (chore ▸ urged)

/-- The work of a worker is an echo of the same work. -/
theorem Akin.work (akin : w.Akin w') {l : Labour} (toils : w.dispatcher.Toils move l) :
    w'.step? move = some (w'.withDispatcher (w'.dispatcher.does l)) ∧
      (w.withDispatcher (w.dispatcher.does l)).Akin (w'.withDispatcher (w'.dispatcher.does l)) :=
  ⟨step_of_toils (akin.dispatcher.toils toils), akin.now, akin.dispatcher.does l⟩

/-! ## A tick whose sink only counts -/

theorem filterMap_considers (names : List String) :
    (names.map Chore.consider).filterMap Chore.considers? = names := by
  simp [List.filterMap_map, Function.comp_def, Chore.considers?]

/-- The moves of a tick register nothing, and leave the pool where it is. -/
theorem layout_inside (tidy : m.Tidy) (inside : move.Inside) (made : m.step? move = some m') :
    m'.dispatcher.scheduler.layout = m.dispatcher.scheduler.layout := by
  refine layout_step tidy.sound ?_ made
  rcases inside_cases inside made with rfl | ⟨l, toils, _⟩
  · refine tidy.sound.started fun none => ?_
    simp [step?, doChore?, none] at made
  · obtain ⟨p, present, _⟩ := toils.proper
    simp [Scheduler.started, present]

/-- A move that does not evaluate a task leaves it as it was before. -/
theorem kept_before (tidy : m.Tidy) (inside : move.Inside) (made : m.step? move = some m')
    (unevaluated : name ∉ (Stage.finding? ⟨m, move⟩).toList.map (·.name)) {e' : Entry}
    (found : m'.dispatcher.scheduler.entry? name = some e') :
    ∃ e, m.dispatcher.scheduler.entry? name = some e ∧ e'.due = e.due ∧ e'.task.spec = e.task.spec := by
  cases before : m.dispatcher.scheduler.entry? name with
  | none =>
    have names : m'.dispatcher.scheduler.names = m.dispatcher.scheduler.names :=
      congrArg Prod.fst (layout_inside tidy inside made)
    rw [Scheduler.entry?_eq_none_iff, ← names, ← Scheduler.entry?_eq_none_iff, found] at before
    cases before
  | some e =>
    obtain ⟨e'', found', kept⟩ := kept_step tidy inside made unevaluated before
    rw [found] at found'
    cases found'
    exact ⟨e, rfl, kept.due, kept.spec⟩

/-- A moment of a tick whose sink only counts, if no task was more than a slot behind. -/
structure Underway (m : Moment) : Prop where
  tidy : m.Tidy
  counting : m.dispatcher.sink.hooks = []
  enabled : m.dispatcher.scheduler.enabled = true
  started : m.dispatcher.scheduler.started = true
  /-- The tasks that are still to be evaluated are the last ones. -/
  order : m.ahead <:+ m.dispatcher.scheduler.names
  behind : ∀ name ∈ m.ahead, ∀ e, m.dispatcher.scheduler.entry? name = some e →
    m.now < e.due.after e.task.interval
  /-- The next slots of the others have not come due. -/
  early : m.verdict = .proceed → ∀ name, name ∉ m.ahead → ∀ e,
    m.dispatcher.scheduler.entry? name = some e → m.now < e.due
  /-- What is left of the last evaluation comes before the next one. -/
  follows : m.chores = m.ahead.map .consider ∨ ∃ (f : Finding) (gone due : List Chore),
    f.followUp = gone ++ due ∧ f.name ∉ m.ahead ∧ m.chores = due ++ m.ahead.map .consider

namespace Underway

/-- No task is evaluated twice. -/
theorem once (under : m.Underway) : m.ahead.Nodup :=
  under.order.sublist.nodup under.tidy.sound.scheduler.distinct

/-- The next chore is an evaluation, or it is left of the last one. -/
theorem next (under : m.Underway) {c : Chore} (left : m.chores = c :: rest) :
    (∃ name later, c = .consider name ∧ m.ahead = name :: later ∧ rest = later.map .consider) ∨
    ∃ (f : Finding) (gone due : List Chore), f.followUp = gone ++ c :: due ∧ f.name ∉ m.ahead ∧
      rest = due ++ m.ahead.map .consider := by
  have evaluation : m.chores = m.ahead.map .consider → ∃ name later, c = .consider name ∧
      m.ahead = name :: later ∧ rest = later.map .consider := by
    intro evaluations
    rw [left] at evaluations
    obtain ⟨name, later, split, same, tail⟩ := List.map_eq_cons_iff.mp evaluations.symm
    exact ⟨name, later, same.symm, split, tail.symm⟩
  rcases under.follows with evaluations | ⟨f, gone, due, split, apart, chores⟩
  · exact .inl (evaluation evaluations)
  · cases due with
    | nil => exact .inl (evaluation chores)
    | cons d due =>
      rw [left] at chores
      cases chores
      exact .inr ⟨f, gone, due, split, apart, rfl⟩

/-- No hook answers. -/
theorem own (under : m.Underway) {c : Chore} (left : m.chores = c :: rest) : c.acts? = none := by
  rcases under.next left with ⟨name, _, rfl, _⟩ | ⟨f, gone, due, split, _⟩
  · rfl
  · exact Finding.acts?_of_followUp (split ▸ List.mem_append_right _ List.mem_cons_self)

theorem beginTick (sound : m.Sound) (idle : m.idle = true) (counting : m.dispatcher.sink.hooks = [])
    (enabled : m.dispatcher.scheduler.enabled = true) {now : Instant}
    (behind : ∀ e ∈ m.dispatcher.scheduler.entries, now < e.due.after e.task.interval) :
    (m.beginTick now).Underway := by
  have names : (m.beginTick now).dispatcher.scheduler.names = m.dispatcher.scheduler.names := by
    simp only [Moment.beginTick, Dispatcher.opened, enabled, if_true, Dispatcher.scheduler_start]
    rfl
  have ahead := ahead_beginTick enabled now
  constructor
  · exact .beginTick sound idle now
  · rw [Moment.beginTick, Dispatcher.sink_opened]
    exact counting
  · simp [Moment.beginTick, Dispatcher.opened, enabled, Scheduler.start]
  · simp [Moment.beginTick, Dispatcher.opened, enabled, Scheduler.start, Scheduler.started]
  · exact ⟨[], ahead.trans names.symm⟩
  · intro name _ e found
    rw [Moment.beginTick, Dispatcher.entry?_opened] at found
    exact behind e (Scheduler.mem_of_found found)
  · intro _ name evaluated e found
    rw [ahead, ← names] at evaluated
    rw [Scheduler.entry?_eq_none_iff.mpr evaluated] at found
    cases found
  · left
    rw [ahead, Moment.beginTick, Dispatcher.agenda, enabled, if_pos rfl]

/-- What is left of an evaluation is told, and changes nothing. -/
theorem tell (under : m.Underway) {c : Chore} (left : m.chores = c :: rest)
    (other : c.considers? = none) :
    ∃ m', m.step? .chore = some m' ∧ m.Akin m' ∧ m'.verdict = m.verdict ∧ m'.chores = rest ∧
      m'.dispatcher.sink = c.records?.elim m.dispatcher.sink m.dispatcher.sink.record := by
  have made := step_chore left
  cases c with
  | consider name => cases other
  | act action => cases under.own left
  | note line => exact ⟨_, made, ⟨rfl, rfl, rfl, rfl⟩, rfl, rfl, rfl⟩
  | record event name =>
    have silent : (m.dispatcher.sink.record ⟨event, name⟩).actions ⟨event, name⟩ = [] := by
      simp [Sink.actions, Sink.record, under.counting]
    refine ⟨_, made, ⟨rfl, rfl, rfl, rfl⟩, rfl, ?_, rfl⟩
    simp [Dispatcher.perform, Dispatcher.send, silent, Chore.Result.next]

/-- A move that evaluates nothing leaves the slots as they are. -/
theorem still (under : m.Underway) (inside : move.Inside) (made : m.step? move = some m')
    (unfound : Stage.finding? ⟨m, move⟩ = none)
    (hooks : m'.dispatcher.sink.hooks = m.dispatcher.sink.hooks)
    (enabled : m'.dispatcher.scheduler.enabled = m.dispatcher.scheduler.enabled) (now : m'.now = m.now)
    (verdict : m'.verdict = m.verdict) (ahead : m'.ahead = m.ahead)
    (follows : m'.chores = m.ahead.map .consider ∨ ∃ (f : Finding) (gone due : List Chore),
      f.followUp = gone ++ due ∧ f.name ∉ m.ahead ∧ m'.chores = due ++ m.ahead.map .consider) :
    m'.Underway := by
  have layout := layout_inside under.tidy inside made
  have names : m'.dispatcher.scheduler.names = m.dispatcher.scheduler.names := congrArg Prod.fst layout
  have before : ∀ {name e'}, m'.dispatcher.scheduler.entry? name = some e' →
      ∃ e, m.dispatcher.scheduler.entry? name = some e ∧ e'.due = e.due ∧ e'.task.spec = e.task.spec :=
    fun found => kept_before under.tidy inside made (by simp [unfound]) found
  constructor
  · exact under.tidy.step inside made
  · exact hooks.trans under.counting
  · exact enabled.trans under.enabled
  · exact (Scheduler.started_of_layout layout).trans under.started
  · rw [ahead, names]
    exact under.order
  · intro name member e' found
    obtain ⟨e, present, due, spec⟩ := before found
    have interval : e'.task.interval = e.task.interval := congrArg Spec.interval spec
    rw [now, due, interval]
    exact under.behind name (ahead ▸ member) e present
  · intro going name evaluated e' found
    obtain ⟨e, present, due, _⟩ := before found
    rw [now, due]
    exact under.early (verdict ▸ going) name (ahead ▸ evaluated) e present
  · rw [ahead]
    exact follows

theorem evaluate (under : m.Underway) (finds : m.Finds f rest) : (m.evaluated f rest).Underway := by
  have inside : Move.Inside .chore := trivial
  have made := step_finds under.tidy.sound finds
  have layout := layout_inside under.tidy inside made
  have tidy := under.tidy.step inside made
  have started := (Scheduler.started_of_layout layout).trans under.started
  have names : (m.evaluated f rest).dispatcher.scheduler.names = m.dispatcher.scheduler.names :=
    congrArg Prod.fst layout
  obtain ⟨name, later, same, ahead, tail⟩ | ⟨g, gone, due, split, _⟩ := under.next finds.left
  case inr =>
    have silent := Finding.considers?_of_followUp
      (show .consider f.name ∈ g.followUp from split ▸ List.mem_append_right _ List.mem_cons_self)
    cases silent
  cases same
  have chores := chores_evaluated m f rest
  have apart : f.name ∉ later := (List.nodup_cons.mp (ahead ▸ under.once)).1
  by_cases blocked : f.outcome = .blocked
  · rw [if_pos blocked] at chores
    have none : (m.evaluated f rest).ahead = [] := by rw [Moment.ahead, chores, List.filterMap_nil]
    refine ⟨tidy, under.counting, under.enabled, started, by simp [none], by simp [none], ?_,
      .inl (by rw [none, chores]; rfl)⟩
    intro going
    rw [verdict_evaluated, if_pos blocked] at going
    cases going
  rw [if_neg blocked] at chores
  have rests : (m.evaluated f rest).ahead = later := by
    rw [Moment.ahead, chores, List.filterMap_append, f.followUp_considers, tail, List.nil_append,
      filterMap_considers]
  refine ⟨tidy, under.counting, under.enabled, started, ?_, ?_, ?_,
    .inr ⟨f, [], f.followUp, rfl, rests ▸ apart, ?_⟩⟩
  · rw [rests, names]
    exact (List.suffix_cons f.name later).trans (ahead ▸ under.order)
  · intro name member e found
    rw [rests] at member
    have other : name ≠ f.name := fun same => apart (same ▸ member)
    rw [entry?_evaluated_of_ne m f rest other] at found
    exact under.behind name (ahead ▸ List.mem_cons_of_mem _ member) e found
  · intro going name evaluated e found
    rw [rests] at evaluated
    by_cases same : name = f.name
    · subst same
      rw [entry?_evaluated_self m f rest finds.found] at found
      cases found
      have now : (m.evaluated f rest).now = f.now := finds.now
      rw [f.due_left]
      split
      · rename_i early
        rw [now]
        exact f.outcome_eq_early_iff.mp early
      · exact under.behind f.name (ahead ▸ List.mem_cons_self) f.entry finds.found
    · rw [entry?_evaluated_of_ne m f rest same] at found
      have going : m.verdict = .proceed := by rwa [verdict_evaluated, if_neg blocked] at going
      refine under.early going name ?_ e found
      rw [ahead, List.mem_cons]
      exact not_or.mpr ⟨same, evaluated⟩
  · rw [rests, chores, tail]

theorem step (under : m.Underway) (inside : move.Inside) (made : m.step? move = some m') :
    m'.Underway := by
  -- a chore that is no evaluation is told
  have told : ∀ {c rest}, m.chores = c :: rest → c.considers? = none → m.step? .chore = some m' →
      m'.Underway := by
    intro c rest left other made
    have inside : Move.Inside .chore := trivial
    obtain ⟨m'', made', akin, verdict, chores, sink⟩ := under.tell left other
    rw [made] at made'
    cases made'
    have ahead : m'.ahead = m.ahead := by
      rw [Moment.ahead, Moment.ahead, chores, left, List.filterMap_cons_none other]
    have hooks : m'.dispatcher.sink.hooks = m.dispatcher.sink.hooks := by
      rw [sink]
      cases c.records? <;> rfl
    refine under.still inside made (finding?_of_other left other) hooks
      (congrArg Scheduler.enabled akin.dispatcher.scheduler) akin.now verdict ahead (.inr ?_)
    rcases under.next left with ⟨name, _, rfl, _⟩ | ⟨f, gone, due, split, apart, tail⟩
    · cases other
    · exact ⟨f, gone ++ [c], due, by simp [split], apart, chores.trans tail⟩
  cases under.tidy.continues inside made with
  | evaluated finds => exact under.evaluate finds
  | recorded left | noted left => exact told left rfl made
  | obeyed left done | failed left => cases under.own left
  | worked toils => exact under.still inside made (by cases toils <;> rfl) rfl rfl rfl rfl rfl under.follows

/-- All that is left of an evaluation is told.  The workers need not be kept waiting for it. -/
theorem tellAll (under : m.Underway) {due : List Chore} (left : m.chores = due ++ m.ahead.map .consider)
    (others : ∀ c ∈ due, c.considers? = none) :
    ∃ h m', Passes Move.Inside m h m' ∧ m.Akin m' ∧ m'.Underway ∧ m'.verdict = m.verdict ∧
      m'.chores = m.ahead.map .consider ∧
      m'.dispatcher.sink.events = (due.filterMap Chore.records?).reverse ++ m.dispatcher.sink.events ∧
      h.handed = [] ∧ h.toil = [] ∧ (m.dispatcher.urge? = none → h.Prompt) := by
  have inside : Move.Inside .chore := trivial
  induction due generalizing m with
  | nil =>
    exact ⟨[], m, .refl, ⟨rfl, rfl, rfl, rfl⟩, under, rfl, left, rfl, rfl, rfl, fun _ => History.prompt_nil⟩
  | cons c due ih =>
    have other := others c List.mem_cons_self
    rw [List.cons_append] at left
    obtain ⟨next, made, akin, verdict, chores, told⟩ := under.tell left other
    have under' := under.step inside made
    have ahead : next.ahead = m.ahead := by
      rw [Moment.ahead, Moment.ahead, chores, left, List.filterMap_cons_none other]
    obtain ⟨h, last, passed, akin', done, verdict', chores', told', handed, toil, prompt⟩ :=
      ih under' (by rw [chores, ahead]) fun d member => others d (List.mem_cons_of_mem c member)
    have first : Passes Move.Inside m [⟨m, .chore⟩] next := .step .refl inside made
    refine ⟨h ++ [⟨m, .chore⟩], last, first.append passed, ?_, done, verdict'.trans verdict,
      chores'.trans (by rw [ahead]), ?_, ?_, ?_, ?_⟩
    · exact akin.trans akin'
    · rw [told', told]
      cases records : c.records? <;> simp [records, Sink.record]
    · have unhanded : Stage.handed ⟨m, .chore⟩ = [] := by
        rw [(advances under.tidy inside made).handed, finding?_of_other left other]
        rfl
      rw [History.handed_append, handed, History.handed_cons, unhanded]
      rfl
    · rw [History.toil_append, toil]
      rfl
    · intro rests
      have same : next.dispatcher.urge? = none := by rw [akin.dispatcher.urge?, rests]
      refine History.prompt_append.mpr ⟨prompt same, History.prompt_cons.mpr ⟨?_, History.prompt_nil⟩⟩
      intro move urged
      rw [rests] at urged
      cases urged

end Underway

/-! ## Run against run -/

/-- A step of one run leads to `u`; the other run does the same work from `w'` on, and reaches a moment that
is related to `u`. -/
def Echoed (related : Moment → Moment → Prop) (stage : Stage) (u w' : Moment) : Prop :=
  ∃ h u', Passes Move.Inside w' h u' ∧ related u u' ∧ u'.Underway ∧ History.Echoes [stage] h

/-- If each step of one run is echoed in the other, then so is the whole run. -/
theorem Passes.echoed {related : Moment → Moment → Prop}
    (each : ∀ {w w' move u}, related w w' → w.Tidy → w'.Underway → move.Inside →
      w.step? move = some u → Echoed related ⟨w, move⟩ u w')
    {first' : Moment} (start : related first first') (tidy : first.Tidy) (under : first'.Underway)
    (passed : Passes Move.Inside first h w) :
    w.Tidy ∧ ∃ h' w', Passes Move.Inside first' h' w' ∧ related w w' ∧ w'.Underway ∧
      History.Echoes h h' := by
  induction passed with
  | refl => exact ⟨tidy, [], first', .refl, start, under, .nil⟩
  | step before inside made ih =>
    obtain ⟨tidy, h', w', passed', relates, under, echoes⟩ := ih
    obtain ⟨k, u', more, relates', under', echoes'⟩ := each relates tidy under inside made
    exact ⟨tidy.step inside made, k ++ h', u', passed'.append more, relates', under',
      echoes.append echoes'⟩

/-- The same step is made in both runs. -/
theorem Akin.echoed {related : Moment → Moment → Prop} {u u' : Moment} (akin : w.Akin w')
    (tidy : w.Tidy) (under : w'.Underway) (inside : move.Inside) (made : w.step? move = some u)
    (made' : w'.step? move = some u')
    (found : Stage.finding? ⟨w', move⟩ = Stage.finding? ⟨w, move⟩) (relates : related u u') :
    Echoed related ⟨w, move⟩ u w' :=
  ⟨_, u', .step .refl inside made', relates, under.step inside made',
    akin.echoes tidy under.tidy inside made made' found⟩

/-- The same work is done by a worker in both runs. -/
theorem Akin.echoed_work {related : Moment → Moment → Prop} (akin : w.Akin w') (tidy : w.Tidy)
    (under : w'.Underway) {l : Labour} (toils : w.dispatcher.Toils move l)
    (relates : ∀ {u u' : Moment}, u = w.withDispatcher (w.dispatcher.does l) →
      u' = w'.withDispatcher (w'.dispatcher.does l) → u.Akin u' → related u u') :
    Echoed related ⟨w, move⟩ (w.withDispatcher (w.dispatcher.does l)) w' := by
  obtain ⟨made', akin'⟩ := akin.work toils
  refine akin.echoed tidy under ?_ (step_of_toils toils) made' ?_ (relates rfl rfl akin')
  · cases toils <;> trivial
  · cases toils <;> rfl

end Moment

end Cadence
