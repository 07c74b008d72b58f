import Cadence.Proofs.PairedTicks

/-!
A tick that fails at an event is made up for by the next one.

When the sink raises a fault at an event, the control thread leaves the tick in the middle; the slot of
the task was consumed before, and its health may have changed.  A second tick at the same instant finds the
tasks that were evaluated with their next slots not yet due, if none of them was more than a slot behind,
and evaluates the others as the first tick would have done.  So the two ticks together are, step by step,
one tick in which the sink does not fail (`Moment.Trial`, `Moment.Mirrors`); of the events only one can be
missing, the second of the two that tell of a task that turned slow.
-/

namespace Cadence

/-! ## A sink that fails -/

namespace Sink

/-- The hook that raises a fault when an event is recorded next. -/
def thrower (s : Sink) (key : Tally.Key) (what : String) : Hook :=
  ⟨key.event, key.name, (s.tally.count key + 1).toNat, .raise what⟩

variable {s t : Sink} {key : Tally.Key} {what : String}

/-- It does not answer other events. -/
theorem actions_thrower_of_ne (hooks : s.hooks = [t.thrower key what]) {other : Tally.Key}
    (different : other ≠ key) : (s.record other).actions other = [] := by
  have deaf : (s.record other).answers other (t.thrower key what) = false := by
    refine decide_eq_false ?_
    rintro ⟨event, name, _⟩
    cases key
    cases other
    exact different (by simp_all [thrower])
  rw [actions, show (s.record other).hooks = s.hooks from rfl, hooks]
  simp [deaf]

/-- It answers the event, if this was not recorded meanwhile. -/
theorem actions_thrower_self (ascending : s.tally.Ascending) (hooks : s.hooks = [t.thrower key what])
    (count : s.tally.count key = t.tally.count key) : (s.record key).actions key = [.raise what] := by
  have answered : (s.record key).answers key (t.thrower key what) = true := by
    simp [answers, thrower, record, Tally.count_record_self ascending, count]
  rw [actions, show (s.record key).hooks = s.hooks from rfl, hooks, List.filter_cons_of_pos answered]
  rfl

end Sink

/-- The event that is missing if the sink fails at an event: a task that turned slow is not reported as
skipped any more. -/
def Tally.Key.lost (key : Tally.Key) : List Tally.Key :=
  if key.event = .markedSlow then [⟨.skippedInProgress, key.name⟩] else []

theorem Tally.Key.reverse_lost (key : Tally.Key) : key.lost.reverse = key.lost := by
  unfold lost
  split <;> rfl

namespace Finding

variable {f : Finding} {gone due : List Chore} {event : Event} {name : String}

/-- What is still to be recorded after an event. -/
theorem records_after (split : f.followUp = gone ++ .record event name :: due) :
    due.filterMap Chore.records? = Tally.Key.lost ⟨event, name⟩ := by
  have told := f.followUp_records
  rw [split, List.filterMap_append] at told
  change _ ++ ⟨event, name⟩ :: due.filterMap Chore.records? = _ at told
  generalize gone.filterMap Chore.records? = before at told
  generalize due.filterMap Chore.records? = after at told ⊢
  rcases f.keys_cases with none | ⟨other, different, one⟩ | two
  · simp [none] at told
  · rw [one, List.append_eq_singleton_iff] at told
    rcases told with ⟨rfl, same⟩ | ⟨_, none⟩
    · cases same
      simp [Tally.Key.lost, different]
    · cases none
  · rw [two] at told
    rcases before with _ | ⟨k, _ | ⟨k', before⟩⟩
    · cases told
      rfl
    · cases told
      rfl
    · simp at told

end Finding

namespace Moment

variable {m m' w w' first x : Moment} {move : Move} {h : History Stage} {f : Finding} {rest : List Chore}
  {name : String}

/-! ### The tick that fails -/

section

variable (m : Moment) (key : Tally.Key) (what : String) (w w' : Moment)

/-- The sink has not failed, and there is no difference to a tick with a sink that only counts. -/
structure Unstruck : Prop where
  akin : w.Akin w'
  chores : w.chores = w'.chores
  verdict : w.verdict = w'.verdict
  sink : w.dispatcher.sink = { w'.dispatcher.sink with hooks := [m.dispatcher.sink.thrower key what] }
  count : w'.dispatcher.sink.tally.count key = m.dispatcher.sink.tally.count key
  events : ∃ told, w'.dispatcher.sink.events = told ++ m.dispatcher.sink.events ∧ key ∉ told

/-- The event was recorded, and the fault is about to be raised. -/
structure Struck : Prop where
  akin : w.Akin w'
  chores : w.chores = .act (.raise what) :: w'.chores
  going : w'.verdict = .proceed
  events : ∃ told, w.dispatcher.sink.events = key :: (told ++ m.dispatcher.sink.events)
  same : w'.dispatcher.sink.events = w.dispatcher.sink.events
  left : ∃ (f : Finding) (gone due : List Chore), f.followUp = gone ++ .record key.event key.name :: due ∧
    f.name ∉ w'.ahead ∧ w'.chores = due ++ w'.ahead.map .consider

/-- The tick has failed; without the fault the evaluation would be complete. -/
structure Broken : Prop where
  akin : w.Akin w'
  spent : w.chores = []
  verdict : w.verdict = .fail (.raised what)
  going : w'.verdict = .proceed
  events : ∃ told, w.dispatcher.sink.events = key :: (told ++ m.dispatcher.sink.events)
  lost : w'.dispatcher.sink.events = key.lost ++ w.dispatcher.sink.events
  apart : key.name ∉ w'.ahead
  left : w'.chores = w'.ahead.map .consider

/-- How a tick whose sink fails compares to the same tick with a sink that only counts. -/
inductive Trial : Prop
  | unstruck (unstruck : Unstruck m key what w w')
  | struck (struck : Struck m key what w w')
  | broken (broken : Broken m key what w w')

end

variable {key : Tally.Key} {what : String} {u : Moment} {event : Event}

namespace Unstruck

variable (unstruck : Unstruck m key what w w') (tidy : w.Tidy) (under : w'.Underway)
include unstruck tidy under

/-- The sink is told of the event for which it is armed. -/
theorem strike (left : w.chores = .record key.event key.name :: rest)
    (made : w.step? .chore = some u)
    (told : u = { w with
      dispatcher := { w.dispatcher with sink := w.dispatcher.sink.record key }
      chores := ((w.dispatcher.sink.record key).actions key).map .act ++ rest }) :
    Echoed (Trial m key what) ⟨w, .chore⟩ u w' := by
  have left' : w'.chores = .record key.event key.name :: rest := unstruck.chores ▸ left
  obtain ⟨u', made', akin', verdict', chores', sink'⟩ := under.tell left' rfl
  have hooks : w.dispatcher.sink.hooks = [m.dispatcher.sink.thrower key what] := by rw [unstruck.sink]
  have count : w.dispatcher.sink.tally.count key = m.dispatcher.sink.tally.count key := by
    rw [unstruck.sink]
    exact unstruck.count
  have answer := Sink.actions_thrower_self tidy.sound.counters hooks count
  have same : w.dispatcher.sink.events = w'.dispatcher.sink.events := by rw [unstruck.sink]
  obtain ⟨before, events, _⟩ := unstruck.events
  obtain ⟨_, _, consider, _⟩ | ⟨f, gone, due, split, apart, tail⟩ := under.next left'
  · cases consider
  have ahead : u'.ahead = w'.ahead := by
    rw [Moment.ahead, Moment.ahead, chores', left']
    rfl
  refine unstruck.akin.echoed tidy under trivial made made'
    (by rw [finding?_of_other left rfl, finding?_of_other left' rfl]) (.struck ?_)
  subst told
  constructor
  · exact (unstruck.akin.trans akin').retold _ _ _ _
  · rw [answer, chores']
    rfl
  · exact verdict'.trans (under.tidy.going (by simp [left']))
  · exact ⟨before, congrArg _ (same.trans events)⟩
  · rw [sink']
    exact congrArg (key :: ·) same.symm
  · exact ⟨f, gone, due, split, ahead ▸ apart, by rw [chores', ahead, tail]⟩

/-- The sink is told of another event. -/
theorem record (different : (⟨event, name⟩ : Tally.Key) ≠ key)
    (left : w.chores = .record event name :: rest) (made : w.step? .chore = some u)
    (told : u = { w with
      dispatcher := { w.dispatcher with sink := w.dispatcher.sink.record ⟨event, name⟩ }
      chores := ((w.dispatcher.sink.record ⟨event, name⟩).actions ⟨event, name⟩).map .act ++ rest }) :
    Echoed (Trial m key what) ⟨w, .chore⟩ u w' := by
  have left' : w'.chores = .record event name :: rest := unstruck.chores ▸ left
  obtain ⟨u', made', akin', verdict', chores', sink'⟩ := under.tell left' rfl
  have hooks : w.dispatcher.sink.hooks = [m.dispatcher.sink.thrower key what] := by rw [unstruck.sink]
  have silent := Sink.actions_thrower_of_ne hooks different
  obtain ⟨before, events, untold⟩ := unstruck.events
  refine unstruck.akin.echoed tidy under trivial made made'
    (by rw [finding?_of_other left rfl, finding?_of_other left' rfl]) (.unstruck ?_)
  subst told
  constructor
  · exact (unstruck.akin.trans akin').retold _ _ _ _
  · rw [silent, chores']
    rfl
  · exact unstruck.verdict.trans verdict'.symm
  · rw [sink']
    change w.dispatcher.sink.record _ = _
    rw [unstruck.sink]
    rfl
  · rw [sink']
    exact (Tally.count_record_of_ne _ (Ne.symm different)).trans unstruck.count
  · refine ⟨⟨event, name⟩ :: before, ?_, by simp [Ne.symm different, untold]⟩
    rw [sink']
    exact congrArg (_ :: ·) events

theorem step (inside : move.Inside) (made : w.step? move = some u) :
    Echoed (Trial m key what) ⟨w, move⟩ u w' := by
  cases tidy.continues inside made with
  | @evaluated f rest finds =>
    have finds' := unstruck.akin.finds finds (unstruck.chores ▸ finds.left)
    refine unstruck.akin.echoed tidy under inside made (step_finds under.tidy.sound finds')
      ((finding?_of_finds finds').trans (finding?_of_finds finds).symm) (.unstruck ?_)
    refine ⟨unstruck.akin.evaluated f rest rest, ?_, ?_, unstruck.sink, unstruck.count, unstruck.events⟩
    · rw [chores_evaluated, chores_evaluated]
    · rw [verdict_evaluated, verdict_evaluated, unstruck.verdict]
  | @recorded event name rest left =>
    by_cases same : ⟨event, name⟩ = key
    · subst same
      exact unstruck.strike tidy under left made rfl
    · exact unstruck.record tidy under same left made rfl
  | @noted line rest left =>
    have left' : w'.chores = .note line :: rest := unstruck.chores ▸ left
    obtain ⟨u', made', akin', verdict', chores', sink'⟩ := under.tell left' rfl
    have same : u'.dispatcher.sink = w'.dispatcher.sink := sink'
    refine unstruck.akin.echoed tidy under inside made made'
      (by rw [finding?_of_other left rfl, finding?_of_other left' rfl]) (.unstruck ?_)
    refine ⟨(unstruck.akin.trans akin').retold _ _ _ _, chores'.symm, unstruck.verdict.trans verdict'.symm,
      ?_, ?_, ?_⟩
    all_goals rw [same]
    · exact unstruck.sink
    · exact unstruck.count
    · exact unstruck.events
  | obeyed left done | failed left =>
    have own := under.own (unstruck.chores ▸ left)
    cases own
  | worked toils =>
    refine unstruck.akin.echoed_work tidy under toils ?_
    rintro _ _ rfl rfl akin
    exact .unstruck ⟨akin, unstruck.chores, unstruck.verdict, unstruck.sink, unstruck.count, unstruck.events⟩

end Unstruck

/-- The fault is raised, and what is left of the evaluation is told in the other tick only. -/
theorem Struck.step (struck : Struck m key what w w') (tidy : w.Tidy) (under : w'.Underway)
    (inside : move.Inside) (made : w.step? move = some u) :
    Echoed (Trial m key what) ⟨w, move⟩ u w' := by
  have next : ∀ {c rest}, w.chores = c :: rest → c = .act (.raise what) := by
    intro c rest head
    rw [struck.chores] at head
    exact (List.cons.inj head).1.symm
  cases tidy.continues inside made with
  | failed left =>
    cases next left
    obtain ⟨f, gone, due, split, apart, left'⟩ := struck.left
    have split' : f.followUp = (gone ++ [.record key.event key.name]) ++ due := by simp [split]
    obtain ⟨h, u', passed, akin', under', verdict', chores', events', handed, toil, prompt⟩ :=
      under.tellAll left' fun c member =>
        Finding.considers?_of_followUp (split' ▸ List.mem_append_right _ member)
    have ahead : u'.ahead = w'.ahead := by rw [Moment.ahead, chores', filterMap_considers]
    have told : .record key.event key.name ∈ f.followUp := by simp [split]
    have named : key.name = f.name := Finding.name_of_followUp told
    refine ⟨h, u', passed, .broken ?_, under', struck.akin.echoed_told ?_ handed toil prompt⟩
    · refine ⟨(struck.akin.trans akin').retold _ _ _ _, rfl, rfl, verdict'.trans struck.going,
        struck.events, ?_, ?_, ?_⟩
      · rw [events', struck.same, Finding.records_after split, Tally.Key.reverse_lost]
      · rw [ahead, named]
        exact apart
      · rw [ahead, chores']
    · rw [(advances tidy inside made).handed, finding?_of_other left rfl]
      rfl
  | worked toils =>
    refine struck.akin.echoed_work tidy under toils ?_
    rintro _ _ rfl rfl akin
    exact .struck ⟨akin, struck.chores, struck.going, struck.events, struck.same, struck.left⟩
  | evaluated finds => cases next finds.left
  | recorded left | noted left => cases next left
  | obeyed left done =>
    cases next left
    cases done

/-- After the failure there is work for the workers only. -/
theorem Broken.step (broken : Broken m key what w w') (tidy : w.Tidy) (under : w'.Underway)
    (inside : move.Inside) (made : w.step? move = some u) :
    Echoed (Trial m key what) ⟨w, move⟩ u w' := by
  have none : ∀ {c rest}, w.chores = c :: rest → False := by
    intro c rest left
    rw [broken.spent] at left
    cases left
  cases tidy.continues inside made with
  | worked toils =>
    refine broken.akin.echoed_work tidy under toils ?_
    rintro _ _ rfl rfl akin
    exact .broken ⟨akin, broken.spent, broken.verdict, broken.going, broken.events, broken.lost,
      broken.apart, broken.left⟩
  | evaluated finds => exact (none finds.left).elim
  | recorded left | noted left | obeyed left done | failed left => exact (none left).elim

theorem Trial.step (trial : Trial m key what w w') (tidy : w.Tidy) (under : w'.Underway)
    (inside : move.Inside) (made : w.step? move = some u) :
    Echoed (Trial m key what) ⟨w, move⟩ u w' := by
  cases trial with
  | unstruck unstruck => exact unstruck.step tidy under inside made
  | struck struck => exact struck.step tidy under inside made
  | broken broken => exact broken.step tidy under inside made

/-! ### The tick that makes up for it -/

/-- The evaluation of a task whose slot has not come due changes nothing. -/
theorem evaluated_early (early : f.outcome = .early) (rest : List Chore) :
    m.evaluated f rest = { m with chores := rest } := by
  have ruling := f.ruling_eq
  rw [early] at ruling
  simp [evaluated, ruling, Scheduler.modifyEntry, Chore.Result.next, Chore.Result.verdict]

/-- How the second tick compares to what is left of the tick with a sink that only counts: some tasks are
evaluated again, but their next slots have not come due. -/
structure Mirrors (hook : Hook) (key : Tally.Key) (before : History Tally.Key) (w w' : Moment) :
    Prop where
  akin : w.Akin w'
  verdict : w.verdict = w'.verdict
  chores : ∃ again : List String, w.chores = again.map .consider ++ w'.chores ∧ ∀ name ∈ again, ∀ e,
    w.dispatcher.scheduler.entry? name = some e → w.now < e.due
  hooks : w.dispatcher.sink.hooks = [hook]
  /-- Nothing is told of the task at whose event the sink failed. -/
  apart : key.name ∉ w'.ahead
  quiet : ∀ event, .record event key.name ∉ w'.chores
  events : ∃ later, w.dispatcher.sink.events = later ++ before ∧
    w'.dispatcher.sink.events = later ++ key.lost ++ before

namespace Mirrors

variable {sink : Sink} {before : History Tally.Key}
  (mirrors : Mirrors (sink.thrower key what) key before w w') (tidy : w.Tidy) (under : w'.Underway)
include mirrors

/-- What is next and is no evaluation is next for both. -/
theorem next {c : Chore} (left : w.chores = c :: rest) (other : c.considers? = none) :
    w'.chores = c :: rest := by
  obtain ⟨again, chores, _⟩ := mirrors.chores
  rw [left] at chores
  cases again with
  | nil => exact chores.symm
  | cons name again =>
    cases chores
    cases other

include tidy under

/-- A task is evaluated that was evaluated before, or one that was not. -/
theorem evaluate (finds : w.Finds f rest) :
    Echoed (Mirrors (sink.thrower key what) key before) ⟨w, .chore⟩ (w.evaluated f rest) w' := by
  have inside : Move.Inside .chore := trivial
  have made := step_finds tidy.sound finds
  obtain ⟨akin, verdict, ⟨again, chores, early⟩, hooks, apart, quiet, events⟩ := mirrors
  rw [finds.left] at chores
  cases again with
  | cons name again =>
    cases chores
    have outcome : f.outcome = .early :=
      f.outcome_eq_early_iff.mpr (finds.now ▸ early f.name List.mem_cons_self f.entry finds.found)
    refine ⟨[], w', .refl, ?_, under, akin.echoed_told ?_ rfl rfl fun _ => History.prompt_nil⟩
    · rw [evaluated_early outcome]
      exact ⟨akin.retold _ _ _ _, verdict, ⟨again, rfl, fun name member =>
        early name (List.mem_cons_of_mem _ member)⟩, hooks, apart, quiet, events⟩
    · rw [(advances tidy inside made).handed, finding?_of_finds finds]
      simp [outcome]
  | nil =>
    have left : w'.chores = .consider f.name :: rest := chores.symm
    have finds' := akin.finds finds left
    have ahead : w'.ahead = f.name :: rest.filterMap Chore.considers? := by
      rw [Moment.ahead, left]
      rfl
    have other : key.name ≠ f.name ∧ key.name ∉ rest.filterMap Chore.considers? := by
      simpa [ahead] using apart
    refine akin.echoed tidy under inside made (step_finds under.tidy.sound finds')
      ((finding?_of_finds finds').trans (finding?_of_finds finds).symm) ?_
    refine ⟨akin.evaluated f rest rest, ?_, ⟨[], ?_, by simp⟩, hooks, ?_, ?_, events⟩
    · rw [verdict_evaluated, verdict_evaluated, verdict]
    · rw [chores_evaluated, chores_evaluated]
      rfl
    · rw [Moment.ahead, chores_evaluated]
      split
      · exact List.not_mem_nil
      · rw [List.filterMap_append, f.followUp_considers]
        exact other.2
    · intro event member
      rw [chores_evaluated] at member
      split at member
      · cases member
      · rcases List.mem_append.mp member with new | old
        · exact other.1 (Finding.name_of_followUp new)
        · exact quiet event (left ▸ List.mem_cons_of_mem _ old)

/-- Something is told in both ticks. -/
theorem tell {c : Chore} (log : History Line) (left : w.chores = c :: rest)
    (other : c.considers? = none) (made : w.step? .chore = some u)
    (told : u = { w with
      dispatcher := { w.dispatcher with
        sink := c.records?.elim w.dispatcher.sink w.dispatcher.sink.record, log }
      chores := rest }) :
    Echoed (Mirrors (sink.thrower key what) key before) ⟨w, .chore⟩ u w' := by
  have left' := mirrors.next left other
  obtain ⟨u', made', akin', verdict', chores', sink'⟩ := under.tell left' other
  obtain ⟨later, events, events'⟩ := mirrors.events
  refine mirrors.akin.echoed tidy under trivial made made'
    (by rw [finding?_of_other left other, finding?_of_other left' other]) ?_
  rw [told]
  refine ⟨(mirrors.akin.trans akin').retold _ _ _ _, mirrors.verdict.trans verdict'.symm,
    ⟨[], chores'.symm, by simp⟩, ?_, ?_, ?_, c.records?.toList ++ later, ?_, ?_⟩
  · cases c.records? <;> exact mirrors.hooks
  · have apart := mirrors.apart
    rw [Moment.ahead, left', List.filterMap_cons_none other] at apart
    rw [Moment.ahead, chores']
    exact apart
  · intro event member
    exact mirrors.quiet event (left' ▸ List.mem_cons_of_mem _ (chores' ▸ member))
  · cases c.records? with
    | none => exact events
    | some k => exact congrArg (k :: ·) events
  · rw [sink']
    cases c.records? with
    | none => exact events'
    | some k => exact congrArg (k :: ·) events'

theorem step (inside : move.Inside) (made : w.step? move = some u) :
    Echoed (Mirrors (sink.thrower key what) key before) ⟨w, move⟩ u w' := by
  cases tidy.continues inside made with
  | evaluated finds => exact mirrors.evaluate tidy under finds
  | @recorded event name rest left =>
    have different : (⟨event, name⟩ : Tally.Key) ≠ key := by
      rintro rfl
      exact mirrors.quiet event (by simp [mirrors.next left rfl])
    have silent := Sink.actions_thrower_of_ne mirrors.hooks different
    refine mirrors.tell tidy under w.dispatcher.log left rfl made ?_
    rw [silent]
    rfl
  | noted left => exact mirrors.tell tidy under _ left rfl made rfl
  | obeyed left done | failed left => cases under.own (mirrors.next left rfl)
  | worked toils =>
    refine mirrors.akin.echoed_work tidy under toils ?_
    rintro u u' same same' akin
    obtain ⟨again, chores, early⟩ := mirrors.chores
    subst same same'
    refine ⟨akin, mirrors.verdict, ⟨again, chores, ?_⟩, mirrors.hooks, mirrors.apart, mirrors.quiet,
      mirrors.events⟩
    intro name member e found
    obtain ⟨e', present, due, _⟩ := kept_before tidy inside made
      (by cases toils <;> simp [Stage.finding?]) found
    rw [due]
    exact early name member e' present

end Mirrors

/-! ## The two ticks together -/

/-- The moment between two ticks in which the sink has no hooks any more, and only counts. -/
def counting (m : Moment) : Moment where
  dispatcher := { m.dispatcher with sink := { m.dispatcher.sink with hooks := [] } }
  now := m.now

theorem Sound.counting (sound : m.Sound) : m.counting.Sound := by
  refine ⟨sound.scheduler, sound.counters, fun some => absurd rfl some, .nil, ?_, ?_⟩ <;>
    simp [Moment.counting]

/-- The moment whose sink will fail when an event is recorded next. -/
def armed (m : Moment) (key : Tally.Key) (what : String) : Moment :=
  m.withDispatcher (m.dispatcher.addHook (m.dispatcher.sink.thrower key what))

/-- The tick of `m` with a sink that only counts ends in `x` after the steps `h`; the tick that fails at an
event ends in `x₁` after the steps `h₁`, and a second one in `x₂` after the steps `h₂`: the two come to the
same as the one. -/
structure Resumed (m : Moment) (key : Tally.Key) (h : History Stage) (x : Moment)
    (h₁ : History Stage) (x₁ : Moment) (h₂ : History Stage) (x₂ : Moment) : Prop where
  /-- The second tick comes to what the one tick comes to. -/
  verdict : x₂.verdict = x.verdict
  /-- In the end the tasks and the pool are the same. -/
  scheduler : x₂.dispatcher.scheduler = x.dispatcher.scheduler
  clock : x₂.dispatcher.clock = x.dispatcher.clock
  /-- The same jobs are handed over, in the same order. -/
  handed : h₁.handed ++ h₂.handed = h.handed
  /-- The workers make the same steps, in the same order. -/
  toil : h₁.toil ++ h₂.toil = h.toil
  /-- The first tick tells of the events up to the one at which it fails, and the second one of the others,
  but for the one that is lost. -/
  events : ∃ sooner later,
    History.since m.dispatcher.sink.events x₁.dispatcher.sink.events = sooner ++ [key] ∧
    History.since m.dispatcher.sink.events x₂.dispatcher.sink.events = sooner ++ key :: later ∧
    History.since m.dispatcher.sink.events x.dispatcher.sink.events = sooner ++ key :: (key.lost ++ later)

variable {key : Tally.Key} {what : String} {now : Instant} {h₁ h₂ : History Stage} {x₁ x₂ : Moment}

/-- No event is told twice in a tick. -/
theorem Account.told_once (account : m.Account now h x) (sound : m.Sound) :
    (History.since m.dispatcher.sink.events x.dispatcher.sink.events).Nodup := by
  have distinct : (h.findings.map (·.name)).Nodup :=
    account.order.sublist.nodup sound.scheduler.distinct
  have told : h.findings.flatMap (·.keys) =
      History.since m.dispatcher.sink.events x.dispatcher.sink.events := by
    have events := congrArg List.reverse account.events
    simp only [History.all, List.reverse_append, List.reverse_reverse] at events
    rw [events, History.since_append, List.reverse_reverse]
  rw [← told, List.nodup_flatMap]
  constructor
  · intro f _
    rcases f.keys_cases with none | ⟨event, _, one⟩ | two
    · simp [none]
    · simp [one]
    · simp [two]
  · refine (List.pairwise_map.mp distinct).imp fun {f g} different key first second => different ?_
    obtain ⟨_, _, rfl⟩ := List.mem_map.mp first
    obtain ⟨_, _, same⟩ := List.mem_map.mp second
    exact (congrArg Tally.Key.name same).symm

theorem Akin.opened {s t : Dispatcher} (akin : s.Akin t) : s.opened.Akin t.opened := by
  rw [akin.eq]
  constructor
  · simp only [Dispatcher.opened, apply_ite Dispatcher.scheduler, Dispatcher.scheduler_start]
  · simp
  · simp

theorem Tidy.armed (sound : m.Sound) (idle : m.idle = true) :
    ((m.armed key what).beginTick now).Tidy := by
  have made : m.step? (.hook (m.dispatcher.sink.thrower key what)) = some (m.armed key what) := rfl
  exact .beginTick (sound_step sound made) idle now

/-- How the first tick compares to the one tick. -/
theorem Passes.trial (sound : m.Sound) (idle : m.idle = true) (counting : m.dispatcher.sink.hooks = [])
    (enabled : m.dispatcher.scheduler.enabled = true)
    (behind : ∀ e ∈ m.dispatcher.scheduler.entries, now < e.due.after e.task.interval)
    (passed : Passes Move.Inside ((m.armed key what).beginTick now) h₁ x₁) :
    x₁.Tidy ∧ ∃ h w, Passes Move.Inside (m.beginTick now) h w ∧ Trial m key what x₁ w ∧ w.Underway ∧
      History.Echoes h₁ h := by
  have under := Underway.beginTick sound idle counting enabled behind
  refine passed.echoed (fun trial tidy under inside made => trial.step tidy under inside made) ?_
    (.armed sound idle) under
  refine .unstruck ⟨⟨rfl, Akin.opened ⟨rfl, rfl, rfl⟩⟩, rfl, rfl, ?_, ?_, [], ?_, List.not_mem_nil⟩
  all_goals simp only [Moment.beginTick, Dispatcher.sink_opened]
  · simp [Moment.armed, withDispatcher, Dispatcher.addHook, counting]
  · rfl

/-- How the second tick compares to what is left of the one tick. -/
theorem Passes.mirrors (broken : Broken m key what x₁ w) (tidy : x₁.Tidy) (under : w.Underway)
    (hooks : x₁.dispatcher.sink.hooks = [m.dispatcher.sink.thrower key what]) (instant : x₁.now = now)
    (passed : Passes Move.Inside (x₁.beginTick now) h₂ x₂) :
    x₂.Tidy ∧ ∃ h x, Passes Move.Inside w h x ∧
      Mirrors (m.dispatcher.sink.thrower key what) key x₁.dispatcher.sink.events x₂ x ∧ x.Underway ∧
      History.Echoes h₂ h := by
  have idle : x₁.idle = true := List.isEmpty_iff.mpr broken.spent
  refine passed.echoed (fun mirrors tidy under inside made => mirrors.step tidy under inside made) ?_
    (.beginTick tidy.sound idle now) under
  have scheduler := broken.akin.dispatcher.scheduler
  have opened : x₁.dispatcher.opened = x₁.dispatcher := by
    have started : x₁.dispatcher.scheduler.started = true := scheduler ▸ under.started
    simp [Dispatcher.opened, Dispatcher.start, started]
  obtain ⟨again, split⟩ := under.order
  have begun : x₁.beginTick now = { x₁ with
      chores := again.map .consider ++ w.chores, verdict := .proceed } := by
    simp only [Moment.beginTick, Dispatcher.agenda, opened, ← scheduler, under.enabled, if_true, ← split,
      broken.left, List.map_append, instant]
  have distinct := under.tidy.sound.scheduler.distinct
  rw [← split] at distinct
  rw [begun]
  refine ⟨⟨broken.akin.now, broken.akin.dispatcher⟩, broken.going.symm, ⟨again, rfl, ?_⟩, hooks,
    broken.apart, ?_, [], rfl, broken.lost⟩
  · intro name member e found
    rw [← scheduler] at found
    have evaluated := List.disjoint_of_nodup_append distinct member
    exact broken.akin.now ▸ under.early broken.going name evaluated e found
  · intro event member
    rw [broken.left] at member
    simp at member

/-- If the first tick fails, then the two ticks together are one tick with a sink that only counts. -/
theorem Passes.resumed (sound : m.Sound) (idle : m.idle = true) (counting : m.dispatcher.sink.hooks = [])
    (behind : ∀ e ∈ m.dispatcher.scheduler.entries, now < e.due.after e.task.interval)
    (passed₁ : Passes Move.Inside ((m.armed key what).beginTick now) h₁ x₁)
    (failed : x₁.verdict = .fail (.raised what))
    (passed₂ : Passes Move.Inside (x₁.beginTick now) h₂ x₂) (spent₂ : x₂.idle = true) :
    ∃ h x, Passes Move.Inside (m.beginTick now) h x ∧ x.idle = true ∧ x₂.dispatcher.Akin x.dispatcher ∧
      Resumed m key h x h₁ x₁ h₂ x₂ ∧ (h₁.Prompt → h₂.Prompt → h.Prompt) := by
  have enabled : m.dispatcher.scheduler.enabled = true := by
    by_contra disabled
    have nothing : ((m.armed key what).beginTick now).chores = [] := by
      simp only [Moment.beginTick, Dispatcher.agenda]
      exact if_neg disabled
    have same := (Agree.of_idle (List.isEmpty_iff.mpr nothing) passed₁.reaches).2.verdict
    rw [failed] at same
    cases same
  have hooks := passed₁.hooks_inside
  have instant := (passed₁.recounts (.armed sound idle) rfl).now
  obtain ⟨tidy, h, w, passed, trial, under, echoes⟩ := passed₁.trial sound idle counting enabled behind
  cases trial with
  | unstruck unstruck =>
    obtain ⟨hook, hooked, _⟩ := under.tidy.sound.faulted _ (unstruck.verdict.symm.trans failed)
    rw [under.counting] at hooked
    cases hooked
  | struck struck =>
    have going := tidy.going (by simp [struck.chores])
    rw [failed] at going
    cases going
  | broken broken =>
    have hooked : x₁.dispatcher.sink.hooks = [m.dispatcher.sink.thrower key what] := by
      rw [hooks, Moment.beginTick, Dispatcher.sink_opened]
      simp [Moment.armed, withDispatcher, Dispatcher.addHook, counting]
    obtain ⟨_, h', x, passed', mirrors, _, echoes'⟩ := passed₂.mirrors broken tidy under hooked instant
    obtain ⟨again, chores, _⟩ := mirrors.chores
    have nothing : x.chores = [] := by
      rw [List.isEmpty_iff.mp spent₂] at chores
      exact (List.append_eq_nil_iff.mp chores.symm).2
    obtain ⟨told, events⟩ := broken.events
    obtain ⟨later, events₂, events₃⟩ := mirrors.events
    have echoed := echoes.append echoes'
    refine ⟨h' ++ h, x, passed.append passed', List.isEmpty_iff.mpr nothing, mirrors.akin.dispatcher, ?_,
      fun first second => echoed.prompt (History.prompt_append.mpr ⟨second, first⟩)⟩
    refine ⟨mirrors.verdict, mirrors.akin.dispatcher.scheduler.symm, mirrors.akin.dispatcher.clock.symm,
      ?_, ?_, told.reverse, later.reverse, ?_, ?_, ?_⟩
    · rw [echoed.handed, History.handed_append]
    · rw [echoed.toil, History.toil_append]
    · rw [show x₁.dispatcher.sink.events = key :: told ++ m.dispatcher.sink.events from events,
        History.since_append]
      simp
    · rw [events₂, events, ← List.cons_append, ← List.append_assoc, History.since_append]
      simp
    · rw [events₃, events, ← List.cons_append, ← List.append_assoc, History.since_append]
      simp [key.reverse_lost]

theorem Spent.of_akin {w : Moment} (spent : x.Spent) (idle : w.idle = true)
    (akin : x.dispatcher.Akin w.dispatcher) : w.Spent := by
  refine ⟨idle, ?_⟩
  rw [← Dispatcher.urge?_eq_none_iff, akin.urge?, Dispatcher.urge?_eq_none_iff]
  exact spent.2

/-- A tick that is carried out at once fails at the event, if it would tell of it. -/
theorem Passes.fails (sound : m.Sound) (idle : m.idle = true) (counting : m.dispatcher.sink.hooks = [])
    (behind : ∀ e ∈ m.dispatcher.scheduler.entries, now < e.due.after e.task.interval)
    (enabled : m.dispatcher.scheduler.enabled = true)
    (passed : Passes Move.Inside (m.beginTick now) h x) (prompt : h.Prompt) (spent : x.Spent)
    (tells : key ∈ History.since m.dispatcher.sink.events x.dispatcher.sink.events)
    (passed₁ : Passes Move.Inside ((m.armed key what).beginTick now) h₁ x₁) (prompt₁ : h₁.Prompt)
    (spent₁ : x₁.Spent) : x₁.verdict = .fail (.raised what) := by
  obtain ⟨_, h', w, passed', trial, _, echoes⟩ := passed₁.trial sound idle counting enabled behind
  have none : x₁.chores = [] := List.isEmpty_iff.mp spent₁.1
  cases trial with
  | unstruck unstruck =>
    -- without a failure this would be the one tick, in which the event is told
    have spent' : w.Spent :=
      spent₁.of_akin (List.isEmpty_iff.mpr (unstruck.chores.symm.trans none)) unstruck.akin.dispatcher
    have same := passed'.end_unique (echoes.prompt prompt₁) spent' passed prompt spent
    obtain ⟨told, events, untold⟩ := unstruck.events
    rw [← same, events, History.since_append, List.mem_reverse] at tells
    exact absurd tells untold
  | struck struck =>
    have chores := struck.chores
    rw [none] at chores
    cases chores
  | broken broken => exact broken.verdict

/-- A sink that fails at an event costs no slot and repeats none.  It only counts otherwise: the hooks of the
moment are taken off, and the one that fails is its only hook.  Whatever was done before, if no task is more
than a slot behind, a tick that fails and a second one at the same instant are together one tick with a sink
that only counts, however the workers interleave with them.  And if the ticks are carried out at once, after
the workers have settled, then the first one fails at whatever event it is armed for, and the second one
makes up for it.  A tick tells no event twice, so that the event says at which record the sink fails. -/
theorem failing_sink_loses_no_slot {workers : Nat} {scheduler : Scheduler}
    (created : Scheduler.create workers = .ok scheduler)
    (reached : Reaches (fun _ => True) (initial scheduler) m) (now : Instant)
    (behind : ∀ e ∈ m.dispatcher.scheduler.entries, now < e.due.after e.task.interval)
    (key : Tally.Key) (what : String) :
    (∀ h₁ x₁ h₂ x₂, Passes Move.Inside ((m.counting.armed key what).beginTick now) h₁ x₁ →
      x₁.verdict = .fail (.raised what) →
      Passes Move.Inside (x₁.beginTick now) h₂ x₂ → x₂.idle = true →
      ∃ h x, Passes Move.Inside (m.counting.beginTick now) h x ∧ x.idle = true ∧
        m.counting.Resumed key h x h₁ x₁ h₂ x₂) ∧
    (m.dispatcher.Settled → ∀ x x₁ x₂, x = ended now (m.counting.dispatcher.tick now) →
      x₁ = ended now ((m.counting.armed key what).dispatcher.tick now) →
      x₂ = ended now (x₁.dispatcher.tick now) →
      x.verdict = .proceed → key ∈ History.since m.dispatcher.sink.events x.dispatcher.sink.events →
      x₁.verdict = .fail (.raised what) ∧ x₂.verdict = .proceed ∧
      ∃ h h₁ h₂, Passes Move.Inside (m.counting.beginTick now) h x ∧
        Passes Move.Inside ((m.counting.armed key what).beginTick now) h₁ x₁ ∧
        Passes Move.Inside (x₁.beginTick now) h₂ x₂ ∧ m.counting.Resumed key h x h₁ x₁ h₂ x₂) ∧
    (m.dispatcher.scheduler.enabled = true → ∀ h x, Passes Move.Inside (m.counting.beginTick now) h x →
      x.idle = true →
        (History.since m.dispatcher.sink.events x.dispatcher.sink.events).Nodup) := by
  have sound := (reached.sound created).counting
  refine ⟨?_, ?_, ?_⟩
  · intro h₁ x₁ h₂ x₂ passed₁ failed passed₂ spent
    obtain ⟨h, x, passed, idle, _, resumed, _⟩ :=
      passed₁.resumed sound rfl rfl behind failed passed₂ spent
    exact ⟨h, x, passed, idle, resumed⟩
  · intro settled x x₁ x₂ one first second goes tells
    have settled : m.counting.dispatcher.Settled := ⟨settled.blocked, settled.full⟩
    have settled₁ : (m.counting.armed key what).dispatcher.Settled := ⟨settled.blocked, settled.full⟩
    obtain ⟨h, passed, prompt, spent⟩ := tick_prompt settled now
    obtain ⟨h₁, passed₁, prompt₁, spent₁⟩ := tick_prompt settled₁ now
    rw [← one] at passed spent
    rw [← first] at passed₁ spent₁
    have enabled : m.counting.dispatcher.scheduler.enabled = true := by
      cases enabled : m.dispatcher.scheduler.enabled with
      | true => exact enabled
      | false =>
        simp [one, ended, Dispatcher.tick, Dispatcher.agenda, Dispatcher.opened, enabled,
          Dispatcher.inOrder, History.since, Moment.counting] at tells
    have failed := passed.fails sound rfl rfl behind enabled prompt spent tells passed₁ prompt₁ spent₁
    have sound₁ := (Tidy.armed sound rfl).sound.of_reaches passed₁.reaches
    have settled₂ : x₁.dispatcher.Settled :=
      Dispatcher.settled_of_work sound₁.scheduler.running spent₁.2
    obtain ⟨h₂, passed₂, prompt₂, spent₂⟩ := tick_prompt settled₂ now
    rw [← second] at passed₂ spent₂
    obtain ⟨h', x', passed', idle', akin, resumed, prompt'⟩ :=
      passed₁.resumed sound rfl rfl behind failed passed₂ spent₂.1
    have spent' : x'.Spent := spent₂.of_akin idle' akin
    have same : x' = x := passed'.end_unique (prompt' prompt₁ prompt₂) spent' passed prompt spent
    rw [same] at resumed passed'
    exact ⟨failed, resumed.verdict.trans goes, h', h₁, h₂, passed', passed₁, passed₂, resumed⟩
  · intro enabled h x passed spent
    have sane : x.Sane := by
      refine passed.sane (Tidy.beginTick sound rfl now) rfl ?_
      rw [beginTick, Dispatcher.sink_opened]
      simp [Moment.counting]
    exact (passed.account sound rfl enabled spent sane).told_once sound

/-! ## A sample

Two workers and two tasks.  The first task waits for a permit, and its next slot comes due meanwhile.  The
sink fails when it is told that the task turned slow. -/

namespace Retry

/-- The scheduler. -/
def scheduler : Scheduler := { workers := 2, workers_pos := Nat.two_pos }

/-- What is done before the tick. -/
def moves : List Move :=
  [.register (some Sample.gated) .epoch, .register (some Sample.brief) .epoch, .act (.setEnabled true),
    .tick ⟨1000000000⟩, .chore, .take, .chore, .take, .finish ⟨"brief", .epoch⟩]

/-- When the tick begins. -/
def start : Moment := (lead (initial scheduler) moves).2

/-- The event at which the sink fails. -/
def report : Tally.Key := ⟨.markedSlow, "gated"⟩

/-- The end of the tick with a sink that only counts. -/
def one : Moment := ended ⟨2000000000⟩ (start.counting.dispatcher.tick ⟨2000000000⟩)

/-- The end of the tick that fails. -/
def failed : Moment :=
  ended ⟨2000000000⟩ ((start.counting.armed report "disk full").dispatcher.tick ⟨2000000000⟩)

/-- The end of the tick that makes up for it. -/
def second : Moment := ended ⟨2000000000⟩ (failed.dispatcher.tick ⟨2000000000⟩)

end Retry

/-- In the sample the second tick runs the other task, and nobody is told that the first one is skipped. -/
theorem failing_sink_loses_no_slot_sample :
    History.since Retry.start.dispatcher.sink.events Retry.one.dispatcher.sink.events =
        [Retry.report, ⟨.skippedInProgress, "gated"⟩] ∧
      History.since Retry.start.dispatcher.sink.events Retry.second.dispatcher.sink.events = [Retry.report] ∧
      Retry.failed.verdict = .fail (.raised "disk full") ∧ Retry.second.verdict = .proceed ∧
      ∃ h h₁ h₂, Retry.start.counting.Resumed Retry.report h Retry.one h₁ Retry.failed h₂ Retry.second := by
  have before : Reaches (fun _ => True) (initial Retry.scheduler) Retry.start :=
    (passes_lead (fun _ _ => trivial) (by decide +kernel)).reaches
  obtain ⟨failed, goes, h, h₁, h₂, _, _, _, resumed⟩ := (failing_sink_loses_no_slot
    (show Scheduler.create 2 = .ok Retry.scheduler from rfl) before ⟨2000000000⟩ (by decide +kernel)
    Retry.report "disk full").2.1
    ⟨by decide +kernel, by decide +kernel⟩ Retry.one Retry.failed Retry.second rfl rfl rfl
    (by decide +kernel) (by decide +kernel)
  exact ⟨by decide +kernel, by decide +kernel, failed, goes, h, h₁, h₂, resumed⟩

end Moment

end Cadence
