import Cadence.Proofs.CatchUp
import Cadence.Proofs.Isolation
import Cadence.Proofs.Reentry
import Cadence.Proofs.Staffing

/-!
Below saturation a task whose body does not wait is never taken for one that overruns.

A task is in progress also while its job waits for a worker.  If a tick begins when the workers have
settled and one of them holds nothing, no job waits, and what is held is blocked; so a task whose body
does not wait is not in progress (`Dispatcher.Headroom.free`).  This stays so until the tick evaluates the
task, since nothing else marks it (`Moment.Expects.step`).  The task is therefore never reported, demoted
or the reason to stop (`Moment.brisk_task_never_overruns`).
-/

namespace Cadence

/-- Whether an event tells of an overrun. -/
def Event.ofOverrun : Event → Bool
  | markedSlow | skippedInProgress => true
  | muted | skippedForMode | unlisted _ _ => false

/-- A body that does not wait, so that a worker that entered it can finish. -/
def Task.Brisk (t : Task) : Prop := t.body.wait = .nothing

/-! ## What befalls a task that is evaluated only while it is not in progress -/

namespace Standing

variable {st st' : Standing} {turn : Turn} {e e' : Entry}

/-- A registered task stays registered, and what it was asked for. -/
theorem Step.lasts (step : st.Step turn st') (present : st.entry = some e) :
    ∃ e', st'.entry = some e' ∧ e'.task.spec = e.task.spec := by
  cases present' : st'.entry with
  | none =>
    rw [(step.missing present').1] at present
    cases present
  | some e' =>
    rcases step.due_cases present' with ⟨_, _, _, missing, _⟩ | ⟨e₀, present₀, _, same, _⟩
    · rw [missing] at present
      cases present
    · rw [present₀] at present
      cases present
      exact ⟨e', rfl, same⟩

/-- A task is marked only with a slot, or before it is registered. -/
theorem Step.stays_free (step : st.Step turn st') (free : st.busy = false)
    (quiet : turn.consumes = false) (unmarked : turn.marks = false) : st'.busy = false := by
  have moved := step.jobs_add
  have fewer := step.jobs_le quiet
  rw [free, unmarked, Bool.toNat_false] at moved
  cases busy : st'.busy with
  | false => rfl
  | true =>
    rw [busy, Bool.toNat_true] at moved
    omega

variable (free : turn.consumes = true → st.busy = false)
include free

/-- No overrun of such a task is about to be told. -/
theorem Step.owes_no_overrun (step : st.Step turn st')
    (before : ∀ event ∈ st.owed, event.ofOverrun = false) :
    ∀ event ∈ st'.owed, event.ofOverrun = false := by
  cases step with
  | muted present clear muted => simp [Event.ofOverrun]
  | refused present clear audible => simp [Event.ofOverrun]
  | demoted present clear next report audible busy overrun =>
    have idle := free rfl
    simp [Standing.busy, present, busy] at idle
  | recorded next =>
    intro event member
    exact before event (next ▸ List.mem_cons_of_mem _ member)
  | failed => simp
  | _ => exact before

/-- Such a task keeps its health, unless it is set from outside. -/
theorem Step.keeps_health (step : st.Step turn st') (present : st.entry = some e)
    (present' : st'.entry = some e') (unassigned : turn ≠ .assigned) :
    e'.task.health = e.task.health := by
  cases step with
  | still | recorded | failed =>
    rw [present] at present'
    cases present'
    rfl
  | enrolled task contention instant missing =>
    rw [missing] at present
    cases present
  | assigned health => exact absurd rfl unassigned
  | demoted before clear next report audible busy overrun =>
    have idle := free rfl
    simp [Standing.busy, before, busy] at idle
  | touched before | finished before =>
    rw [before] at present
    cases present
    cases present'
    rfl
  | muted before | refused before | blocked before =>
    rw [before] at present
    cases present
    cases present'
    simp
  | started before =>
    rw [before] at present
    cases present
    cases present'
    simp [Task.mark]

end Standing

/-! ## A worker to spare -/

namespace Dispatcher

/-- The workers have settled, and fewer of them are blocked than there are. -/
structure Headroom (s : Dispatcher) : Prop where
  settled : s.Settled
  spare : s.held.length < s.scheduler.workers

namespace Headroom

variable {s : Dispatcher} {name : String} {e : Entry}

/-- With a worker to spare no job waits. -/
theorem waiting_eq_nil (headroom : s.Headroom) (staffed : s.scheduler.Staffed) : s.waiting = [] := by
  by_contra waits
  cases present : s.scheduler.pool with
  | none => simp [waiting, present] at waits
  | some p =>
    have full := headroom.settled.full waits p present
    have workers := staffed.workers p present
    have held : s.held = p.held := by simp [held, present]
    have spare := headroom.spare
    rw [held] at spare
    omega

/-- With a worker to spare a task whose body does not wait is not in progress. -/
theorem free (headroom : s.Headroom) (staffed : s.scheduler.Staffed)
    (jobs : s.scheduler.outstanding.count name = (s.scheduler.busy name).toNat)
    (found : s.scheduler.entry? name = some e) (brisk : e.task.Brisk) :
    s.scheduler.busy name = false := by
  have unheld : name ∉ s.held.map (·.name) := by
    intro member
    obtain ⟨run, held, rfl⟩ := List.mem_map.mp member
    have blocked := headroom.settled.blocked run held
    have wait : e.task.body.wait = .nothing := brisk
    simp [ready, Scheduler.task?, found, Body.ready, wait] at blocked
  rw [outstanding_eq, headroom.waiting_eq_nil staffed, List.nil_append,
    List.count_eq_zero.mpr unheld] at jobs
  cases busy : s.scheduler.busy name with
  | false => rfl
  | true =>
    rw [busy, Bool.toNat_true] at jobs
    omega

end Headroom

/-- A chore lists the event that it records, and no other chore lists any. -/
theorem events_perform {s t : Dispatcher} {now : Instant} {chore : Chore} {result : Chore.Result}
    (done : s.perform now chore = (result, t)) : t.sink.events = s.sink.events ∨
      ∃ event target, chore = .record event target ∧
        t.sink.events = ⟨event, target⟩ :: s.sink.events := by
  cases chore with
  | consider target => exact .inl (by rw [sink_consider done])
  | record event target =>
    cases done
    exact .inr ⟨event, target, rfl, rfl⟩
  | note line =>
    cases done
    exact .inl rfl
  | act action =>
    simp only [perform] at done
    split at done
    · rename_i acted
      cases done
      exact .inl (by rw [sink_act acted])
    · cases done
      exact .inl rfl

/-- Only the evaluation of a task in progress comes to the end of the tick. -/
theorem stop_of_perform {s t : Dispatcher} {now : Instant} {chore : Chore}
    (done : s.perform now chore = (.stop, t)) :
    ∃ target, chore = .consider target ∧ s.scheduler.busy target = true := by
  cases chore with
  | consider target =>
    have considers := considers done
    generalize t.scheduler = scheduler at considers
    cases considers with
    | blocked e due audible admitted busy critical =>
      exact ⟨target, rfl, (Scheduler.busy_of_found due.found).trans busy⟩
  | record event target => cases done
  | note line => cases done
  | act action =>
    simp only [perform] at done
    split at done <;> cases done

end Dispatcher

namespace Moment

variable {m m' m₀ : Moment} {move : Move} {name : String} {h : History Stage}
  {action : Action → Prop} {workers : Nat} {scheduler : Scheduler}

/-! ## Up to the evaluation -/

/-- An evaluation of the task that is still to come will find it not in progress. -/
structure Expects (m : Moment) (name : String) : Prop where
  once : m.chores.count (.consider name) ≤ 1
  free : .consider name ∈ m.chores → m.dispatcher.scheduler.busy name = false

theorem busy_standing (m : Moment) (name : String) :
    (m.standing name).busy = m.dispatcher.scheduler.busy name := by
  rw [Scheduler.busy, Scheduler.task?, Option.any_map]
  rfl

/-- The evaluation that consumes a slot finds the task not in progress. -/
theorem Expects.free_of_consumes (expects : m.Expects name)
    (consumes : (m.turn name move).consumes = true) : (m.standing name).busy = false := by
  obtain ⟨_, rest, _, front, _⟩ := slot_of_consumes consumes
  rw [busy_standing]
  exact expects.free (by simp [front])

/-- Whatever happens in a tick, the evaluation still to come finds what it would have found. -/
theorem Expects.step (expects : m.Expects name) (sound : m.Sound)
    (unmarked : (m.turn name move).marks = false) (made : m.step? move = some m')
    (inside : move.tick? = none) : m'.Expects name := by
  have fewer := count_step made inside name
  have once := expects.once
  constructor
  · omega
  · intro ahead
    have left := List.count_pos_iff.mpr ahead
    have quiet : (m.turn name move).consumes = false := by
      cases consumes : (m.turn name move).consumes with
      | false => rfl
      | true =>
        rw [consumes, Bool.toNat_true] at fewer
        omega
    have before : .consider name ∈ m.chores := List.count_pos_iff.mp (by omega)
    have free := expects.free before
    rw [← busy_standing] at free ⊢
    exact (standing_step sound made name).stays_free free quiet unmarked

/-- A tick that begins with a worker to spare will find the task not in progress. -/
theorem Expects.begin (sound : m.Sound) (free : m.dispatcher.scheduler.busy name = false)
    (now : Instant) : (m.beginTick now).Expects name := by
  constructor
  · simp only [beginTick, count_agenda sound.scheduler.distinct]
    split <;> decide
  · intro _
    simpa [beginTick, Scheduler.busy, Scheduler.task?] using free

/-! ## Runs -/

/-- Each tick of a run begins with a worker to spare. -/
def Roomy (h : History Stage) : Prop :=
  ∀ stage ∈ h, ∀ now, stage.move = .tick now → stage.before.dispatcher.Headroom

theorem Roomy.tail {stage : Stage} (roomy : Roomy (stage :: h)) : Roomy h :=
  fun stage member => roomy stage (List.mem_cons_of_mem _ member)

/-- What is done before a step of a run is a run, and so is what is done from that step on. -/
theorem Passes.around {allowed : Move → Prop} (passed : Passes allowed m₀ h m) {stage : Stage}
    (member : stage ∈ h) : ∃ later earlier, h = later ++ earlier ∧
      Passes allowed m₀ earlier stage.before ∧ Passes allowed stage.before later m := by
  induction passed with
  | refl => cases member
  | @step h m₁ m₂ move before may made ih =>
    rcases List.mem_cons.mp member with rfl | old
    · exact ⟨[⟨m₁, move⟩], h, rfl, before, .step .refl may made⟩
    · obtain ⟨later, earlier, same, sooner, rest⟩ := ih old
      exact ⟨⟨m₁, move⟩ :: later, earlier, congrArg _ same, sooner, .step rest may made⟩

/-- A task that is registered at the end was the same in every moment in which it was registered. -/
theorem Passes.brisk {allowed : Move → Prop} (sound : m₀.Sound) (passed : Passes allowed m₀ h m)
    (brisk : ∀ e, m.dispatcher.scheduler.entry? name = some e → e.task.Brisk) :
    ∀ e, m₀.dispatcher.scheduler.entry? name = some e → e.task.Brisk := by
  intro e found
  induction passed with
  | refl => exact brisk e found
  | @step h m₁ m₂ move before may made ih =>
    apply ih
    intro e₁ found₁
    have step := standing_step (sound.of_reaches before.reaches) made name
    obtain ⟨e₂, found₂, same⟩ := step.lasts found₁
    have body : e₂.task.body = e₁.task.body := Option.some.inj (congrArg Spec.body same)
    have wait : e₂.task.body.wait = .nothing := brisk e₂ found₂
    show e₁.task.body.wait = .nothing
    rw [← body]
    exact wait

/-- Nothing marks a task of such a run but its evaluation. -/
theorem Passes.unmarked (created : Scheduler.create workers = .ok scheduler)
    (passed : Passes (Move.Within Unmarked action) (initial scheduler) h m)
    (may : move.Within Unmarked action) (name : String) : (m.turn name move).marks = false := by
  have meaning := turn_within (passed.reaches.sound created) passed.hooks may name
  cases turn : m.turn name move with
  | enrolled task instant =>
    rw [turn] at meaning
    exact meaning
  | _ => rfl

/-- A task whose body does not wait is not in progress when a tick begins. -/
theorem Passes.free_of_headroom (created : Scheduler.create workers = .ok scheduler)
    (passed : Passes (Move.Within Unmarked action) (initial scheduler) h m)
    (brisk : ∀ e, m.dispatcher.scheduler.entry? name = some e → e.task.Brisk)
    (headroom : m.dispatcher.Headroom) : m.dispatcher.scheduler.busy name = false := by
  cases found : m.dispatcher.scheduler.entry? name with
  | none => simp [Scheduler.busy, Scheduler.task?, found]
  | some e =>
    exact headroom.free (passed.reaches.staffed created) (passed.reaches.outstanding_eq created name)
      found (brisk e found)

/-- In a run in which each tick begins with a worker to spare, each evaluation still to come will find a
task whose body does not wait not in progress. -/
theorem Passes.expects (created : Scheduler.create workers = .ok scheduler)
    (passed : Passes (Move.Within Unmarked action) (initial scheduler) h m) (roomy : Roomy h)
    (brisk : ∀ e, m.dispatcher.scheduler.entry? name = some e → e.task.Brisk) : m.Expects name := by
  induction passed with
  | refl => exact ⟨by simp [initial], by simp [initial]⟩
  | @step h m₁ m₂ move before may made ih =>
    have sound := before.reaches.sound created
    have brisk₁ := Passes.brisk sound (.step .refl may made) brisk
    have expects := ih roomy.tail brisk₁
    by_cases inside : move.tick? = none
    · exact expects.step sound (before.unmarked created may name) made inside
    · cases makes made with
      | @begun now idle =>
        have headroom := roomy ⟨m₁, .tick now⟩ List.mem_cons_self now rfl
        exact .begin sound (before.free_of_headroom created brisk₁ headroom) now
      | _ => exact absurd rfl inside

/-! ## What is recorded -/

/-- No overrun of the task was told, or is about to be. -/
structure Unreported (m : Moment) (name : String) : Prop where
  owed : ∀ event ∈ (m.standing name).owed, event.ofOverrun = false
  listed : ∀ key ∈ m.dispatcher.sink.events, key.name = name → key.event.ofOverrun = false

theorem Unreported.step (unreported : m.Unreported name) (sound : m.Sound) (expects : m.Expects name)
    (made : m.step? move = some m') : m'.Unreported name := by
  constructor
  · exact (standing_step sound made name).owes_no_overrun expects.free_of_consumes unreported.owed
  · by_cases chore : move = .chore
    · subst chore
      cases makes made with
      | @performed c rest result t left done =>
        rcases Dispatcher.events_perform done with same | ⟨event, target, rfl, more⟩
        · rw [same]
          exact unreported.listed
        · -- the event that is recorded was owed
          rw [more]
          rintro key member rfl
          rcases List.mem_cons.mp member with rfl | old
          · apply unreported.owed
            simp [standing, Dispatcher.standing, left, Chore.owes?]
          · exact unreported.listed key old rfl
    · rw [(record_step made chore).1]
      exact unreported.listed

/-- In such a run no overrun of such a task is told. -/
theorem Passes.unreported (created : Scheduler.create workers = .ok scheduler)
    (passed : Passes (Move.Within Unmarked action) (initial scheduler) h m) (roomy : Roomy h)
    (brisk : ∀ e, m.dispatcher.scheduler.entry? name = some e → e.task.Brisk) :
    m.Unreported name := by
  induction passed with
  | refl => exact ⟨by simp [initial, standing, Dispatcher.standing], by simp [initial]⟩
  | @step h m₁ m₂ move before may made ih =>
    have sound := before.reaches.sound created
    have brisk₁ := Passes.brisk sound (.step .refl may made) brisk
    have expects := before.expects created roomy.tail brisk₁
    exact (ih roomy.tail brisk₁).step sound expects made

/-- In such a run such a task keeps its health, as long as nobody sets it. -/
theorem Passes.keeps_health {first : Moment} {h₀ : History Stage}
    (created : Scheduler.create workers = .ok scheduler)
    (earlier : Passes (Move.Within Unmarked action) (initial scheduler) h₀ first)
    (passed : Passes (Move.Within Unmarked action) first h m) (roomy : Roomy (h ++ h₀))
    (brisk : ∀ e, m.dispatcher.scheduler.entry? name = some e → e.task.Brisk)
    (unassigned : ∀ stage ∈ h, stage.turn name ≠ .assigned) {e : Entry}
    (found : first.dispatcher.scheduler.entry? name = some e) :
    ∃ e', m.dispatcher.scheduler.entry? name = some e' ∧ e'.task.health = e.task.health := by
  induction passed with
  | refl => exact ⟨e, found, rfl⟩
  | @step h m₁ m₂ move before may made ih =>
    have whole := earlier.append before
    have sound := whole.reaches.sound created
    have brisk₁ := Passes.brisk sound (.step .refl may made) brisk
    obtain ⟨e₁, found₁, health₁⟩ := ih roomy.tail brisk₁
      fun stage member => unassigned stage (List.mem_cons_of_mem _ member)
    have expects := whole.expects created roomy.tail brisk₁
    have step := standing_step sound made name
    obtain ⟨e₂, found₂, _⟩ := step.lasts found₁
    have health₂ := step.keeps_health expects.free_of_consumes found₁ found₂
      (unassigned ⟨m₁, move⟩ List.mem_cons_self)
    exact ⟨e₂, found₂, health₂.trans health₁⟩

/-! ## The run of a task -/

/-- In a run a task is never taken for one that overruns. -/
structure Unhindered (allowed : Move → Prop) (first : Moment) (h : History Stage) (m : Moment)
    (name : String) : Prop where
  /-- It is not in progress when a tick begins. -/
  begins : ∀ stage ∈ h, ∀ now, stage.move = .tick now →
    stage.before.dispatcher.scheduler.busy name = false
  /-- Nor is it when it is evaluated. -/
  evaluated : ∀ stage ∈ h, stage.move = .chore →
    stage.before.chores.head? = some (.consider name) →
      stage.before.dispatcher.scheduler.busy name = false
  /-- It is not marked slow, and no slot of it is skipped because it is in progress. -/
  unreported : ∀ key ∈ m.dispatcher.sink.events, key.name = name →
    key.event ≠ .markedSlow ∧ key.event ≠ .skippedInProgress
  /-- As long as nobody sets its health, it keeps it. -/
  health : ∀ later earlier between, h = later ++ earlier → Passes allowed first earlier between →
    Passes allowed between later m → (∀ stage ∈ later, stage.turn name ≠ .assigned) →
      ∀ e, between.dispatcher.scheduler.entry? name = some e →
        ∃ e', m.dispatcher.scheduler.entry? name = some e' ∧ e'.task.health = e.task.health
  /-- Where a tick stops, it is by the evaluation of another task. -/
  goes : ∀ stage ∈ h, ∀ next, stage.before.step? stage.move = some next →
    stage.before.verdict ≠ .stop → next.verdict = .stop →
      ∃ other rest, stage.before.chores = .consider other :: rest ∧ other ≠ name

/-- A tick comes to stop by the evaluation of a task in progress. -/
theorem busy_of_stop (made : m.step? move = some m') (going : m.verdict ≠ .stop)
    (stops : m'.verdict = .stop) : ∃ target rest, m.chores = .consider target :: rest ∧
      m.dispatcher.scheduler.busy target = true := by
  cases makes made with
  | @performed c rest result t left done =>
    cases result with
    | proceed further => exact absurd stops going
    | fail fault => cases stops
    | stop =>
      obtain ⟨target, rfl, busy⟩ := Dispatcher.stop_of_perform done
      exact ⟨target, rest, left, busy⟩
  | begun idle => cases stops
  | _ => exact absurd stops going

/-- If each tick begins when the workers have settled and fewer of them are blocked than there are, no
task whose body does not wait is taken for one that overruns, however many tasks there are. -/
theorem brisk_task_never_overruns (created : Scheduler.create workers = .ok scheduler)
    (passed : Passes (Move.Within Unmarked fun _ => True) (initial scheduler) h m) (roomy : Roomy h)
    {e : Entry} (member : e ∈ m.dispatcher.scheduler.entries) (brisk : e.task.Brisk) :
    Unhindered (Move.Within Unmarked fun _ => True) (initial scheduler) h m e.task.name := by
  have sound := passed.reaches.sound created
  have found := Scheduler.entry?_of_mem sound.scheduler.distinct member
  have brisk : ∀ e', m.dispatcher.scheduler.entry? e.task.name = some e' → e'.task.Brisk := by
    intro e' found'
    rw [found] at found'
    cases found'
    exact brisk
  -- what is said of the end of a run can be said before each of its steps
  have before : ∀ stage ∈ h, stage.before.Expects e.task.name ∧
      (stage.before.dispatcher.Headroom → stage.before.dispatcher.scheduler.busy e.task.name = false) := by
    intro stage member
    obtain ⟨later, earlier, rfl, sooner, rest⟩ := passed.around member
    have brisk₁ := Passes.brisk (sooner.reaches.sound created) rest brisk
    have roomy₁ : Roomy earlier := fun stage old => roomy stage (List.mem_append_right later old)
    exact ⟨sooner.expects created roomy₁ brisk₁, sooner.free_of_headroom created brisk₁⟩
  have evaluated : ∀ stage ∈ h, ∀ rest, stage.before.chores = .consider e.task.name :: rest →
      stage.before.dispatcher.scheduler.busy e.task.name = false := by
    intro stage member rest front
    exact (before stage member).1.free (by simp [front])
  constructor
  · intro stage member now begins
    exact (before stage member).2 (roomy stage member now begins)
  · intro stage member _ front
    obtain ⟨rest, front⟩ := List.head?_eq_some_iff.mp front
    exact evaluated stage member rest front
  · intro key listed own
    have other := (passed.unreported created roomy brisk).listed key listed own
    constructor
    · intro slow
      simp [slow, Event.ofOverrun] at other
    · intro skipped
      simp [skipped, Event.ofOverrun] at other
  · rintro later earlier between rfl sooner rest unassigned e₀ found₀
    exact Passes.keeps_health created sooner rest roomy brisk unassigned found₀
  · intro stage member next made going stops
    obtain ⟨other, rest, front, busy⟩ := busy_of_stop made going stops
    refine ⟨other, rest, front, ?_⟩
    rintro rfl
    rw [evaluated stage member rest front] at busy
    cases busy

/-! ## A sample run

Two workers and two tasks.  The first task waits for a permit from its first slot on and keeps one worker
for itself; the other worker is left for the second task. -/

namespace Company

/-- Two ticks. -/
def moves : List Move :=
  [.register (some Sample.gated) .epoch, .register (some Sample.brief) .epoch, .act (.setEnabled true),
    .tick ⟨1000000000⟩, .chore, .chore, .take, .take, .finish ⟨"brief", .epoch⟩,
    .tick ⟨2000000000⟩, .chore, .chore, .chore, .chore, .chore, .take]

end Company

/-- In the sample the first task is found in progress and marked slow, and the second is not. -/
theorem brisk_task_never_overruns_sample :
    let run := lead (initial Duo.pair) Company.moves
    (run.2.dispatcher.scheduler.task? "gated").map (·.health) = some .slow ∧
      Unhindered (Move.Within Unmarked fun _ => True) (initial Duo.pair) run.1 run.2 "brief" := by
  have created : Scheduler.create 2 = .ok Duo.pair := rfl
  have passed : Passes (Move.Within Unmarked fun _ => True) (initial Duo.pair)
      (lead (initial Duo.pair) Company.moves).1 (lead (initial Duo.pair) Company.moves).2 := by
    refine passes_lead ?_ (by decide +kernel)
    simp [Company.moves, Move.Within, Unmarked, Sample.gated, Sample.brief]
  have roomy : Roomy (lead (initial Duo.pair) Company.moves).1 := by
    have each : ∀ stage ∈ (lead (initial Duo.pair) Company.moves).1, stage.move.tick?.isSome = true →
        stage.before.dispatcher.Settled ∧
          stage.before.dispatcher.held.length < stage.before.dispatcher.scheduler.workers := by
      decide +kernel
    intro stage member now begins
    obtain ⟨settled, spare⟩ := each stage member (by simp [begins, Move.tick?])
    exact ⟨settled, spare⟩
  obtain ⟨e, member, named, brisk⟩ :
      ∃ e ∈ (lead (initial Duo.pair) Company.moves).2.dispatcher.scheduler.entries,
        e.task.name = "brief" ∧ e.task.body.wait = .nothing := by decide +kernel
  refine ⟨by decide +kernel, ?_⟩
  rw [← named]
  exact brisk_task_never_overruns created passed roomy member brisk

end Moment

end Cadence
