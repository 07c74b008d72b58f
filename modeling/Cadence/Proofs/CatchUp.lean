import Mathlib.Order.Bounds.Defs
import Cadence.Proofs.DueTimes

/-!
Ticks at one instant catch up with all slots that are due, and lose or repeat none.

A task consumes a slot only in a tick that comes no sooner than the slot (`Moment.slot_of_consumes`), so
that its due time is never more than an interval ahead of all ticks.  While a slot is due, each tick
consumes one, and only one.  After as many ticks as there are slots due the task is up to date
(`Moment.caught_up`), and further ticks at that instant do nothing.
-/

namespace Cadence

/-- The instant of the tick that a move begins, if it begins one. -/
def Move.tick? : Move → Option Instant
  | .tick now => some now
  | .register _ _ | .start | .chore | .note _ | .act _ | .hook _ | .take | .finish _ => none

/-- How many ticks began. -/
def History.ticks (h : History Stage) : Nat := h.countP (·.move.tick?.isSome)

namespace Entry

/-- Nanoseconds from one slot of the task to the next. -/
def period (e : Entry) : Int := e.task.interval.count.toInt * 1000000

/-- How many slots of the task are due at an instant. -/
def behind (e : Entry) (instant : Instant) : Nat :=
  if instant < e.due then 0
  else ((instant.nanos.toInt - e.due.nanos.toInt) / e.period).toNat + 1

theorem period_pos (e : Entry) : 0 < e.period := by
  have positive := e.task.one_le_interval
  unfold period
  omega

theorem lt_iff {instant : Instant} {e : Entry} :
    instant < e.due ↔ instant.nanos.toInt < e.due.nanos.toInt := Int64.lt_iff_toInt_lt

/-- Once as many slots are consumed as were due, none is due. -/
theorem lt_of_behind (e : Entry) (instant : Instant) {n : Nat} (enough : e.behind instant ≤ n) :
    instant.nanos.toInt < e.due.nanos.toInt + e.period * n := by
  have positive := e.period_pos
  unfold behind at enough
  split at enough
  · rename_i ahead
    have ahead := lt_iff.mp ahead
    have consumed : 0 ≤ e.period * n := by positivity
    omega
  · rename_i late
    have whole := Int.lt_ediv_add_one_mul_self (instant.nanos.toInt - e.due.nanos.toInt) positive
    have count : (instant.nanos.toInt - e.due.nanos.toInt) / e.period + 1 ≤ n := by omega
    have consumed := Int.mul_le_mul_of_nonneg_right count positive.le
    linarith [mul_comm e.period n]

end Entry

/-! ## The slots of a run -/

namespace Moment

variable {m m' : Moment} {move : Move} {name : String} {h : History Stage}

/-- A slot is consumed by the evaluation of a task that is due. -/
theorem slot_of_consumes (consumes : (m.turn name move).consumes = true) :
    move = .chore ∧ ∃ rest e, m.chores = .consider name :: rest ∧
      m.dispatcher.scheduler.entry? name = some e ∧ ¬ m.now < e.due := by
  cases move with
  | register task instant =>
    cases task with
    | none => simp [turn, Turn.consumes] at consumes
    | some new =>
      simp only [turn] at consumes
      split at consumes <;> simp [Turn.consumes] at consumes
  | act action =>
    cases action with
    | setHealth target health =>
      simp only [turn] at consumes
      split at consumes <;> simp [Turn.consumes] at consumes
    | _ => simp [turn, Turn.consumes] at consumes
  | chore =>
    cases left : m.chores with
    | nil => simp [turn, left, Turn.consumes] at consumes
    | cons c rest =>
      have chore : (m.dispatcher.turn m.now name c).consumes = true := by
        simpa [turn, left] using consumes
      cases c with
      | consider target =>
        simp only [Dispatcher.turn] at chore
        split at chore
        · rename_i same
          subst same
          split at chore
          · rename_i e found
            split at chore
            · cases chore
            · rename_i due
              exact ⟨rfl, rest, e, rfl, found, due⟩
          · cases chore
        · cases chore
      | act action =>
        cases action with
        | setHealth target health =>
          simp only [Dispatcher.turn] at chore
          split at chore <;> cases chore
        | _ => cases chore
      | _ => cases chore
  | _ => simp [turn, Turn.consumes] at consumes

/-- The evaluation of a task that is due consumes a slot. -/
theorem consumes_of_slot {rest : List Chore} {e : Entry} (left : m.chores = .consider name :: rest)
    (found : m.dispatcher.scheduler.entry? name = some e) (due : ¬ m.now < e.due) :
    (m.turn name .chore).consumes = true := by
  simp only [turn, left, List.head?_cons, Option.map_some, Option.getD_some, Dispatcher.turn, if_true,
    found, if_neg due]
  split <;> rfl

/-- The instant of the tick that is under way is that of the last one begun. -/
theorem now_step (made : m.step? move = some m') (within : m'.chores ≠ []) :
    move.tick? = some m'.now ∨ move.tick? = none ∧ m'.now = m.now ∧ m.chores ≠ [] := by
  cases makes made with
  | begun idle => exact .inl rfl
  | performed left done => exact .inr ⟨rfl, rfl, by simp [left]⟩
  | _ => exact .inr ⟨rfl, rfl, within⟩

/-- Each evaluation that is left can consume a slot, and a slot takes an evaluation. -/
theorem count_step (made : m.step? move = some m') (inside : move.tick? = none) (name : String) :
    (m.turn name move).consumes.toNat + m'.chores.count (.consider name) ≤
      m.chores.count (.consider name) := by
  have quiet : move ≠ .chore → (m.turn name move).consumes = false := by
    intro other
    by_contra consumes
    exact other (slot_of_consumes (Bool.not_eq_false _ ▸ consumes)).1
  cases makes made with
  | @performed c rest result t left done =>
    have fewer := Dispatcher.count_next_le done rest name
    rw [left, List.count_cons]
    cases consumes : (m.turn name .chore).consumes with
    | false => simpa using fewer.trans (Nat.le_add_right _ _)
    | true =>
      obtain ⟨_, others, e, front, _⟩ := slot_of_consumes consumes
      rw [left] at front
      cases front
      simp only [Bool.toNat_true, beq_self_eq_true, if_true]
      omega
  | begun idle => cases inside
  | _ => simp [quiet, withDispatcher]

theorem slots_cons (move : Move) : (History.turns (⟨m, move⟩ :: h) name).slots =
    (h.turns name).slots + (m.turn name move).consumes.toNat := by
  simp only [History.turns, History.slots, List.map_cons, List.countP_cons, Stage.turn]
  cases (m.turn name move).consumes <;> rfl

/-- A tick consumes at most one slot of a task. -/
theorem Passes.slots_add_count_le {allowed : Move → Prop} (passed : Passes allowed m h m')
    (single : h.ticks = 0) (name : String) :
    (h.turns name).slots + m'.chores.count (.consider name) ≤ m.chores.count (.consider name) := by
  induction passed with
  | refl => simp [History.turns, History.slots]
  | @step h m₁ m₂ move before may made ih =>
    simp only [History.ticks, List.countP_cons, Nat.add_eq_zero_iff] at single
    have inside : move.tick? = none := by simpa using single.2
    have step := count_step made inside name
    have before := ih single.1
    rw [slots_cons]
    omega

/-! ## Catching up -/

/-- A tick that goes on passes over no evaluation. -/
theorem count_le_of_proceed (made : m.step? move = some m') (inside : move.tick? = none)
    (proceeds : move = .chore → m'.verdict = .proceed) (name : String) :
    m.chores.count (.consider name) ≤ m'.chores.count (.consider name) ∨
      move = .chore ∧ (∃ rest, m.chores = .consider name :: rest) ∧
        m.chores.count (.consider name) ≤ m'.chores.count (.consider name) + 1 := by
  cases makes made with
  | @performed c rest result t left done =>
    have going := proceeds rfl
    cases result with
    | proceed further =>
      by_cases same : c = .consider name
      · subst same
        exact .inr ⟨rfl, ⟨rest, left⟩, by simp [left, Chore.Result.next]⟩
      · exact .inl (by simp [left, same, Chore.Result.next])
    | stop => cases going
    | fail fault => cases going
  | begun idle => cases inside
  | _ => exact .inl (by simp [withDispatcher])

/-- Without registrations a due time changes only when a slot is consumed. -/
theorem due_step (sound : m.Sound) (may : move.Within (fun _ => False) fun _ => True)
    (made : m.step? move = some m') {e' : Entry}
    (found : m'.dispatcher.scheduler.entry? name = some e') :
    ∃ e, m.dispatcher.scheduler.entry? name = some e ∧ e'.task.interval = e.task.interval ∧
      e'.due = if (m.turn name move).consumes then e.due.after e.task.interval else e.due := by
  have meaning := turn_within sound (fun _ _ => trivial) may name
  rcases (standing_step sound made name).due_cases found with ⟨task, instant, enrolled, _⟩ |
    ⟨e, before, _, same, due⟩
  · rw [enrolled] at meaning
    cases meaning
  · exact ⟨e, before, congrArg Spec.interval same, due⟩

/-- Without registrations every task was there before. -/
theorem Passes.entry (sound : m.Sound)
    (passed : Passes (Move.Within (fun _ => False) fun _ => True) m h m') {e' : Entry}
    (found : m'.dispatcher.scheduler.entry? name = some e') :
    ∃ e, m.dispatcher.scheduler.entry? name = some e ∧ e'.task.interval = e.task.interval := by
  induction passed generalizing e' with
  | refl => exact ⟨e', found, rfl⟩
  | step before may made ih =>
    have sound₁ := sound.of_reaches before.reaches
    obtain ⟨e₁, present, interval, _⟩ := due_step sound₁ may made found
    obtain ⟨e, first, same⟩ := ih present
    exact ⟨e, first, interval.trans same⟩

/-- The ticks of a run are ticks at an instant that are made while evaluation is enabled, and none of
them ends early. -/
structure Chases (target : Instant) (h : History Stage) : Prop where
  begins : ∀ stage ∈ h, ∀ now, stage.move.tick? = some now →
    now = target ∧ stage.before.dispatcher.scheduler.enabled = true
  proceeds : ∀ stage ∈ h, stage.move = .chore → ∀ next, stage.before.step? .chore = some next →
    next.verdict = .proceed

theorem History.ticks_cons (stage : Stage) (h : History Stage) :
    History.ticks (stage :: h) = h.ticks + stage.move.tick?.isSome.toNat := by
  simp only [History.ticks, List.countP_cons]
  cases stage.move.tick?.isSome <;> rfl

/-- A task is up to date, or each tick has consumed a slot of it, or is going to. -/
def Pursued (target : Instant) (h : History Stage) (m : Moment) (name : String) : Prop :=
  ∀ e, m.dispatcher.scheduler.entry? name = some e →
    target < e.due ∨ h.ticks ≤ (h.turns name).slots + m.chores.count (.consider name)

/-- A tick that begins is going to evaluate the task. -/
theorem Pursued.tick {target : Instant} (pursued : Pursued target h m name) (sound : m.Sound)
    (idle : m.idle = true) (enabled : m.dispatcher.scheduler.enabled = true) (now : Instant) :
    Pursued target (⟨m, .tick now⟩ :: h) (m.beginTick now) name := by
  intro e found
  have made : m.step? (.tick now) = some (m.beginTick now) := by simp [step?, idle]
  have may : Move.Within (fun _ => False) (fun _ => True) (.tick now) := trivial
  obtain ⟨e, present, _, due⟩ := due_step sound may made found
  have registered : name ∈ m.dispatcher.scheduler.names :=
    Scheduler.entry?_name present ▸ Scheduler.name_mem_names (Scheduler.mem_of_found present)
  have once : (m.beginTick now).chores.count (.consider name) = 1 := by
    simp [beginTick, count_agenda sound.scheduler.distinct, enabled, registered]
  have none : m.chores = [] := List.isEmpty_iff.mp idle
  have aside : (m.turn name (.tick now)).consumes = false := rfl
  rw [due, History.ticks_cons, slots_cons, once, aside]
  rcases pursued e present with ahead | behind
  · exact .inl ahead
  · right
    simp only [none, List.count_nil, Move.tick?, Option.isSome_some, Bool.toNat_true,
      Bool.toNat_false] at behind ⊢
    omega

/-- Within a tick at the instant a slot that is due is consumed. -/
theorem Pursued.inside {target : Instant} (pursued : Pursued target h m name) (sound : m.Sound)
    (may : move.Within (fun _ => False) fun _ => True) (made : m.step? move = some m')
    (inside : move.tick? = none) (same : m.chores ≠ [] → m.now = target)
    (proceeds : move = .chore → m'.verdict = .proceed) : Pursued target (⟨m, move⟩ :: h) m' name := by
  intro e found
  obtain ⟨e, present, _, due⟩ := due_step sound may made found
  rw [due, History.ticks_cons, slots_cons, inside]
  by_cases ahead : target < e.due
  · -- a task that is up to date is left alone
    left
    cases consumes : (m.turn name move).consumes with
    | false => exact ahead
    | true =>
      obtain ⟨_, _, f, front, found, due⟩ := slot_of_consumes consumes
      rw [present] at found
      cases found
      rw [same (by simp [front])] at due
      exact absurd ahead due
  · right
    have behind := (pursued e present).resolve_left ahead
    rcases count_le_of_proceed made inside proceeds name with kept | ⟨rfl, ⟨rest, front⟩, fewer⟩
    · simp only [Option.isSome_none, Bool.toNat_false]
      omega
    · rw [← same (by simp [front])] at ahead
      simp only [consumes_of_slot front present ahead, Option.isSome_none, Bool.toNat_false,
        Bool.toNat_true]
      omega

/-- As long as a task is late, each tick consumes a slot of it, or is about to. -/
theorem Passes.pursued {target : Instant} (sound : m.Sound) (idle : m.idle = true)
    (passed : Passes (Move.Within (fun _ => False) fun _ => True) m h m') (chases : Chases target h)
    (name : String) : (m'.chores ≠ [] → m'.now = target) ∧ Pursued target h m' name := by
  induction passed with
  | refl =>
    exact ⟨fun within => absurd (List.isEmpty_iff.mp idle) within, fun _ _ => .inr (Nat.zero_le _)⟩
  | @step h m₁ m₂ move before may made ih =>
    have ⟨same, pursued⟩ := ih ⟨fun stage old => chases.begins stage (List.mem_cons_of_mem _ old),
      fun stage old => chases.proceeds stage (List.mem_cons_of_mem _ old)⟩
    have sound₁ := sound.of_reaches before.reaches
    have begins := chases.begins ⟨m₁, move⟩ List.mem_cons_self
    constructor
    · intro within
      rcases now_step made within with begun | ⟨_, kept, within⟩
      · exact (begins _ begun).1
      · exact kept.trans (same within)
    · by_cases inside : move.tick? = none
      · refine pursued.inside sound₁ may made inside same ?_
        rintro rfl
        exact chases.proceeds ⟨m₁, .chore⟩ List.mem_cons_self rfl m₂ made
      · cases makes made with
        | begun idle => exact pursued.tick sound₁ idle (begins _ rfl).2 _
        | _ => exact absurd rfl inside

/-! ## No slot is consumed early -/

/-- The tick that is under way did not come later than all ticks. -/
theorem Passes.now_le {allowed : Move → Prop} {target : Instant} (idle : m.idle = true)
    (passed : Passes allowed m h m')
    (past : ∀ stage ∈ h, ∀ now, stage.move.tick? = some now → now ≤ target)
    (within : m'.chores ≠ []) : m'.now ≤ target := by
  induction passed with
  | refl => exact absurd (List.isEmpty_iff.mp idle) within
  | step before may made ih =>
    rcases now_step made within with begun | ⟨_, kept, within⟩
    · exact past _ List.mem_cons_self _ begun
    · exact kept ▸ ih (fun stage old => past stage (List.mem_cons_of_mem _ old)) within

/-- The last slot that a task consumed did not come later than all ticks. -/
theorem Passes.slot_le {task : Task → Prop} {action : Action → Prop} {workers : Nat}
    {scheduler : Scheduler} {target : Instant} (created : Scheduler.create workers = .ok scheduler)
    (passed : Passes (Move.Within task action) (initial scheduler) h m)
    (past : ∀ stage ∈ h, ∀ now, stage.move.tick? = some now → now ≤ target) {name : String}
    {e : Entry} (found : m.dispatcher.scheduler.entry? name = some e) {asked : Task}
    {instant : Instant} (registered : (h.turns name).registered? = some (asked, instant))
    (fits : instant.slotTime e.task.interval ((h.turns name).slots + 1) < 2 ^ 63) :
    (h.turns name).slots = 0 ∨
      instant.slotTime e.task.interval (h.turns name).slots ≤ target.nanos.toInt := by
  induction passed generalizing e with
  | refl => cases registered
  | @step h m₁ m₂ move before may made ih =>
    have past₁ : ∀ stage ∈ h, ∀ now, stage.move.tick? = some now → now ≤ target :=
      fun stage old => past stage (List.mem_cons_of_mem _ old)
    have sound := before.reaches.sound created
    have dated := (before.path created name).dated
    rcases (standing_step sound made name).due_cases found with ⟨_, _, enrolled, missing, _⟩ |
      ⟨e₁, present, _, kept, _⟩
    · have none := (dated.before missing).2
      have enrolls : (m₁.turn name move).consumes = false := by
        rw [enrolled]
        rfl
      left
      rw [slots_cons, none, enrolls]
      rfl
    · have interval : e.task.interval = e₁.task.interval := congrArg Spec.interval kept
      obtain ⟨_, _, registered₁, _, value⟩ := dated.after e₁ present
      have same := History.registered?_append registered₁ [m₁.turn name move]
      have whole : History.registered? ([m₁.turn name move] ++ h.turns name) =
          some (asked, instant) := registered
      rw [same] at whole
      cases whole
      rw [slots_cons, interval] at fits ⊢
      cases consumes : (m₁.turn name move).consumes with
      | false =>
        rw [consumes] at fits
        exact ih past₁ present registered₁ fits
      | true =>
        -- the slot was due in the tick under way
        obtain ⟨_, rest, f, front, found, due⟩ := slot_of_consumes consumes
        have seen : m₁.dispatcher.scheduler.entry? name = some e₁ := present
        rw [seen] at found
        cases found
        rw [consumes, Bool.toNat_true] at fits
        have earlier := instant.slotTime_mono e₁.task (Nat.le_succ ((h.turns name).slots + 1))
        have come := Int64.le_iff_toInt_le.mp (Int64.not_lt.mp due)
        have under := Int64.le_iff_toInt_le.mp (before.now_le rfl past₁ (by simp [front]))
        right
        rw [Bool.toNat_true, ← value (lt_of_le_of_lt earlier fits)]
        exact come.trans under

/-! ## Nothing is left to do -/

/-- Only chores record events. -/
theorem record_step (made : m.step? move = some m') (other : move ≠ .chore) :
    m'.dispatcher.sink.events = m.dispatcher.sink.events ∧
      m'.dispatcher.sink.tally = m.dispatcher.sink.tally := by
  cases makes made with
  | performed left done => exact absurd rfl other
  | started idle => simp [withDispatcher]
  | begun idle => simp [beginTick]
  | acted done => simp [withDispatcher, Dispatcher.sink_act done]
  | taken taken =>
    obtain ⟨_, _, _, _, _, _, sink⟩ := Dispatcher.take?_eq_some taken
    simp [withDispatcher, sink]
  | _ => exact ⟨rfl, rfl⟩

/-- In a tick at the instant, if one is under way, no task is due. -/
structure UpToDate (target : Instant) (m : Moment) : Prop where
  ahead : ∀ e ∈ m.dispatcher.scheduler.entries, target < e.due
  evaluates : ∀ c ∈ m.chores, ∃ name, c = .consider name
  same : m.chores ≠ [] → m.now = target

/-- If no task is due, a chore does nothing. -/
theorem UpToDate.chore {target : Instant} (fresh : UpToDate target m)
    (made : m.step? .chore = some m') : m' = { m with chores := m.chores.tail } := by
  cases makes made with
  | @performed c rest result t left done =>
    obtain ⟨name, rfl⟩ := fresh.evaluates c (by simp [left])
    have nothing : m.dispatcher.perform m.now (.consider name) = (.proceed [], m.dispatcher) := by
      simp only [Dispatcher.perform, Dispatcher.consider]
      cases found : m.dispatcher.scheduler.entry? name with
      | none => rfl
      | some e =>
        have early : m.now < e.due := by
          rw [fresh.same (by simp [left])]
          exact fresh.ahead e (Scheduler.mem_of_found found)
        simp only [if_pos early]
    rw [nothing] at done
    cases done
    simp [left, Chore.Result.next, Chore.Result.verdict]

/-- If no task is due, no slot is consumed. -/
theorem UpToDate.quiet {target : Instant} (fresh : UpToDate target m) (name : String) :
    (m.turn name move).consumes = false := by
  cases consumes : (m.turn name move).consumes with
  | false => rfl
  | true =>
    obtain ⟨_, rest, e, front, found, due⟩ := slot_of_consumes consumes
    rw [fresh.same (by simp [front])] at due
    exact absurd (fresh.ahead e (Scheduler.mem_of_found found)) due

theorem UpToDate.step {target : Instant} (fresh : UpToDate target m) (sound : m.Sound)
    (may : move.Within (fun _ => False) fun _ => True) (made : m.step? move = some m')
    (ticks : ∀ now, move.tick? = some now → now = target) : UpToDate target m' := by
  constructor
  · intro e' member
    have sound' := sound_step sound made
    have found := Scheduler.entry?_of_mem sound'.scheduler.distinct member
    obtain ⟨e, present, _, due⟩ := due_step sound may made found
    rw [due, fresh.quiet]
    exact fresh.ahead e (Scheduler.mem_of_found present)
  · intro c member
    by_cases chore : move = .chore
    · subst chore
      rw [fresh.chore made] at member
      exact fresh.evaluates c (List.mem_of_mem_tail member)
    · cases makes made with
      | performed left done => exact absurd rfl chore
      | begun idle =>
        obtain ⟨name, _, rfl⟩ := consider_of_mem_agenda member
        exact ⟨name, rfl⟩
      | _ => exact fresh.evaluates c member
  · intro within
    rcases now_step made within with begun | ⟨_, kept, within⟩
    · exact ticks _ begun
    · exact kept.trans (fresh.same within)

/-- In a run no slot is consumed, no event is recorded, no job is added, and no chore does anything. -/
structure Idles (first : Moment) (h : History Stage) (m : Moment) : Prop where
  slots : ∀ name, (h.turns name).slots = 0
  events : m.dispatcher.sink.events = first.dispatcher.sink.events
  counts : m.dispatcher.sink.tally = first.dispatcher.sink.tally
  jobs : ∀ name, m.dispatcher.scheduler.outstanding.count name ≤
    first.dispatcher.scheduler.outstanding.count name
  chores : ∀ stage ∈ h, stage.move = .chore → ∀ next, stage.before.step? .chore = some next →
    next.dispatcher = stage.before.dispatcher

theorem UpToDate.idles {target : Instant} (fresh : UpToDate target m) (sound : m.Sound)
    (passed : Passes (Move.Within (fun _ => False) fun _ => True) m h m')
    (ticks : ∀ stage ∈ h, ∀ now, stage.move.tick? = some now → now = target) :
    UpToDate target m' ∧ Idles m h m' := by
  induction passed with
  | refl => exact ⟨fresh, fun _ => rfl, rfl, rfl, fun _ => le_rfl, by simp⟩
  | @step h m₁ m₂ move before may made ih =>
    obtain ⟨fresh₁, idles⟩ := ih fun stage old => ticks stage (List.mem_cons_of_mem _ old)
    have sound₁ := sound.of_reaches before.reaches
    have chore : move = .chore → m₂.dispatcher = m₁.dispatcher := by
      rintro rfl
      rw [fresh₁.chore made]
    have record : m₂.dispatcher.sink.events = m₁.dispatcher.sink.events ∧
        m₂.dispatcher.sink.tally = m₁.dispatcher.sink.tally := by
      by_cases same : move = .chore
      · rw [chore same]
        exact ⟨rfl, rfl⟩
      · exact record_step made same
    refine ⟨fresh₁.step sound₁ may made (ticks _ List.mem_cons_self), ?_, ?_, ?_, ?_, ?_⟩
    · intro name
      rw [slots_cons, idles.slots, fresh₁.quiet]
      rfl
    · exact record.1.trans idles.events
    · exact record.2.trans idles.counts
    · intro name
      exact ((standing_step sound₁ made name).jobs_le (fresh₁.quiet name)).trans (idles.jobs name)
    · intro stage member chores next after
      rcases List.mem_cons.mp member with rfl | old
      · subst chores
        rw [show m₁.step? .chore = some next from after] at made
        cases made
        exact chore rfl
      · exact idles.chores stage old chores next after

/-! ## The account -/

/-- All slots up to an instant are consumed. -/
structure CaughtUp (target : Instant) (h' h : History Stage) (m : Moment) : Prop where
  /-- The due time of every task is its first slot after the instant. -/
  due : ∀ e ∈ m.dispatcher.scheduler.entries, ∃ task instant,
    History.registered? (History.turns (h' ++ h) e.task.name) = some (task, instant) ∧
      e.task.interval = task.interval ∧
      IsLeast { t : Int | target.nanos.toInt < t ∧
        ∃ k : Nat, 1 ≤ k ∧ t = instant.slotTime e.task.interval k } e.due.nanos.toInt
  /-- Between the beginnings of two ticks at most one slot of a task was consumed. -/
  once : ∀ later within earlier before now,
    h' = later ++ (within ++ ⟨before, .tick now⟩ :: earlier) → History.ticks within = 0 →
      ∀ name, (History.turns within name).slots ≤ 1
  /-- Further ticks at the instant do nothing. -/
  rests : ∀ more m', Passes (Move.Within (fun _ => False) fun _ => True) m more m' →
    (∀ stage ∈ more, ∀ now, stage.move.tick? = some now → now = target) → Idles m more m'

/-- No due time has left the range of the clock. -/
def InRange (h : History Stage) (m : Moment) : Prop :=
  ∀ e ∈ m.dispatcher.scheduler.entries, ∀ task instant,
    (h.turns e.task.name).registered? = some (task, instant) →
      instant.slotTime e.task.interval ((h.turns e.task.name).slots + 1) < 2 ^ 63

variable {workers : Nat} {scheduler : Scheduler} {h' : History Stage} {target : Instant}

/-- Between the beginnings of two ticks at most one slot of a task is consumed. -/
theorem Passes.slots_le_one {allowed : Move → Prop} (sound : m.Sound)
    {later within earlier : History Stage} {before : Moment} {now : Instant}
    (passed : Passes allowed m (later ++ (within ++ ⟨before, .tick now⟩ :: earlier)) m')
    (single : within.ticks = 0) (name : String) : (within.turns name).slots ≤ 1 := by
  obtain ⟨between, passed₁, _⟩ := passed.of_append
  obtain ⟨begun, passed₂, ticked⟩ := passed₁.of_append
  cases passed₂ with
  | step sooner may made =>
    have sound₁ := sound.of_reaches sooner.reaches
    cases makes made with
    | begun idle =>
      have most := ticked.slots_add_count_le single name
      have once : (before.beginTick now).chores.count (.consider name) ≤ 1 := by
        simp only [beginTick, count_agenda sound₁.scheduler.distinct]
        split <;> simp
      omega

/-- A due time is ahead of an instant once as many slots are consumed as were due at that instant. -/
theorem Passes.due_ahead {task task' : Task → Prop} {action action' : Action → Prop}
    (created : Scheduler.create workers = .ok scheduler)
    (history : Passes (Move.Within task action) (initial scheduler) h m)
    (whole : Passes (Move.Within task' action') (initial scheduler) (h' ++ h) m') {e e' : Entry}
    (present : m.dispatcher.scheduler.entry? name = some e)
    (found : m'.dispatcher.scheduler.entry? name = some e')
    (interval : e'.task.interval = e.task.interval)
    (fits : ∀ task instant, (History.turns (h' ++ h) name).registered? = some (task, instant) →
      instant.slotTime e'.task.interval ((History.turns (h' ++ h) name).slots + 1) < 2 ^ 63)
    (enough : e.behind target ≤ (h'.turns name).slots) : target < e'.due := by
  obtain ⟨task, instant, registered, _, value⟩ := (history.path created name).dated.after e present
  obtain ⟨task', instant', registered', _, value'⟩ := (whole.path created name).dated.after e' found
  have fits := fits task' instant' registered'
  have value' := value' fits
  have split : History.turns (h' ++ h) name = History.turns h' name ++ History.turns h name :=
    List.map_append
  rw [split, History.registered?_append registered] at registered'
  cases registered'
  have sum : (History.turns (h' ++ h) name).slots + 1 =
      (h.turns name).slots + 1 + (h'.turns name).slots := by
    rw [split, History.slots, List.countP_append, History.slots, History.slots]
    omega
  rw [sum, interval] at fits value'
  have sooner := instant.slotTime_mono e.task
    (Nat.le_add_right ((h.turns name).slots + 1) (h'.turns name).slots)
  have value := value (lt_of_le_of_lt sooner fits)
  have late := e.lt_of_behind target enough
  rw [value, Instant.slotTime, Entry.period] at late
  rw [Entry.lt_iff, value', Instant.slotTime]
  push_cast at late ⊢
  linarith

/-- A slot after an instant is the first one, if the slot before it is not after the instant. -/
theorem isLeast_slotTime (instant : Instant) (task : Task) {n : Nat}
    (ahead : target.nanos.toInt < instant.slotTime task.interval (n + 1))
    (last : n = 0 ∨ instant.slotTime task.interval n ≤ target.nanos.toInt) :
    IsLeast { t : Int | target.nanos.toInt < t ∧
      ∃ k : Nat, 1 ≤ k ∧ t = instant.slotTime task.interval k }
      (instant.slotTime task.interval (n + 1)) := by
  constructor
  · exact ⟨ahead, n + 1, Nat.le_add_left 1 n, rfl⟩
  · rintro t ⟨later, k, positive, rfl⟩
    apply instant.slotTime_mono task
    by_contra fewer
    rcases last with none | consumed
    · omega
    · have sooner := instant.slotTime_mono task (show k ≤ n by omega)
      omega

/-- After any run with ticks up to an instant, as many ticks at this instant as slots are due catch up
with all of them, if evaluation is enabled and no tick ends early. -/
theorem caught_up (created : Scheduler.create workers = .ok scheduler)
    (history : Passes (fun _ => True) (initial scheduler) h m) (idle : m.idle = true)
    (past : ∀ stage ∈ h, ∀ now, stage.move.tick? = some now → now ≤ target)
    (passed : Passes (Move.Within (fun _ => False) fun _ => True) m h' m') (idle' : m'.idle = true)
    (chases : Chases target h')
    (enough : ∀ e ∈ m.dispatcher.scheduler.entries, e.behind target ≤ h'.ticks)
    (fits : InRange (h' ++ h) m') : CaughtUp target h' h m' := by
  have any : ∀ move, Move.Within (fun _ => True) (fun _ => True) move := by
    intro move
    cases move with
    | register task instant => cases task <;> trivial
    | _ => trivial
  have history := history.mono fun move _ => any move
  have whole := history.append (passed.mono fun move _ => any move)
  have sound := history.reaches.sound created
  have sound' := whole.reaches.sound created
  have none : m'.chores = [] := List.isEmpty_iff.mp idle'
  have ahead : ∀ e ∈ m'.dispatcher.scheduler.entries, target < e.due := by
    intro e' member
    have found := Scheduler.entry?_of_mem sound'.scheduler.distinct member
    rcases (passed.pursued sound idle chases e'.task.name).2 e' found with done | slots
    · exact done
    · rw [none, List.count_nil, Nat.add_zero] at slots
      obtain ⟨e, present, interval⟩ := passed.entry sound found
      have late := (enough e (Scheduler.mem_of_found present)).trans slots
      exact history.due_ahead created whole present found interval (fits e' member) late
  constructor
  · intro e member
    have found := Scheduler.entry?_of_mem sound'.scheduler.distinct member
    obtain ⟨task, instant, registered, interval, value⟩ :=
      (whole.path created e.task.name).dated.after e found
    have fits := fits e member task instant registered
    have value := value fits
    have pastAll : ∀ stage ∈ h' ++ h, ∀ now, stage.move.tick? = some now → now ≤ target := by
      intro stage member now begun
      rcases List.mem_append.mp member with chase | old
      · rw [(chases.begins stage chase now begun).1]
        exact Int64.le_refl _
      · exact past stage old now begun
    have last := whole.slot_le created pastAll found registered fits
    have first := Entry.lt_iff.mp (ahead e member)
    refine ⟨task, instant, registered, interval, ?_⟩
    rw [value] at first ⊢
    exact isLeast_slotTime instant e.task first last
  · rintro later within earlier before now rfl single name
    exact passed.slots_le_one sound single name
  · intro more last continued ticks
    have fresh : UpToDate target m' := ⟨ahead, by simp [none], by simp [none]⟩
    exact (fresh.idles sound' continued ticks).2

/-! ## A sample run

One worker and one task.  A tick at one second runs it; three seconds after the start two slots are
due, and two ticks catch up with them. -/

namespace Late

/-- The first slot runs. -/
def moves : List Move :=
  [.register (some Sample.brief) .epoch, .act (.setEnabled true), .tick ⟨1000000000⟩, .chore, .take,
    .finish ⟨"brief", .epoch⟩]

/-- The second slot runs, and the third is found in progress. -/
def chase : List Move :=
  [.tick ⟨3000000000⟩, .chore, .take, .tick ⟨3000000000⟩, .chore, .chore, .chore, .chore]

end Late

/-- In the sample the due time is four seconds after the start in the end. -/
theorem caught_up_sample :
    let before := lead (initial Sample.scheduler) Late.moves
    let after := lead before.2 Late.chase
    after.2.dispatcher.scheduler.due? "brief" = some ⟨4000000000⟩ ∧
      CaughtUp ⟨3000000000⟩ after.1 before.1 after.2 := by
  intro before after
  have history : Passes (fun _ => True) (initial Sample.scheduler) before.1 before.2 :=
    passes_lead (fun _ _ => trivial) (by decide +kernel)
  have passed : Passes (Move.Within (fun _ => False) fun _ => True) before.2 after.1 after.2 :=
    passes_lead (by simp [Late.chase, Move.Within]) (by decide +kernel)
  have booked : ∀ e ∈ after.2.dispatcher.scheduler.entries,
      (History.turns (after.1 ++ before.1) e.task.name).registered? =
        some (Sample.brief, .epoch) ∧
      Instant.slotTime .epoch e.task.interval
        ((History.turns (after.1 ++ before.1) e.task.name).slots + 1) < 2 ^ 63 := by decide +kernel
  have fits : InRange (after.1 ++ before.1) after.2 := by
    intro e member task instant registered
    rw [(booked e member).1] at registered
    cases registered
    exact (booked e member).2
  refine ⟨by decide +kernel, ?_⟩
  exact caught_up Sample.created history (by decide +kernel) (by decide +kernel) passed
    (by decide +kernel) ⟨by decide +kernel, by decide +kernel⟩ (by decide +kernel) fits

end Moment

end Cadence
