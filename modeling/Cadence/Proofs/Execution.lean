import Cadence.Proofs.Histories
import Cadence.Session

/-!
Whatever is carried out is a sequence of moves.

A tick that is carried out at once, with the workers settling after each chore, is one of the
interleavings (`Moment.tick_reaches`); so are the sleeps of the control thread, in which bodies wake,
and the dispatch loop (`Host.run_keeps`).  What holds of all interleavings therefore holds of every
run of the loop.
-/

namespace Cadence

/-- What is left to do after a chore and all that it led to. -/
def Verdict.left (rest : List Chore) : Verdict → List Chore
  | .proceed => rest
  | .stop | .fail _ => []

/-- The moves of a tick: the next chore, and the steps of the workers. -/
def Move.Inside : Move → Prop
  | .chore | .take | .finish _ => True
  | .register _ _ | .start | .tick _ | .note _ | .act _ | .hook _ => False

/-- The moves of a tick register nothing and do nothing to the tasks from outside. -/
theorem Move.Inside.within {task : Task → Prop} {action : Action → Prop} {move : Move}
    (inside : move.Inside) : move.Within task action := by
  cases move <;> trivial

/-- The move that the workers make next, if nobody comes before them. -/
def Dispatcher.urge? (s : Dispatcher) : Option Move :=
  ((s.held.find? s.ready).map .finish).or (s.take?.map fun _ => .take)

namespace Moment

variable {task : Task → Prop} {action : Action → Prop} {first : Moment} {s t : Dispatcher}

theorem Reaches.trans {allowed : Move → Prop} {m m₁ m₂ : Moment} (start : Reaches allowed m m₁)
    (rest : Reaches allowed m₁ m₂) : Reaches allowed m m₂ := by
  induction rest with
  | refl => exact start
  | step before may made ih => exact .step ih may made

theorem Reaches.of_step {allowed : Move → Prop} {m m' : Moment} {move : Move}
    (made : m.step? move = some m') (may : allowed move) : Reaches allowed m m' :=
  .step .refl may made

theorem Reaches.mono {allowed more : Move → Prop} (wider : ∀ move, allowed move → more move)
    {m m' : Moment} (reached : Reaches allowed m m') : Reaches more m m' := by
  induction reached with
  | refl => exact .refl
  | step before may made ih => exact .step ih (wider _ may) made

/-! ## Workers -/

/-- What the workers do next: they finish a run if they can, and take a job otherwise. -/
theorem work_urged (worked : s.work? = some t) :
    ∃ move, s.urge? = some move ∧ move.Inside ∧ ∀ now chores verdict,
      step? ⟨s, now, chores, verdict⟩ move = some ⟨t, now, chores, verdict⟩ := by
  unfold Dispatcher.work? Dispatcher.finish? at worked
  unfold Dispatcher.urge?
  cases found : s.held.find? s.ready with
  | some run =>
    simp only [found, Option.map_some, Option.some_or, Option.some.injEq] at worked
    subst worked
    have may : run ∈ s.held ∧ s.ready run = true :=
      ⟨List.mem_of_find?_eq_some found, List.find?_some found⟩
    exact ⟨.finish run, rfl, trivial, by simp [step?, may, withDispatcher]⟩
  | none =>
    simp only [found, Option.map_none, Option.none_or] at worked
    exact ⟨.take, by simp [worked], trivial, by simp [step?, worked, withDispatcher]⟩

theorem work_reaches (worked : s.work? = some t) (now : Instant) (chores : List Chore)
    (verdict : Verdict) :
    Reaches Move.Inside ⟨s, now, chores, verdict⟩ ⟨t, now, chores, verdict⟩ := by
  obtain ⟨move, _, inside, made⟩ := work_urged worked
  exact .of_step (made now chores verdict) inside

/-- A way of going from moment to moment, on which the workers can always make a step, and the control
thread can do a chore where it may: at least where no worker can make a step. -/
structure Carries (may : Dispatcher → Prop) (goes : Moment → Moment → Prop) : Prop where
  refl : ∀ m, goes m m
  trans : ∀ {m₁ m₂ m₃}, goes m₁ m₂ → goes m₂ m₃ → goes m₁ m₃
  work : ∀ {s t : Dispatcher}, s.work? = some t → ∀ now chores verdict,
    goes ⟨s, now, chores, verdict⟩ ⟨t, now, chores, verdict⟩
  chore : ∀ {m m' : Moment}, may m.dispatcher → m.step? .chore = some m' → goes m m'
  rests : ∀ {s : Dispatcher}, s.work? = none → may s

/-- The moves of a tick are such a way, and a chore can be done at any time. -/
theorem carries_inside : Carries (fun _ => True) (Reaches Move.Inside) where
  refl _ := .refl
  trans := Reaches.trans
  work := work_reaches
  chore _ made := .of_step made trivial
  rests _ := trivial

namespace Carries

variable {may : Dispatcher → Prop} {goes : Moment → Moment → Prop} (carries : Carries may goes)
include carries

theorem settle (s : Dispatcher) (now : Instant) (chores : List Chore) (verdict : Verdict) :
    goes ⟨s, now, chores, verdict⟩ ⟨s.settle, now, chores, verdict⟩ ∧ may s.settle := by
  refine ⟨?_, carries.rests s.work?_settle⟩
  exact exhaust_invariant (fun t => goes ⟨s, now, chores, verdict⟩ ⟨t, now, chores, verdict⟩)
    (fun _ _ gone worked => carries.trans gone (carries.work worked now chores verdict)) _ s
    (carries.refl _)

/-- If each of some chores is carried out, so are all of them. -/
theorem inOrder {now : Instant} {chores : List Chore}
    (each : ∀ c ∈ chores, ∀ s t verdict rest, may s → Dispatcher.fulfil now c s = (verdict, t) →
      goes ⟨s, now, c :: rest, .proceed⟩ ⟨t, now, verdict.left rest, verdict⟩ ∧ may t)
    {verdict : Verdict} (ready : may s)
    (done : Dispatcher.inOrder (Dispatcher.fulfil now) chores s = (verdict, t)) (rest : List Chore) :
    goes ⟨s, now, chores ++ rest, .proceed⟩ ⟨t, now, verdict.left rest, verdict⟩ ∧ may t := by
  induction chores generalizing s with
  | nil =>
    cases done
    exact ⟨carries.refl _, ready⟩
  | cons c chores ih =>
    unfold Dispatcher.inOrder at done
    cases one : Dispatcher.fulfil now c s with
    | mk outcome u =>
      obtain ⟨first, ready⟩ := each c List.mem_cons_self s u outcome (chores ++ rest) ready one
      rw [one] at done
      cases outcome with
      | proceed =>
        obtain ⟨later, ready⟩ := ih (fun d member => each d (List.mem_cons_of_mem c member)) ready done
        exact ⟨carries.trans first later, ready⟩
      | stop =>
        cases done
        exact ⟨first, ready⟩
      | fail fault =>
        cases done
        exact ⟨first, ready⟩

/-- A chore and all that it leads to are carried out. -/
theorem fulfil {now : Instant} {c : Chore} {verdict : Verdict} {rest : List Chore} (ready : may s)
    (done : Dispatcher.fulfil now c s = (verdict, t)) :
    goes ⟨s, now, c :: rest, .proceed⟩ ⟨t, now, verdict.left rest, verdict⟩ ∧ may t := by
  -- by induction on the level: what a chore leads to is of a lower one
  generalize bound : c.level = level
  induction level using Nat.strongRecOn generalizing c s t verdict rest with
  | ind level ih =>
    rw [Dispatcher.fulfil_eq] at done
    cases performed : s.perform now c with
    | mk result u =>
      rw [performed] at done
      have made : step? ⟨s, now, c :: rest, .proceed⟩ .chore =
          some ⟨u, now, result.next rest, result.verdict .proceed⟩ := by
        cases result <;> simp [step?, doChore?, performed, Chore.Result.next, Chore.Result.verdict]
      have chore : goes ⟨s, now, c :: rest, .proceed⟩
          ⟨u, now, result.next rest, result.verdict .proceed⟩ := carries.chore ready made
      obtain ⟨settles, settled⟩ := carries.settle u now (result.next rest) (result.verdict .proceed)
      have first := carries.trans chore settles
      cases result with
      | proceed further =>
        obtain ⟨later, ready⟩ := carries.inOrder (fun d member s t verdict rest ready done =>
          ih d.level (bound ▸ Dispatcher.level_lt_of_perform performed d member) ready done rfl)
          settled done rest
        exact ⟨carries.trans first later, ready⟩
      | stop =>
        cases done
        exact ⟨first, settled⟩
      | fail fault =>
        cases done
        exact ⟨first, settled⟩

/-- Any chores and all that they lead to are carried out. -/
theorem chores {now : Instant} {chores : List Chore} {verdict : Verdict} (ready : may s)
    (done : Dispatcher.inOrder (Dispatcher.fulfil now) chores s = (verdict, t)) :
    goes ⟨s, now, chores, .proceed⟩ ⟨t, now, [], verdict⟩ ∧ may t := by
  have carried := carries.inOrder (fun _ _ _ _ _ _ ready done => carries.fulfil ready done) ready done []
  have nothing : verdict.left [] = [] := by cases verdict <;> rfl
  rwa [nothing, List.append_nil] at carried

end Carries

/-- A tick that is carried out at once is one of the interleavings of its chores with the workers, and
its verdict is that of the last moment. -/
theorem tick_inside {now before : Instant} {verdict last : Verdict}
    (done : s.tick now = (verdict, t)) :
    Reaches Move.Inside (beginTick ⟨s, before, [], last⟩ now) ⟨t, now, [], verdict⟩ :=
  (carries_inside.chores trivial done).1

/-- A tick is carried out by moves. -/
theorem tick_reaches {now before : Instant} {verdict last : Verdict}
    (done : s.tick now = (verdict, t)) :
    Reaches (Move.Within task action) ⟨s, before, [], last⟩ ⟨t, now, [], verdict⟩ := by
  have begun : step? ⟨s, before, [], last⟩ (.tick now) =
      some (beginTick ⟨s, before, [], last⟩ now) := by simp [step?, idle]
  exact Reaches.trans (.of_step begun trivial) ((tick_inside done).mono fun _ => Move.Inside.within)

/-! ## Between two ticks -/

/-- Moves lead to the dispatcher, with its control thread between two ticks. -/
def Rests (allowed : Move → Prop) (first : Moment) (s : Dispatcher) : Prop :=
  ∃ now verdict, Reaches allowed first ⟨s, now, [], verdict⟩

namespace Rests

theorem of_reaches {allowed : Move → Prop} {m : Moment} (reached : Reaches allowed first m)
    (idle : m.idle = true) : Rests allowed first m.dispatcher := by
  have nothing : m.chores = [] := List.isEmpty_iff.mp idle
  refine ⟨m.now, m.verdict, ?_⟩
  rw [← nothing]
  exact reached

/-- A move between two ticks leads to another such dispatcher. -/
theorem move {allowed : Move → Prop} (rests : Rests allowed first s) (move : Move)
    (may : allowed move)
    (made : ∀ now verdict, (Moment.mk s now [] verdict).step? move =
      some ((Moment.mk s now [] verdict).withDispatcher t)) : Rests allowed first t := by
  obtain ⟨now, verdict, reached⟩ := rests
  exact ⟨now, verdict, reached.step may (made now verdict)⟩

variable (rests : Rests (Move.Within task action) first s)
include rests

theorem start : Rests (Move.Within task action) first s.start :=
  rests.move .start trivial (by simp [step?, idle])

theorem note (line : Line) : Rests (Move.Within task action) first (s.note line.level line.text) :=
  rests.move (.note line) trivial (by simp [step?, idle])

/-- Lines are logged one by one. -/
theorem log (lines : History Line) :
    Rests (Move.Within task action) first { s with log := lines ++ s.log } := by
  induction lines with
  | nil => exact rests
  | cons line lines ih => exact ih.note line

theorem act {a : Action} (may : action a) (done : s.act a = .ok t) :
    Rests (Move.Within task action) first t :=
  rests.move (.act a) may (by simp [step?, done])

theorem settle : Rests (Move.Within task action) first s.settle := by
  obtain ⟨now, verdict, reached⟩ := rests
  exact ⟨now, verdict, reached.trans
    ((carries_inside.settle s now [] verdict).1.mono fun _ => Move.Inside.within)⟩

theorem obey {a : Action} (may : action a) (done : s.obey a = .ok t) :
    Rests (Move.Within task action) first t := by
  unfold Dispatcher.obey at done
  cases acted : s.act a with
  | ok u =>
    simp only [acted, Except.map] at done
    cases done
    exact (rests.act may acted).settle
  | error fault => simp [acted, Except.map] at done

theorem tick (now : Instant) : Rests (Move.Within task action) first (s.tick now).2 := by
  obtain ⟨before, last, reached⟩ := rests
  exact ⟨now, _, reached.trans (tick_reaches rfl)⟩

/-- Time passes up to an instant. -/
theorem setClock (time : ∀ ns, action (.advance ns)) (instant : Instant) :
    Rests (Move.Within task action) first { s with clock := instant } := by
  refine rests.act (a := .advance (instant.nanos - s.clock.nanos)) (time _) ?_
  simp only [Dispatcher.act, Dispatcher.advance, Instant.advance]
  rw [Int64.add_comm, Int64.sub_add_cancel]

/-- Bodies wake in the order of their instants. -/
theorem wakeAll (time : ∀ ns, action (.advance ns)) (limit : Instant → Bool) :
    Rests (Move.Within task action) first (s.wakeAll limit) := by
  refine exhaust_invariant (Rests (Move.Within task action) first) ?_ _ s rests
  intro u v rests woke
  obtain ⟨next, _, rfl⟩ := Option.map_eq_some_iff.mp woke
  exact (rests.setClock time _).settle

theorem sleepUntil (time : ∀ ns, action (.advance ns)) (instant : Instant) :
    Rests (Move.Within task action) first (s.sleepUntil instant) :=
  (rests.wakeAll time _).setClock time instant

end Rests

end Moment

/-! ## The dispatch loop -/

/-- The state after a sleep, however it came out. -/
def Nap.state {σ : Type} : Nap σ → σ
  | slept s | failed _ s | halted s => s

namespace Host

variable {σ : Type} {h : Host σ} {holds : σ → Prop} {blames : Fault → σ → Prop} {s t : σ}

/-- What the loop does to its thread keeps a property of it, and a tick that fails can be blamed on
something. -/
structure Keeps (h : Host σ) (holds : σ → Prop) (blames : Fault → σ → Prop) : Prop where
  start : ∀ s, holds s → holds (h.start s).2
  read : ∀ s, holds s → holds (h.read s).2
  sleep : ∀ length s, holds s → holds (h.sleep length s).state
  note : ∀ line s, holds s → holds (h.note line s)
  tick : ∀ now s, holds s → holds (h.tick now s).2
  fails : ∀ now s fault, holds s → (h.tick now s).1 = .fail fault → blames fault (h.tick now s).2

theorem nextSleep_keeps (keeps : h.Keeps holds blames) (minInterval : Millis)
    (deadline : Option Instant) (woke : Instant) (first : holds s) :
    holds (h.nextSleep minInterval deadline woke s).2 := by
  unfold nextSleep
  cases deadline with
  | none => exact keeps.read s first
  | some last => exact keeps.read _ (keeps.read s first)

theorem sleepIfPositive_keeps (keeps : h.Keeps holds blames) (length : Millis) (first : holds s) :
    holds (h.sleepIfPositive length s).state := by
  unfold sleepIfPositive
  split
  · exact keeps.sleep length s first
  · exact first

theorem pause_keeps (keeps : h.Keeps holds blames) (minInterval : Millis)
    (deadline : Option Instant) (woke : Instant) (first : holds s) :
    holds (h.pause minInterval deadline woke s).2 := by
  have kept := nextSleep_keeps keeps minInterval deadline woke first
  cases computed : h.nextSleep minInterval deadline woke s with
  | mk length u =>
    rw [computed] at kept
    have slept := sleepIfPositive_keeps keeps length kept
    cases nap : h.sleepIfPositive length u with
    | slept v =>
      rw [nap] at slept
      simpa [pause, computed, nap, Nap.state] using slept
    | failed what v =>
      rw [nap] at slept
      simpa [pause, computed, nap, Nap.state] using keeps.note _ _ slept
    | halted v =>
      rw [nap] at slept
      simpa [pause, computed, nap, Nap.state] using slept

theorem wakeUp_keeps (keeps : h.Keeps holds blames) (deadline : Option Instant) (now : Instant)
    (first : holds s) :
    holds (h.wakeUp deadline now s).2 ∧
      ∀ fault, (h.wakeUp deadline now s).1 = .error (.failed fault) →
        blames fault (h.wakeUp deadline now s).2 := by
  have ticked := keeps.tick now s first
  have blamed := keeps.fails now s
  unfold wakeUp
  split
  · exact ⟨first, by simp⟩
  split
  all_goals
    rename_i outcome
    rw [outcome] at ticked blamed
  · exact ⟨ticked, by simp⟩
  · constructor
    · exact ticked
    · rintro other ⟨⟩
      exact blamed _ first rfl
  · exact ⟨keeps.note _ _ ticked, by simp⟩

theorem round_keeps (keeps : h.Keeps holds blames) (minInterval : Millis)
    (deadline : Option Instant) (woke : Instant) (first : holds s) :
    holds (h.round minInterval deadline woke s).2 ∧
      ∀ fault, (h.round minInterval deadline woke s).1 = .error (.failed fault) →
        blames fault (h.round minInterval deadline woke s).2 := by
  have paused := pause_keeps keeps minInterval deadline woke first
  unfold round
  split
  all_goals
    rename_i outcome
    rw [outcome] at paused
  · exact ⟨paused, by simp⟩
  · exact wakeUp_keeps keeps deadline _ (keeps.read _ paused)

theorem loop_keeps (keeps : h.Keeps holds blames) (minInterval : Millis)
    (deadline : Option Instant) (rounds : Nat) (woke : Instant) (first : holds s) :
    holds (h.loop minInterval deadline rounds woke s).2 ∧
      ∀ fault, (h.loop minInterval deadline rounds woke s).1 = .failed fault →
        blames fault (h.loop minInterval deadline rounds woke s).2 := by
  induction rounds generalizing woke s with
  | zero => exact ⟨first, by simp [loop]⟩
  | succ rounds ih =>
    have round := round_keeps keeps minInterval deadline woke first
    unfold loop
    split
    all_goals
      rename_i outcome
      rw [outcome] at round
    · exact ih _ round.1
    · constructor
      · exact round.1
      · intro fault same
        exact round.2 fault (congrArg Except.error same)

/-- A run of the loop keeps what its operations keep, and if it ends with a failed tick, that tick
is to blame. -/
theorem run_keeps (keeps : h.Keeps holds blames) (duration : Option Millis) (rounds : Nat)
    (first : holds s) :
    holds (h.run duration rounds s).2 ∧
      ∀ fault, (h.run duration rounds s).1 = .failed fault →
        blames fault (h.run duration rounds s).2 := by
  have timed : holds (h.deadline duration s).2 := by
    unfold deadline
    cases duration with
    | none => exact first
    | some d => exact keeps.read s first
  exact loop_keeps keeps _ _ rounds _ (keeps.read _ (keeps.start _ timed))

end Host

/-! ## Threads of a dispatcher -/

/-- Some moment of the run failed, with this dispatcher. -/
def Moment.Failed (allowed : Move → Prop) (first : Moment) (fault : Fault) (s : Dispatcher) : Prop :=
  ∃ now, Reaches allowed first ⟨s, now, [], .fail fault⟩

section

variable {task : Task → Prop} {action : Action → Prop} {first : Moment}

open Moment

/-- A thread that does nothing to its dispatcher but run the loop and sleep makes moves. -/
theorem Dispatcher.hostWithin_keeps {σ : Type} (get : σ → Dispatcher) {set : σ → Dispatcher → σ}
    {sleep : Millis → σ → Nap σ} (lens : ∀ s d, get (set s d) = d)
    (sleeps : ∀ length s, Rests (Move.Within task action) first (get s) →
      Rests (Move.Within task action) first (get (sleep length s).state)) :
    (hostWithin get set sleep).Keeps (fun s => Rests (Move.Within task action) first (get s))
      (fun fault s => Failed (Move.Within task action) first fault (get s)) := by
  refine ⟨?_, fun _ rests => rests, sleeps, ?_, ?_, ?_⟩
  · intro s rests
    simpa [hostWithin, lens] using rests.start
  · intro line s rests
    simpa [hostWithin, lens] using rests.note line
  · intro now s rests
    simpa [hostWithin, lens] using rests.tick now
  · rintro now s fault ⟨before, last, reached⟩ failed
    refine ⟨now, reached.trans (tick_reaches ?_)⟩
    simp only [hostWithin, lens] at failed ⊢
    rw [← failed]

namespace Session

theorem actAll_rests {actions : List Action} (may : ∀ a ∈ actions, action a) {s : Dispatcher}
    (rests : Rests (Move.Within task action) first s) :
    Rests (Move.Within task action) first (actAll actions s).2 := by
  induction actions generalizing s with
  | nil => exact rests
  | cons a rest ih =>
    unfold actAll
    cases obeyed : s.obey a with
    | ok t =>
      exact ih (fun b member => may b (List.mem_cons_of_mem a member))
        (rests.obey (may a List.mem_cons_self) obeyed)
    | error fault => exact rests

/-- A sleep under a script makes moves. -/
theorem sleep_rests {script : Script} (time : ∀ ns, action (.advance ns))
    (may : ∀ nth, ∀ a ∈ script.actions nth, action a) (length : Millis) {s : Session}
    (rests : Rests (Move.Within task action) first s.dispatcher) :
    Rests (Move.Within task action) first (sleep script length s).state.dispatcher := by
  unfold sleep
  simp only
  split
  · exact rests
  split
  · exact rests
  have acted := actAll_rests (may (s.begun + 1)) rests
  split
  all_goals
    rename_i outcome
    rw [outcome] at acted
  · exact acted
  · exact acted.sleepUntil time _

/-- The control thread under a script makes moves. -/
theorem host_keeps {script : Script} (time : ∀ ns, action (.advance ns))
    (may : ∀ nth, ∀ a ∈ script.actions nth, action a) :
    (host script).Keeps (fun s => Rests (Move.Within task action) first s.dispatcher)
      (fun fault s => Failed (Move.Within task action) first fault s.dispatcher) :=
  Dispatcher.hostWithin_keeps Session.dispatcher (fun _ _ => rfl)
    fun length _ rests => sleep_rests time may length rests

/-- A run of the loop under a script makes moves, and if it ends with a failed tick, one of the
moments it passes failed. -/
theorem run_rests (script : Script) (time : ∀ ns, action (.advance ns))
    (may : ∀ nth, ∀ a ∈ script.actions nth, action a) (duration : Option Millis) {s : Session}
    (rests : Rests (Move.Within task action) first s.dispatcher) :
    Rests (Move.Within task action) first (run script duration s).2.dispatcher ∧
      ∀ fault, (run script duration s).1 = .failed fault →
        Failed (Move.Within task action) first fault (run script duration s).2.dispatcher := by
  -- the naming of the thread may leave lines
  exact Host.run_keeps (host_keeps time may) duration maxRounds (rests.log _)

end Session

end

end Cadence
