import Cadence.Dispatcher.Run

/-!
A diary of the ticks of a run.

`Host.diary` is the same thread, which also notes every tick with the states before and after it.  The
loop does not notice (`Host.run_diary`), because it does the same on two threads one of which shows what
the other does (`Host.Mirrors.run`).
-/

namespace Cadence

def Nap.map {σ τ : Type} (f : σ → τ) : Nap σ → Nap τ
  | slept s => .slept (f s)
  | failed what s => .failed what (f s)
  | halted s => .halted (f s)

/-- A tick of the loop. -/
structure Wake (σ : Type) where
  /-- The instant of the tick. -/
  now : Instant
  /-- The state before. -/
  before : σ
  /-- The state after. -/
  after : σ

namespace Host

variable {σ τ : Type}

/-- The same thread, with a diary of its ticks. -/
def diary (h : Host σ) : Host (History (Wake σ) × σ) where
  start s := (h.start s.2).map id (Prod.mk s.1)
  read s := (h.read s.2).map id (Prod.mk s.1)
  sleep length s := (h.sleep length s.2).map (Prod.mk s.1)
  note line s := (s.1, h.note line s.2)
  tick now s := (h.tick now s.2).map id fun after => (⟨now, s.2, after⟩ :: s.1, after)

/-- What a thread does shows as what another one does. -/
structure Mirrors (g : Host τ) (h : Host σ) (face : τ → σ) : Prop where
  start : ∀ s, h.start (face s) = (g.start s).map id face
  read : ∀ s, h.read (face s) = (g.read s).map id face
  sleep : ∀ length s, h.sleep length (face s) = (g.sleep length s).map face
  note : ∀ line s, h.note line (face s) = face (g.note line s)
  tick : ∀ now s, h.tick now (face s) = (g.tick now s).map id face

theorem mirrors_diary (h : Host σ) : h.diary.Mirrors h Prod.snd := by
  constructor
  · intro s
    rfl
  · intro s
    rfl
  · intro length s
    show h.sleep length s.2 = ((h.sleep length s.2).map (Prod.mk s.1)).map Prod.snd
    cases h.sleep length s.2 <;> rfl
  · intro line s
    rfl
  · intro now s
    rfl

namespace Mirrors

variable {g : Host τ} {h : Host σ} {face : τ → σ} (mirrors : g.Mirrors h face)
include mirrors

theorem nextSleep (minInterval : Millis) (deadline : Option Instant) (woke : Instant) (s : τ) :
    h.nextSleep minInterval deadline woke (face s) =
      (g.nextSleep minInterval deadline woke s).map id face := by
  unfold Host.nextSleep
  rw [mirrors.read]
  cases g.read s with
  | mk now t =>
    cases deadline with
    | none => rfl
    | some last =>
      rw [Prod.map_apply]
      have same := mirrors.read t
      cases read : g.read t with
      | mk now t =>
        rw [read] at same
        simp only [same, read, Prod.map_apply, id]

theorem sleepIfPositive (length : Millis) (s : τ) :
    h.sleepIfPositive length (face s) = (g.sleepIfPositive length s).map face := by
  unfold Host.sleepIfPositive
  split
  · exact mirrors.sleep length s
  · rfl

theorem pause (minInterval : Millis) (deadline : Option Instant) (woke : Instant) (s : τ) :
    h.pause minInterval deadline woke (face s) =
      (g.pause minInterval deadline woke s).map id face := by
  unfold Host.pause
  rw [mirrors.nextSleep]
  cases g.nextSleep minInterval deadline woke s with
  | mk length t =>
    have slept := mirrors.sleepIfPositive length t
    cases nap : g.sleepIfPositive length t with
    | slept u =>
      rw [nap] at slept
      simp only [nap, slept, Prod.map_apply, id, Nap.map]
    | failed what u =>
      rw [nap] at slept
      simp only [nap, slept, Prod.map_apply, id, Nap.map, mirrors.note]
    | halted u =>
      rw [nap] at slept
      simp only [nap, slept, Prod.map_apply, id, Nap.map]

theorem wakeUp (deadline : Option Instant) (now : Instant) (s : τ) :
    h.wakeUp deadline now (face s) = (g.wakeUp deadline now s).map id face := by
  unfold Host.wakeUp
  split
  · rfl
  · rw [mirrors.tick]
    cases g.tick now s with
    | mk verdict t => cases verdict <;> simp [mirrors.note]

theorem round (minInterval : Millis) (deadline : Option Instant) (woke : Instant) (s : τ) :
    h.round minInterval deadline woke (face s) =
      (g.round minInterval deadline woke s).map id face := by
  unfold Host.round
  rw [mirrors.pause]
  cases g.pause minInterval deadline woke s with
  | mk awake t =>
    cases awake with
    | false => rfl
    | true =>
      have same := mirrors.read t
      cases read : g.read t with
      | mk now u =>
        rw [read] at same
        simp only [same, read, Prod.map_apply, id, mirrors.wakeUp]

theorem loop (minInterval : Millis) (deadline : Option Instant) (rounds : Nat) (woke : Instant)
    (s : τ) : h.loop minInterval deadline rounds woke (face s) =
      (g.loop minInterval deadline rounds woke s).map id face := by
  induction rounds generalizing woke s with
  | zero => rfl
  | succ rounds ih =>
    unfold Host.loop
    rw [mirrors.round]
    cases g.round minInterval deadline woke s with
    | mk outcome t =>
      cases outcome with
      | ok now => exact ih now t
      | error ended => rfl

theorem deadline (duration : Option Millis) (s : τ) :
    h.deadline duration (face s) = (g.deadline duration s).map id face := by
  unfold Host.deadline
  cases duration with
  | none => rfl
  | some d =>
    have same := mirrors.read s
    cases read : g.read s with
    | mk now t =>
      rw [read] at same
      simp only [same, Prod.map_apply, id]

/-- The loop does the same. -/
theorem run (duration : Option Millis) (rounds : Nat) (s : τ) :
    h.run duration rounds (face s) = (g.run duration rounds s).map id face := by
  unfold Host.run
  rw [mirrors.deadline]
  cases g.deadline duration s with
  | mk last t =>
    have started := mirrors.start t
    cases start : g.start t with
    | mk minInterval u =>
      rw [start] at started
      have same := mirrors.read u
      cases read : g.read u with
      | mk now v =>
        rw [read] at same
        simp only [started, start, same, read, Prod.map_apply, id, mirrors.loop]

end Mirrors

/-- The diary makes no difference to the loop. -/
theorem run_diary (h : Host σ) (duration : Option Millis) (rounds : Nat)
    (diary : History (Wake σ)) (s : σ) :
    h.run duration rounds s = (h.diary.run duration rounds (diary, s)).map id Prod.snd :=
  h.mirrors_diary.run duration rounds (diary, s)

end Host

end Cadence
