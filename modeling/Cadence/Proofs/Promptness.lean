import Mathlib.Logic.Relation
import Cadence.Proofs.Execution
import Cadence.Proofs.Staffing

/-!
Interleavings in which the workers are never kept waiting.

In a prompt history the control thread does nothing while a worker can make a step, and the workers make
their steps in a fixed order.  So no choice is left: of a tick that begins when the workers have settled
there is one prompt interleaving, and this is the tick that is carried out at once (`Moment.tick_prompt`,
`Moment.Passes.end_unique`).
-/

namespace Cadence

/-- If the workers can make a step, then the one that they make next is the step that is made. -/
def Stage.Prompt (stage : Stage) : Prop :=
  ∀ move, stage.before.dispatcher.urge? = some move → stage.move = move

/-- The workers are never kept waiting. -/
def History.Prompt (h : History Stage) : Prop := ∀ stage ∈ h, stage.Prompt

theorem History.prompt_nil : History.Prompt [] := List.forall_mem_nil _

theorem History.prompt_cons {stage : Stage} {h : History Stage} :
    History.Prompt (stage :: h) ↔ stage.Prompt ∧ h.Prompt := List.forall_mem_cons

theorem History.prompt_append {later earlier : History Stage} :
    History.Prompt (later ++ earlier) ↔ later.Prompt ∧ earlier.Prompt := List.forall_mem_append

namespace Dispatcher

variable {s : Dispatcher}

theorem urge?_eq_none_iff : s.urge? = none ↔ s.work? = none := by
  simp [urge?, work?, finish?, Option.or_eq_none_iff]

/-- A worker that can do something is urged to. -/
theorem not_toils_of_urge (rests : s.urge? = none) {move : Move} {l : Labour} : ¬ s.Toils move l := by
  obtain ⟨unfinished, untaken⟩ := Option.or_eq_none_iff.mp (urge?_eq_none_iff.mp rests)
  rintro (offers | ⟨held, ready⟩)
  · rw [take?_eq_some_iff.mpr ⟨_, _, offers, rfl⟩] at untaken
    cases untaken
  · exact List.find?_eq_none.mp (Option.map_eq_none_iff.mp unfinished) _ held ready

end Dispatcher

namespace Moment

variable {m first a b c : Moment} {h h' : History Stage}

/-- A step within a tick that does not keep the workers waiting. -/
def Hurries (a b : Moment) : Prop :=
  ∃ move, move.Inside ∧ Stage.Prompt ⟨a, move⟩ ∧ a.step? move = some b

/-- Where no worker can make a step, only a chore can be done. -/
theorem chore_of_rests (rests : a.dispatcher.urge? = none) {move : Move} (inside : move.Inside)
    (made : a.step? move = some b) : move = .chore := by
  have idle : ∀ {move}, a.step? move = some b → (move = .take ∨ ∃ run, move = .finish run) → False := by
    intro move made worker
    obtain ⟨l, toils, _⟩ := toils_of_step made worker
    exact Dispatcher.not_toils_of_urge rests toils
  cases move with
  | chore => rfl
  | take => exact (idle made (.inl rfl)).elim
  | finish run => exact (idle made (.inr ⟨run, rfl⟩)).elim
  | _ => cases inside

/-- No choice is left. -/
theorem hurries_unique : Relator.RightUnique Hurries := by
  rintro a b c ⟨move, inside, prompt, made⟩ ⟨move', inside', prompt', made'⟩
  have same : move = move' := by
    cases urged : a.dispatcher.urge? with
    | some next => exact (prompt next urged).trans (prompt' next urged).symm
    | none => exact (chore_of_rests urged inside made).trans (chore_of_rests urged inside' made').symm
  subst same
  exact Option.some.inj (made.symm.trans made')

theorem Passes.hurries (passed : Passes Move.Inside first h m) (prompt : h.Prompt) :
    Relation.ReflTransGen Hurries first m := by
  induction passed with
  | refl => exact .refl
  | step before inside made ih =>
    obtain ⟨now, sooner⟩ := History.prompt_cons.mp prompt
    exact (ih sooner).tail ⟨_, inside, now, made⟩

/-- Nothing is left to do, and the workers have settled. -/
def Spent (m : Moment) : Prop := m.idle = true ∧ m.dispatcher.work? = none

theorem Spent.not_hurries (spent : a.Spent) : ¬ Hurries a b := by
  rintro ⟨move, inside, _, made⟩
  have chore := chore_of_rests (Dispatcher.urge?_eq_none_iff.mpr spent.2) inside made
  have none : a.chores = [] := List.isEmpty_iff.mp spent.1
  subst chore
  simp [step?, doChore?, none] at made

/-- All prompt interleavings come to the same end. -/
theorem Passes.end_unique (passed : Passes Move.Inside first h a) (prompt : h.Prompt) (spent : a.Spent)
    (passed' : Passes Move.Inside first h' b) (prompt' : h'.Prompt) (spent' : b.Spent) : a = b := by
  have stays : ∀ {a b : Moment}, a.Spent → Relation.ReflTransGen Hurries a b → a = b := by
    intro a b spent hurried
    rcases Relation.ReflTransGen.cases_head hurried with same | ⟨c, hurries, _⟩
    · exact same
    · exact absurd hurries spent.not_hurries
  rcases Relation.ReflTransGen.total_of_right_unique hurries_unique (passed.hurries prompt)
    (passed'.hurries prompt') with onward | onward
  · exact stays spent onward
  · exact (stays spent' onward).symm

/-- Where the workers have settled, a chore keeps nobody waiting. -/
theorem carries_promptly : Carries (·.work? = none)
    (fun a b => ∃ h, Passes Move.Inside a h b ∧ h.Prompt) where
  refl _ := ⟨[], .refl, History.prompt_nil⟩
  trans := by
    rintro _ _ _ ⟨h, passed, prompt⟩ ⟨h', passed', prompt'⟩
    exact ⟨h' ++ h, passed.append passed', History.prompt_append.mpr ⟨prompt', prompt⟩⟩
  work := by
    intro s t worked now chores verdict
    obtain ⟨move, urged, inside, made⟩ := work_urged worked
    have prompt : Stage.Prompt ⟨⟨s, now, chores, verdict⟩, move⟩ := fun other urged' =>
      Option.some.inj (urged.symm.trans urged')
    exact ⟨_, .step .refl inside (made now chores verdict),
      History.prompt_cons.mpr ⟨prompt, History.prompt_nil⟩⟩
  chore := by
    intro m m' rests made
    have prompt : Stage.Prompt ⟨m, .chore⟩ := by
      intro other urged
      rw [Dispatcher.urge?_eq_none_iff.mpr rests] at urged
      cases urged
    have inside : Move.Inside .chore := trivial
    exact ⟨_, .step .refl inside made, History.prompt_cons.mpr ⟨prompt, History.prompt_nil⟩⟩
  rests := id

/-- The end of a tick that is carried out at once. -/
def ended (now : Instant) (result : Verdict × Dispatcher) : Moment :=
  { dispatcher := result.2, now, verdict := result.1 }

/-- A tick that is carried out at once, after the workers have settled, is a prompt interleaving, and the
workers have settled at its end. -/
theorem tick_prompt (settled : m.dispatcher.Settled) (now : Instant) :
    ∃ h, Passes Move.Inside (m.beginTick now) h (ended now (m.dispatcher.tick now)) ∧ h.Prompt ∧
      (ended now (m.dispatcher.tick now)).Spent := by
  have rests := Dispatcher.work?_of_settled settled.opened
  have done : Dispatcher.inOrder (Dispatcher.fulfil now) m.dispatcher.agenda m.dispatcher.opened =
      ((m.dispatcher.tick now).1, (m.dispatcher.tick now).2) := rfl
  obtain ⟨⟨h, passed, prompt⟩, rests⟩ := carries_promptly.chores rests done
  exact ⟨h, passed, prompt, rfl, rests⟩

end Moment

end Cadence
