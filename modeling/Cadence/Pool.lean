import Cadence.Fault

/-!
A pool of workers with a bounded backlog.

Jobs wait in the backlog in the order they were submitted.  A free worker takes the front job and
holds it until it is finished.  A closed pool has dropped its backlog and takes no more jobs; what
its workers hold can still finish.

The order in which workers take and finish is free; `Pool.take?` and `Pool.release` are single
steps, and `exhaust` repeats a step as long as there is one.
-/

namespace Cadence

/-- Repeats a step while it can be made, `n` times at the most. -/
def exhaust {σ : Type} (step? : σ → Option σ) : Nat → σ → σ
  | 0, s => s
  | n + 1, s =>
    match step? s with
    | some next => exhaust step? n next
    | none => s

/-- What holds at first and is kept by every step holds in the end. -/
theorem exhaust_invariant {σ : Type} (holds : σ → Prop) {step? : σ → Option σ}
    (kept : ∀ s t, holds s → step? s = some t → holds t) (n : Nat) (s : σ) (first : holds s) :
    holds (exhaust step? n s) := by
  induction n generalizing s with
  | zero => exact first
  | succ n ih =>
    unfold exhaust
    split
    · rename_i next made
      exact ih next (kept s next first made)
    · exact first

/-- If every step makes something lighter, then as many steps as it weighs are enough. -/
theorem step?_exhaust {σ : Type} {step? : σ → Option σ} {weight : σ → Nat}
    (lighter : ∀ s t, step? s = some t → weight t < weight s) (n : Nat) (s : σ)
    (enough : weight s ≤ n) : step? (exhaust step? n s) = none := by
  induction n generalizing s with
  | zero =>
    cases made : step? s with
    | none => exact made
    | some next => have := lighter s next made; omega
  | succ n ih =>
    unfold exhaust
    split
    · rename_i next made
      have := lighter s next made
      exact ih next (by omega)
    · assumption

/-- If every step makes something lighter and one can be made, then the end is lighter. -/
theorem weight_exhaust_lt {σ : Type} {step? : σ → Option σ} {weight : σ → Nat}
    (lighter : ∀ s t, step? s = some t → weight t < weight s) {n : Nat} (positive : 0 < n) {s t : σ}
    (made : step? s = some t) : weight (exhaust step? n s) < weight s := by
  obtain ⟨n, rfl⟩ := Nat.exists_eq_add_one.mpr positive
  have first := lighter s t made
  have kept := exhaust_invariant (fun u => weight u ≤ weight t)
    (fun u v light step => Nat.le_trans (Nat.le_of_lt (lighter u v step)) light) n t (Nat.le_refl _)
  simp only [exhaust, made]
  omega

/-- A pool (`WorkerPool`) whose backlog holds jobs of type `α`, and whose workers hold them as `β`. -/
structure Pool (α β : Type) where
  workers : Nat
  /-- How many jobs the backlog takes. -/
  capacity : Nat
  /-- The jobs that wait, the front one first. -/
  backlog : List α := []
  /-- What the workers hold, in the order it was taken. -/
  held : List β := []
  closed : Bool := false
  deriving DecidableEq, Repr

namespace Pool

variable {α β : Type}

/-- What the workers' threads are called. -/
def threadName : String := "collectors-th"

/-- Makes a pool (`WorkerPool::WorkerPool`).  It needs a worker and room for a job. -/
def create (workers capacity : Nat) : Except Fault (Pool α β) :=
  if workers = 0 then .error .noThreads
  else if capacity = 0 then .error .noBacklog
  else .ok { workers, capacity }

/-- How many jobs wait (`WorkerPool::pending`). -/
def pending (p : Pool α β) : Nat := p.backlog.length

/-- Puts a job at the end of the backlog (`WorkerPool::submit`), if there is room. -/
def submit (p : Pool α β) (job : α) : Except Fault (Pool α β) :=
  if p.closed then .error .shuttingDown
  else if p.capacity ≤ p.pending then .error (.backlogFull p.capacity)
  else .ok { p with backlog := p.backlog ++ [job] }

/-- Shuts the pool down (`WorkerPool::~WorkerPool`): what waits is dropped. -/
def close (p : Pool α β) : Pool α β := { p with backlog := [], closed := true }

/-- A free worker takes the front job, which `enter` turns into what it holds: the wait in
`WorkerPool::worker_loop`. -/
def take? (p : Pool α β) (enter : α → β) : Option (α × Pool α β) :=
  match p.backlog with
  | job :: rest =>
    if p.held.length < p.workers ∧ !p.closed then
      some (job, { p with backlog := rest, held := p.held ++ [enter job] })
    else none
  | [] => none

/-- A worker lets go of something it holds, and is free again: it is back at the top of
`WorkerPool::worker_loop`. -/
def release [DecidableEq β] (p : Pool α β) (run : β) : Pool α β :=
  { p with held := p.held.erase run }

/-- How many steps the workers can make at the most: a job that waits can be taken and finished, one
that is held can be finished. -/
def weight (p : Pool α β) : Nat := 2 * p.backlog.length + p.held.length

theorem weight_take? {p q : Pool α β} {enter : α → β} {job : α}
    (taken : p.take? enter = some (job, q)) : q.weight + 1 = p.weight := by
  unfold take? at taken
  split at taken
  · rename_i front rest waiting
    split at taken
    · cases taken
      simp only [weight, waiting, List.length_append, List.length_cons, List.length_nil]
      omega
    · cases taken
  · cases taken

theorem weight_release [DecidableEq β] {p : Pool α β} {run : β} (holds : run ∈ p.held) :
    (p.release run).weight + 1 = p.weight := by
  have := List.length_pos_of_mem holds
  simp only [weight, release, List.length_erase_of_mem holds]
  omega

end Pool

end Cadence
