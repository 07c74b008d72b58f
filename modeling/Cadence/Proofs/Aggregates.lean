import Mathlib.Algebra.Order.BigOperators.Group.List
import Mathlib.Algebra.Order.Ring.Int
import Mathlib.Order.Bounds.Basic
import Cadence.Stats

/-!
The account of some runs does not tell their order.

An account states how many runs there were and how many failed, the extremes of their times, and sums of
them up to the size of a word (`Stats.AccountsFor`).  One more run is taken into account by one more
observation (`Stats.AccountsFor.observe`), and all that is stated of some runs is the same in any order of
them.  An account is known from what it states, so that there is only one (`Stats.AccountsFor.unique`).
-/

namespace Cadence.Stats

variable {os os' seen : List Observation} {s t : Stats} {o : Observation}

/-! ## Words -/

theorem toInt_min (a b : Int64) : (min a b).toInt = min a.toInt b.toInt := by
  show (if a ≤ b then a else b).toInt = _
  simp only [Int64.le_iff_toInt_le]
  split <;> omega

theorem toInt_max (a b : Int64) : (max a b).toInt = max a.toInt b.toInt := by
  show (if a ≤ b then b else a).toInt = _
  simp only [Int64.le_iff_toInt_le]
  split <;> omega

/-- A signed word is read as an unsigned one up to the size of a word. -/
theorem toNat_toUInt64 (n : Int64) : (n.toUInt64.toNat : Int) = n.toInt % 2 ^ 64 := by
  have signed : n.toInt = (n.toUInt64.toNat : Int).bmod (2 ^ 64) := BitVec.toInt_eq_toNat_bmod _
  have small := n.toUInt64.toNat_lt
  rw [signed]
  show _ = Int.bmod _ (2 ^ 64 : Nat) % (2 ^ 64 : Nat)
  rw [Int.bmod_emod]
  exact (Int.emod_eq_of_lt (by omega) (by omega)).symm

/-- A sum of words is a sum up to the size of a word. -/
theorem toNat_add_word {a b : UInt64} {x y : Int} (first : (a.toNat : Int) = x % 2 ^ 64)
    (second : (b.toNat : Int) = y % 2 ^ 64) : ((a + b).toNat : Int) = (x + y) % 2 ^ 64 := by
  rw [UInt64.toNat_add]
  omega

/-- What a latency adds to the sum. -/
theorem toNat_latency (n : Int64) :
    ((if n < 0 then 0 else n.toUInt64).toNat : Int) = max 0 n.toInt % 2 ^ 64 := by
  have zero : (0 : Int64).toInt = 0 := by decide
  simp only [Int64.lt_iff_toInt_lt, zero]
  split
  · rename_i early
    rw [max_eq_left early.le]
    rfl
  · rename_i late
    rw [max_eq_right (not_lt.mp late)]
    exact toNat_toUInt64 n

/-! ## Accounts -/

/-- The values that some runs have, and those of one run more. -/
theorem values_cons (f : Observation → Int) (o : Observation) (os : List Observation) :
    {t : Int | ∃ o' ∈ o :: os, f o' = t} = insert (f o) {t : Int | ∃ o' ∈ os, f o' = t} := by
  ext t
  simp [eq_comm]

/-- The account states of some runs what is true of them. -/
structure AccountsFor (s : Stats) (os : List Observation) : Prop where
  runs : s.runs.toNat = os.length
  failures : s.failures.toNat = os.countP (·.failed)
  execMin : IsLeast {t : Int | ∃ o ∈ os, o.exec.toInt = t} s.execMin.toInt
  execMax : IsGreatest {t : Int | ∃ o ∈ os, o.exec.toInt = t} s.execMax.toInt
  execSum : (s.execSum.toNat : Int) = (os.map (·.exec.toInt)).sum % 2 ^ 64
  /-- The greatest latency, if one is positive. -/
  latencyMax : IsGreatest (insert 0 {t : Int | ∃ o ∈ os, o.latency.toInt = t}) s.latencyMax.toInt
  /-- A run that began early adds nothing. -/
  latencySum : (s.latencySum.toNat : Int) = (os.map (max 0 ·.latency.toInt)).sum % 2 ^ 64

namespace AccountsFor

/-- The first run. -/
theorem single (o : Observation) : AccountsFor (observe {} o) [o] where
  runs := rfl
  failures := by cases failed : o.failed <;> simp [Stats.observe, failed]
  execMin := by
    have first : (observe {} o).execMin = o.exec := rfl
    simp [first]
  execMax := by
    have first : (observe {} o).execMax = o.exec := rfl
    simp [first]
  execSum := by
    have sum := toNat_add_word (a := 0) (x := 0) rfl (toNat_toUInt64 o.exec)
    simpa [Stats.observe] using sum
  latencyMax := by
    have zero : (0 : Int64).toInt = 0 := by decide
    have greatest : (observe {} o).latencyMax.toInt = max 0 o.latency.toInt := toInt_max 0 o.latency
    rw [greatest]
    constructor
    · rcases max_cases 0 o.latency.toInt with ⟨same, _⟩ | ⟨same, _⟩
      · exact .inl same
      · exact .inr ⟨o, List.mem_singleton_self o, same.symm⟩
    · rintro t (rfl | ⟨o', member, rfl⟩)
      · exact le_max_left _ _
      · rw [List.mem_singleton.mp member]
        exact le_max_right _ _
  latencySum := by
    have sum := toNat_add_word (a := 0) (x := 0) rfl (toNat_latency o.latency)
    simpa [Stats.observe] using sum

/-- One run more. -/
theorem observe (accounts : s.AccountsFor os) (few : os.length + 1 < 2 ^ 64) (o : Observation) :
    (s.observe o).AccountsFor (o :: os) := by
  obtain ⟨_, some, _⟩ := accounts.execMin.1
  have runs : (s.runs + 1).toNat = os.length + 1 := by
    rw [UInt64.toNat_add, accounts.runs]
    exact Nat.mod_eq_of_lt few
  have later : ¬ s.runs + 1 = 1 := by
    intro first
    have one : (s.runs + 1).toNat = 1 := by rw [first]; rfl
    have := List.length_pos_of_mem some
    omega
  constructor
  · exact runs
  · have most := os.countP_le_length (p := (·.failed))
    rw [List.countP_cons, ← accounts.failures]
    cases failed : o.failed with
    | false => simp [Stats.observe, failed]
    | true =>
      have next : (s.failures + 1).toNat = s.failures.toNat + 1 := by
        rw [UInt64.toNat_add, accounts.failures]
        exact Nat.mod_eq_of_lt (lt_of_le_of_lt (Nat.succ_le_succ most) few)
      simp [Stats.observe, failed, next]
  · have least : (s.observe o).execMin = min s.execMin o.exec := if_neg later
    rw [values_cons, least, toInt_min, min_comm]
    exact accounts.execMin.insert o.exec.toInt
  · have greatest : (s.observe o).execMax = max s.execMax o.exec := if_neg later
    rw [values_cons, greatest, toInt_max, max_comm]
    exact accounts.execMax.insert o.exec.toInt
  · have sum := toNat_add_word accounts.execSum (toNat_toUInt64 o.exec)
    rw [List.map_cons, List.sum_cons, add_comm]
    exact sum
  · have greatest : (s.observe o).latencyMax.toInt = max o.latency.toInt s.latencyMax.toInt :=
      (toInt_max s.latencyMax o.latency).trans (max_comm _ _)
    rw [values_cons, Set.insert_comm, greatest]
    exact accounts.latencyMax.insert o.latency.toInt
  · have sum := toNat_add_word accounts.latencySum (toNat_latency o.latency)
    rw [List.map_cons, List.sum_cons, add_comm]
    exact sum

/-- What is stated of some runs is the same in any order of them. -/
theorem perm (accounts : s.AccountsFor os) (perm : os.Perm os') : s.AccountsFor os' where
  runs := accounts.runs.trans perm.length_eq
  failures := accounts.failures.trans (perm.countP_eq _)
  execMin := by simpa only [perm.mem_iff] using accounts.execMin
  execMax := by simpa only [perm.mem_iff] using accounts.execMax
  execSum := by rw [← (perm.map _).sum_eq]; exact accounts.execSum
  latencyMax := by simpa only [perm.mem_iff] using accounts.latencyMax
  latencySum := by rw [← (perm.map _).sum_eq]; exact accounts.latencySum

/-- There is only one account of some runs. -/
theorem unique (accounts : s.AccountsFor os) (accounts' : t.AccountsFor os) : s = t := by
  have runs := UInt64.toNat_inj.mp (accounts.runs.trans accounts'.runs.symm)
  have failures := UInt64.toNat_inj.mp (accounts.failures.trans accounts'.failures.symm)
  have execMin := Int64.toInt_inj.mp (accounts.execMin.unique accounts'.execMin)
  have execMax := Int64.toInt_inj.mp (accounts.execMax.unique accounts'.execMax)
  have latencyMax := Int64.toInt_inj.mp (accounts.latencyMax.unique accounts'.latencyMax)
  have execSum := UInt64.toNat_inj.mp
    (Int.ofNat_inj.mp (accounts.execSum.trans accounts'.execSum.symm))
  have latencySum := UInt64.toNat_inj.mp
    (Int.ofNat_inj.mp (accounts.latencySum.trans accounts'.latencySum.symm))
  cases s
  cases t
  simp_all

/-- Further runs, one after the other. -/
theorem foldl (accounts : s.AccountsFor seen) (few : os.length + seen.length < 2 ^ 64) :
    (os.foldl Stats.observe s).AccountsFor (os.reverse ++ seen) := by
  induction os generalizing s seen with
  | nil => exact accounts
  | cons o os ih =>
    rw [List.length_cons] at few
    have next := ih (accounts.observe (by omega) o) (by rw [List.length_cons]; omega)
    rwa [List.reverse_cons, List.append_assoc]

/-- If no time is negative and the sum fits into its word, the sum lies between the extremes. -/
theorem between (accounts : s.AccountsFor os) (forward : ∀ o ∈ os, 0 ≤ o.exec.toInt)
    (fits : (os.map (·.exec.toInt)).sum < 2 ^ 64) :
    (s.runs.toNat : Int) * s.execMin.toInt ≤ s.execSum.toNat ∧
      (s.execSum.toNat : Int) ≤ s.runs.toNat * s.execMax.toInt := by
  have positive : 0 ≤ (os.map (·.exec.toInt)).sum := by
    apply List.sum_nonneg
    simpa using forward
  have least := List.card_nsmul_le_sum (os.map (·.exec.toInt)) s.execMin.toInt fun t listed => by
    obtain ⟨o, member, rfl⟩ := List.mem_map.mp listed
    exact accounts.execMin.2 ⟨o, member, rfl⟩
  have greatest := List.sum_le_card_nsmul (os.map (·.exec.toInt)) s.execMax.toInt fun t listed => by
    obtain ⟨o, member, rfl⟩ := List.mem_map.mp listed
    exact accounts.execMax.2 ⟨o, member, rfl⟩
  rw [List.length_map, nsmul_eq_mul] at least greatest
  rw [accounts.execSum, accounts.runs, Int.emod_eq_of_lt positive fits]
  exact ⟨least, greatest⟩

end AccountsFor

/-- The runs of a task, as many as a word counts, come to an account that states them, whatever their order;
and the sum of their times lies between the extremes, unless it is more than a word holds or a time is
negative. -/
theorem accounts_in_any_order (some : os ≠ []) (few : os.length < 2 ^ 64) :
    (os.foldl observe {}).AccountsFor os ∧
    (∀ os' : List Observation, os'.Perm os → os'.foldl observe {} = os.foldl observe {}) ∧
    ((∀ o ∈ os, 0 ≤ o.exec.toInt) → (os.map (·.exec.toInt)).sum < 2 ^ 64 →
      ((os.foldl observe {}).runs.toNat : Int) * (os.foldl observe {}).execMin.toInt ≤
        (os.foldl observe {}).execSum.toNat ∧
      ((os.foldl observe {}).execSum.toNat : Int) ≤
        (os.foldl observe {}).runs.toNat * (os.foldl observe {}).execMax.toInt) := by
  have accounts : ∀ {os : List Observation}, os ≠ [] → os.length < 2 ^ 64 →
      (os.foldl observe {}).AccountsFor os := by
    intro os some few
    cases os with
    | nil => exact absurd rfl some
    | cons o os =>
      have room : os.length + [o].length < 2 ^ 64 := by simpa using few
      have whole := (AccountsFor.single o).foldl room
      exact whole.perm ((List.perm_append_singleton o _).trans (os.reverse_perm.cons o))
  refine ⟨accounts some few, ?_, (accounts some few).between⟩
  intro os' perm
  have some' : os' ≠ [] := fun none => some (List.nil_perm.mp (none ▸ perm))
  have few' : os'.length < 2 ^ 64 := perm.length_eq.trans_lt few
  exact ((accounts some' few').perm perm).unique (accounts some few)

/-- Three runs, one of which began early and failed. -/
theorem accounts_in_any_order_sample :
    let os : List Observation := [⟨100, 3000, false⟩, ⟨-5, 1000, true⟩, ⟨50, 2000, false⟩]
    os.foldl observe {} = ⟨3, 1, 100, 150, 1000, 3000, 6000⟩ ∧
      (os.foldl observe {}).AccountsFor os ∧ os.reverse.foldl observe {} = os.foldl observe {} ∧
      (3 : Int) * 1000 ≤ 6000 ∧ (6000 : Int) ≤ 3 * 3000 := by
  intro os
  have some : os ≠ [] := by decide
  obtain ⟨accounts, same, between⟩ := accounts_in_any_order some (by decide)
  exact ⟨by decide, accounts, same _ os.reverse_perm, between (by decide) (by decide)⟩

end Cadence.Stats
