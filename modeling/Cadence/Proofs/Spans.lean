import Mathlib.Algebra.Ring.Int.Defs
import Mathlib.Algebra.Ring.Nat
import Cadence.Loop

/-!
Instants and spans in unbounded numbers.

The words of the clock wrap.  Each lemma here tells when an operation does not, and what it comes to then:
adding a span (`Instant.toInt_after_of_fits`), the time between two instants (`Instant.toInt_since`),
whole milliseconds (`Millis.toInt_truncate`, `Millis.toInt_ceil`), and the sleep of the loop
(`Host.toInt_sleepLength`).
-/

namespace Cadence

namespace Millis

/-- The part below a millisecond is dropped, whether the span points forward or back. -/
theorem truncate_cases (ns : Int64) :
    0 ≤ ns.toInt ∧ (truncate ns).count.toInt = ns.toInt / 1000000 ∨
      ns.toInt < 0 ∧ (truncate ns).count.toInt = -(-ns.toInt / 1000000) := by
  have low := ns.le_toInt
  have high := ns.toInt_lt
  have million : (1000000 : Int64).toInt = 1000000 := by decide
  rw [truncate, Int64.toInt_div, million]
  rcases Int.lt_or_le ns.toInt 0 with back | forward
  · have mirrored : ns.toInt.tdiv 1000000 = -(-ns.toInt / 1000000) := by
      rw [← Int.tdiv_eq_ediv_of_nonneg (by omega), Int.neg_tdiv, Int.neg_neg]
    rw [mirrored]
    exact .inr ⟨back, Int.bmod_eq_of_le (by omega) (by omega)⟩
  · rw [Int.tdiv_eq_ediv_of_nonneg forward]
    exact .inl ⟨forward, Int.bmod_eq_of_le (by omega) (by omega)⟩

theorem toInt_truncate {ns : Int64} (forward : 0 ≤ ns.toInt) :
    (truncate ns).count.toInt = ns.toInt / 1000000 := by
  have cases := truncate_cases ns
  omega

/-- Rounding up. -/
theorem toInt_ceil (ns : Int64) : (ceil ns).count.toInt = -(-ns.toInt / 1000000) := by
  have low := ns.le_toInt
  have high := ns.toInt_lt
  have cases := truncate_cases ns
  have million : (1000000 : Int64).toInt = 1000000 := by decide
  have one : (1 : Int64).toInt = 1 := by decide
  have back : (truncate ns).nanos.toInt = (truncate ns).count.toInt * 1000000 := by
    rw [nanos, Int64.toInt_mul, million]
    exact Int.bmod_eq_of_le (by omega) (by omega)
  simp only [ceil]
  split
  · rename_i less
    rw [Int64.lt_iff_toInt_lt, back] at less
    have next : ((truncate ns).count + 1).toInt = (truncate ns).count.toInt + 1 := by
      rw [Int64.toInt_add, one]
      exact Int.bmod_eq_of_le (by omega) (by omega)
    rw [next]
    omega
  · rename_i enough
    rw [Int64.lt_iff_toInt_lt, back] at enough
    omega

theorem toInt_shorter (d e : Millis) :
    (d.shorter e).count.toInt = min d.count.toInt e.count.toInt := by
  unfold shorter
  split
  · rename_i shorter
    rw [Int64.lt_iff_toInt_lt] at shorter
    omega
  · rename_i longer
    rw [Int64.lt_iff_toInt_lt] at longer
    omega

/-- The shortest of some spans is one of them, and not longer than any. -/
theorem foldl_shorter (ds : List Millis) (d : Millis) : ds.foldl shorter d ∈ d :: ds ∧
    ∀ e ∈ d :: ds, (ds.foldl shorter d).count.toInt ≤ e.count.toInt := by
  induction ds generalizing d with
  | nil => simp
  | cons first rest ih =>
    obtain ⟨member, least⟩ := ih (d.shorter first)
    have both := d.toInt_shorter first
    have bound := least _ List.mem_cons_self
    rw [both] at bound
    constructor
    · rcases List.mem_cons.mp member with same | member
      · rw [List.foldl_cons, same]
        unfold shorter
        split <;> simp
      · exact List.mem_cons_of_mem _ (List.mem_cons_of_mem _ member)
    · intro e listed
      rw [List.foldl_cons]
      rcases List.mem_cons.mp listed with rfl | listed
      · omega
      rcases List.mem_cons.mp listed with rfl | listed
      · omega
      · exact least e (List.mem_cons_of_mem _ listed)

end Millis

/-- A word that is a number up to the size of a word is that number if the number fits. -/
theorem toInt_eq_iff_of_bmod {n : Int64} {x : Int} (word : n.toInt = x.bmod (2 ^ 64))
    (low : -2 ^ 63 ≤ x) : n.toInt = x ↔ x < 2 ^ 63 := by
  constructor
  · intro same
    rw [← same]
    exact n.toInt_lt
  · intro fits
    rw [word]
    exact Int.bmod_eq_of_le (by omega) (by omega)

namespace Instant

theorem toInt_inj {t u : Instant} : t.nanos.toInt = u.nanos.toInt ↔ t = u := by
  obtain ⟨ns⟩ := t
  obtain ⟨ns'⟩ := u
  rw [Int64.toInt_inj, Instant.mk.injEq]

/-- Adding a span is exact up to the size of a word. -/
theorem toInt_after_eq_bmod (t : Instant) (d : Millis) :
    (t.after d).nanos.toInt = (t.nanos.toInt + d.count.toInt * 1000000).bmod (2 ^ 64) := by
  have million : (1000000 : Int64).toInt = 1000000 := by decide
  rw [after, advance, Millis.nanos, Int64.toInt_add, Int64.toInt_mul, million, Int.add_bmod_bmod]

/-- Adding a span is exact if the sum fits into the word, even if the span alone does not. -/
theorem toInt_after_of_fits {t : Instant} {d : Millis}
    (low : -2 ^ 63 ≤ t.nanos.toInt + d.count.toInt * 1000000)
    (high : t.nanos.toInt + d.count.toInt * 1000000 < 2 ^ 63) :
    (t.after d).nanos.toInt = t.nanos.toInt + d.count.toInt * 1000000 := by
  rw [toInt_after_eq_bmod]
  exact Int.bmod_eq_of_le (by omega) (by omega)

/-- A span that does not point back only has to end in time. -/
theorem toInt_after {t : Instant} {d : Millis} (forward : 0 ≤ d.count.toInt)
    (fits : t.nanos.toInt + d.count.toInt * 1000000 < 2 ^ 63) :
    (t.after d).nanos.toInt = t.nanos.toInt + d.count.toInt * 1000000 := by
  have low := t.nanos.le_toInt
  exact toInt_after_of_fits (by omega) fits

theorem toInt_since {t u : Instant} (low : -2 ^ 63 ≤ t.nanos.toInt - u.nanos.toInt)
    (high : t.nanos.toInt - u.nanos.toInt < 2 ^ 63) :
    (t.since u).toInt = t.nanos.toInt - u.nanos.toInt := by
  rw [since, Int64.toInt_sub]
  exact Int.bmod_eq_of_le (by omega) (by omega)

end Instant

namespace Host

/-- A sleep is what is left of the interval, or the time up to the deadline if that is shorter: the time
that has passed is cut off to whole milliseconds, and the time that is left is rounded up. -/
theorem toInt_sleepLength {gap : Millis} (forward : 0 ≤ gap.count.toInt) {elapsed : Int64}
    (passed : 0 ≤ elapsed.toInt) (remaining : Int64) :
    (sleepLength gap elapsed (some remaining)).count.toInt =
      min (gap.count.toInt - elapsed.toInt / 1000000) (-(-remaining.toInt / 1000000)) := by
  have short := gap.count.toInt_lt
  have small := elapsed.toInt_lt
  have rest : (gap.less (.truncate elapsed)).count.toInt = gap.count.toInt - elapsed.toInt / 1000000 := by
    rw [Millis.less, Int64.toInt_sub, Millis.toInt_truncate passed]
    exact Int.bmod_eq_of_le (by omega) (by omega)
  simp only [sleepLength, Millis.toInt_shorter, rest, Millis.toInt_ceil]

/-- At the deadline or after it, nothing is slept. -/
theorem sleepLength_nonpos (gap : Millis) (elapsed : Int64) {remaining : Int64}
    (past : remaining.toInt ≤ 0) : (sleepLength gap elapsed (some remaining)).count.toInt ≤ 0 := by
  simp only [sleepLength, Millis.toInt_shorter, Millis.toInt_ceil]
  omega

end Host

end Cadence
