import Mathlib.Data.List.Basic
import Mathlib.Data.String.Basic
import Cadence.Tally

/-!
Counting keeps the counters in ascending order of their keys, and adds one to the count of the key
that was counted and of no other.
-/

namespace Cadence.Tally

variable {Name : Type} [LT Name] [DecidableLT Name]

namespace Key

theorem before_iff {a b : Key Name} : a.before b = true ↔
    a.event.code < b.event.code ∨ (a.event.code = b.event.code ∧ a.name < b.name) := by
  simp [before]

theorem before_iff_toInt {a b : Key Name} : a.before b = true ↔
    a.event.code.toInt < b.event.code.toInt ∨ a.event = b.event ∧ a.name < b.name := by
  rw [before_iff, Int32.lt_iff_toInt_lt]
  exact or_congr_right (and_congr_left' ⟨Event.code_injective, congrArg Event.code⟩)

variable [LE Name] [Std.LawfulOrderLT Name]

theorem before_irrefl (a : Key Name) : ¬ a.before a = true := by
  rw [before_iff]
  rintro (less | ⟨_, less⟩)
  · exact Int32.lt_irrefl less
  · exact Std.lt_irrefl less

theorem ne_of_before {a b : Key Name} (before : a.before b = true) : a ≠ b := by
  intro same
  subst same
  exact before_irrefl a before

variable [Std.IsLinearOrder Name]

theorem before_trans {a b c : Key Name} (first : a.before b = true) (second : b.before c = true) :
    a.before c = true := by
  rw [before_iff] at first second ⊢
  rcases first with less | ⟨same, less⟩
  · rcases second with less' | ⟨same', _⟩
    · exact .inl (Int32.lt_trans less less')
    · exact .inl (same' ▸ less)
  · rcases second with less' | ⟨same', less'⟩
    · exact .inl (same ▸ less')
    · exact .inr ⟨same.trans same', Std.lt_trans less less'⟩

/-- Of two keys one is before the other. -/
theorem before_of_not_before {a b : Key Name} (different : a ≠ b) (later : ¬ a.before b = true) :
    b.before a = true := by
  rw [before_iff] at later ⊢
  obtain ⟨codes, names⟩ := not_or.mp later
  by_cases same : a.event.code = b.event.code
  · have distinct : a.name ≠ b.name := by
      intro sameName
      apply different
      have sameEvent : a.event = b.event := Event.code_injective same
      cases a
      cases b
      simp_all
    have notBelow : ¬ a.name < b.name := fun less => names ⟨same, less⟩
    exact .inr ⟨same.symm, Std.lt_of_le_of_ne (Std.not_lt.mp notBelow) distinct.symm⟩
  · exact .inl (Int32.lt_of_le_of_ne (Int32.not_lt.mp codes) (Ne.symm same))

end Key

variable [DecidableEq Name]

/-- The counters ascend: every key is before those that follow. -/
def Ascending (t : Tally Name) : Prop := t.counters.Pairwise fun a b => a.1.before b.1 = true

theorem key_of_mem_increment {key : Key Name} {counters : List (Key Name × UInt64)} {c : Key Name × UInt64}
    (member : c ∈ increment key counters) : c.1 = key ∨ ∃ old ∈ counters, old.1 = c.1 := by
  induction counters with
  | nil =>
    rw [increment, List.mem_singleton] at member
    exact .inl (by rw [member])
  | cons first rest ih =>
    obtain ⟨k, n⟩ := first
    unfold increment at member
    split at member
    · rename_i same
      rcases List.mem_cons.mp member with rfl | member
      · exact .inl same.symm
      · exact .inr ⟨c, List.mem_cons_of_mem _ member, rfl⟩
    split at member
    · rcases List.mem_cons.mp member with rfl | member
      · exact .inl rfl
      · exact .inr ⟨c, member, rfl⟩
    · rcases List.mem_cons.mp member with rfl | member
      · exact .inr ⟨_, List.mem_cons_self, rfl⟩
      · rcases ih member with same | ⟨old, within, same⟩
        · exact .inl same
        · exact .inr ⟨old, List.mem_cons_of_mem _ within, same⟩

theorem lookup_increment_of_ne {key other : Key Name} (different : other ≠ key)
    (counters : List (Key Name × UInt64)) :
    (increment key counters).lookup other = counters.lookup other := by
  have unlike : (other == key) = false := by simpa using different
  induction counters with
  | nil => simp [increment, List.lookup_cons, unlike]
  | cons first rest ih =>
    obtain ⟨k, n⟩ := first
    unfold increment
    split
    · rename_i same
      subst same
      simp [List.lookup_cons, unlike]
    split
    · rw [List.lookup_cons, unlike]
    · rw [List.lookup_cons, List.lookup_cons, ih]

theorem count_record_of_ne (t : Tally Name) {key other : Key Name} (different : other ≠ key) :
    (t.record key).count other = t.count other := by
  simp only [count, record, lookup_increment_of_ne different]

variable [LE Name] [Std.LawfulOrderLT Name]

theorem mem_iff_lookup {counters : List (Key Name × UInt64)} {key : Key Name} {n : UInt64}
    (ascending : counters.Pairwise fun a b => a.1.before b.1 = true) :
    (key, n) ∈ counters ↔ counters.lookup key = some n := by
  rw [List.lookup_eq_some_iff]
  constructor
  · intro member
    obtain ⟨earlier, later, rfl⟩ := List.append_of_mem member
    refine ⟨earlier, later, rfl, fun c within => ?_⟩
    have before := (List.pairwise_append.mp ascending).2.2 c within (key, n) List.mem_cons_self
    simpa using (Key.ne_of_before before).symm
  · rintro ⟨earlier, later, rfl, _⟩
    exact List.mem_append_right _ List.mem_cons_self

variable [Std.IsLinearOrder Name]

theorem ascending_increment {key : Key Name} {counters : List (Key Name × UInt64)}
    (ascending : counters.Pairwise fun a b => a.1.before b.1 = true) :
    (increment key counters).Pairwise fun a b => a.1.before b.1 = true := by
  induction counters with
  | nil => exact List.pairwise_singleton _ _
  | cons first rest ih =>
    obtain ⟨k, n⟩ := first
    obtain ⟨below, tail⟩ := List.pairwise_cons.mp ascending
    unfold increment
    split
    · exact List.pairwise_cons.mpr ⟨below, tail⟩
    rename_i different
    split
    · rename_i before
      refine List.pairwise_cons.mpr ⟨?_, ascending⟩
      intro c member
      rcases List.mem_cons.mp member with rfl | member
      · exact before
      · exact Key.before_trans before (below c member)
    · rename_i notBefore
      refine List.pairwise_cons.mpr ⟨?_, ih tail⟩
      intro c member
      rcases key_of_mem_increment member with same | ⟨old, within, same⟩
      · rw [same]
        exact Key.before_of_not_before different notBefore
      · rw [← same]
        exact below old within

theorem lookup_increment_self {key : Key Name} {counters : List (Key Name × UInt64)}
    (ascending : counters.Pairwise fun a b => a.1.before b.1 = true) :
    (increment key counters).lookup key = some ((counters.lookup key).getD 0 + 1) := by
  induction counters with
  | nil => simp [increment]
  | cons first rest ih =>
    obtain ⟨k, n⟩ := first
    obtain ⟨below, tail⟩ := List.pairwise_cons.mp ascending
    unfold increment
    split
    · rename_i same
      simp [same]
    rename_i different
    split
    · rename_i before
      -- the key is before all others, so it has had no counter
      have absent : ((k, n) :: rest).lookup key = none := by
        rw [List.lookup_eq_none_iff]
        intro c member
        have : key.before c.1 = true := by
          rcases List.mem_cons.mp member with rfl | member
          · exact before
          · exact Key.before_trans before (below c member)
        simpa using (Key.ne_of_before this)
      rw [absent]
      simp
    · have unlike : (key == k) = false := by simpa using different
      rw [List.lookup_cons, unlike, List.lookup_cons, unlike]
      exact ih tail

theorem ascending_record {t : Tally Name} (ascending : t.Ascending) (key : Key Name) :
    (t.record key).Ascending :=
  ascending_increment ascending

theorem count_record_self {t : Tally Name} (ascending : t.Ascending) (key : Key Name) :
    (t.record key).count key = t.count key + 1 := by
  simp only [count, record, lookup_increment_self ascending, Option.getD_some]

end Cadence.Tally
