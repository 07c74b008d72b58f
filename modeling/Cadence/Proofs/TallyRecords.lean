import Mathlib.Data.List.Nodup
import Cadence.Proofs.Bytes
import Cadence.Proofs.Tally

/-!
What a tally shows of the records that were made.

A tally counts some records (`Counts`) if it shows one counter for each key that was recorded, in ascending
order, and each says how often its key was recorded, up to the size of a word.  One more record keeps that
(`Counts.record`), the order of the records does not matter to it (`Counts.perm`), and only one tally counts
some records (`Counts.unique`).  So it is known from the records alone what a tally shows
(`counts_in_any_order`), whatever was asked in between.
-/

namespace Cadence.Tally

variable {Name : Type}

/-- What is called on a tally: a record is made, or something is asked. -/
inductive Call (Name : Type)
  | record (key : Key Name)
  | count (key : Key Name)
  | snapshot
  deriving DecidableEq, Repr

/-- The key that a call records. -/
def Call.recorded? : Call Name → Option (Key Name)
  | record key => some key
  | count _ | snapshot => none

/-- The records among some calls. -/
def recorded (calls : List (Call Name)) : List (Key Name) := calls.filterMap Call.recorded?

variable [DecidableEq Name] {records records' : List (Key Name)}

/-- What the counter of a key shows, if the key is among some records. -/
def counter? (records : List (Key Name)) (key : Key Name) : Option UInt64 :=
  if key ∈ records then some (.ofNat (records.count key)) else none

theorem counter?_eq_some_iff {key : Key Name} {n : UInt64} :
    counter? records key = some n ↔ key ∈ records ∧ n.toNat = records.count key % 2 ^ 64 := by
  unfold counter?
  split
  · rename_i listed
    rw [Option.some.injEq, eq_comm, ← UInt64.toNat_inj, UInt64.toNat_ofNat']
    exact (and_iff_right listed).symm
  · rename_i missing
    simp [missing]

variable [LT Name] [DecidableLT Name] {t t' : Tally Name} {calls calls' : List (Call Name)}

/-- The tally that a call leaves. -/
def call (t : Tally Name) : Call Name → Tally Name
  | .record key => t.record key
  | .count _ | .snapshot => t

/-- The tally that some calls leave of one that has counted nothing. -/
def after (calls : List (Call Name)) : Tally Name := calls.foldl call {}

/-- The tally counts some records. -/
structure Counts (t : Tally Name) (records : List (Key Name)) : Prop where
  /-- By the event's code, then by the name. -/
  ascends : t.snapshot.Pairwise fun a b =>
    a.1.event.code.toInt < b.1.event.code.toInt ∨ a.1.event = b.1.event ∧ a.1.name < b.1.name
  once : (t.snapshot.map (·.1)).Nodup
  /-- A counter that has wrapped is still shown. -/
  shows : ∀ key n, (key, n) ∈ t.snapshot ↔ key ∈ records ∧ n.toNat = records.count key % 2 ^ 64
  agrees : ∀ key n, (key, n) ∈ t.snapshot → t.count key = n
  absent : ∀ key, key ∉ records → t.count key = 0

variable [LE Name] [Std.LawfulOrderLT Name]

/-- A tally counts some records if its counters ascend and are found for the keys that were recorded. -/
theorem counts_iff : t.Counts records ↔
    t.Ascending ∧ ∀ key, t.counters.lookup key = counter? records key := by
  constructor
  · intro counts
    have ascending : t.Ascending := counts.ascends.imp Key.before_iff_toInt.mpr
    refine ⟨ascending, fun key => Option.ext fun n => ?_⟩
    rw [← mem_iff_lookup ascending, counter?_eq_some_iff]
    exact counts.shows key n
  · rintro ⟨ascending, lookup⟩
    have shown : ∀ key n, (key, n) ∈ t.snapshot ↔ t.counters.lookup key = some n :=
      fun _ _ => mem_iff_lookup ascending
    refine ⟨ascending.imp Key.before_iff_toInt.mp, ?_, ?_, ?_, ?_⟩
    · exact List.pairwise_map.mpr (ascending.imp Key.ne_of_before)
    · intro key n
      rw [shown, lookup, counter?_eq_some_iff]
    · intro key n member
      rw [count, (shown key n).mp member, Option.getD_some]
    · intro key missing
      rw [count, lookup, counter?, if_neg missing, Option.getD_none]

namespace Counts

/-- Nothing was recorded. -/
theorem nothing : ({} : Tally Name).Counts [] :=
  counts_iff.mpr ⟨List.Pairwise.nil, fun _ => rfl⟩

/-- What is counted is the same in any order of the records. -/
theorem perm (counts : t.Counts records) (perm : records.Perm records') : t.Counts records' := by
  obtain ⟨ascending, lookup⟩ := counts_iff.mp counts
  refine counts_iff.mpr ⟨ascending, fun key => ?_⟩
  simp only [lookup, counter?, perm.mem_iff, perm.count_eq]

variable [Std.IsLinearOrder Name]

/-- One more record. -/
theorem record (counts : t.Counts records) (key : Key Name) : (t.record key).Counts (key :: records) := by
  obtain ⟨ascending, lookup⟩ := counts_iff.mp counts
  refine counts_iff.mpr ⟨ascending_record ascending key, fun other => ?_⟩
  by_cases same : other = key
  · subst same
    refine (lookup_increment_self ascending).trans ?_
    rw [lookup, counter?, counter?, if_pos List.mem_cons_self, List.count_cons_self]
    split
    · rw [Option.getD_some, UInt64.ofNat_add]
      rfl
    · rename_i missing
      rw [List.count_eq_zero_of_not_mem missing]
      rfl
  · refine (lookup_increment_of_ne same _).trans ?_
    rw [lookup, counter?, counter?, List.count_cons_of_ne (Ne.symm same)]
    simp [same]

/-- Only one tally counts some records. -/
theorem unique (counts : t.Counts records) (counts' : t'.Counts records) : t = t' := by
  have same : t.snapshot.Perm t'.snapshot := by
    rw [List.perm_ext_iff_of_nodup counts.once.of_map counts'.once.of_map]
    rintro ⟨key, n⟩
    exact (counts.shows key n).trans (counts'.shows key n).symm
  have ordered : t.snapshot = t'.snapshot := by
    refine same.eq_of_pairwise ?_ (counts_iff.mp counts).1 (counts_iff.mp counts').1
    intro a b _ _ before after
    exact absurd (Key.before_trans before after) (Key.before_irrefl a.1)
  cases t
  cases t'
  exact congrArg Tally.mk ordered

/-- Further calls. -/
theorem foldl (counts : t.Counts records) : (calls.foldl call t).Counts (records ++ recorded calls) := by
  induction calls generalizing t records with
  | nil =>
    rw [recorded, List.filterMap_nil, List.append_nil]
    exact counts
  | cons c calls ih =>
    cases c with
    | record key => exact (ih (counts.record key)).perm List.perm_middle.symm
    | count key => exact ih counts
    | snapshot => exact ih counts

end Counts

variable [Std.IsLinearOrder Name]

theorem counts_after (calls : List (Call Name)) : (after calls).Counts (recorded calls) :=
  Counts.nothing.foldl

theorem after_of_perm (perm : (recorded calls').Perm (recorded calls)) : after calls' = after calls :=
  ((counts_after calls').perm perm).unique (counts_after calls)

/-- Whatever is called on a tally, it counts what was recorded, and so the same in any order of the records.
Names are rows of bytes, or texts, whose order is that of their bytes. -/
theorem counts_in_any_order :
    (∀ calls : List (Call (List UInt8)), (after calls).Counts (recorded calls) ∧
      ∀ calls', (recorded calls').Perm (recorded calls) → after calls' = after calls) ∧
    (∀ calls : List (Call String), (after calls).Counts (recorded calls) ∧
      ∀ calls', (recorded calls').Perm (recorded calls) → after calls' = after calls) ∧
    ∀ s t : String, s < t ↔ Text.bytes s < Text.bytes t :=
  ⟨fun calls => ⟨counts_after calls, fun _ => after_of_perm⟩,
    fun calls => ⟨counts_after calls, fun _ => after_of_perm⟩, fun _ _ => Text.bytes_lt_bytes_iff.symm⟩

/-- Events without a name, and two names of which one goes on from the other with a byte beyond ASCII. -/
theorem counts_in_any_order_sample :
    let calls : List (Call (List UInt8)) := [.record ⟨.ofCode 7, [97, 255]⟩, .count ⟨.muted, []⟩,
      .record ⟨.ofCode (-1), [97, 255]⟩, .snapshot, .record ⟨.ofCode 7, [97]⟩,
      .record ⟨.ofCode 7, [97, 255]⟩]
    (after calls).Counts (recorded calls) ∧ (after calls).snapshot =
      [(⟨.ofCode (-1), [97, 255]⟩, 1), (⟨.ofCode 7, [97]⟩, 1), (⟨.ofCode 7, [97, 255]⟩, 2)] ∧
    (recorded calls.reverse).Perm (recorded calls) ∧ after calls.reverse = after calls := by
  intro calls
  have reordered : (recorded calls.reverse).Perm (recorded calls) := by decide
  obtain ⟨counted, same⟩ := counts_in_any_order.1 calls
  exact ⟨counted, by decide, reordered, same _ reordered⟩

end Cadence.Tally
