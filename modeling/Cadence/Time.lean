/-!
Instants of the steady clock, and spans of whole milliseconds.

Both are signed 64-bit words.  A span becomes nanoseconds by a multiplication that wraps
(`Millis.nanos`); nanoseconds become a span by dropping the part below a millisecond
(`Millis.truncate`) or by rounding it up (`Millis.ceil`).
-/

namespace Cadence

/-- A span of time, in whole milliseconds. -/
structure Millis where
  /-- How many milliseconds; negative for a span that points back. -/
  count : Int64
  deriving DecidableEq, Repr

/-- An instant of the steady clock. -/
structure Instant where
  /-- Nanoseconds since the clock's epoch. -/
  nanos : Int64
  deriving DecidableEq, Repr

namespace Millis

def longest : Millis := ⟨Int64.maxValue⟩

/-- The span in nanoseconds.  It wraps for spans of more than some 292 years. -/
def nanos (d : Millis) : Int64 := d.count * 1000000

def ofSeconds (n : Nat) : Millis := ⟨Int64.ofNat n * 1000⟩

/-- The whole milliseconds of a number of nanoseconds, toward zero. -/
def truncate (ns : Int64) : Millis := ⟨ns / 1000000⟩

/-- The least span that is not shorter than a number of nanoseconds. -/
def ceil (ns : Int64) : Millis :=
  let whole := truncate ns
  if whole.nanos < ns then ⟨whole.count + 1⟩ else whole

def plus (d e : Millis) : Millis := ⟨d.count + e.count⟩

/-- What is left of `d` once `e` has passed. -/
def less (d e : Millis) : Millis := ⟨d.count - e.count⟩

def shorter (d e : Millis) : Millis := if e.count < d.count then e else d

end Millis

namespace Instant

def epoch : Instant := ⟨0⟩

instance : LT Instant := ⟨fun a b => a.nanos < b.nanos⟩

instance : LE Instant := ⟨fun a b => a.nanos ≤ b.nanos⟩

instance : DecidableLT Instant := fun a b => inferInstanceAs (Decidable (a.nanos < b.nanos))

instance : DecidableLE Instant := fun a b => inferInstanceAs (Decidable (a.nanos ≤ b.nanos))

theorem lt_iff {a b : Instant} : a < b ↔ a.nanos < b.nanos := Iff.rfl

theorem le_iff {a b : Instant} : a ≤ b ↔ a.nanos ≤ b.nanos := Iff.rfl

/-- The instant a number of nanoseconds later. -/
def advance (t : Instant) (ns : Int64) : Instant := ⟨t.nanos + ns⟩

/-- The instant a span later. -/
def after (t : Instant) (d : Millis) : Instant := t.advance d.nanos

/-- The nanoseconds from `s` to `t`. -/
def since (t s : Instant) : Int64 := t.nanos - s.nanos

def later (s t : Instant) : Instant := if s < t then t else s

theorem le_later (s t : Instant) : t ≤ s.later t := by
  unfold later
  split
  · exact Int64.le_refl t.nanos
  · rename_i notBefore
    exact Int64.not_lt.mp notBefore

def earlier (s t : Instant) : Instant := if t < s then t else s

def earliest? : List Instant → Option Instant
  | [] => none
  | t :: rest => some (rest.foldl earlier t)

theorem foldl_earlier_mem (t : Instant) (rest : List Instant) :
    rest.foldl earlier t ∈ t :: rest := by
  induction rest generalizing t with
  | nil => exact List.mem_singleton.mpr rfl
  | cons u rest ih =>
    rcases List.mem_cons.mp (ih (t.earlier u)) with same | member
    · rw [List.foldl_cons, same]
      unfold earlier
      split <;> simp
    · exact List.mem_cons_of_mem t (List.mem_cons_of_mem u member)

theorem mem_of_earliest? {ts : List Instant} {t : Instant} (found : earliest? ts = some t) :
    t ∈ ts := by
  cases ts with
  | nil => cases found
  | cons u rest =>
    cases found
    exact foldl_earlier_mem u rest

end Instant

end Cadence
