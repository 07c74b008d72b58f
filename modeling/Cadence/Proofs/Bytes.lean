import Mathlib.Tactic.SplitIfs
import Cadence.Text

/-!
The bytes of texts.

Texts are in the order of their bytes (`bytes_lt_bytes_iff`), since the bytes of the lesser of two
characters come first (`utf8EncodeChar_append_lt`).
-/

namespace Cadence.Text

variable {s t : String}

/-- The bytes of the lesser of two characters come first, whatever follows them. -/
theorem utf8EncodeChar_append_lt {c d : Char} (less : c < d) (as bs : List UInt8) :
    String.utf8EncodeChar c ++ as < String.utf8EncodeChar d ++ bs := by
  have below : c.val.toNat < d.val.toNat := UInt32.lt_iff_toNat_lt.mp less
  have small : d.val.toNat < 0x110000 := by
    rcases d.valid with low | ⟨_, high⟩
    · omega
    · exact high
  -- the bytes are the digits of the code point, the first with a mark that grows with their number
  simp only [String.utf8EncodeChar]
  split_ifs <;>
    simp only [List.cons_append, List.nil_append, List.cons_lt_cons_iff, UInt8.lt_iff_toNat_lt,
      ← UInt8.toNat_inj, UInt8.toNat_ofNat'] <;>
    simp (disch := omega) only [Nat.mod_eq_of_lt] <;>
    omega

theorem flatMap_lt_flatMap {l r : List Char} (less : l < r) :
    l.flatMap String.utf8EncodeChar < r.flatMap String.utf8EncodeChar := by
  induction l generalizing r with
  | nil =>
    cases r with
    | nil => cases less
    | cons d r =>
      rw [List.flatMap_cons]
      cases written : String.utf8EncodeChar d with
      | nil => exact absurd written String.utf8EncodeChar_ne_nil
      | cons b rest => exact List.nil_lt_cons _ _
  | cons c l ih =>
    cases r with
    | nil => cases less
    | cons d r =>
      rw [List.flatMap_cons, List.flatMap_cons]
      rcases List.cons_lt_cons_iff.mp less with first | ⟨rfl, later⟩
      · exact utf8EncodeChar_append_lt first _ _
      · exact List.append_left_lt (ih later)

theorem bytes_lt_bytes (less : s < t) : bytes s < bytes t :=
  flatMap_lt_flatMap (String.lt_iff.mp less)

/-- The bytes of a text of ASCII characters are the characters. -/
theorem bytes_of_ascii (ascii : ∀ c ∈ s.toList, c.val ≤ 127) :
    bytes s = s.toList.map Char.toUInt8 := by
  have single : ∀ c ∈ s.toList, String.utf8EncodeChar c = [c.toUInt8] := fun c listed =>
    String.utf8EncodeChar_eq_singleton (Char.utf8Size_eq_one_iff.mpr (ascii c listed))
  rw [bytes, List.flatMap_def, List.map_congr_left single, ← List.flatMap_def, ← List.map_eq_flatMap]

/-- Texts are in the order of their bytes. -/
theorem bytes_lt_bytes_iff : bytes s < bytes t ↔ s < t := by
  constructor
  · intro less
    rcases Std.lt_trichotomy s t with before | rfl | after
    · exact before
    · exact absurd less Std.lt_irrefl
    · exact absurd (Std.lt_trans less (bytes_lt_bytes after)) Std.lt_irrefl
  · exact bytes_lt_bytes

end Cadence.Text
