import Mathlib.Algebra.Order.Ring.Int
import Mathlib.Data.List.Basic
import Mathlib.Data.List.Induction
import Cadence.Numeral
import Cadence.Proofs.Bytes

/-!
Which texts are read as numerals.

A numeral has a form (`Form`): white space, a sign or none, and digits, which denote an integer.  What starts
with a form, and does not go on with a digit, is converted as that form tells (`Form.convert_bytes`), and a
conversion that leaves the start of a text has come to the end of a form (`exists_form`).  Digits are taken
into a word one by one, and once a word does not hold the number, no further digit changes that
(`magnitude?_eq`), so that a form is converted to the nearest word (`Form.value_conclude`).  Hence the texts
that are read are the forms of the natural numbers below `2 ^ 63` (`reads_forms`), and each of these is read
back from its digits (`read?_toString`).
-/

namespace Cadence.Numeral

variable {b : UInt8} {digits rest text : List UInt8} {held : Int64}

/-! ## Bytes -/

theorem isDigit_iff : isDigit b = true ↔ 48 ≤ b.toNat ∧ b.toNat ≤ 57 := by
  simp only [isDigit, Bool.and_eq_true, decide_eq_true_eq, UInt8.le_iff_toNat_le]
  rfl

theorem isDigit_iff_le : isDigit b = true ↔ '0'.toUInt8 ≤ b ∧ b ≤ '9'.toUInt8 := by
  simp only [isDigit, Bool.and_eq_true, decide_eq_true_eq]

theorem isBlank_iff : isBlank b = true ↔ b.toNat = 32 ∨ 9 ≤ b.toNat ∧ b.toNat ≤ 13 := by
  simp only [isBlank, Bool.or_eq_true, Bool.and_eq_true, decide_eq_true_eq, UInt8.le_iff_toNat_le,
    ← UInt8.toNat_inj]
  rfl

theorem isBlank_iff_mem :
    isBlank b = true ↔ b ∈ [' ', '\t', '\n', '\x0b', '\x0c', '\r'].map Char.toUInt8 := by
  simp only [isBlank_iff, List.map_cons, List.map_nil, List.mem_cons, List.not_mem_nil, or_false,
    ← UInt8.toNat_inj]
  show b.toNat = 32 ∨ 9 ≤ b.toNat ∧ b.toNat ≤ 13 ↔ b.toNat = 32 ∨ b.toNat = 9 ∨ b.toNat = 10 ∨
    b.toNat = 11 ∨ b.toNat = 12 ∨ b.toNat = 13
  omega

/-- A digit is neither white space nor a sign. -/
theorem not_blank_of_isDigit (digit : isDigit b = true) :
    isBlank b = false ∧ b ≠ '-'.toUInt8 ∧ b ≠ '+'.toUInt8 := by
  refine ⟨?_, ?_, ?_⟩
  · rw [Bool.eq_false_iff, ne_eq, isBlank_iff]
    have range := isDigit_iff.mp digit
    omega
  · rintro rfl
    exact absurd digit (by decide)
  · rintro rfl
    exact absurd digit (by decide)

theorem takeWhile_digits (all : ∀ b ∈ digits, isDigit b = true)
    (ends : ∀ b ∈ rest.head?, isDigit b = false) : (digits ++ rest).takeWhile isDigit = digits := by
  have none : rest.takeWhile isDigit = [] := by
    cases rest with
    | nil => rfl
    | cons b rest => exact List.takeWhile_cons_of_neg (by simp [ends b rfl])
  rw [List.takeWhile_append_of_pos all, none, List.append_nil]

theorem dropWhile_digits (all : ∀ b ∈ digits, isDigit b = true)
    (ends : ∀ b ∈ rest.head?, isDigit b = false) : (digits ++ rest).dropWhile isDigit = rest := by
  rw [List.dropWhile_append_of_pos all]
  cases rest with
  | nil => rfl
  | cons b rest => exact List.dropWhile_cons_of_neg (by simp [ends b rfl])

/-! ## Forms -/

/-- The sign of a numeral. -/
inductive Sign
  | none
  | plus
  | minus
  deriving DecidableEq, Repr

/-- How a sign is written. -/
def Sign.bytes : Sign → List UInt8
  | none => []
  | plus => ['+'.toUInt8]
  | minus => ['-'.toUInt8]

/-- What is split off is a sign. -/
theorem exists_sign (text : List UInt8) : ∃ sign : Sign, text = sign.bytes ++ (splitSign text).2 := by
  cases text with
  | nil => exact ⟨.none, rfl⟩
  | cons b rest =>
    rw [splitSign]
    split
    · rename_i minus
      exact ⟨.minus, by rw [minus]; rfl⟩
    split
    · rename_i plus
      exact ⟨.plus, by rw [plus]; rfl⟩
    · exact ⟨.none, rfl⟩

/-- The number that a row of digits denotes. -/
def value (digits : List UInt8) : Nat := digits.foldl (fun n b => 10 * n + (b.toNat - 48)) 0

/-- The form of a numeral. -/
structure Form where
  blanks : List UInt8
  sign : Sign
  digits : List UInt8
  blank : ∀ b ∈ blanks, b ∈ [' ', '\t', '\n', '\x0b', '\x0c', '\r'].map Char.toUInt8
  digit : ∀ b ∈ digits, '0'.toUInt8 ≤ b ∧ b ≤ '9'.toUInt8
  digits_ne : digits ≠ []

namespace Form

/-- How a numeral of the form is written. -/
def bytes (f : Form) : List UInt8 := f.blanks ++ (f.sign.bytes ++ f.digits)

/-- Whether the form has a minus. -/
def negative (f : Form) : Bool := f.sign = .minus

/-- The integer that a numeral of the form denotes. -/
def denoted (f : Form) : Int := if f.negative then -(value f.digits : Int) else value f.digits

variable (f : Form)

theorem isDigit_digits : ∀ b ∈ f.digits, isDigit b = true :=
  fun b listed => isDigit_iff_le.mpr (f.digit b listed)

/-- Behind the white space stands the sign. -/
theorem split_bytes (rest : List UInt8) :
    splitSign ((f.bytes ++ rest).dropWhile isBlank) = (f.negative, f.digits ++ rest) := by
  obtain ⟨b, digits, written⟩ := List.exists_cons_of_ne_nil f.digits_ne
  obtain ⟨visible, minus, plus⟩ := not_blank_of_isDigit (f.isDigit_digits b (written ▸ List.mem_cons_self))
  unfold bytes negative
  rw [List.append_assoc, List.append_assoc,
    List.dropWhile_append_of_pos fun b listed => isBlank_iff_mem.mpr (f.blank b listed), written]
  cases f.sign with
  | none =>
    simp only [Sign.bytes, List.nil_append, List.cons_append]
    rw [List.dropWhile_cons_of_neg (by simp [visible]), splitSign, if_neg minus, if_neg plus]
    rfl
  | plus => rfl
  | minus => rfl

/-- A form is converted if no digit follows it. -/
theorem convert_bytes (rest : List UInt8) (ends : ∀ b ∈ rest.head?, isDigit b = false) :
    convert (f.bytes ++ rest) = conclude f.negative f.digits rest := by
  have taken := takeWhile_digits f.isDigit_digits ends
  have left := dropWhile_digits f.isDigit_digits ends
  simp only [convert, f.split_bytes, taken, left]
  exact if_neg f.digits_ne

end Form

theorem rest_conclude (negative : Bool) (digits rest : List UInt8) :
    (conclude negative digits rest).rest = rest := by
  unfold conclude
  split <;> rfl

/-- A conversion that goes beyond the start of a text goes to the end of a form. -/
theorem exists_form (begun : (convert text).rest ≠ text) :
    ∃ f : Form, text = f.bytes ++ (convert text).rest := by
  have whole := List.takeWhile_append_dropWhile (p := isBlank) (l := text)
  obtain ⟨sign, signed⟩ := exists_sign (text.dropWhile isBlank)
  unfold convert at begun ⊢
  cases split : splitSign (text.dropWhile isBlank) with
  | mk negative unsigned =>
    have parts := List.takeWhile_append_dropWhile (p := isDigit) (l := unsigned)
    rw [split] at signed begun
    by_cases none : unsigned.takeWhile isDigit = []
    · exact absurd (by simp only [none, ↓reduceIte]) begun
    · have blank := List.all_eq_true.mp (List.all_takeWhile (p := isBlank) (l := text))
      have digit := List.all_eq_true.mp (List.all_takeWhile (p := isDigit) (l := unsigned))
      refine ⟨⟨text.takeWhile isBlank, sign, unsigned.takeWhile isDigit, fun b listed =>
        isBlank_iff_mem.mp (blank b listed), fun b listed => isDigit_iff_le.mp (digit b listed), none⟩, ?_⟩
      simp only [none, ↓reduceIte, rest_conclude, Form.bytes, List.append_assoc, parts]
      rw [← signed, whole]

/-! ## Words -/

theorem toNat_digit (decimal : isDigit b = true) : (digit b).toNat = b.toNat - 48 := by
  have low : '0'.toUInt8 ≤ b := UInt8.le_iff_toNat_le.mpr (isDigit_iff.mp decimal).1
  rw [digit, UInt8.toNat_toUInt64, UInt8.toNat_sub_of_le _ _ low]
  rfl

/-- One more digit is taken as long as a word holds the number. -/
theorem extend?_eq (decimal : isDigit b = true) (n : UInt64) : extend? n b =
    if 10 * n.toNat + (b.toNat - 48) < 2 ^ 64 then some (.ofNat (10 * n.toNat + (b.toNat - 48)))
    else none := by
  have range := isDigit_iff.mp decimal
  have tenth : (greatest / 10).toNat = 1844674407370955161 := rfl
  have last : (greatest % 10).toNat = 5 := rfl
  have room : (n < greatest / 10 || (n = greatest / 10 && digit b ≤ greatest % 10)) = true ↔
      10 * n.toNat + (b.toNat - 48) < 2 ^ 64 := by
    simp only [Bool.or_eq_true, Bool.and_eq_true, decide_eq_true_eq, UInt64.lt_iff_toNat_lt,
      ← UInt64.toNat_inj, UInt64.le_iff_toNat_le, toNat_digit decimal, tenth, last]
    omega
  have sum : 10 * n + digit b = .ofNat (10 * n.toNat + (b.toNat - 48)) := by
    have ten : (10 : UInt64).toNat = 10 := rfl
    rw [← UInt64.toNat_inj, UInt64.toNat_add, UInt64.toNat_mul, toNat_digit decimal,
      UInt64.toNat_ofNat', ten]
    omega
  simp only [extend?, room, sum]

theorem value_append_singleton (digits : List UInt8) (b : UInt8) :
    value (digits ++ [b]) = 10 * value digits + (b.toNat - 48) := by
  simp only [value, List.foldl_append, List.foldl_cons, List.foldl_nil]

/-- The digits of a number that a word holds come to that number, and all others to nothing. -/
theorem magnitude?_eq (all : ∀ b ∈ digits, isDigit b = true) :
    magnitude? digits = if value digits < 2 ^ 64 then some (.ofNat (value digits)) else none := by
  induction digits using List.reverseRecOn with
  | nil => rfl
  | append_singleton digits b ih =>
    have decimal := all b (by simp)
    have step : magnitude? (digits ++ [b]) = (magnitude? digits).bind (extend? · b) := by
      simp [magnitude?, List.foldlM_append]
    rw [step, ih fun b listed => all b (List.mem_append_left _ listed), value_append_singleton]
    split
    · rename_i fits
      rw [Option.bind_some, extend?_eq decimal, UInt64.toNat_ofNat', Nat.mod_eq_of_lt fits]
    · rename_i large
      -- what is too large already is so with one more digit
      exact (if_neg (by omega)).symm

/-- A magnitude has a signed word if there is one for the integer. -/
theorem signed?_eq (negative : Bool) {n : Nat} (small : n < 2 ^ 64) {z : Int}
    (integer : z = if negative then -(n : Int) else n) : signed? negative (.ofNat n) =
      if -2 ^ 63 ≤ z ∧ z < 2 ^ 63 then some (.ofInt z) else none := by
  have same : (UInt64.ofNat n).toNat = n := by
    rw [UInt64.toNat_ofNat', Nat.mod_eq_of_lt small]
  have half : (9223372036854775808 : UInt64).toNat = 2 ^ 63 := rfl
  cases negative with
  | false =>
    obtain rfl : z = n := integer
    have fits : UInt64.ofNat n < 9223372036854775808 ↔ -2 ^ 63 ≤ (n : Int) ∧ (n : Int) < 2 ^ 63 := by
      rw [UInt64.lt_iff_toNat_lt, same, half]
      omega
    simp only [signed?, Bool.false_eq_true, ↓reduceIte, fits, UInt64.toInt64_ofNat', Int64.ofInt_eq_ofNat]
  | true =>
    obtain rfl : z = -n := integer
    have fits : UInt64.ofNat n ≤ 9223372036854775808 ↔ -2 ^ 63 ≤ -(n : Int) ∧ -(n : Int) < 2 ^ 63 := by
      rw [UInt64.le_iff_toNat_le, same, half]
      omega
    simp only [signed?, ↓reduceIte, fits, UInt64.toInt64_ofNat', Int64.ofInt_neg, Int64.ofInt_eq_ofNat]

namespace Form

/-- The word of a form, if there is one. -/
theorem word?_eq (f : Form) : (magnitude? f.digits).bind (signed? f.negative) =
    if -2 ^ 63 ≤ f.denoted ∧ f.denoted < 2 ^ 63 then some (.ofInt f.denoted) else none := by
  rw [magnitude?_eq f.isDigit_digits]
  split
  · rename_i small
    exact signed?_eq f.negative small rfl
  · rename_i large
    -- beyond the unsigned words there is no signed word on either side
    have far : ¬ (-2 ^ 63 ≤ f.denoted ∧ f.denoted < 2 ^ 63) := by
      unfold denoted
      split <;> omega
    exact (if_neg far).symm

/-- The integer of a form without a minus is not negative, and that of one with a minus is not positive. -/
theorem denoted_cases (f : Form) :
    f.negative = true ∧ f.denoted ≤ 0 ∨ f.negative = false ∧ 0 ≤ f.denoted := by
  unfold denoted
  cases f.negative with
  | false => exact .inr ⟨rfl, by simp⟩
  | true => exact .inl ⟨rfl, by simp⟩

/-- A form is converted to the word that is nearest to what it denotes. -/
theorem value_conclude (f : Form) (rest : List UInt8) :
    (conclude f.negative f.digits rest).value.toInt = max (-2 ^ 63) (min f.denoted (2 ^ 63 - 1)) := by
  rw [conclude, f.word?_eq]
  by_cases word : -2 ^ 63 ≤ f.denoted ∧ f.denoted < 2 ^ 63
  · rw [if_pos word]
    refine (Int64.toInt_ofInt_of_le word.1 word.2).trans ?_
    omega
  · rw [if_neg word]
    have least : Int64.minValue.toInt = -2 ^ 63 := rfl
    have most : Int64.maxValue.toInt = 2 ^ 63 - 1 := rfl
    rcases f.denoted_cases with ⟨negative, sign⟩ | ⟨positive, sign⟩
    · simp only [negative, ↓reduceIte]
      omega
    · simp only [positive, Bool.false_eq_true, ↓reduceIte]
      omega

theorem outOfRange_conclude (f : Form) (rest : List UInt8) :
    (conclude f.negative f.digits rest).outOfRange = true ↔ ¬ (-2 ^ 63 ≤ f.denoted ∧ f.denoted < 2 ^ 63) := by
  rw [conclude, f.word?_eq]
  by_cases word : -2 ^ 63 ≤ f.denoted ∧ f.denoted < 2 ^ 63
  · rw [if_pos word]
    exact iff_of_false Bool.false_ne_true (not_not_intro word)
  · rw [if_neg word]
    exact iff_of_true rfl word

theorem bytes_ne (f : Form) : f.bytes ≠ [] := by
  simp [bytes, f.digits_ne]

/-- A form is read if it denotes a natural number that a signed word holds. -/
theorem readInto_bytes (f : Form) (held : Int64) : readInto held f.bytes =
    if 0 ≤ f.denoted ∧ f.denoted < 2 ^ 63 then (true, .ofInt f.denoted) else (false, held) := by
  have whole : convert f.bytes = conclude f.negative f.digits [] := by
    have converted := f.convert_bytes [] (by simp)
    rwa [List.append_nil] at converted
  have value := f.value_conclude []
  have range := f.outOfRange_conclude []
  have ended := rest_conclude f.negative f.digits []
  rw [← whole] at value range ended
  have early : (convert f.bytes).value < 0 ↔ f.denoted < 0 := by
    have zero : (0 : Int64).toInt = 0 := rfl
    rw [Int64.lt_iff_toInt_lt, value, zero]
    omega
  have refused : (convert f.bytes).refused f.bytes = true ↔ ¬ (0 ≤ f.denoted ∧ f.denoted < 2 ^ 63) := by
    simp only [Conversion.refused, Bool.or_eq_true, decide_eq_true_eq, ended, f.bytes_ne.symm, range,
      early, ne_eq, not_true, or_false]
    omega
  unfold readInto
  split
  · rename_i refusal
    rw [if_neg (refused.mp refusal)]
  · rename_i accepted
    have natural := Decidable.not_not.mp (refused.not.mp accepted)
    have same : (convert f.bytes).value = .ofInt f.denoted := by
      rw [← Int64.toInt_inj, value, Int64.toInt_ofInt_of_le (by omega) natural.2]
      omega
    rw [if_pos natural, same]

end Form

/-- What is read is a form. -/
theorem form_of_read (read : (readInto held text).1 = true) : ∃ f : Form, f.bytes = text := by
  unfold readInto at read
  split at read
  · cases read
  · rename_i accepted
    simp only [Conversion.refused, Bool.or_eq_true, decide_eq_true_eq, not_or, Decidable.not_not] at accepted
    obtain ⟨⟨⟨_, begun⟩, ended⟩, _⟩ := accepted
    obtain ⟨f, written⟩ := exists_form begun
    rw [ended, List.append_nil] at written
    exact ⟨f, written.symm⟩

/-! ## Numbers in their digits -/

/-- Leading zeros do not count. -/
theorem value_zeros (zeros : Nat) (digits : List UInt8) :
    value (List.replicate zeros '0'.toUInt8 ++ digits) = value digits := by
  induction zeros with
  | zero => rfl
  | succ zeros ih => exact ih

theorem isDigit_of_mem_toString {n : Nat} {c : Char} (written : c ∈ (toString n).toList) :
    c.isDigit = true := by
  rw [Nat.toString_eq_repr, Nat.toList_repr] at written
  exact Nat.isDigit_of_mem_toDigits (by omega) (by omega) written

/-- The byte of a digit. -/
theorem toNat_of_isDigit {c : Char} (decimal : c.isDigit = true) :
    48 ≤ c.toNat ∧ c.toNat ≤ 57 ∧ c.toUInt8.toNat = c.toNat := by
  simp only [Char.isDigit, Bool.and_eq_true, decide_eq_true_eq, ge_iff_le, UInt32.le_iff_toNat_le]
    at decimal
  have low : 48 ≤ c.toNat := decimal.1
  have high : c.toNat ≤ 57 := decimal.2
  refine ⟨low, high, ?_⟩
  show c.val.toUInt8.toNat = c.val.toNat
  rw [UInt32.toNat_toUInt8]
  exact Nat.mod_eq_of_lt (Nat.lt_of_le_of_lt high (by decide))

theorem bytes_toString (n : Nat) :
    Text.bytes (toString n) = (Nat.toDigits 10 n).map Char.toUInt8 := by
  rw [Text.bytes_of_ascii, Nat.toString_eq_repr, Nat.toList_repr]
  intro c written
  exact Nat.le_trans (toNat_of_isDigit (isDigit_of_mem_toString written)).2.1 (by decide)

/-- A number is what its digits denote. -/
theorem value_toString (n : Nat) : value (Text.bytes (toString n)) = n := by
  have digits : ∀ c ∈ Nat.toDigits 10 n, c.toUInt8.toNat = c.toNat := fun c written =>
    (toNat_of_isDigit (Nat.isDigit_of_mem_toDigits (by omega) (by omega) written)).2.2
  calc value (Text.bytes (toString n))
      = (Nat.toDigits 10 n).foldl (fun m c => 10 * m + (c.toUInt8.toNat - 48)) 0 := by
        rw [bytes_toString, value, List.foldl_map]
    _ = (Nat.toDigits 10 n).foldl (fun m c => 10 * m + (c.toNat - '0'.toNat)) 0 := by
        refine List.foldl_ext _ _ _ fun m c written => ?_
        rw [digits c written]
        rfl
    _ = n := by
        rw [← Nat.ofDigitChars_eq_foldl, Nat.ofDigitChars_ten_toDigits]

/-- A number, in its digits after some zeros. -/
def Form.ofNat (zeros n : Nat) : Form where
  blanks := []
  sign := .none
  digits := List.replicate zeros '0'.toUInt8 ++ Text.bytes (toString n)
  blank := by simp
  digit := by
    intro b written
    rw [← isDigit_iff_le]
    rcases List.mem_append.mp written with zero | digit
    · rw [List.eq_of_mem_replicate zero]
      rfl
    · rw [bytes_toString, List.mem_map] at digit
      obtain ⟨c, listed, rfl⟩ := digit
      have range := toNat_of_isDigit (Nat.isDigit_of_mem_toDigits (by omega) (by omega) listed)
      rw [isDigit_iff]
      omega
  digits_ne := by
    rw [bytes_toString]
    simp [Nat.toDigits_ne_nil]

theorem Form.bytes_ofNat (zeros n : Nat) :
    (ofNat zeros n).bytes = List.replicate zeros '0'.toUInt8 ++ Text.bytes (toString n) := rfl

theorem Form.denoted_ofNat (zeros n : Nat) : (ofNat zeros n).denoted = n :=
  congrArg Int.ofNat ((value_zeros zeros _).trans (value_toString n))

/-! ## Reading -/

/-- A text is read if it is a form of a natural number that a word holds, and then it is read as that. -/
theorem readInto_eq_iff {word : Int64} : readInto held text = (true, word) ↔
    ∃ f : Form, f.bytes = text ∧ 0 ≤ f.denoted ∧ f.denoted < 2 ^ 63 ∧ word.toInt = f.denoted := by
  constructor
  · intro read
    obtain ⟨f, rfl⟩ := form_of_read (congrArg Prod.fst read)
    rw [f.readInto_bytes] at read
    split at read
    · rename_i natural
      cases read
      exact ⟨f, rfl, natural.1, natural.2, Int64.toInt_ofInt_of_le (by omega) natural.2⟩
    · cases read
  · rintro ⟨f, rfl, natural, small, same⟩
    rw [f.readInto_bytes, if_pos ⟨natural, small⟩, ← same, Int64.ofInt_toInt]

/-- What is not read changes nothing. -/
theorem held_of_refused (refused : (readInto held text).1 = false) : (readInto held text).2 = held := by
  unfold readInto at refused ⊢
  split
  · rfl
  · rename_i accepted
    rw [if_neg accepted] at refused
    cases refused

/-- A text is read as a number if it is a form of the number. -/
theorem read?_eq_some_iff {s : String} {n : Nat} : read? s = some n ↔
    ∃ f : Form, f.bytes = Text.bytes s ∧ f.denoted = n ∧ n < 2 ^ 63 := by
  constructor
  · intro read
    unfold read? at read
    split at read
    · rename_i word accepted
      cases read
      obtain ⟨f, written, natural, small, same⟩ := readInto_eq_iff.mp accepted
      exact ⟨f, written, by omega, by omega⟩
    · cases read
  · rintro ⟨f, written, same, small⟩
    have read : readInto 0 (Text.bytes s) = (true, .ofInt f.denoted) := by
      rw [← written, f.readInto_bytes, if_pos (by omega)]
    rw [read?, read, same]
    have word : (Int64.ofInt n).toInt = n := Int64.toInt_ofInt_of_le (by omega) (by omega)
    simp only [word, Int.toNat_natCast]

/-- A number that fits is read back from its digits. -/
theorem read?_toString {n : Nat} (fits : n < Nat.pow 2 63) : read? (toString n) = some n :=
  read?_eq_some_iff.mpr ⟨.ofNat 0 n, rfl, Form.denoted_ofNat 0 n, fits⟩

/-- A number that is read fits. -/
theorem lt_of_read? {text : String} {n : Nat} (read : read? text = some n) : n < Nat.pow 2 63 := by
  obtain ⟨_, _, _, fits⟩ := read?_eq_some_iff.mp read
  exact fits

/-- A text is read if it has the form of a numeral, with nothing behind it, for a natural number below
`2 ^ 63`, and then this is the number that is held; otherwise nothing changes.  So a number is read back from
its digits, whatever zeros stand before them, and the texts of the command line are read in this way. -/
theorem reads_forms (held : Int64) (text : List UInt8) :
    ((readInto held text).1 = true ↔
      ∃ f : Form, f.bytes = text ∧ 0 ≤ f.denoted ∧ f.denoted < 2 ^ 63) ∧
    (∀ f : Form, f.bytes = text → 0 ≤ f.denoted → f.denoted < 2 ^ 63 →
      (readInto held text).2.toInt = f.denoted) ∧
    ((readInto held text).1 = false → (readInto held text).2 = held) ∧
    (∀ zeros n : Nat, n < 2 ^ 63 →
      readInto held (List.replicate zeros '0'.toUInt8 ++ Text.bytes (toString n)) = (true, .ofNat n)) ∧
    ∀ s n, read? s = some n ↔ ∃ f : Form, f.bytes = Text.bytes s ∧ f.denoted = n ∧ n < 2 ^ 63 := by
  have accepts : ∀ {f : Form}, f.bytes = text → 0 ≤ f.denoted → f.denoted < 2 ^ 63 →
      readInto held text = (true, .ofInt f.denoted) := by
    rintro f rfl natural small
    rw [f.readInto_bytes, if_pos ⟨natural, small⟩]
  refine ⟨⟨fun read => ?_, ?_⟩, ?_, held_of_refused, ?_, fun _ _ => read?_eq_some_iff⟩
  · obtain ⟨f, written, natural, small, _⟩ := readInto_eq_iff.mp (Prod.ext read rfl)
    exact ⟨f, written, natural, small⟩
  · rintro ⟨f, written, natural, small⟩
    rw [accepts written natural small]
  · intro f written natural small
    rw [accepts written natural small]
    exact Int64.toInt_ofInt_of_le (by omega) small
  · intro zeros n small
    rw [← Form.bytes_ofNat, Form.readInto_bytes, Form.denoted_ofNat, if_pos (by omega),
      Int64.ofInt_eq_ofNat]

/-- A negative zero is read, and the greatest word behind any zeros, but not the number after it. -/
theorem reads_forms_sample : (readInto 7 (Text.bytes " \t-0")).1 = true ∧
    (readInto 7 (Text.bytes " \t-0")).2.toInt = 0 ∧
    (readInto 7 (Text.bytes "9223372036854775808")).2 = 7 ∧
    readInto 7 (List.replicate 30 '0'.toUInt8 ++ Text.bytes (toString 9223372036854775807)) =
      (true, 9223372036854775807) := by
  let zero : Form := { Form.ofNat 0 0 with
    blanks := [' '.toUInt8, '\t'.toUInt8], sign := .minus, blank := by simp }
  have denoted : zero.denoted = 0 := by decide
  obtain ⟨read, value, _, back, _⟩ := reads_forms 7 (Text.bytes " \t-0")
  obtain ⟨_, _, kept, _, _⟩ := reads_forms 7 (Text.bytes "9223372036854775808")
  refine ⟨read.mpr ⟨zero, by decide, by decide, by decide⟩, ?_, kept (by decide),
    back 30 9223372036854775807 (by decide)⟩
  exact (value zero (by decide) (by decide) (by decide)).trans denoted

end Cadence.Numeral
