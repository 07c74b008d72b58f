import Cadence.Text

/-!
Decimal numerals: white space, a sign if there is one, then digits.

A text is converted as far as its numeral goes, into a signed word.  If no word is what the numeral denotes,
the last word on that side is given, and the conversion says so.  A text is read if all of it is a numeral,
and for a word that is not negative; so `-0` is read.

Texts are rows of bytes, and no byte beyond ASCII is part of a numeral.
-/

namespace Cadence.Numeral

/-- White space: the space and the five controls from tab to carriage return. -/
def isBlank (b : UInt8) : Bool := b = ' '.toUInt8 || ('\t'.toUInt8 ≤ b && b ≤ '\r'.toUInt8)

def isDigit (b : UInt8) : Bool := '0'.toUInt8 ≤ b && b ≤ '9'.toUInt8

/-- The number that a digit denotes. -/
def digit (b : UInt8) : UInt64 := (b - '0'.toUInt8).toUInt64

/-- Splits off the sign: whether it is a minus, and what follows it. -/
def splitSign : List UInt8 → Bool × List UInt8
  | [] => (false, [])
  | b :: rest =>
    if b = '-'.toUInt8 then (true, rest)
    else if b = '+'.toUInt8 then (false, rest)
    else (false, b :: rest)

/-- The greatest number that a word holds. -/
def greatest : UInt64 := 18446744073709551615

/-- A number with one more digit, unless a word does not hold it. -/
def extend? (n : UInt64) (b : UInt8) : Option UInt64 :=
  if n < greatest / 10 || (n = greatest / 10 && digit b ≤ greatest % 10) then some (10 * n + digit b)
  else none

/-- The number that a row of digits denotes, unless a word does not hold it. -/
def magnitude? (digits : List UInt8) : Option UInt64 := digits.foldlM extend? 0

/-- The signed word of a magnitude, if there is one. -/
def signed? (negative : Bool) (n : UInt64) : Option Int64 :=
  if negative then if n ≤ 9223372036854775808 then some (-n.toInt64) else none
  else if n < 9223372036854775808 then some n.toInt64 else none

/-- What becomes of a text. -/
structure Conversion where
  /-- What the numeral denotes, or the last word on that side; zero if there is no numeral. -/
  value : Int64
  /-- No word is what the numeral denotes. -/
  outOfRange : Bool
  /-- What follows the numeral; all of the text if there is none. -/
  rest : List UInt8
  deriving DecidableEq, Repr

/-- The conversion of a sign and some digits. -/
def conclude (negative : Bool) (digits rest : List UInt8) : Conversion :=
  match (magnitude? digits).bind (signed? negative) with
  | some value => { value, outOfRange := false, rest }
  | none => { value := if negative then Int64.minValue else Int64.maxValue, outOfRange := true, rest }

/-- Converts a text as far as its numeral goes (`strtol`). -/
def convert (text : List UInt8) : Conversion :=
  let (negative, unsigned) := splitSign (text.dropWhile isBlank)
  if unsigned.takeWhile isDigit = [] then { value := 0, outOfRange := false, rest := text }
  else conclude negative (unsigned.takeWhile isDigit) (unsigned.dropWhile isDigit)

/-- A text is refused if no word is what it denotes, if it does not start with a numeral, if something
follows the numeral, and if the word is negative. -/
def Conversion.refused (c : Conversion) (text : List UInt8) : Bool :=
  c.outOfRange || c.rest = text || c.rest ≠ [] || c.value < 0

/-- Reads a text into a word that is held (`parse_number`): whether the text is read, and the word that is
then held. -/
def readInto (held : Int64) (text : List UInt8) : Bool × Int64 :=
  if (convert text).refused text then (false, held) else (true, (convert text).value)

/-- Reads a numeral that denotes a natural number below `2 ^ 63`. -/
def read? (text : String) : Option Nat :=
  match readInto 0 (Text.bytes text) with
  | (true, n) => some n.toInt.toNat
  | (false, _) => none

end Cadence.Numeral
