/-!
Decimal text of a quotient with a number of significant digits.

The quotient is rounded to the digits asked for, a half to the even neighbour, and zeros at the
end are dropped.  It is written positionally while the exponent of its leading digit is at least
`-4` and below the number of digits, and with an exponent of at least two digits otherwise.
-/

namespace Cadence.Decimal

/-- The nearest natural number to a quotient; a half goes to the even one. -/
def roundDiv (num den : Nat) : Nat :=
  let q := num / den
  let twice := 2 * (num % den)
  if twice < den then q else if den < twice then q + 1 else q + q % 2

/-- A quotient times a power of ten, rounded. -/
def scaled (num den : Nat) : Int → Nat
  | .ofNat shift => roundDiv (num * Nat.pow 10 shift) den
  | .negSucc shift => roundDiv num (den * Nat.pow 10 (shift + 1))

def digits (n : Nat) : List Char := Nat.toDigits 10 n

/-- The exponent of the leading digit of a positive quotient. -/
def leadingExponent (num den : Nat) : Int :=
  if den ≤ num then (digits (num / den)).length - 1
  else - ((digits ((den + num - 1) / num - 1)).length : Int)

/-- The digits of a positive quotient rounded to `places` significant digits, and the exponent of
the first one. -/
def rounded (places num den : Nat) : List Char × Int :=
  let e := leadingExponent num den
  let m := scaled num den (places - 1 - e)
  if m = Nat.pow 10 places then (digits (m / 10), e + 1) else (digits m, e)

/-- A fraction with its point, or nothing if it has no digits but zeros. -/
def fraction (ds : List Char) : List Char :=
  match (ds.reverse.dropWhile (· = '0')).reverse with
  | [] => []
  | kept => '.' :: kept

def positional (ds : List Char) : Int → List Char
  | .ofNat e =>
    let whole := ds.take (e + 1)
    whole ++ List.replicate (e + 1 - whole.length) '0' ++ fraction (ds.drop (e + 1))
  | .negSucc e => '0' :: fraction (List.replicate e '0' ++ ds)

def withExponent (ds : List Char) (e : Int) : List Char :=
  let sign := if e < 0 then '-' else '+'
  let size := digits e.natAbs
  ds.take 1 ++ fraction (ds.drop 1) ++ ['e', sign] ++ List.replicate (2 - size.length) '0' ++ size

/-- The text of a quotient of natural numbers. -/
def general (places num den : Nat) : List Char :=
  if num = 0 then ['0']
  else
    let (ds, e) := rounded places num den
    if -4 ≤ e ∧ e < places then positional ds e else withExponent ds e

def text (places : Nat) (num : Int) (den : Nat) : String :=
  String.ofList ((if num < 0 then ['-'] else []) ++ general places num.natAbs den)

end Cadence.Decimal
