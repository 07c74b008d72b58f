/-!
Three rules on text: where a terminated text ends, which bytes write it, and the order in which a set of
texts is shown.
-/

namespace Cadence.Text

/-- A terminated text ends before its first NUL. -/
def untilNul (s : String) : String := String.ofList (s.toList.takeWhile (· ≠ '\x00'))

/-- The bytes of a text in UTF-8. -/
def bytes (s : String) : List UInt8 := s.toList.flatMap String.utf8EncodeChar

/--
Texts in the order of their UTF-8 bytes.  That order is the order of their code points, which is
the order of `String`.
-/
def sorted (texts : List String) : List String := texts.mergeSort (fun a b => !(b < a))

end Cadence.Text
