/-!
Decimal numbers as text: one or more ASCII digits, with an optional plus sign in front when read.
-/
namespace WriteBuffer.Text

/-- The value of a decimal digit. -/
def digit? (c : Char) : Option Nat :=
  if c.isDigit then some (c.toNat - '0'.toNat) else none

/-- The number that digits spell, read on from the value of the digits before them. -/
def digitsFrom? (value : Nat) : List Char → Option Nat
  | [] => some value
  | c :: rest => do digitsFrom? (10 * value + (← digit? c)) rest

/-- The number that one or more digits spell. -/
def digits? : List Char → Option Nat
  | [] => none
  | text => digitsFrom? 0 text

/-- The number that digits spell, with an optional plus sign in front. -/
def unsigned? : List Char → Option Nat
  | '+' :: text => digits? text
  | text => digits? text

/-- The number that a text spells if it is below a limit. -/
def below? (limit : Nat) (text : List Char) : Option Nat :=
  (unsigned? text).filter (· < limit)

def decimal (n : Nat) : List Char := Nat.toDigits 10 n

end WriteBuffer.Text
