/-!
# Number text

Integers as they stand in messages, drawings and reports: hexadecimal with lower-case digits,
zero-filled to a width, and columns filled with blanks on the left or the right.
-/

namespace CallAtlas.Text

/-- `w - length` copies of `c`, then the text. -/
def padLeft (c : Char) (w : Nat) (s : String) : String :=
  String.ofList (List.replicate (w - s.length) c) ++ s

/-- The text, then blanks up to `w` characters. -/
def padRight (w : Nat) (s : String) : String :=
  s ++ String.ofList (List.replicate (w - s.length) ' ')

/-- A natural number in base sixteen with lower-case digits. -/
def hex (n : Nat) : String :=
  String.ofList (Nat.toDigits 16 n)

/-- A natural number in base sixteen with at least `w` digits. -/
def hexFill (w n : Nat) : String :=
  padLeft '0' w (hex n)

/-- An integer in base sixteen: the sign, then the digits of its magnitude. -/
def hexInt (i : Int) : String :=
  if i < 0 then "-" ++ hex i.natAbs else hex i.natAbs

/-- Two lower-case digits for every byte. -/
def hexBytes (bytes : List UInt8) : String :=
  String.ofList (bytes.flatMap fun b => [(b.toNat / 16).digitChar, (b.toNat % 16).digitChar])

/-- The value of a hexadecimal digit of either case. -/
def hexDigit? (c : Char) : Option Nat :=
  if '0' ≤ c ∧ c ≤ '9' then some (c.toNat - '0'.toNat)
  else if 'a' ≤ c ∧ c ≤ 'f' then some (c.toNat - 'a'.toNat + 10)
  else if 'A' ≤ c ∧ c ≤ 'F' then some (c.toNat - 'A'.toNat + 10)
  else none

/-- Reads a run of decimal digits, at least one, with nothing else. -/
def decimalNat? (cs : List Char) : Option Nat :=
  if cs ≠ [] ∧ cs.all Char.isDigit then
    some (cs.foldl (fun n c => n * 10 + (c.toNat - '0'.toNat)) 0)
  else none

/-- Reads a decimal integer with an optional sign and nothing else. -/
def decimalInt? : List Char → Option Int
  | '-' :: cs => (decimalNat? cs).map fun n => -(n : Int)
  | '+' :: cs => (decimalNat? cs).map fun n => (n : Int)
  | cs => (decimalNat? cs).map fun n => (n : Int)

end CallAtlas.Text
