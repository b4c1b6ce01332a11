import Mathlib.Data.Nat.Log
import Mathlib.Data.String.Basic

namespace LuaNumber

-- The number a script computes with: a double, 53 bits of the natural number rounded to the
-- nearest, halves to the even one.
def ofNat (n : Nat) : Nat :=
  if n ≤ 2 ^ 53 then n
  else
    let unit := 2 ^ (Nat.log2 n - 52)
    let low := n / unit
    let rest := n % unit
    if unit < 2 * rest ∨ (unit = 2 * rest ∧ low % 2 = 1) then (low + 1) * unit else low * unit

-- The integer a script answers with. A double beyond 63 bits is none.
def reply (n : Nat) : Option Nat :=
  if n < 2 ^ 63 then some n else none

def SIGNIFICANT_DIGITS : Nat := 14

-- The text of a number in a script: fourteen digits, and an exponent where these are too few.
def text (n : Nat) : String :=
  let value := ofNat n
  if value < 10 ^ SIGNIFICANT_DIGITS then toString value
  else
    let length := (Nat.toDigits 10 value).length
    let unit := 10 ^ (length - SIGNIFICANT_DIGITS)
    let low := value / unit
    let rest := value % unit
    let rounded :=
      if unit < 2 * rest ∨ (unit = 2 * rest ∧ low % 2 = 1) then low + 1 else low
    let exponent := if rounded = 10 ^ SIGNIFICANT_DIGITS then length else length - 1
    let digits := Nat.toDigits 10 rounded
    let fraction := (digits.tail.reverse.dropWhile (· = '0')).reverse
    String.ofList (digits.take 1 ++ (if fraction = [] then [] else '.' :: fraction) ++
      "e+".toList) ++ toString exponent

theorem ofNat_of_le {n : Nat} (h : n ≤ 2 ^ 53) : ofNat n = n :=
  if_pos h

theorem reply_of_le {n : Nat} (h : n ≤ 2 ^ 53) : reply n = some n :=
  if_pos (Nat.lt_of_le_of_lt h (by decide))

theorem text_of_lt {n : Nat} (h : n < 10 ^ SIGNIFICANT_DIGITS) : text n = toString n := by
  have hea : ofNat n = n := ofNat_of_le (Nat.le_of_lt (Nat.lt_of_lt_of_le h (by decide)))
  unfold text
  rw [hea]
  exact if_pos h

example : text 123456789012345 = "1.2345678901234e+14" := by decide +kernel

end LuaNumber
