import Mathlib.Algebra.Order.Ring.Int

namespace DecimalText

-- A non-empty text of decimal digits.
def digits (chars : List Char) : Option Nat :=
  if chars ≠ [] ∧ chars.all Char.isDigit then some (Nat.ofDigitChars 10 chars 0) else none

-- Decimal text with an optional sign in front.
def signed : List Char → Option Int
  | '-' :: rest => (digits rest).map fun (n : Nat) => -(n : Int)
  | '+' :: rest => (digits rest).map Int.ofNat
  | chars => (digits chars).map Int.ofNat

-- A signed number of 64 bits.
def parseI64 (chars : List Char) : Option Int :=
  (signed chars).filter fun n => -2 ^ 63 ≤ n ∧ n < 2 ^ 63

theorem digits_toDigits (n : Nat) : digits (Nat.toDigits 10 n) = some n := by
  have ha : (Nat.toDigits 10 n).all Char.isDigit := List.all_eq_true.mpr fun c hc =>
    Nat.isDigit_of_mem_toDigits (by omega) (by omega) hc
  rw [digits, if_pos ⟨Nat.toDigits_ne_nil, ha⟩, Nat.ofDigitChars_ten_toDigits]

theorem toList_toString_neg (n : Nat) :
    (toString (Int.negSucc n)).toList = '-' :: Nat.toDigits 10 (n + 1) := by
  simp [Int.toString_eq_repr, Int.repr]

theorem toList_toString_ofNat (n : Nat) : (toString (n : Int)).toList = Nat.toDigits 10 n := by
  simp [Int.toString_eq_repr, Int.repr]

-- A number is written with digits, after a sign when it is negative.
theorem mem_toString {n : Int} {c : Char} (h : c ∈ (toString n).toList) : c = '-' ∨ c.isDigit := by
  cases n with
  | ofNat n =>
    rw [Int.ofNat_eq_natCast, toList_toString_ofNat] at h
    exact Or.inr (Nat.isDigit_of_mem_toDigits (by omega) (by omega) h)
  | negSucc n =>
    rw [toList_toString_neg] at h
    rcases List.mem_cons.mp h with hs | hdi
    · exact Or.inl hs
    · exact Or.inr (Nat.isDigit_of_mem_toDigits (by omega) (by omega) hdi)

-- A mark that is no digit does not occur in a number.
theorem not_mem_toDigits {mark : Char} (hm : mark.isDigit = false) (n : Nat) :
    mark ∉ Nat.toDigits 10 n := by
  intro h
  have hdi := Nat.isDigit_of_mem_toDigits (by omega) (by omega) h
  rw [hm] at hdi
  exact absurd hdi (by decide)

theorem not_mem_toString {mark : Char} (hs : mark ≠ '-') (hma : mark.isDigit = false)
    (n : Int) : mark ∉ (toString n).toList := by
  intro h
  rcases mem_toString h with hm | hdi
  · exact hs hm
  · rw [hma] at hdi
    exact absurd hdi (by decide)

theorem signed_of_digits {chars : List Char} (h : ∀ c ∈ chars, c.isDigit) :
    signed chars = (digits chars).map Int.ofNat := by
  unfold signed
  split
  · exact absurd (h '-' List.mem_cons_self) (by decide)
  · exact absurd (h '+' List.mem_cons_self) (by decide)
  · rfl

theorem signed_toString (n : Int) : signed (toString n).toList = some n := by
  cases n with
  | ofNat n =>
    have hdi : ∀ c ∈ Nat.toDigits 10 n, c.isDigit := fun c hc =>
      Nat.isDigit_of_mem_toDigits (by omega) (by omega) hc
    rw [Int.ofNat_eq_natCast, toList_toString_ofNat, signed_of_digits hdi, digits_toDigits]
    rfl
  | negSucc n =>
    rw [toList_toString_neg, signed, digits_toDigits]
    rfl

-- Any number in range is read back from its text.
theorem parseI64_toString {n : Int} (hl : -2 ^ 63 ≤ n) (hh : n < 2 ^ 63) :
    parseI64 (toString n).toList = some n := by
  rw [parseI64, signed_toString]
  exact Option.filter_eq_some_iff.mpr ⟨rfl, decide_eq_true ⟨hl, hh⟩⟩

-- What stands before and behind the first place of a character.
def splitOnce (mark : Char) : List Char → Option (List Char × List Char)
  | [] => none
  | c :: rest =>
    if c = mark then some ([], rest)
    else (splitOnce mark rest).map fun (front, back) => (c :: front, back)

theorem splitOnce_append {mark : Char} {front back : List Char} (h : mark ∉ front) :
    splitOnce mark (front ++ mark :: back) = some (front, back) := by
  induction front with
  | nil => simp [splitOnce]
  | cons c rest ih =>
    obtain ⟨hne, hr⟩ := not_or.mp (mt List.mem_cons.mpr h)
    rw [List.cons_append, splitOnce, if_neg (Ne.symm hne), ih hr]
    rfl

end DecimalText
