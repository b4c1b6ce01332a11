import FlareIm.Lib.DecimalText
import Mathlib.Data.List.Basic
import Mathlib.Tactic.Common

namespace Framed

open DecimalText

-- The size of a text in bytes.
def byteLength (chars : List Char) : Nat :=
  (chars.map Char.utf8Size).sum

-- A text led by its length in bytes, so that what follows it can be told from it.
def frame (head rest : List Char) : List Char :=
  Nat.toDigits 10 (byteLength head) ++ ':' :: (head ++ ':' :: rest)

-- Cuts off that many bytes, between two characters.
def splitBytes : List Char → Nat → Option (List Char × List Char)
  | [], n => if n = 0 then some ([], []) else none
  | c :: chars, n =>
    if n = 0 then some ([], c :: chars)
    else if c.utf8Size ≤ n then
      (splitBytes chars (n - c.utf8Size)).map fun parts => (c :: parts.1, parts.2)
    else none

-- A number of 64 bits in decimal, with or without a plus sign.
def parseUsize (chars : List Char) : Option Nat :=
  let digits := if chars.head? = some '+' then chars.tail else chars
  if digits ≠ [] ∧ digits.all Char.isDigit ∧ Nat.ofDigitChars 10 digits 0 < 2 ^ 64 then
    some (Nat.ofDigitChars 10 digits 0)
  else none

def stripColon : List Char → Option (List Char)
  | ':' :: rest => some rest
  | _ => none

def unframe (chars : List Char) : Option (List Char × List Char) :=
  (stripColon (chars.dropWhile (· ≠ ':'))).bind fun rest =>
    (parseUsize (chars.takeWhile (· ≠ ':'))).bind fun n =>
      (splitBytes rest n).bind fun parts =>
        (stripColon parts.2).map fun tail => (parts.1, tail)

@[simp] theorem byteLength_cons (c : Char) (chars : List Char) :
    byteLength (c :: chars) = c.utf8Size + byteLength chars := by
  simp [byteLength]

theorem byteLength_toList (s : String) : byteLength s.toList = s.utf8ByteSize := by
  have hl : ∀ chars : List Char, byteLength chars = (String.ofList chars).utf8ByteSize := by
    intro chars
    induction chars with
    | nil => rfl
    | cons c chars ih =>
      rw [byteLength_cons, ih, ← List.singleton_append, String.ofList_append,
        String.utf8ByteSize_append]
      simp
  rw [hl, String.ofList_toList]

theorem head_eq_of_byteLength {first second firstRest secondRest : List Char}
    (hl : byteLength first = byteLength second)
    (h : first ++ firstRest = second ++ secondRest) : first = second := by
  induction first generalizing second with
  | nil =>
    cases second with
    | nil => rfl
    | cons c second =>
      have hp := c.utf8Size_pos
      simp only [byteLength_cons] at hl
      simp only [byteLength, List.map_nil, List.sum_nil] at hl
      omega
  | cons c first ih =>
    cases second with
    | nil =>
      have hp := c.utf8Size_pos
      simp only [byteLength_cons] at hl
      simp only [byteLength, List.map_nil, List.sum_nil] at hl
      omega
    | cons d second =>
      obtain ⟨rfl, hr⟩ : c = d ∧ first ++ firstRest = second ++ secondRest := by
        simpa using h
      simp only [byteLength_cons] at hl
      rw [ih (by omega) hr]

theorem takeWhile_frame (head rest : List Char) :
    (frame head rest).takeWhile (· ≠ ':') = Nat.toDigits 10 (byteLength head) := by
  unfold frame
  have hdi : ∀ c ∈ Nat.toDigits 10 (byteLength head), decide (c ≠ ':') = true := fun c hc =>
    decide_eq_true (ne_of_mem_of_not_mem hc (not_mem_toDigits rfl _))
  rw [List.takeWhile_append_of_pos hdi]
  simp

theorem dropWhile_frame (head rest : List Char) :
    (frame head rest).dropWhile (· ≠ ':') = ':' :: (head ++ ':' :: rest) := by
  unfold frame
  have hdi : ∀ c ∈ Nat.toDigits 10 (byteLength head), decide (c ≠ ':') = true := fun c hc =>
    decide_eq_true (ne_of_mem_of_not_mem hc (not_mem_toDigits rfl _))
  rw [List.dropWhile_append_of_pos hdi]
  simp

theorem frame_inj {first second firstRest secondRest : List Char} :
    frame first firstRest = frame second secondRest ↔ first = second ∧ firstRest = secondRest := by
  constructor
  · intro h
    have hl : byteLength first = byteLength second := by
      have hdi := (takeWhile_frame first firstRest).symm.trans
        ((congrArg _ h).trans (takeWhile_frame second secondRest))
      have hv := congrArg (Nat.ofDigitChars 10 · 0) hdi
      simpa only [Nat.ofDigitChars_ten_toDigits] using hv
    have hr : first ++ ':' :: firstRest = second ++ ':' :: secondRest := by
      have hdr := (dropWhile_frame first firstRest).symm.trans
        ((congrArg _ h).trans (dropWhile_frame second secondRest))
      simpa using hdr
    obtain rfl := head_eq_of_byteLength hl hr
    exact ⟨rfl, by simpa using hr⟩
  · rintro ⟨rfl, rfl⟩
    rfl

theorem parseUsize_toDigits {n : Nat} (h : n < 2 ^ 64) :
    parseUsize (Nat.toDigits 10 n) = some n := by
  have hdi : ∀ c ∈ Nat.toDigits 10 n, c.isDigit = true := fun c hc =>
    Nat.isDigit_of_mem_toDigits (by decide) (by decide) hc
  have hp : (Nat.toDigits 10 n).head? ≠ some '+' := by
    intro hh
    exact absurd (hdi '+' (List.mem_of_mem_head? hh)) (by decide)
  have ha : (Nat.toDigits 10 n).all Char.isDigit = true := List.all_eq_true.mpr hdi
  simp only [parseUsize, hp, if_false, Nat.ofDigitChars_ten_toDigits]
  rw [if_pos ⟨Nat.toDigits_ne_nil, ha, h⟩]

theorem splitBytes_append (head rest : List Char) :
    splitBytes (head ++ rest) (byteLength head) = some (head, rest) := by
  induction head with
  | nil => cases rest <;> simp [splitBytes, byteLength]
  | cons c head ih =>
    have hp := c.utf8Size_pos
    have hne : byteLength (c :: head) ≠ 0 := by
      rw [byteLength_cons]
      omega
    have hr : byteLength (c :: head) - c.utf8Size = byteLength head := by
      rw [byteLength_cons]
      omega
    have hle : c.utf8Size ≤ byteLength (c :: head) := by
      rw [byteLength_cons]
      omega
    rw [List.cons_append, splitBytes, if_neg hne, if_pos hle, hr, ih]
    rfl

-- A text is cut where a character ends, and nowhere else.
theorem splitBytes_eq_some_iff {chars head rest : List Char} {n : Nat} :
    splitBytes chars n = some (head, rest) ↔ chars = head ++ rest ∧ byteLength head = n := by
  constructor
  · intro h
    induction chars generalizing n head with
    | nil =>
      by_cases hz : n = 0
      · rw [splitBytes, if_pos hz] at h
        obtain ⟨rfl, rfl⟩ := Prod.mk.inj (Option.some.inj h)
        exact ⟨rfl, hz.symm⟩
      · rw [splitBytes, if_neg hz] at h
        cases h
    | cons c chars ih =>
      by_cases hz : n = 0
      · rw [splitBytes, if_pos hz] at h
        obtain ⟨rfl, rfl⟩ := Prod.mk.inj (Option.some.inj h)
        exact ⟨rfl, hz.symm⟩
      · by_cases hf : c.utf8Size ≤ n
        · rw [splitBytes, if_neg hz, if_pos hf] at h
          obtain ⟨⟨front, back⟩, hp, heq⟩ := Option.map_eq_some_iff.mp h
          cases heq
          obtain ⟨rfl, hl⟩ := ih hp
          refine ⟨rfl, ?_⟩
          rw [byteLength_cons, hl]
          omega
        · rw [splitBytes, if_neg hz, if_neg hf] at h
          cases h
  · rintro ⟨rfl, rfl⟩
    exact splitBytes_append head rest

theorem colon_notMem_of_parseUsize {chars : List Char} {n : Nat} (h : parseUsize chars = some n) :
    ':' ∉ chars := by
  have ha : ∀ c ∈ if chars.head? = some '+' then chars.tail else chars, c.isDigit = true := by
    unfold parseUsize at h
    dsimp only at h
    generalize (if chars.head? = some '+' then chars.tail else chars) = digits at h
    split at h
    · rename_i hv
      exact List.all_eq_true.mp hv.2.1
    · cases h
  intro hm
  by_cases hp : chars.head? = some '+'
  · rw [if_pos hp] at ha
    cases chars with
    | nil => exact absurd hm List.not_mem_nil
    | cons first rest =>
      obtain rfl : first = '+' := Option.some.inj hp
      rcases List.mem_cons.mp hm with hf | hr
      · exact absurd hf (by decide)
      · exact absurd (ha ':' hr) (by decide)
  · rw [if_neg hp] at ha
    exact absurd (ha ':' hm) (by decide)

-- What is read stands there with its length in front, in some spelling of it.
theorem unframe_eq_some_iff {chars head rest : List Char} :
    unframe chars = some (head, rest) ↔ ∃ digits, parseUsize digits = some (byteLength head) ∧
      chars = digits ++ ':' :: (head ++ ':' :: rest) := by
  constructor
  · intro h
    obtain ⟨behind, hb, hnu⟩ := Option.bind_eq_some_iff.mp h
    obtain ⟨n, hn, hsp⟩ := Option.bind_eq_some_iff.mp hnu
    obtain ⟨⟨front, back⟩, hpa, ht⟩ := Option.bind_eq_some_iff.mp hsp
    obtain ⟨tail, hco, heq⟩ := Option.map_eq_some_iff.mp ht
    obtain ⟨rfl, rfl⟩ := Prod.mk.inj heq
    have hst {text stripped : List Char} (hs : stripColon text = some stripped) :
        text = ':' :: stripped := by
      unfold stripColon at hs
      split at hs
      · exact Option.some.inj hs ▸ rfl
      · exact absurd hs (by simp)
    obtain ⟨hw, hl⟩ := splitBytes_eq_some_iff.mp hpa
    refine ⟨chars.takeWhile (· ≠ ':'), hl.symm ▸ hn, ?_⟩
    calc chars = chars.takeWhile (· ≠ ':') ++ chars.dropWhile (· ≠ ':') :=
          List.takeWhile_append_dropWhile.symm
      _ = chars.takeWhile (· ≠ ':') ++ ':' :: (front ++ ':' :: tail) := by
          rw [hst hb, hw, show back = ':' :: tail from hst hco]
  · rintro ⟨digits, hdi, rfl⟩
    have hp : ∀ c ∈ digits, decide (c ≠ ':') = true := fun c hc =>
      decide_eq_true (ne_of_mem_of_not_mem hc (colon_notMem_of_parseUsize hdi))
    unfold unframe
    rw [List.takeWhile_append_of_pos hp, List.dropWhile_append_of_pos hp]
    have hcu : splitBytes (head ++ ':' :: rest) (byteLength head) = some (head, ':' :: rest) :=
      splitBytes_append head _
    simp [stripColon, hdi, hcu]

-- What was framed is read back.
theorem unframe_frame {head rest : List Char} (h : byteLength head < 2 ^ 64) :
    unframe (frame head rest) = some (head, rest) := by
  unfold unframe
  rw [takeWhile_frame, dropWhile_frame, parseUsize_toDigits h]
  simp only [stripColon, Option.bind_some, splitBytes_append, Option.map_some]

end Framed
