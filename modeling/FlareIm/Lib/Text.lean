import Mathlib.Algebra.Order.Ring.Int
import Mathlib.Data.List.DropRight

namespace Text

-- The characters with the Unicode property White_Space.
def isWhitespace (c : Char) : Bool :=
  let n := c.toNat
  (9 ≤ n && n ≤ 13) || n == 0x20 || n == 0x85 || n == 0xA0 || n == 0x1680 ||
    (0x2000 ≤ n && n ≤ 0x200A) || n == 0x2028 || n == 0x2029 || n == 0x202F || n == 0x205F ||
    n == 0x3000

def trimChars (chars : List Char) : List Char :=
  (chars.dropWhile isWhitespace).rdropWhile isWhitespace

def trim (s : String) : String :=
  String.ofList (trimChars s.toList)

def trimEnd (s : String) : String :=
  String.ofList (s.toList.rdropWhile isWhitespace)

def isBlank (s : String) : Bool :=
  trim s == ""

-- What stands before the last place where the marker is found.
def beforeLast (marker : List Char) : List Char → Option (List Char)
  | [] => none
  | c :: chars =>
    match beforeLast marker chars with
    | some before => some (c :: before)
    | none => if marker.isPrefixOf (c :: chars) then some [] else none

theorem trimChars_idem (chars : List Char) : trimChars (trimChars chars) = trimChars chars := by
  have hf : (trimChars chars).dropWhile isWhitespace = trimChars chars := by
    rw [List.dropWhile_eq_self_iff]
    intro hl
    -- what is left after the second cut begins as it did after the first
    have hp := List.rdropWhile_prefix isWhitespace (chars.dropWhile isWhitespace)
    have hh := List.dropWhile_get_zero_not isWhitespace chars (Nat.lt_of_lt_of_le hl hp.length_le)
    rw [List.get_eq_getElem] at hh
    rw [show (trimChars chars)[0] = _ from hp.getElem hl]
    exact hh
  unfold trimChars at hf ⊢
  rw [hf, List.rdropWhile_idempotent]

-- Behind a text without white space at its ends only the end of what follows is cut.
theorem trimChars_append {front back : List Char} (hne : front ≠ [])
    (hf : ∀ c, front.head? = some c → isWhitespace c = false)
    (hl : ∀ c, front.getLast? = some c → isWhitespace c = false) :
    trimChars (front ++ back) = front ++ back.rdropWhile isWhitespace := by
  have hfr : (front ++ back).dropWhile isWhitespace = front ++ back := by
    cases front with
    | nil => exact absurd rfl hne
    | cons c rest =>
      have hc := hf c rfl
      simp [hc]
  rw [trimChars, hfr]
  induction back using List.reverseRecOn with
  | nil =>
    rw [List.append_nil, List.rdropWhile_nil, List.append_nil, List.rdropWhile_eq_self_iff]
    intro hne
    simp [hl _ (List.getLast?_eq_getLast_of_ne_nil hne)]
  | append_singleton back c ih =>
    rw [← List.append_assoc, List.rdropWhile_concat, List.rdropWhile_concat]
    have hb : (front ++ back).dropWhile isWhitespace = front ++ back := by
      cases front with
      | nil => exact absurd rfl hne
      | cons first rest =>
        have hc := hf first rfl
        simp [hc]
    split
    · exact ih hb
    · rw [List.append_assoc]

-- Text is left as it is when there is no white space at its ends.
theorem trim_eq_self_of_ends {s : String}
    (hf : ∀ c, s.toList.head? = some c → isWhitespace c = false)
    (hl : ∀ c, s.toList.getLast? = some c → isWhitespace c = false) : trim s = s := by
  have hfr : s.toList.dropWhile isWhitespace = s.toList := by
    rw [List.dropWhile_eq_self_iff]
    intro hln
    have hh := hf s.toList[0] (by rw [List.head?_eq_getElem?, List.getElem?_eq_getElem hln])
    simp [hh]
  have hb : s.toList.rdropWhile isWhitespace = s.toList := by
    rw [List.rdropWhile_eq_self_iff]
    intro hne
    have hen := hl (s.toList.getLast hne) (List.getLast?_eq_getLast_of_ne_nil hne)
    simp [hen]
  rw [trim, trimChars, hfr, hb, String.ofList_toList]

theorem trim_eq_self {s : String} (h : ∀ c ∈ s.toList, isWhitespace c = false) : trim s = s :=
  trim_eq_self_of_ends (fun c hc => h c (List.mem_of_head? hc))
    fun c hc => h c (List.mem_of_getLast? hc)

@[simp] theorem trim_trim (s : String) : trim (trim s) = trim s := by
  simp [trim, trimChars_idem]

theorem isBlank_eq_false (s : String) : isBlank s = false ↔ trim s ≠ "" := by
  simp [isBlank]

@[simp] theorem trim_empty : trim "" = "" := by decide

-- A marker is not found where its first character does not stand.
theorem beforeLast_eq_none {first : Char} {marker chars : List Char} (h : first ∉ chars) :
    beforeLast (first :: marker) chars = none := by
  induction chars with
  | nil => rfl
  | cons c chars ih =>
    obtain ⟨hne, hr⟩ := not_or.mp (List.mem_cons.not.mp h)
    rw [beforeLast, ih hr]
    simp [List.isPrefixOf, hne]

-- The marker is found where it was put, when its first character comes nowhere after.
theorem beforeLast_append {first : Char} {marker before after : List Char}
    (hm : first ∉ marker) (ha : first ∉ after) :
    beforeLast (first :: marker) (before ++ (first :: marker ++ after)) = some before := by
  induction before with
  | nil =>
    have hn : beforeLast (first :: marker) (marker ++ after) = none := by
      apply beforeLast_eq_none
      simp [hm, ha]
    have hf : (first :: marker).isPrefixOf (first :: (marker ++ after)) = true := by
      rw [List.isPrefixOf_iff_prefix]
      exact List.prefix_append (first :: marker) after
    rw [List.nil_append, List.cons_append, beforeLast, hn]
    simp only [hf, if_true]
  | cons c before ih => rw [List.cons_append, beforeLast, ih]

end Text
