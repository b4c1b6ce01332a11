import Mathlib.Data.List.Basic

namespace Delimited

variable {Symbol : Type*} [BEq Symbol] [LawfulBEq Symbol] {mark : Symbol}
  {a b c d : List Symbol}

-- A text is determined by the words between its marks.
theorem splitOn_injective (mark : Symbol) :
    Function.Injective fun text : List Symbol => text.splitOn mark := by
  intro a b h
  have hj : [mark].intercalate (a.splitOn mark) = [mark].intercalate (b.splitOn mark) :=
    congrArg _ h
  rwa [List.intercalate_splitOn, List.intercalate_splitOn] at hj

-- Two joined texts are the same when their words are, wherever these were cut.
theorem append_mark_eq_iff :
    a ++ mark :: b = c ++ mark :: d ↔
      a.splitOn mark ++ b.splitOn mark = c.splitOn mark ++ d.splitOn mark := by
  rw [← List.splitOn_append_cons_self, ← List.splitOn_append_cons_self]
  exact ((splitOn_injective mark).eq_iff).symm

-- Cut at the same places, the same words are the same texts.
theorem eq_of_words_eq (h : a.splitOn mark ++ b.splitOn mark = c.splitOn mark ++ d.splitOn mark)
    (hl : (a.splitOn mark).length = (c.splitOn mark).length) : a = c ∧ b = d := by
  obtain ⟨hf, hb⟩ := List.append_inj h hl
  exact ⟨splitOn_injective mark hf, splitOn_injective mark hb⟩

-- What stands before the first mark is told apart.
theorem eq_of_append_mark_eq (ha : mark ∉ a) (hc : mark ∉ c)
    (h : a ++ mark :: b = c ++ mark :: d) : a = c := by
  have hf {front back : List Symbol} (hn : mark ∉ front) :
      (front ++ mark :: back).takeWhile (· != mark) = front := by
    have hp (symbol : Symbol) (hm : symbol ∈ front) : (symbol != mark) = true :=
      bne_iff_ne.mpr (ne_of_mem_of_not_mem hm hn)
    rw [List.takeWhile_append_of_pos hp, List.takeWhile_cons_of_neg (by simp), List.append_nil]
  rw [← hf ha, h, hf hc]

section Parts

variable {head : List Symbol} {parts others : List (List Symbol)}

-- Parts behind a head, each behind a mark.
def joined (mark : Symbol) (head : List Symbol) (parts : List (List Symbol)) : List Symbol :=
  head ++ parts.flatMap (mark :: ·)

def words (mark : Symbol) (parts : List (List Symbol)) : List (List Symbol) :=
  parts.flatMap (·.splitOn mark)

-- Where the words are cut into parts.
def shape (mark : Symbol) (parts : List (List Symbol)) : List Nat :=
  parts.map fun part => (part.splitOn mark).length

theorem splitOn_joined :
    (joined mark head parts).splitOn mark = head.splitOn mark ++ words mark parts := by
  induction parts generalizing head with
  | nil => simp [joined, words]
  | cons part parts ih =>
    have hs : joined mark head (part :: parts) = joined mark (head ++ mark :: part) parts := by
      simp [joined]
    rw [hs, ih, List.splitOn_append_cons_self, words, words, List.flatMap_cons, List.append_assoc]

-- Behind one head the words decide.
theorem joined_eq_iff :
    joined mark head parts = joined mark head others ↔ words mark parts = words mark others := by
  rw [← (splitOn_injective mark).eq_iff]
  simp only [splitOn_joined, List.append_cancel_left_eq]

-- The same words, cut at the same places, are the same parts.
theorem eq_of_words_shape (hw : words mark parts = words mark others)
    (hs : shape mark parts = shape mark others) : parts = others := by
  induction parts generalizing others with
  | nil => exact (List.map_eq_nil_iff.mp hs.symm).symm
  | cons part parts ih =>
    cases others with
    | nil => exact absurd hs (by simp [shape])
    | cons other others =>
      obtain ⟨hl, hr⟩ := List.cons.inj hs
      rw [words, words, List.flatMap_cons, List.flatMap_cons] at hw
      obtain ⟨hf, hla⟩ := List.append_inj hw hl
      rw [splitOn_injective mark hf, ih hla hr]

end Parts

end Delimited
