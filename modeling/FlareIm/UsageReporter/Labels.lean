import FlareIm.Lib.DecimalText
import FlareIm.Lib.Text
import FlareIm.UsageReporter

namespace FlareIm.UsageReporter

open DecimalText

theorem toList_toString_nat (n : Nat) : (toString n).toList = Nat.toDigits 10 n :=
  Nat.toList_repr

-- A text without a colon after the last colon is told apart from what stands before it.
theorem eq_of_last_colon {before before' after after' : List Char} (ha : ':' ∉ after)
    (ha' : ':' ∉ after') (h : before ++ ':' :: after = before' ++ ':' :: after') :
    before = before' ∧ after = after' := by
  have hf := @Text.beforeLast_append ':' [] before after List.not_mem_nil ha
  have hs := @Text.beforeLast_append ':' [] before' after' List.not_mem_nil ha'
  simp only [List.singleton_append] at hf hs
  rw [h, hs] at hf
  cases hf
  exact ⟨rfl, (List.cons.inj (List.append_cancel_left h)).2⟩

theorem toList_messageId (instance_ : String) (event : UsageEvent) :
    (event.messageId instance_).toList =
      (instance_.toList ++ ':' :: event.app.toList) ++ ':' :: (toString event.windowStartMs).toList ++
        ':' :: Nat.toDigits 10 event.part := by
  have hc : (":" : String).toList = [':'] := rfl
  rw [← toList_toString_nat]
  simp [UsageEvent.messageId, String.toList_append, hc]

theorem messageId_inj {instance_ : String} {event other : UsageEvent}
    (h : event.messageId instance_ = other.messageId instance_) :
    event.app = other.app ∧ event.windowStartMs = other.windowStartMs ∧
      event.part = other.part := by
  have hc := congrArg String.toList h
  rw [toList_messageId, toList_messageId] at hc
  have hco : ∀ n : Int, ':' ∉ (toString n).toList := not_mem_toString (by decide) rfl
  obtain ⟨hr, hp⟩ :=
    eq_of_last_colon (not_mem_toDigits rfl _) (not_mem_toDigits rfl _) hc
  obtain ⟨ha, hs⟩ := eq_of_last_colon (hco _) (hco _) hr
  have ha := (List.cons.inj (List.append_cancel_left ha)).2
  have hs := congrArg signed hs
  have hp := congrArg digits hp
  rw [signed_toString, signed_toString] at hs
  rw [digits_toDigits, digits_toDigits] at hp
  exact ⟨String.toList_inj.mp ha, Option.some.inj hs, Option.some.inj hp⟩

end FlareIm.UsageReporter
