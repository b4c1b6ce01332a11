import FlareIm.SequenceFloor
import FlareIm.SequenceLease
import Mathlib.Data.List.Basic

namespace FlareIm.SequenceFloor

open SequenceLease (SequenceRange)

-- A batch has a number at least.
structure SequenceAllocator where
  batchSize : Nat
  batchSize_pos : 0 < batchSize
  deriving DecidableEq

def SequenceAllocator.new (batchSize : Nat) : SequenceAllocator where
  batchSize := max batchSize 1
  batchSize_pos := Nat.le_max_right _ _

-- What the script is meant to count, in 64 bits.
def seqAfterFloor (currentHighWater floor : Nat) : Nat :=
  min (max currentHighWater floor + 1) (2 ^ 64 - 1)

namespace SequenceAllocator

variable (allocator : SequenceAllocator) (counter : Nat)

def allocateBatchRange : Option SequenceRange :=
  if counter + allocator.batchSize < 2 ^ 63 then
    let end_ := counter + allocator.batchSize
    some { next := end_ - allocator.batchSize + 1, end_ }
  else none

def allocateBatch : Option (List Nat) :=
  (allocator.allocateBatchRange counter).map fun range =>
    List.range' range.next (range.end_ + 1 - range.next)

end SequenceAllocator

-- The calls on the counter of a conversation, by any allocators, and its loss.
inductive Move where
  | allocateSeq
  | allocateSeqWithFloor (floor : Nat)
  | allocateBatch (allocator : SequenceAllocator)
  | lose
  deriving DecidableEq

-- The numbers a call returns. None are when Redis fails it.
def Move.numbers (counter : Nat) : Move → Option (List Nat)
  | .allocateSeq => (SequenceFloor.allocateSeq counter).map fun seq => [seq]
  | .allocateSeqWithFloor floor => (SequenceFloor.allocateSeqWithFloor counter floor).map fun seq => [seq]
  | .allocateBatch allocator => allocator.allocateBatch counter
  | .lose => none

-- The counter it leaves. The script writes its number before the answer is made of it.
def Move.counterAfter (counter : Nat) : Move → Nat
  | .allocateSeq => (SequenceFloor.allocateSeq counter).getD counter
  | .allocateSeqWithFloor floor =>
    if floor = 0 then (SequenceFloor.allocateSeq counter).getD counter
    else LuaNumber.ofNat (max (LuaNumber.ofNat counter) (LuaNumber.ofNat floor) + 1)
  | .allocateBatch allocator =>
    (allocator.allocateBatchRange counter).elim counter SequenceRange.end_
  | .lose => 0

def Move.lossesAfter (losses : Nat) : Move → Nat
  | .lose => losses + 1
  | _ => losses

-- A call as it was made: the counter it found, how often that had been lost, and the answer.
structure Entry where
  move : Move
  counter : Nat
  losses : Nat
  numbers : List Nat
  deriving DecidableEq

def history (counter losses : Nat) : List Move → List Entry
  | [] => []
  | move :: rest =>
    ⟨move, counter, losses, (move.numbers counter).getD []⟩ ::
      history (move.counterAfter counter) (move.lossesAfter losses) rest

-- What is promised of the calls of a conversation that begins without a counter.
structure Safe (moves : List Move) : Prop where
  floors : ∀ entry ∈ history 0 0 moves, ∀ floor, entry.move = .allocateSeqWithFloor floor →
    ∀ seq ∈ entry.numbers, floor < seq ∧ seq = seqAfterFloor entry.counter floor
  increasing : (history 0 0 moves).Pairwise fun earlier later =>
    earlier.losses = later.losses → ∀ floor, later.move = .allocateSeqWithFloor floor →
      ∀ before ∈ earlier.numbers, ∀ seq ∈ later.numbers, before < seq
  batches : ∀ entry ∈ history 0 0 moves, ∀ allocator, entry.move = .allocateBatch allocator →
    entry.numbers = [] ∨ ∃ start, entry.numbers = List.range' start allocator.batchSize
  disjoint : (history 0 0 moves).Pairwise fun earlier later =>
    earlier.losses = later.losses →
      (∃ allocator, earlier.move = .allocateBatch allocator ∨
        later.move = .allocateBatch allocator) →
      earlier.numbers.Disjoint later.numbers

-- The numbers of the script are exact for the call.
def Move.Exact (counter : Nat) : Move → Prop
  | .allocateSeqWithFloor floor => floor < 2 ^ 53 ∧ (0 < floor → counter < 2 ^ 53)
  | _ => True

instance (counter : Nat) (move : Move) : Decidable (move.Exact counter) :=
  match move with
  | .allocateSeqWithFloor _ => inferInstanceAs (Decidable (_ ∧ _))
  | .allocateSeq | .allocateBatch _ | .lose => inferInstanceAs (Decidable True)

section Step

variable {counter losses seq floor : Nat} {move : Move}

theorem allocateSeq_eq_some (h : allocateSeq counter = some seq) :
    seq = counter + 1 ∧ seq < 2 ^ 63 := by
  unfold allocateSeq at h
  split at h
  · rename_i hr
    cases h
    exact ⟨rfl, hr⟩
  · cases h

theorem script_exact (hf : floor < 2 ^ 53) (hc : counter < 2 ^ 53) :
    LuaNumber.ofNat (max (LuaNumber.ofNat counter) (LuaNumber.ofNat floor) + 1) =
      max counter floor + 1 := by
  rw [LuaNumber.ofNat_of_le hc.le, LuaNumber.ofNat_of_le hf.le]
  exact LuaNumber.ofNat_of_le (by omega)

theorem allocateSeqWithFloor_eq_some (hea : (Move.allocateSeqWithFloor floor).Exact counter)
    (h : allocateSeqWithFloor counter floor = some seq) :
    seq = max counter floor + 1 ∧ seq < 2 ^ 63 := by
  unfold allocateSeqWithFloor at h
  split at h
  · rename_i hz
    obtain ⟨hs, hr⟩ := allocateSeq_eq_some h
    exact ⟨by rw [hs, hz, Nat.max_zero], hr⟩
  · rename_i hp
    have hf := hea.1
    have hc := hea.2 (by omega)
    rw [script_exact hf hc, LuaNumber.reply_of_le (by omega)] at h
    have hs := (Option.some.inj h).symm
    exact ⟨hs, by omega⟩

theorem allocateBatch_eq_some {allocator : SequenceAllocator} {batch : List Nat}
    (h : allocator.allocateBatch counter = some batch) :
    batch = List.range' (counter + 1) allocator.batchSize ∧ allocator.allocateBatchRange counter =
        some ⟨counter + 1, counter + allocator.batchSize⟩ := by
  unfold SequenceAllocator.allocateBatch SequenceAllocator.allocateBatchRange at *
  split at h
  · rename_i hr
    rw [if_pos hr]
    simp only [Option.map_some, Option.some.injEq, Nat.add_sub_cancel] at h ⊢
    have hl : counter + allocator.batchSize + 1 - (counter + 1) = allocator.batchSize := by
      omega
    rw [hl] at h
    exact ⟨h.symm, trivial⟩
  · cases h

theorem counter_le_incr : counter ≤ (allocateSeq counter).getD counter := by
  cases hs : allocateSeq counter with
  | none => exact Nat.le_refl _
  | some seq =>
    have := (allocateSeq_eq_some hs).1
    rw [Option.getD_some]
    omega

theorem counterAfter_script (hea : (Move.allocateSeqWithFloor floor).Exact counter)
    (hp : floor ≠ 0) :
    (Move.allocateSeqWithFloor floor).counterAfter counter = max counter floor + 1 := by
  rw [← script_exact hea.1 (hea.2 (by omega))]
  exact if_neg hp

theorem counter_le_after (hea : move.Exact counter) (hk : move ≠ .lose) :
    counter ≤ move.counterAfter counter := by
  cases move with
  | allocateSeq => exact counter_le_incr
  | allocateSeqWithFloor floor =>
    by_cases hz : floor = 0
    · subst hz
      exact counter_le_incr
    · rw [counterAfter_script hea hz]
      omega
  | allocateBatch allocator =>
    simp only [Move.counterAfter, SequenceAllocator.allocateBatchRange]
    split
    · exact Nat.le_add_right _ _
    · exact Nat.le_refl _
  | lose => exact absurd rfl hk

theorem numbers_between (hea : move.Exact counter) (hs : seq ∈ (move.numbers counter).getD []) :
    counter < seq ∧ seq ≤ move.counterAfter counter := by
  cases hn : move.numbers counter with
  | none => exact absurd (hn ▸ hs) List.not_mem_nil
  | some numbers =>
    rw [hn] at hs
    cases move with
    | allocateSeq =>
      obtain ⟨drawn, hdr, ho⟩ := Option.map_eq_some_iff.mp hn
      rw [← ho] at hs
      have hs := List.mem_singleton.mp hs
      have := (allocateSeq_eq_some hdr).1
      simp only [Move.counterAfter, hdr, Option.getD_some]
      omega
    | allocateSeqWithFloor floor =>
      obtain ⟨drawn, hdr, ho⟩ := Option.map_eq_some_iff.mp hn
      rw [← ho] at hs
      have hs := List.mem_singleton.mp hs
      have ha := (allocateSeqWithFloor_eq_some hea hdr).1
      by_cases hz : floor = 0
      · subst hz
        simp only [Move.counterAfter, if_true]
        rw [allocateSeqWithFloor, if_pos rfl] at hdr
        rw [hdr, Option.getD_some]
        omega
      · rw [counterAfter_script hea hz]
        omega
    | allocateBatch allocator =>
      obtain ⟨hb, hr⟩ := allocateBatch_eq_some hn
      rw [Option.getD_some, hb, List.mem_range'_1] at hs
      simp only [Move.counterAfter, hr, Option.elim_some]
      omega
    | lose => cases hn

end Step

section History

variable {counter losses : Nat} {moves : List Move} {entry : Entry}

theorem entry_numbers (h : entry ∈ history counter losses moves) :
    entry.numbers = (entry.move.numbers entry.counter).getD [] := by
  induction moves generalizing counter losses with
  | nil => cases h
  | cons move rest ih =>
    rcases List.mem_cons.mp h with heq | hr
    · rw [heq]
    · exact ih hr

theorem losses_le (h : entry ∈ history counter losses moves) : losses ≤ entry.losses := by
  induction moves generalizing counter losses with
  | nil => cases h
  | cons move rest ih =>
    rcases List.mem_cons.mp h with heq | hr
    · rw [heq]
    · have hle := ih hr
      cases move with
      | lose => exact Nat.le_of_succ_le hle
      | allocateSeq | allocateSeqWithFloor floor | allocateBatch allocator => exact hle

theorem counter_lt_numbers
    (hea : ∀ entry ∈ history counter losses moves, entry.move.Exact entry.counter)
    (h : entry ∈ history counter losses moves) (hk : entry.losses = losses) :
    ∀ seq ∈ entry.numbers, counter < seq := by
  induction moves generalizing counter losses with
  | nil => cases h
  | cons move rest ih =>
    have hh : move.Exact counter := hea _ List.mem_cons_self
    rcases List.mem_cons.mp h with heq | hr
    · intro seq hs
      rw [heq] at hs
      exact (numbers_between hh hs).1
    · intro seq hs
      by_cases hl : move = .lose
      · subst hl
        have hle : losses + 1 ≤ entry.losses := losses_le hr
        omega
      · have hsa : move.lossesAfter losses = losses := by
          cases move with
          | lose => exact absurd rfl hl
          | allocateSeq | allocateSeqWithFloor floor | allocateBatch allocator => rfl
        have ha := ih (fun entry hen => hea entry (List.mem_cons_of_mem _ hen))
          hr (hk.trans hsa.symm) seq hs
        exact Nat.lt_of_le_of_lt (counter_le_after hh hl) ha

-- Between two losses the numbers increase from call to call, whatever the calls are.
theorem history_increasing
    (hea : ∀ entry ∈ history counter losses moves, entry.move.Exact entry.counter) :
    (history counter losses moves).Pairwise fun earlier later =>
      earlier.losses = later.losses →
        ∀ before ∈ earlier.numbers, ∀ seq ∈ later.numbers, before < seq := by
  induction moves generalizing counter losses with
  | nil => exact List.Pairwise.nil
  | cons move rest ih =>
    have hr : ∀ entry ∈ history (move.counterAfter counter) (move.lossesAfter losses) rest,
        entry.move.Exact entry.counter :=
      fun entry hen => hea entry (List.mem_cons_of_mem _ hen)
    refine List.Pairwise.cons ?_ (ih hr)
    intro later hl hs before hb seq hse
    have hh : move.Exact counter := hea _ List.mem_cons_self
    have hle := (numbers_between hh hb).2
    have hk : later.losses = move.lossesAfter losses := by
      have hlo := losses_le hl
      cases move with
      | lose => cases hb
      | allocateSeq | allocateSeqWithFloor floor | allocateBatch allocator => exact hs.symm
    exact Nat.lt_of_le_of_lt hle (counter_lt_numbers hr hl hk seq hse)

-- Whatever the calls are and however often the counter is lost, the promises are kept as long as
-- the floors are below 2^53 and each that is not zero finds a counter below 2^53.
theorem safe_of_exact (moves : List Move)
    (hexact : ∀ entry ∈ history 0 0 moves, entry.move.Exact entry.counter) : Safe moves := by
  have hincreasing := history_increasing hexact
  refine ⟨?_, ?_, ?_, ?_⟩
  · intro entry hentry floor hmove seq hseq
    have hfit := hexact entry hentry
    rw [entry_numbers hentry, hmove] at hseq
    rw [hmove] at hfit
    cases hnumber : allocateSeqWithFloor entry.counter floor with
    | none => simp [Move.numbers, hnumber] at hseq
    | some drawn =>
      simp only [Move.numbers, hnumber, Option.map_some, Option.getD_some,
        List.mem_singleton] at hseq
      obtain ⟨hdrawn, hsmall⟩ := allocateSeqWithFloor_eq_some hfit hnumber
      unfold seqAfterFloor
      omega
  · exact hincreasing.imp fun h hsame floor hmove => h hsame
  · intro entry hentry allocator hmove
    rw [entry_numbers hentry, hmove]
    cases hbatch : allocator.allocateBatch entry.counter with
    | none => exact .inl (by simp [Move.numbers, hbatch])
    | some batch =>
      refine .inr ⟨entry.counter + 1, ?_⟩
      rw [Move.numbers, hbatch]
      exact (allocateBatch_eq_some hbatch).1
  · refine hincreasing.imp fun h hsame hbatch seq hearlier hlater => ?_
    exact Nat.lt_irrefl seq (h hsame seq hearlier seq hlater)

-- Two losses between calls of all kinds.
theorem floors_after_losses_safe :
    Safe [.allocateSeq, .allocateBatch (.new 3), .allocateSeqWithFloor 2, .lose,
      .allocateSeqWithFloor 5, .allocateBatch (.new 0), .lose, .allocateSeq] :=
  safe_of_exact _ (by decide +kernel)

-- The largest floor leaves the counter at 2^53, which the next script answers again. And a batch
-- after a loss begins at the first number again.
theorem number_is_returned_twice :
    (history 0 0 [.allocateSeqWithFloor (2 ^ 53 - 1), .allocateSeqWithFloor 1]).map
        Entry.numbers = [[2 ^ 53], [2 ^ 53]] ∧
      seqAfterFloor (2 ^ 53) 1 ≠ 2 ^ 53 ∧
      ¬ Safe [.allocateSeqWithFloor (2 ^ 53 - 1), .allocateSeqWithFloor 1] ∧
      (history 0 0 [.allocateBatch (.new 2), .lose, .allocateBatch (.new 2)]).map
        Entry.numbers = [[1, 2], [], [1, 2]] := by
  refine ⟨by decide +kernel, by decide, fun h => ?_, by decide +kernel⟩
  have hhistory : history 0 0 [.allocateSeqWithFloor (2 ^ 53 - 1), .allocateSeqWithFloor 1] =
      [⟨.allocateSeqWithFloor (2 ^ 53 - 1), 0, 0, [2 ^ 53]⟩,
        ⟨.allocateSeqWithFloor 1, 2 ^ 53, 0, [2 ^ 53]⟩] := by decide +kernel
  have hincreasing := h.increasing
  rw [hhistory, List.pairwise_pair] at hincreasing
  exact Nat.lt_irrefl _ (hincreasing rfl 1 rfl _ List.mem_cons_self _ List.mem_cons_self)

end History

end FlareIm.SequenceFloor
