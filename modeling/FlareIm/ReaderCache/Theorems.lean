import FlareIm.ReaderCache
import Mathlib.Data.List.Perm.Subperm

namespace FlareIm.ReaderCache

open ConversationSync (ContentVisibility isBackfillTailPage)
open List (length_take mem_cons mem_cons_self mem_filter mem_of_mem_take mem_reverse not_mem_nil pairwise_cons take_sublist)

variable {row other oldest : Row} {members rows rest : List Row}

section Invariant

variable {content : Content} {cache : Cache} {command : Command}

-- What is in the cache is stored, and the tail is in the order of its numbers.
structure Inv (content : Content) (cache : Cache) : Prop where
  tail_stored : ∀ row ∈ cache.tail, row ∈ content.rows
  tail_ascending : cache.tail.Pairwise fun row other => row.seq < other.seq
  range_stored : ∀ key, ∀ row ∈ cache.range key, row ∈ content.rows
  range_nodup : ∀ key, (cache.range key).Nodup

theorem eq_of_seq_eq (hr : row ∈ content.rows) (ho : other ∈ content.rows)
    (h : row.seq = other.seq) : row = other :=
  Listing.eq_of_number_eq content.ascending hr ho h

theorem byTime_stored {startTime endTime limit : Int}
    (h : row ∈ content.byTime startTime endTime limit) : row ∈ content.rows := by
  have hs := mem_of_mem_take (mem_reverse.mp h)
  rw [List.mem_insertionSort] at hs
  exact (mem_filter.mp hs).1

theorem mem_foldl_addMember :
    row ∈ rows.foldl addMember members ↔ row ∈ members ∨ row ∈ rows := by
  induction rows generalizing members with
  | nil => simp
  | cons first rest ih =>
    rw [List.foldl_cons, ih, addMember]
    split
    · rename_i hm
      rw [mem_cons]
      constructor
      · rintro (h | h)
        · exact .inl h
        · exact .inr (.inr h)
      · rintro (h | rfl | h)
        · exact .inl h
        · exact .inl hm
        · exact .inr h
    · rw [mem_cons, mem_cons]
      tauto

theorem nodup_foldl_addMember (h : members.Nodup) : (rows.foldl addMember members).Nodup := by
  induction rows generalizing members with
  | nil => exact h
  | cons first rest ih =>
    refine ih ?_
    unfold addMember
    split
    · exact h
    · rename_i hn
      exact List.nodup_cons.mpr ⟨hn, h⟩

theorem ordered_insert_ascending {tail : List Row}
    (h : tail.Pairwise fun row other => row.seq < other.seq)
    (hne : ∀ other ∈ tail, other.seq ≠ row.seq) :
    (tail.orderedInsert (fun row other => row.seq ≤ other.seq) row).Pairwise
      fun row other => row.seq < other.seq := by
  induction tail with
  | nil => exact List.pairwise_singleton _ _
  | cons first rest ih =>
    obtain ⟨hf, hr⟩ := pairwise_cons.mp h
    have ho := hne first mem_cons_self
    rw [List.orderedInsert_cons]
    split
    · rename_i hle
      refine pairwise_cons.mpr ⟨fun other hm => ?_, h⟩
      rcases mem_cons.mp hm with rfl | hl
      · omega
      · have := hf other hl
        omega
    · rename_i hlt
      refine pairwise_cons.mpr ⟨fun other hm => ?_, ?_⟩
      · rcases (List.mem_orderedInsert _).mp hm with rfl | hl
        · omega
        · exact hf other hl
      · exact ih hr fun other hm => hne other (List.mem_cons_of_mem _ hm)

theorem Inv.withEntry (h : Inv content cache) (entry : String → Option ContentVisibility) :
    Inv content { cache with entry } :=
  ⟨h.tail_stored, h.tail_ascending, h.range_stored, h.range_nodup⟩

theorem Inv.withTail (h : Inv content cache) {tail : List Row}
    (hs : ∀ row ∈ tail, row ∈ content.rows)
    (ha : tail.Pairwise fun row other => row.seq < other.seq) :
    Inv content { cache with tail } :=
  ⟨hs, ha, h.range_stored, h.range_nodup⟩

theorem Inv.withRange (h : Inv content cache) (key : Int × Int)
    (hs : ∀ row ∈ members, row ∈ content.rows) (hn : members.Nodup) :
    Inv content { cache with range := Function.update cache.range key members } := by
  refine ⟨h.tail_stored, h.tail_ascending, fun other row hm => ?_, fun other => ?_⟩
  · simp only [Function.update_apply] at hm
    split at hm
    · exact hs row hm
    · exact h.range_stored other row hm
  · simp only [Function.update_apply]
    split
    · exact hn
    · exact h.range_nodup other

theorem step_inv (h : Inv content cache) : Inv content (step content cache command) := by
  cases command with
  | setHot row =>
    simp only [step]
    split
    · exact h.withEntry _
    · exact h
  | addTail row =>
    simp only [step]
    split
    · rename_i hn
      obtain ⟨hs, hn⟩ := hn
      refine h.withTail (fun other hm => ?_) ?_
      · rcases (List.mem_orderedInsert _).mp hm with rfl | hold
        · exact hs
        · exact h.tail_stored other hold
      · refine ordered_insert_ascending h.tail_ascending fun other hm hse => hn ?_
        exact eq_of_seq_eq (h.tail_stored other hm) hs hse ▸ hm
    · exact h
  | trimTail tailLimit =>
    exact h.withTail (fun row hm => h.tail_stored row (List.mem_of_mem_drop hm))
      (h.tail_ascending.sublist (List.drop_sublist _ _))
  | cacheMessages startTime endTime limit | expireMessage serverId => exact h.withEntry _
  | indexMessages startTime endTime limit =>
    refine h.withRange _ (fun row hm => ?_) (nodup_foldl_addMember (h.range_nodup _))
    rcases mem_foldl_addMember.mp hm with hold | hf
    · exact h.range_stored _ row hold
    · exact byTime_stored (mem_filter.mp hf).1
  | expireTail => exact h.withTail (fun row hm => absurd hm not_mem_nil) List.Pairwise.nil
  | expireRange key =>
    exact h.withRange key (fun row hm => absurd hm not_mem_nil) List.nodup_nil

theorem run_inv (content : Content) (commands : List Command) :
    Inv content (run content commands) := by
  have hf : ∀ cache, Inv content cache → Inv content (commands.foldl (step content) cache) := by
    induction commands with
    | nil => exact fun cache h => h
    | cons command rest ih => exact fun cache h => ih _ (step_inv h)
  refine hf emptyCache ⟨?_, List.Pairwise.nil, ?_, fun key => List.nodup_nil⟩
  · exact fun row hm => absurd hm not_mem_nil
  · exact fun key row hm => absurd hm not_mem_nil

end Invariant

section Listed

variable {content : Content} {cache : Cache} {placeholder : Bool} {listed found : List Row}

-- A member whose entry is there and shows its content.
def Cache.shows (cache : Cache) (row : Row) : Bool :=
  cache.entry row.serverId == some .available

end Listed

section Tail

variable {content : Content} {cache : Cache} {afterSeq : Int} {beforeSeq : Option Int} {limit : Int}
  {placeholder : Bool}

-- What the tail has to hold for an answer from it: the first messages after the cursor, all of
-- them when the read goes back from its end, and entries that show them.
structure TailCovers (content : Content) (cache : Cache) (afterSeq : Int) (beforeSeq : Option Int)
    (limit : Int) : Prop where
  stored : ∀ row ∈ (content.window afterSeq beforeSeq).take (clampLimit limit), row ∈ cache.tail
  whole : isBackfillTailPage afterSeq beforeSeq = true →
    (content.window afterSeq beforeSeq).length ≤ clampLimit limit
  shown : ∀ row ∈ cache.tailWindow afterSeq beforeSeq limit, cache.shows row = true

-- The tail answers when it begins at the cursor or before, has members between the cursors, and
-- the entries of those that are asked for.
def Cache.TailAnswers (cache : Cache) (afterSeq : Int) (beforeSeq : Option Int) (limit : Int) :
    Prop :=
  (∃ oldest ∈ cache.tail.head?, (oldest.seq : Int) - 1 ≤ afterSeq) ∧
    cache.tailWindow afterSeq beforeSeq limit ≠ [] ∧
    ∀ row ∈ cache.tailWindow afterSeq beforeSeq limit, (cache.entry row.serverId).isSome = true

theorem clampLimit_pos (limit : Int) : 0 < clampLimit limit := by
  unfold clampLimit
  omega

end Tail

section Range

variable {content : Content} {cache : Cache} {startTime endTime limit : Int} {placeholder : Bool}

-- What the members of a range have to be for an answer from them: those that show their content
-- are the newest messages of the times asked for and no others, these stand in the order of their
-- scores, and no placeholder is asked for one that does not.
structure RangeCovers (content : Content) (cache : Cache) (startTime endTime limit : Int)
    (placeholder : Bool) : Prop where
  members : ∀ row, row ∈ content.byTime startTime endTime limit ↔
    row ∈ cache.rangeMembers startTime endTime limit ∧ cache.shows row = true
  ordered : (content.byTime startTime endTime limit).Pairwise byScore
  plain : placeholder = true → ∀ row ∈ cache.rangeMembers startTime endTime limit,
    ∀ visibility, cache.entry row.serverId = some visibility → visibility = .available

theorem byScore_total (row other : Row) : byScore row other ∨ byScore other row := by
  unfold byScore
  rcases lt_trichotomy row.createdAt other.createdAt with h | h | h
  · exact .inl (.inl h)
  · rcases le_total row.serverId other.serverId with hle | hle
    · exact .inl (.inr ⟨h, hle⟩)
    · exact .inr (.inr ⟨h.symm, hle⟩)
  · exact .inr (.inl h)

theorem byScore_trans {first last : Row} (h : byScore first row) (h' : byScore row last) :
    byScore first last := by
  rcases h with hlt | ⟨heq, hle⟩
  · rcases h' with hlt' | ⟨heq', -⟩
    · exact .inl (hlt.trans hlt')
    · exact .inl (heq' ▸ hlt)
  · rcases h' with hlt' | ⟨heq', hle'⟩
    · exact .inl (heq ▸ hlt')
    · exact .inr ⟨heq.trans heq', hle.trans hle'⟩

instance : Std.Total byScore := ⟨byScore_total⟩

instance : IsTrans Row byScore := ⟨fun _ _ _ => byScore_trans⟩

end Range

section Reads

-- What a read has to find for its answer to be that of the table.
def Read.Covered (content : Content) (cache : Cache) : Read → Prop
  | .queryMessagesBySeq afterSeq beforeSeq limit _ =>
    cache.TailAnswers afterSeq beforeSeq limit →
      TailCovers content cache afterSeq beforeSeq limit
  | .queryMessages startTime endTime limit placeholder =>
    cache.rangeMembers startTime endTime limit ≠ [] →
      RangeCovers content cache startTime endTime limit placeholder

end Reads

end FlareIm.ReaderCache
