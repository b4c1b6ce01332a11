import FlareIm.SnapshotPaging
import Mathlib.Tactic.SplitIfs

namespace FlareIm.SnapshotPaging

open Text DecimalText Keyset

-- The conversations of a user's list. Their update times are numbers of 64 bits.
structure Conversations where
  rows : List ConversationRow
  nodup : (rows.map (·.conversationId)).Nodup
  inRange : ∀ row ∈ rows, -2 ^ 63 ≤ timestampMillis row.effectiveUpdatedAt ∧
    timestampMillis row.effectiveUpdatedAt < 2 ^ 63

section Listing

def protoRow (row : ConversationRow) : ProtoConversationSummary := protoSummary (summaryOf row)

def listed (row : ConversationRow) : SnapshotConversationRow := snapshotRow (protoRow row)

def rowKey (row : ConversationRow) : Key :=
  toLex (timestampMillis row.effectiveUpdatedAt, row.conversationId)

-- The conversations a request asks for: the valid ones, unless it names some.
def Wanted (req : SyncSnapshotSync) (row : ConversationRow) : Prop :=
  validSyncConversationId row.conversationId ∧
    (req.conversationIds = [] ∨ row.conversationId ∈ req.conversationIds)

instance (req : SyncSnapshotSync) : DecidablePred (Wanted req) := fun row =>
  inferInstanceAs (Decidable (validSyncConversationId row.conversationId = true ∧
    (req.conversationIds = [] ∨ row.conversationId ∈ req.conversationIds)))

-- All conversations a request asks for, in its order.
def listing (req : SyncSnapshotSync) (rows : List ConversationRow) : List ConversationRow :=
  inOrder (Before req.newestFirst) rowKey (rows.filter (Wanted req))

def pageCursor (req : SyncSnapshotSync) : Option Key :=
  (parseSnapshotCursor req.snapshotCursor).map toLex

def pageRows (req : SyncSnapshotSync) (rows : List ConversationRow) : List ConversationRow :=
  beyond (Before req.newestFirst) rowKey (pageCursor req) (listing req rows)

-- The page of a request, of the conversations themselves.
def listedPage (req : SyncSnapshotSync) (rows : List ConversationRow) :
    Page String SnapshotConversationRow :=
  let shown := (pageRows req rows).take (pageLimit req)
  { rows := shown.map listed
    next := match shown.getLast? with
      | some row => buildSnapshotCursor (timestampMillis row.effectiveUpdatedAt)
          row.conversationId
      | none => ""
    hasMore := pageLimit req < (pageRows req rows).length }

instance (newestFirst : Bool) : IsStrictTotalOrder Key (Before newestFirst) := by
  cases newestFirst with
  | false => exact inferInstanceAs (IsStrictTotalOrder Key fun a b => a < b)
  | true => exact inferInstanceAs (IsStrictTotalOrder Key fun a b => b < a)

variable {row : ConversationRow} {rows : List ConversationRow} {req : SyncSnapshotSync}

theorem timestampMillis_mono {a b : Int} (h : a ≤ b) : timestampMillis a ≤ timestampMillis b := by
  unfold timestampMillis
  omega

theorem tail_le {at' : Int} (h : row.tail = some at') : at' ≤ row.effectiveUpdatedAt := by
  have ht : row.tail.getD row.updatedAt = at' := by
    rw [h]
    rfl
  unfold ConversationRow.effectiveUpdatedAt
  rw [ht]
  exact le_max_of_le_right (le_max_right _ _)

@[simp] theorem protoRow_conversationId : (protoRow row).conversationId = row.conversationId := rfl

-- The last message is part of the effective time, so the list shows that.
@[simp] theorem protoRow_updatedAt :
    (protoRow row).updatedAt = timestampMillis row.effectiveUpdatedAt := by
  cases ht : row.tail with
  | none => simp [protoRow, protoSummary, summaryOf, ht, laterOf]
  | some at' =>
    have hle := timestampMillis_mono (tail_le ht)
    simp [protoRow, protoSummary, summaryOf, ht, laterOf, hle]

@[simp] theorem keyOf_protoRow : keyOf (protoRow row) = rowKey row := by
  simp [keyOf, rowKey]

theorem nodup_rowKey (h : (rows.map (·.conversationId)).Nodup) : (rows.map rowKey).Nodup := by
  refine List.Nodup.of_map (fun key : Key => (ofLex key).2) ?_
  rw [List.map_map]
  exact h

theorem mem_listing : row ∈ listing req rows ↔ row ∈ rows ∧ Wanted req row := by
  simp [listing, mem_inOrder]

theorem perm_listing : (listing req rows).Perm (rows.filter (Wanted req)) := perm_inOrder

theorem pairwise_listing (h : (rows.map (·.conversationId)).Nodup) : (listing req rows).Pairwise
      fun a b => Before req.newestFirst (rowKey a) (rowKey b) :=
  pairwise_inOrder ((nodup_rowKey h).sublist (List.filter_sublist.map rowKey))

end Listing

section Covers

-- An answer that a page can be made of: rows of the list, each at most once, and all of those
-- that the page may show.
structure Covers (req : SyncSnapshotSync) (rows : List ConversationRow)
    (resp : List ProtoConversationSummary) : Prop where
  nodup : (resp.map (·.conversationId)).Nodup
  fromRows : ∀ bootstrap ∈ resp, ∃ row ∈ rows, bootstrap = protoRow row
  covers : ∀ row ∈ pageRows req rows, protoRow row ∈ resp

variable {req : SyncSnapshotSync} {rows : List ConversationRow}
  {resp : List ProtoConversationSummary}

def Kept (req : SyncSnapshotSync) (bootstrap : ProtoConversationSummary) : Bool :=
  validSyncConversationId bootstrap.conversationId &&
    (req.conversationIds = [] || bootstrap.conversationId ∈ req.conversationIds)

theorem kept_protoRow {row : ConversationRow} : Kept req (protoRow row) ↔ Wanted req row := by
  rw [Kept, Wanted, Bool.and_eq_true, Bool.or_eq_true, decide_eq_true_iff, decide_eq_true_iff]
  rfl

theorem foldl_index {index resp : List ProtoConversationSummary}
    (h : ((index ++ resp).map (·.conversationId)).Nodup) :
    resp.foldl (fun index bootstrap =>
      index.filter (·.conversationId ≠ bootstrap.conversationId) ++ [bootstrap]) index =
      index ++ resp := by
  induction resp generalizing index with
  | nil => simp
  | cons bootstrap rest ih =>
    have hf : index.filter (·.conversationId ≠ bootstrap.conversationId) = index := by
      refine List.filter_eq_self.mpr fun other ho => ?_
      rw [List.map_append, List.nodup_append] at h
      have hne := h.2.2 _ (List.mem_map_of_mem ho) bootstrap.conversationId (by simp)
      simpa using hne
    rw [List.foldl_cons, hf, ih (by simpa using h), List.append_assoc, List.singleton_append]

theorem candidateIndex_of_nodup (h : (resp.map (·.conversationId)).Nodup) :
    candidateIndex req resp = resp.filter (Kept req) := by
  have hn : (([] ++ resp.filter (Kept req) : List ProtoConversationSummary).map
      (·.conversationId)).Nodup := h.sublist (List.filter_sublist.map _)
  exact foldl_index hn

theorem find?_of_mem {bootstrap : ProtoConversationSummary}
    (h : (resp.map (·.conversationId)).Nodup) (hm : bootstrap ∈ resp) :
    resp.find? (·.conversationId = bootstrap.conversationId) = some bootstrap := by
  obtain ⟨found, hf⟩ : ∃ found,
      resp.find? (·.conversationId = bootstrap.conversationId) = some found :=
    Option.isSome_iff_exists.mp (List.find?_isSome.mpr ⟨bootstrap, hm, by simp⟩)
  have hid : found.conversationId = bootstrap.conversationId := by
    simpa using List.find?_some hf
  rw [hf, List.inj_on_of_nodup_map h (List.mem_of_find?_eq_some hf) hm hid]

theorem Covers.mem_index (h : Covers req rows resp) {row : ConversationRow}
    (hr : row ∈ pageRows req rows) : protoRow row ∈ candidateIndex req resp := by
  have hw := (mem_listing.mp (mem_beyond.mp hr).1).2
  rw [candidateIndex_of_nodup h.nodup]
  exact List.mem_filter.mpr ⟨h.covers row hr, kept_protoRow.mpr hw⟩

theorem Covers.pageKeys (h : Covers req rows resp) (hro : (rows.map (·.conversationId)).Nodup) :
    beyond (Before req.newestFirst) id (pageCursor req)
        (inOrder (Before req.newestFirst) id ((candidateIndex req resp).map keyOf)) =
      (pageRows req rows).map rowKey := by
  have hin := @candidateIndex_of_nodup req resp h.nodup
  have hids : ((candidateIndex req resp).map (·.conversationId)).Nodup := by
    rw [hin]
    exact h.nodup.sublist (List.filter_sublist.map _)
  have hk : (((candidateIndex req resp).map keyOf).map id).Nodup := by
    rw [List.map_id]
    refine List.Nodup.of_map (fun key : Key => (ofLex key).2) ?_
    rw [List.map_map]
    exact hids
  refine eq_of_mem_iff ((pairwise_inOrder hk).sublist beyond_sublist) ?_ fun key => ?_
  · exact List.pairwise_map.mpr ((pairwise_listing hro).sublist beyond_sublist)
  · rw [mem_beyond, mem_inOrder, List.mem_map, List.mem_map]
    constructor
    · rintro ⟨⟨bootstrap, hm, rfl⟩, hb⟩
      rw [hin] at hm
      obtain ⟨hre, hke⟩ := List.mem_filter.mp hm
      obtain ⟨row, hr, rfl⟩ := h.fromRows bootstrap hre
      rw [keyOf_protoRow] at hb ⊢
      refine ⟨row, mem_beyond.mpr ⟨?_, hb⟩, rfl⟩
      exact mem_listing.mpr ⟨hr, kept_protoRow.mp hke⟩
    · rintro ⟨row, hr, rfl⟩
      exact ⟨⟨protoRow row, h.mem_index hr, keyOf_protoRow⟩, (mem_beyond.mp hr).2⟩

theorem Covers.page (h : Covers req rows resp) (hro : (rows.map (·.conversationId)).Nodup) :
    snapshotPage req resp = listedPage req rows := by
  have hids : ((candidateIndex req resp).map (·.conversationId)).Nodup := by
    rw [candidateIndex_of_nodup h.nodup]
    exact h.nodup.sublist (List.filter_sublist.map _)
  have hfi : ∀ row ∈ (pageRows req rows).take (pageLimit req),
      ((candidateIndex req resp).find? (·.conversationId = row.conversationId)).map snapshotRow =
        some (listed row) := by
    intro row hr
    have hm := h.mem_index (List.mem_of_mem_take hr)
    have hf := find?_of_mem hids hm
    rw [protoRow_conversationId] at hf
    rw [hf]
    rfl
  have hl : (((pageRows req rows).take (pageLimit req)).map rowKey).getLast? =
      ((pageRows req rows).take (pageLimit req)).getLast?.map rowKey := List.getLast?_map
  simp only [snapshotPage]
  rw [show (parseSnapshotCursor req.snapshotCursor).map toLex = pageCursor req from rfl,
    h.pageKeys hro, ← List.map_take, hl, List.filterMap_map, List.length_map, listedPage]
  congr 1
  · refine (List.filterMap_congr hfi).trans ?_
    exact congrFun List.filterMap_eq_map _
  · cases ((pageRows req rows).take (pageLimit req)).getLast? <;> rfl

end Covers

end FlareIm.SnapshotPaging
