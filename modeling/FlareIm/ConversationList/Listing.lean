import FlareIm.Lib.DecimalText
import FlareIm.Lib.Keyset
import FlareIm.Lib.Listing
import FlareIm.Lib.Text
import Mathlib.Data.String.Basic

namespace FlareIm.ConversationList

open Text DecimalText

section Service

-- A conversation of the user, with the time of its last update in microseconds.
structure ListedConversation where
  conversationId : String
  effectiveUpdatedAt : Int

-- Identifiers are a key of the table, and no conversation is created under a blank one.
structure UserConversations where
  rows : List ListedConversation
  distinct : (rows.map (·.conversationId)).Nodup
  named : ∀ row ∈ rows, isBlank row.conversationId = false
  ranged : ∀ row ∈ rows, -2 ^ 63 ≤ row.effectiveUpdatedAt ∧ row.effectiveUpdatedAt < 2 ^ 63

structure ListSummary where
  conversationId : String
  serverCursorTs : Option Int

def ListedConversation.timestampMillis (row : ListedConversation) : Int :=
  row.effectiveUpdatedAt / 1000

def ListedConversation.summary (row : ListedConversation) : ListSummary :=
  ⟨row.conversationId, some row.timestampMillis⟩

-- The summaries of the rows in the order of the query, sorted by their times in milliseconds.
def bootstrapSummaries (ordered : List ListedConversation) : List ListSummary :=
  (ordered.map (·.summary)).insertionSort fun a b =>
    b.serverCursorTs.getD 0 ≤ a.serverCursorTs.getD 0

def parseCursor (cursor : Option String) : Option Int × String :=
  match cursor.bind fun cursor => splitOnce ':' cursor.toList with
  | some (ts, id) =>
    match parseI64 ts with
    | some parsed => (some parsed, String.ofList id)
    | none => (none, "")
  | none => (none, "")

def isBeyond (pivotTs : Int) (pivotId : String) (summary : ListSummary) : Bool :=
  match summary.serverCursorTs with
  | some ts => decide (ts < pivotTs) || (ts == pivotTs && decide (pivotId < summary.conversationId))
  | none => false

def cursorOf (summary : ListSummary) : Option String :=
  summary.serverCursorTs.map fun ts => toString ts ++ ":" ++ summary.conversationId

def listConversations (bootstrap : List ListSummary) (cursor : Option String) (limit : Int) :
    List ListSummary × Option String × Bool :=
  let summaries := bootstrap.filter fun summary => !isBlank summary.conversationId
  let summaries :=
    match parseCursor cursor with
    | (some pivotTs, pivotId) => summaries.filter (isBeyond pivotTs pivotId)
    | (none, _) => summaries
  let limit := (max limit 1).toNat
  let page := summaries.take limit
  (page, page.getLast?.bind cursorOf, decide (limit < summaries.length))

-- A page of a client that goes on from the cursor it got, while the rows come in some order.
def listPage (limit : Int) (orders : Nat → List ListedConversation) (turn : Nat)
    (cursor : Option String) : Nat × Option (Keyset.Page (Option String) ListSummary) :=
  let (page, next, hasMore) := listConversations (bootstrapSummaries (orders turn)) cursor limit
  (turn + 1, some ⟨page, next, hasMore⟩)

end Service

section Purpose

-- ORDER BY effective_updated_at DESC
def newerFirst (row other : ListedConversation) : Prop :=
  other.effectiveUpdatedAt ≤ row.effectiveUpdatedAt

variable (conversations : UserConversations) (limit : Int)

def UserConversations.InOrder (ordered : List ListedConversation) : Prop :=
  ordered.Perm conversations.rows ∧ ordered.Pairwise newerFirst

-- Whatever the order of rows of one time, a client gets each conversation once.
def ListingComplete : Prop :=
  ∀ orders : Nat → List ListedConversation, (∀ turn, conversations.InOrder (orders turn)) →
    ∃ fuel result, Keyset.drain (listPage limit orders) fuel 0 none = some result ∧
      (result.map (·.conversationId)).Perm (conversations.rows.map (·.conversationId))

-- Where a page ends, of the conversations updated in the millisecond of its last one those on it
-- have smaller identifiers and those after it larger ones.
def EdgesSeparate (ordered : List ListedConversation) : Prop :=
  ∀ front last back, ordered = front ++ last :: back → (max limit 1).toNat ∣ front.length + 1 →
    back ≠ [] →
      (∀ row ∈ front, row.timestampMillis = last.timestampMillis →
        row.conversationId < last.conversationId) ∧
      ∀ row ∈ back, row.timestampMillis = last.timestampMillis →
        last.conversationId < row.conversationId

end Purpose

section Pages

variable {conversations : UserConversations} {limit : Int} {ordered : List ListedConversation}
  {row last : ListedConversation}

-- What the cursor of a row leaves for the next page.
def after (last row : ListedConversation) : Prop :=
  row.timestampMillis < last.timestampMillis ∨
    (row.timestampMillis = last.timestampMillis ∧ last.conversationId < row.conversationId)

instance : DecidableRel after := fun _ _ => inferInstanceAs (Decidable (_ ∨ _ ∧ _))

theorem after_trans (a b c : ListedConversation) (hab : after a b) (hbc : after b c) :
    after a c := by
  rcases hab with hab | ⟨hab, hid⟩
  · rcases hbc with hbc | ⟨hbc, -⟩
    · exact Or.inl (hbc.trans hab)
    · exact Or.inl (hbc ▸ hab)
  · rcases hbc with hbc | ⟨hbc, hid'⟩
    · exact Or.inl (hab ▸ hbc)
    · exact Or.inr ⟨hbc.trans hab, hid.trans hid'⟩

theorem millis_le_of_newer (h : newerFirst row last) :
    last.timestampMillis ≤ row.timestampMillis :=
  Int.ediv_le_ediv (by decide) h

theorem bootstrapSummaries_eq (h : ordered.Pairwise newerFirst) :
    bootstrapSummaries ordered = ordered.map (·.summary) := by
  refine List.Pairwise.insertionSort_eq (List.pairwise_map.mpr (h.imp fun hn => ?_))
  exact millis_le_of_newer hn

theorem parseCursor_cursorOf (hl : -2 ^ 63 ≤ row.effectiveUpdatedAt)
    (hh : row.effectiveUpdatedAt < 2 ^ 63) :
    parseCursor (cursorOf row.summary) = (some row.timestampMillis, row.conversationId) := by
  have ht : (toString row.timestampMillis ++ ":" ++ row.conversationId).toList =
      (toString row.timestampMillis).toList ++ ':' :: row.conversationId.toList := by
    have hc : (":" : String).toList = [':'] := rfl
    simp [String.toList_append, hc]
  have hm : ':' ∉ (toString row.timestampMillis).toList :=
    not_mem_toString (by decide) rfl _
  have hr : -2 ^ 63 ≤ row.timestampMillis ∧ row.timestampMillis < 2 ^ 63 := by
    unfold ListedConversation.timestampMillis
    omega
  simp only [parseCursor, cursorOf, ListedConversation.summary, Option.map_some, Option.bind_some,
    ht, splitOnce_append hm, parseI64_toString hr.1 hr.2, String.ofList_toList]

theorem filter_named (hro : ∀ row ∈ ordered, isBlank row.conversationId = false) :
    (ordered.map (·.summary)).filter (fun summary => !isBlank summary.conversationId) =
      ordered.map (·.summary) := by
  refine List.filter_eq_self.mpr fun summary hs => ?_
  obtain ⟨row, hr, rfl⟩ := List.mem_map.mp hs
  simp [ListedConversation.summary, hro row hr]

theorem isBeyond_summary : isBeyond last.timestampMillis last.conversationId row.summary =
    decide (after last row) := by
  simp only [isBeyond, ListedConversation.summary, after]
  rw [Bool.eq_iff_iff]
  simp

theorem listPage_scan {orders : Nat → List ListedConversation}
    (ho : ∀ turn, conversations.InOrder (orders turn)) {fuel turn : Nat} :
    Keyset.drain (listPage limit orders) fuel turn none =
      (Keyset.drain (Keyset.scan after (max limit 1).toNat orders) fuel turn none).map
        (List.map (·.summary)) := by
  refine Keyset.drain_map ListedConversation.summary (fun turn cursor turn' text => turn = turn' ∧
    ((cursor = none ∧ text = none) ∨ ∃ row ∈ conversations.rows, cursor = some row ∧
      text = cursorOf row.summary)) ?_ ⟨rfl, Or.inl ⟨rfl, rfl⟩⟩
  rintro turn cursor - text ⟨rfl, hat⟩
  obtain ⟨hp, hn⟩ := ho turn
  have hna : ∀ row ∈ orders turn, isBlank row.conversationId = false := fun row hr =>
    conversations.named row (hp.mem_iff.mp hr)
  -- both filter the same rows
  have hs : (match parseCursor text with
      | (some pivotTs, pivotId) => ((orders turn).map (·.summary)).filter (isBeyond pivotTs pivotId)
      | (none, _) => (orders turn).map (·.summary)) =
        (Keyset.beyond after id cursor (orders turn)).map (·.summary) := by
    rcases hat with ⟨rfl, rfl⟩ | ⟨last, hl, rfl, rfl⟩
    · rfl
    · obtain ⟨hlo, hh⟩ := conversations.ranged last hl
      rw [parseCursor_cursorOf hlo hh]
      simp only [List.filter_map, Keyset.beyond, id_eq]
      congr 1
      exact List.filter_congr fun row _ => isBeyond_summary
  refine ⟨turn + 1, _, turn + 1, _, rfl, rfl, ?_, ?_, ?_⟩
  · simp only [bootstrapSummaries_eq hn, filter_named hna]
    rw [hs, List.map_take]
  · simp only [bootstrapSummaries_eq hn, filter_named hna]
    rw [hs, List.length_map]
  · intro hmo
    refine ⟨rfl, Or.inr ?_⟩
    simp only [bootstrapSummaries_eq hn, filter_named hna]
    rw [hs, ← List.map_take, List.getLast?_map]
    cases hl : ((Keyset.beyond after id cursor (orders turn)).take
        (max limit 1).toNat).getLast? with
    | none =>
      have hem := congrArg List.length (List.getLast?_eq_none_iff.mp hl)
      have hmo := of_decide_eq_true hmo
      rw [List.length_take, List.length_nil] at hem
      omega
    | some last =>
      have hm := List.mem_of_mem_take (List.mem_of_getLast? hl)
      exact ⟨last, hp.mem_iff.mp (Keyset.mem_beyond.mp hm).1, rfl, rfl⟩

theorem separated_iff (h : conversations.InOrder ordered) :
    Keyset.Separated after (max limit 1).toNat ordered ↔ EdgesSeparate limit ordered := by
  obtain ⟨hp, hnw⟩ := h
  have hn : (ordered.map (·.conversationId)).Nodup :=
    (hp.map _).nodup_iff.mpr conversations.distinct
  refine forall_congr' fun front => forall_congr' fun last => forall_congr' fun back =>
    imp_congr_right fun hed => imp_congr_right fun _ => imp_congr_right fun _ => ?_
  subst hed
  obtain ⟨-, hl, hfr⟩ := List.pairwise_append.mp hnw
  obtain ⟨hba, -⟩ := List.pairwise_cons.mp hl
  rw [List.map_append, List.map_cons] at hn
  obtain ⟨-, hla, hf⟩ := List.nodup_append'.mp hn
  constructor
  · rintro ⟨hb, hbe⟩
    refine ⟨fun row hr hs => ?_, fun row hr hs => ?_⟩
    · have hno := hb row (List.mem_append_left _ hr)
      have hne : row.conversationId ≠ last.conversationId := fun heq =>
        hf (List.mem_map_of_mem hr) (heq ▸ List.mem_cons_self)
      refine lt_of_le_of_ne (not_lt.mp fun hlt => hno (Or.inr ⟨hs, hlt⟩)) hne
    · rcases hbe row hr with hlt | ⟨-, hlt⟩
      · omega
      · exact hlt
  · rintro ⟨hb, hbe⟩
    refine ⟨fun row hr ha => ?_, fun row hr => ?_⟩
    · rcases List.mem_append.mp hr with hm | hm
      · have hle := millis_le_of_newer (hfr row hm last List.mem_cons_self)
        rcases ha with hlt | ⟨hs, hlt⟩
        · omega
        · exact lt_asymm hlt (hb row hm hs)
      · obtain rfl := List.mem_singleton.mp hm
        rcases ha with hlt | ⟨-, hlt⟩
        · omega
        · exact lt_irrefl _ hlt
    · have hle := millis_le_of_newer (hba row hr)
      rcases hle.lt_or_eq with hlt | hs
      · exact Or.inl hlt
      · exact Or.inr ⟨hs, hbe row hr hs⟩

theorem summary_ids (rows : List ListedConversation) :
    (rows.map (·.summary)).map (·.conversationId) = rows.map (·.conversationId) := by
  simp [ListedConversation.summary]

theorem scan_iff : (∀ orders : Nat → List ListedConversation,
      (∀ turn, conversations.InOrder (orders turn)) → ∃ fuel result,
        Keyset.drain (Keyset.scan after (max limit 1).toNat orders) fuel 0 none = some result ∧
          result.Perm conversations.rows) ↔
    ∀ ordered : List ListedConversation, ordered.Perm conversations.rows →
      ordered.Pairwise newerFirst → Keyset.Separated after (max limit 1).toNat ordered :=
  Keyset.drain_scan_iff (by omega) (List.Nodup.of_map _ conversations.distinct) after_trans

theorem edgesSeparate_of_complete (h : ListingComplete conversations limit)
    (ho : conversations.InOrder ordered) : EdgesSeparate limit ordered := by
  refine (separated_iff ho).mp (scan_iff.mp (fun orders hor => ?_) ordered ho.1 ho.2)
  obtain ⟨fuel, result, hr, hp⟩ := h orders hor
  rw [listPage_scan hor] at hr
  obtain ⟨rows, hdr, rfl⟩ := Option.map_eq_some_iff.mp hr
  rw [summary_ids] at hp
  have hs : rows ⊆ conversations.rows :=
    Keyset.drain_scan_subset (fun turn => (hor turn).1.subset) hdr
  exact ⟨fuel, rows, hdr, Listing.perm_of_map_perm conversations.distinct hs hp⟩

theorem complete_of_edgesSeparate
    (h : ∀ ordered, conversations.InOrder ordered → EdgesSeparate limit ordered) :
    ListingComplete conversations limit := by
  intro orders ho
  obtain ⟨fuel, result, hr, hp⟩ := scan_iff.mpr (fun ordered hp hn =>
    (separated_iff ⟨hp, hn⟩).mpr (h ordered ⟨hp, hn⟩)) orders ho
  refine ⟨fuel, result.map (·.summary), ?_, ?_⟩
  · rw [listPage_scan ho, hr]
    rfl
  · rw [summary_ids]
    exact hp.map _

-- Going through the pages returns each conversation once exactly when no page ends between
-- conversations of one millisecond that are not in the order of their identifiers.
theorem listing_complete_iff (conversations : UserConversations) (limit : Int) :
    ListingComplete conversations limit ↔
      ∀ ordered, conversations.InOrder ordered → EdgesSeparate limit ordered :=
  ⟨fun h _ hordered => edgesSeparate_of_complete h hordered, complete_of_edgesSeparate⟩

-- Of two conversations updated in one millisecond the one with the smaller identifier is lost.
theorem tied_conversation_is_lost :
    ¬ ListingComplete ⟨[⟨"b", 1500⟩, ⟨"a", 1200⟩], by decide, by decide, by decide⟩ 1 := by
  intro h
  have hedges := @edgesSeparate_of_complete _ _ [⟨"b", 1500⟩, ⟨"a", 1200⟩] h
    ⟨List.Perm.refl _, by unfold newerFirst; decide⟩
  have hlater := (hedges [] ⟨"b", 1500⟩ [⟨"a", 1200⟩] rfl (by decide) (by decide)).2 _
    List.mem_cons_self (by decide)
  exact absurd hlater (by decide)

end Pages

end FlareIm.ConversationList
