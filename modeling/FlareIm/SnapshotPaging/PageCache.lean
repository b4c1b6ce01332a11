import FlareIm.SnapshotPaging.Pages

namespace FlareIm.SnapshotPaging

open Text DecimalText Keyset

variable {now : Nat} {tenantId userId : String} {resp : List ProtoConversationSummary}

section Fresh

-- What a snapshot asks the conversation service for.
def freshRead (serviceCap : Nat) (conversations : Conversations) (updatedAfterMs : Int) :
    List ProtoConversationSummary :=
  conversationBootstrap serviceCap conversations.rows updatedAfterMs
    SNAPSHOT_BOOTSTRAP_MAX_CONVERSATIONS

-- The service cuts no list that is within its cap.
def FitsBootstrap (conversations : Conversations) : Prop :=
  (conversations.rows.filter fun row =>
    validConversationSummaryId row.conversationId).length ≤ BOOTSTRAP_HARD_MAX_CONVERSATIONS

instance : DecidablePred FitsBootstrap := fun _ => inferInstanceAs (Decidable (_ ≤ _))

def readRows (rows : List ConversationRow) (updatedAfterMs : Int) : List ConversationRow :=
  rows.filter fun row => validConversationSummaryId row.conversationId &&
    updatedSince (storageBoundary (max updatedAfterMs 0)) row

variable {serviceCap : Nat} {conversations : Conversations} {updatedAfterMs : Int}
  {row : ConversationRow} {req : SyncSnapshotSync}

theorem freshRead_eq : freshRead serviceCap conversations updatedAfterMs =
    ((((readRows conversations.rows updatedAfterMs).map summaryOf).insertionSort
      UnreadFirst).take BOOTSTRAP_HARD_MAX_CONVERSATIONS).map protoSummary := by
  have hr : (loadBootstrap conversations.rows (max updatedAfterMs 0)).filter
      (fun summary => validConversationSummaryId summary.conversationId) =
        (readRows conversations.rows updatedAfterMs).map summaryOf := by
    rw [loadBootstrap, List.filter_map, List.filter_filter]
    rfl
  rw [freshRead, conversationBootstrap, bootstrapConversation, hr]
  rfl

theorem exists_of_mem_freshRead {bootstrap : ProtoConversationSummary}
    (h : bootstrap ∈ freshRead serviceCap conversations updatedAfterMs) :
    ∃ row ∈ conversations.rows, bootstrap = protoRow row := by
  rw [freshRead_eq] at h
  obtain ⟨summary, hs, rfl⟩ := List.mem_map.mp h
  have hm := (List.mem_insertionSort _).mp (List.mem_of_mem_take hs)
  obtain ⟨row, hr, rfl⟩ := List.mem_map.mp hm
  exact ⟨row, List.mem_of_mem_filter hr, rfl⟩

theorem nodup_freshRead :
    ((freshRead serviceCap conversations updatedAfterMs).map (·.conversationId)).Nodup := by
  rw [freshRead_eq, List.map_map]
  refine List.Nodup.sublist ((List.take_sublist _ _).map _) ?_
  refine ((List.perm_insertionSort UnreadFirst _).map _).nodup_iff.mpr ?_
  rw [List.map_map]
  exact conversations.nodup.sublist (List.filter_sublist.map _)

theorem mem_freshRead (hf : FitsBootstrap conversations)
    (h : row ∈ readRows conversations.rows updatedAfterMs) :
    protoRow row ∈ freshRead serviceCap conversations updatedAfterMs := by
  have hl : (readRows conversations.rows updatedAfterMs).length ≤
      BOOTSTRAP_HARD_MAX_CONVERSATIONS := by
    refine Nat.le_trans (List.Sublist.length_le ?_) hf
    exact List.monotone_filter_right _ fun row hr => (Bool.and_eq_true _ _ ▸ hr).1
  rw [freshRead_eq, List.take_of_length_le (by simpa [List.length_insertionSort] using hl)]
  refine List.mem_map_of_mem ((List.mem_insertionSort _).mpr ?_)
  exact List.mem_map_of_mem h

theorem validSummary_of_wanted (h : Wanted req row) :
    validConversationSummaryId row.conversationId = true := by
  have hv := h.1
  simp only [validSyncConversationId, Bool.and_eq_true, bne_iff_ne, ne_eq] at hv
  rw [validConversationSummaryId, (isBlank_eq_false _).mpr hv.1]
  rfl

theorem updatedAfter_pos (h : 0 < updatedAfter req) : req.newestFirst = false ∧
    ∃ ms cid, pageCursor req = some (toLex (ms, cid)) ∧ updatedAfter req = ms - 1 := by
  unfold updatedAfter at h ⊢
  unfold pageCursor
  split_ifs at h ⊢ with hl
  · cases hc : parseSnapshotCursor req.snapshotCursor with
    | none => simp [hc] at h
    | some cursor =>
      obtain ⟨ms, cid⟩ := cursor
      simp only [hc] at h ⊢
      refine ⟨hl.2, ms, cid, rfl, ?_⟩
      omega
  · omega

theorem updatedSince_of_lt {boundary : Option Int}
    (h : ∀ start, boundary = some start → start < row.effectiveUpdatedAt) :
    updatedSince boundary row = true := by
  cases boundary with
  | none => rfl
  | some start =>
    have hlt := h start rfl
    simp only [updatedSince, Bool.or_eq_true, decide_eq_true_eq, List.any_eq_true]
    simp only [ConversationRow.effectiveUpdatedAt, lt_max_iff] at hlt
    rcases hlt with (hu | hj) | hp | ht
    · exact Or.inl (Or.inl (Or.inl hu))
    · exact Or.inl (Or.inl (Or.inr hj))
    · exact Or.inl (Or.inr hp)
    · cases hs : row.tail with
      | none =>
        rw [hs] at ht
        exact Or.inl (Or.inl (Or.inl ht))
      | some at' =>
        rw [hs] at ht
        exact Or.inr ⟨at', row.tail_mem at' hs, ht⟩

theorem storageBoundary_le {start : Int} (h : storageBoundary updatedAfterMs = some start) :
    start = updatedAfterMs * 1000 ∧ 0 < updatedAfterMs := by
  unfold storageBoundary fromTimestampMillis at h
  split_ifs at h with hp
  · exact ⟨(Option.some.inj h).symm, hp⟩

-- The boundary of a page, or any before it, leaves no row out that the page may show.
theorem mem_readRows (hle : updatedAfterMs ≤ updatedAfter req) {rows : List ConversationRow}
    (h : row ∈ pageRows req rows) : row ∈ readRows rows updatedAfterMs := by
  obtain ⟨hl, hbe⟩ := mem_beyond.mp h
  obtain ⟨hr, hw⟩ := mem_listing.mp hl
  refine List.mem_filter.mpr ⟨hr, ?_⟩
  rw [validSummary_of_wanted hw, Bool.true_and]
  refine updatedSince_of_lt fun start hs => ?_
  obtain ⟨rfl, hp⟩ := storageBoundary_le hs
  obtain ⟨hac, ms, cid, hc, ha⟩ : req.newestFirst = false ∧ ∃ ms cid,
      pageCursor req = some (toLex (ms, cid)) ∧ updatedAfter req = ms - 1 :=
    updatedAfter_pos (by omega)
  have hb : toLex (ms, cid) < rowKey row := by
    have hlt := hbe _ hc
    rwa [hac] at hlt
  have hms : ms ≤ timestampMillis row.effectiveUpdatedAt := by
    rcases Prod.Lex.toLex_lt_toLex.mp hb with hlt | ⟨heq, -⟩
    · exact Int.le_of_lt hlt
    · exact Int.le_of_eq heq
  unfold timestampMillis at hms
  omega

theorem covers_freshRead (hf : FitsBootstrap conversations)
    (hle : updatedAfterMs ≤ updatedAfter req) :
    Covers req conversations.rows (freshRead serviceCap conversations updatedAfterMs) where
  nodup := nodup_freshRead
  fromRows _ := exists_of_mem_freshRead
  covers _ hr := mem_freshRead hf (mem_readRows hle hr)

end Fresh

section Calls

abbrev Lists := String → String → Conversations

-- What is put into the cache is what the service answered for the boundary.
inductive CacheCall where
  | put (tenantId userId : String) (updatedAfterMs : Int) (now : Nat)
  | get (tenantId userId : String) (requestedUpdatedAfterMs : Int) (now : Nat)

variable (serviceCap : Nat) (lists : Lists)

def CacheCall.apply (cache : BootstrapPageCache) : CacheCall → BootstrapPageCache
  | .put tenantId userId updatedAfterMs now => cache.put tenantId userId updatedAfterMs
      (freshRead serviceCap (lists tenantId userId) updatedAfterMs) now
  | .get _ _ _ _ => cache

def cacheAfter (ttl : Nat) (calls : List CacheCall) : BootstrapPageCache :=
  calls.foldl (CacheCall.apply serviceCap lists) { ttl }

-- Each entry was put in by one of the calls.
def PutBy (calls : List CacheCall) (cache : BootstrapPageCache) : Prop :=
  ∀ tenantId userId entry, ((tenantId, userId), entry) ∈ cache.inner →
    .put tenantId userId entry.updatedAfterMs entry.storedAt ∈ calls ∧
    entry.resp = freshRead serviceCap (lists tenantId userId) entry.updatedAfterMs

-- What a get gives was put in for the same tenant and user, not too long ago and with no later
-- boundary, and a page made of it is the page of a fresh read.
structure Serving (calls : List CacheCall) (ttl : Nat) (fits : Conversations → Prop)
    (tenantId userId : String) (requested : Int) (now : Nat)
    (resp : List ProtoConversationSummary) : Prop where
  stored : ∃ updatedAfterMs storedAt, .put tenantId userId updatedAfterMs storedAt ∈ calls ∧
    now - storedAt < ttl ∧ updatedAfterMs ≤ requested ∧
    resp = freshRead serviceCap (lists tenantId userId) updatedAfterMs
  page : fits (lists tenantId userId) → ∀ req, updatedAfter req = requested →
    snapshotPage req resp =
      snapshotPage req (freshRead serviceCap (lists tenantId userId) requested)

def Transparent (fits : Conversations → Prop) : Prop :=
  ∀ serviceCap lists ttl calls tenantId userId requested now resp,
    (cacheAfter serviceCap lists ttl calls).get tenantId userId requested now = some resp →
    Serving serviceCap lists calls ttl fits tenantId userId requested now resp

variable {serviceCap lists} {cache : BootstrapPageCache} {calls : List CacheCall}

theorem entry?_mem {key : String × String} {entry : BootstrapCacheEntry}
    (h : cache.entry? key = some entry) : (key, entry) ∈ cache.inner := by
  obtain ⟨⟨key', entry'⟩, hf, rfl⟩ := Option.map_eq_some_iff.mp h
  obtain rfl : key' = key := by simpa using List.find?_some hf
  exact List.mem_of_find?_eq_some hf

theorem makeRoom_subset : ∀ pair ∈ cache.makeRoom now, pair ∈ cache.inner := by
  intro pair hp
  unfold BootstrapPageCache.makeRoom at hp
  simp only at hp
  split_ifs at hp
  · exact absurd hp List.not_mem_nil
  · exact List.mem_of_mem_filter hp
  · exact hp

theorem mem_put {updatedAfterMs : Int}
    {pair : (String × String) × BootstrapCacheEntry}
    (h : pair ∈ (cache.put tenantId userId updatedAfterMs resp now).inner) :
    pair ∈ cache.inner ∨ pair = ((tenantId, userId), ⟨now, updatedAfterMs, resp⟩) := by
  unfold BootstrapPageCache.put at h
  simp only at h
  split_ifs at h
  · exact Or.inl h
  · exact Or.inl (makeRoom_subset pair h)
  · rcases List.mem_cons.mp h with hn | hk
    · exact Or.inr hn
    · exact Or.inl (makeRoom_subset pair (List.mem_of_mem_filter hk))

@[simp] theorem put_ttl {updatedAfterMs : Int} :
    (cache.put tenantId userId updatedAfterMs resp now).ttl = cache.ttl := by
  unfold BootstrapPageCache.put
  simp only
  split_ifs <;> rfl

theorem get_cases {requested : Int} (h : cache.get tenantId userId requested now = some resp) :
    ∃ entry, ((tenantId, userId), entry) ∈ cache.inner ∧ now - entry.storedAt < cache.ttl ∧
      entry.updatedAfterMs ≤ requested ∧ resp = entry.resp := by
  unfold BootstrapPageCache.get at h
  split_ifs at h
  cases hen : cache.entry? (tenantId, userId) with
  | none => simp [hen] at h
  | some entry =>
    simp only [hen] at h
    split_ifs at h with hs
    exact ⟨entry, entry?_mem hen, hs.1, hs.2, (Option.some.inj h).symm⟩

theorem putBy_apply (call : CacheCall) (h : PutBy serviceCap lists calls cache) :
    PutBy serviceCap lists (calls ++ [call]) (call.apply serviceCap lists cache) := by
  intro tenantId userId entry hen
  have hold (hm : ((tenantId, userId), entry) ∈ cache.inner) := h tenantId userId entry hm
  cases call with
  | get =>
    obtain ⟨hc, hr⟩ := hold hen
    exact ⟨List.mem_append_left _ hc, hr⟩
  | put tenant user updatedAfterMs now =>
    rcases mem_put hen with hm | hn
    · obtain ⟨hc, hr⟩ := hold hm
      exact ⟨List.mem_append_left _ hc, hr⟩
    · obtain ⟨hk, rfl⟩ := Prod.mk.inj hn
      cases hk
      exact ⟨List.mem_append_right _ List.mem_cons_self, rfl⟩

theorem putBy_cacheAfter (ttl : Nat) (calls : List CacheCall) :
    PutBy serviceCap lists calls (cacheAfter serviceCap lists ttl calls) ∧
      (cacheAfter serviceCap lists ttl calls).ttl = ttl := by
  induction calls using List.reverseRecOn with
  | nil => exact ⟨fun _ _ _ h => absurd h List.not_mem_nil, rfl⟩
  | append_singleton calls call ih =>
    have ha : cacheAfter serviceCap lists ttl (calls ++ [call]) =
        call.apply serviceCap lists (cacheAfter serviceCap lists ttl calls) := by
      simp [cacheAfter]
    rw [ha]
    refine ⟨putBy_apply call ih.1, ?_⟩
    cases call with
    | get => exact ih.2
    | put => exact put_ttl.trans ih.2

theorem transparent_of_fits : Transparent FitsBootstrap := by
  intro serviceCap lists ttl calls tenantId userId requested now resp hget
  obtain ⟨hputs, httl⟩ := @putBy_cacheAfter serviceCap lists ttl calls
  obtain ⟨entry, hmem, hlive, hle, rfl⟩ := get_cases hget
  obtain ⟨hcall, hresp⟩ := hputs tenantId userId entry hmem
  rw [httl] at hlive
  refine ⟨⟨_, _, hcall, hlive, hle, hresp⟩, fun hfits req hreq => ?_⟩
  have hrows := (lists tenantId userId).nodup
  have hcached : Covers req (lists tenantId userId).rows entry.resp := by
    rw [hresp]
    exact covers_freshRead hfits (hreq ▸ hle)
  have hfresh : Covers req (lists tenantId userId).rows
      (freshRead serviceCap (lists tenantId userId) requested) :=
    covers_freshRead hfits (Int.le_of_eq hreq.symm)
  rw [hcached.page hrows, hfresh.page hrows]

end Calls

section OverTheCap

def unreadRow (n : Nat) : ConversationRow where
  conversationId := String.ofList (List.replicate (n + 1) 'c')
  updatedAt := 0
  joinedAt := 0
  participantUpdatedAt := 0
  messages := []
  tail := none
  tail_mem _ h := absurd h (by simp)
  lastMessageSeq := 1
  lastReadSeq := 0
  unreadCount := 1
  visibleAfterSeq := 0

-- It was updated after all others, and has nothing unread.
def readRow : ConversationRow :=
  { unreadRow 0 with conversationId := "x", updatedAt := 10 ^ 6, unreadCount := 0 }

def unreadRows (count : Nat) : List ConversationRow := (List.range count).map unreadRow

theorem unreadRow_id_inj {n m : Nat} (h : (unreadRow n).conversationId =
    (unreadRow m).conversationId) : n = m := by
  have hl := congrArg (fun id => id.toList.length) h
  simp only [unreadRow, String.toList_ofList, List.length_replicate] at hl
  omega

theorem nodup_unreadRows (count : Nat) : ((unreadRows count).map (·.conversationId)).Nodup := by
  rw [unreadRows, List.map_map]
  exact List.nodup_range.map_on fun n _ m _ h => unreadRow_id_inj h

theorem trim_unreadRow (n : Nat) :
    trim (unreadRow n).conversationId = (unreadRow n).conversationId := by
  refine trim_eq_self fun c hc => ?_
  have hm : c ∈ List.replicate (n + 1) 'c' := by simpa [unreadRow] using hc
  rw [List.eq_of_mem_replicate hm]
  decide

theorem valid_unreadRow (n : Nat) :
    validConversationSummaryId (unreadRow n).conversationId = true := by
  have hm : 'c' ∈ (unreadRow n).conversationId.toList := by simp [unreadRow]
  have hne : trim (unreadRow n).conversationId ≠ "" := by
    rw [trim_unreadRow]
    intro h
    rw [h] at hm
    exact absurd hm (by decide)
  rw [validConversationSummaryId, (isBlank_eq_false _).mpr hne, Bool.not_false]

theorem millis_unreadRow (n : Nat) : timestampMillis (unreadRow n).effectiveUpdatedAt = 0 := rfl

def overfull : Conversations where
  rows := unreadRows 5000 ++ [readRow]
  nodup := by
    rw [List.map_append, List.nodup_append]
    refine ⟨nodup_unreadRows 5000, by simp, fun id hid other hother heq => ?_⟩
    obtain ⟨row, hrow, rfl⟩ := List.mem_map.mp hid
    obtain ⟨n, -, rfl⟩ := List.mem_map.mp hrow
    have hx : 'x' ∈ (unreadRow n).conversationId.toList := by
      rw [heq, List.mem_singleton.mp hother]
      decide
    simp [unreadRow] at hx
  inRange row hrow := by
    rcases List.mem_append.mp hrow with hunread | hread
    · obtain ⟨n, -, rfl⟩ := List.mem_map.mp hunread
      rw [millis_unreadRow]
      decide
    · obtain rfl := List.mem_singleton.mp hread
      decide

theorem freshRead_overfull : freshRead 0 overfull 0 = (unreadRows 5000).map protoRow := by
  have ha : readRows overfull.rows 0 = unreadRows 5000 ++ [readRow] := by
    refine List.filter_eq_self.mpr fun row hr => ?_
    rcases List.mem_append.mp hr with hu | hre
    · obtain ⟨n, -, rfl⟩ := List.mem_map.mp hu
      rw [valid_unreadRow]
      rfl
    · obtain rfl := List.mem_singleton.mp hre
      decide
  have hor : ((unreadRows 5000 ++ [readRow]).map summaryOf).Pairwise UnreadFirst := by
    refine List.pairwise_map.mpr (List.pairwise_append.mpr ⟨?_, by simp, ?_⟩)
    · refine List.pairwise_map.mpr (List.pairwise_of_forall fun n m => ?_)
      exact Or.inr ⟨rfl, Int.le_refl _⟩
    · intro row hr other ho
      obtain ⟨n, -, rfl⟩ := List.mem_map.mp hr
      obtain rfl := List.mem_singleton.mp ho
      have hu : (0 : Int) < 1 := by omega
      exact Or.inl hu
  have hl : ((unreadRows 5000).map summaryOf).length = BOOTSTRAP_HARD_MAX_CONVERSATIONS := by
    simp [unreadRows, BOOTSTRAP_HARD_MAX_CONVERSATIONS]
  rw [freshRead_eq, ha, hor.insertionSort_eq, List.map_append, ← hl, List.take_left, List.map_map]
  rfl

theorem freshRead_overfull_since : freshRead 0 overfull 999 = [protoRow readRow] := by
  have ho : readRows overfull.rows 999 = [readRow] := by
    have hn : readRows (unreadRows 5000) 999 = [] := by
      refine List.filter_eq_nil_iff.mpr fun row hr => ?_
      obtain ⟨n, -, rfl⟩ := List.mem_map.mp hr
      have hb : updatedSince (storageBoundary (max 999 0)) (unreadRow n) = false := rfl
      rw [valid_unreadRow, hb]
      decide
    have hs : readRows overfull.rows 999 =
        readRows (unreadRows 5000) 999 ++ readRows [readRow] 999 := List.filter_append _ _
    rw [hs, hn]
    decide
  rw [freshRead_eq, ho]
  rfl

def sinceSecond : SyncSnapshotSync := { snapshotCursor := "1000" }

theorem page_overfull : (snapshotPage sinceSecond ((unreadRows 5000).map protoRow)).rows = [] := by
  have hn : beyond (Before sinceSecond.newestFirst) id (pageCursor sinceSecond)
      (inOrder (Before sinceSecond.newestFirst) id
        ((candidateIndex sinceSecond ((unreadRows 5000).map protoRow)).map keyOf)) = [] := by
    refine List.eq_nil_iff_forall_not_mem.mpr fun key hk => ?_
    obtain ⟨hm, hb⟩ := mem_beyond.mp hk
    obtain ⟨bootstrap, hin, rfl⟩ := List.mem_map.mp (mem_inOrder.mp hm)
    have hno : (((unreadRows 5000).map protoRow).map (·.conversationId)).Nodup := by
      rw [List.map_map]
      exact nodup_unreadRows 5000
    rw [candidateIndex_of_nodup hno] at hin
    obtain ⟨row, hr, rfl⟩ := List.mem_map.mp (List.mem_of_mem_filter hin)
    obtain ⟨n, -, rfl⟩ := List.mem_map.mp hr
    have hlt : toLex (1000, "") < rowKey (unreadRow n) := keyOf_protoRow ▸ hb _ rfl
    rcases Prod.Lex.toLex_lt_toLex.mp hlt with ht | ⟨ht, -⟩
    · rw [millis_unreadRow] at ht
      omega
    · rw [millis_unreadRow] at ht
      omega
  simp only [snapshotPage]
  rw [show (parseSnapshotCursor sinceSecond.snapshotCursor).map toLex = pageCursor sinceSecond
    from rfl, hn]
  rfl

-- The full read in the cache lacks a conversation that a fresh read behind a boundary has.
theorem cached_page_lacks_conversation : ¬ Transparent fun _ => True := by
  intro h
  have hget (resp : List ProtoConversationSummary) :
      (({ ttl := 10 } : BootstrapPageCache).put "acme" "alice" 0 resp 0).get "acme" "alice" 999 5 =
        some resp := rfl
  have hserving := h 0 (fun _ _ => overfull) 10 [.put "acme" "alice" 0 0] "acme" "alice" 999 5
    (freshRead 0 overfull 0) (hget _)
  have hpage := hserving.page trivial sinceSecond rfl
  rw [freshRead_overfull, freshRead_overfull_since] at hpage
  have hrows := congrArg Page.rows hpage
  rw [page_overfull] at hrows
  exact absurd hrows (by decide)

end OverTheCap

end FlareIm.SnapshotPaging
