import FlareIm.SnapshotPaging.PageCache

namespace FlareIm.SnapshotPaging

open Text DecimalText Keyset

section Cursor

theorem toList_build (ms : Int) (conversationId : String) :
    (buildSnapshotCursor ms conversationId).toList =
      (toString ms).toList ++ '|' :: conversationId.toList := by
  simp [buildSnapshotCursor]

-- A cursor is read back as it was built, whatever the id holds.
theorem parse_build {ms : Int} (hlo : -2 ^ 63 ≤ ms) (hh : ms < 2 ^ 63) (conversationId : String) :
    parseSnapshotCursor (buildSnapshotCursor ms conversationId) = some (ms, conversationId) := by
  have hne : buildSnapshotCursor ms conversationId ≠ "" := by
    intro hem
    have hl := congrArg String.toList hem
    rw [toList_build] at hl
    exact absurd hl (by simp)
  have hm : '|' ∉ (toString ms).toList := not_mem_toString (by decide) rfl ms
  rw [parseSnapshotCursor, if_neg hne, toList_build, splitOnce_append hm]
  simp only
  rw [parseI64_toString hlo hh, Option.map_some, String.ofList_toList]

def EndsPlainly (conversationId : String) : Prop :=
  ∀ c, conversationId.toList.getLast? = some c → isWhitespace c = false

theorem isWhitespace_of_isDigit {c : Char} (h : c.isDigit) : isWhitespace c = false := by
  have hr : 48 ≤ c.toNat ∧ c.toNat ≤ 57 := by
    simpa [Char.isDigit, UInt32.le_iff_toNat_le] using h
  simp only [isWhitespace, Bool.or_eq_false_iff, Bool.and_eq_false_iff, decide_eq_false_iff_not,
    beq_eq_false_iff_ne, ne_eq]
  omega

theorem trim_build {conversationId : String} (hne : conversationId ≠ "")
    (hen : EndsPlainly conversationId) (ms : Int) :
    trim (buildSnapshotCursor ms conversationId) = buildSnapshotCursor ms conversationId := by
  obtain ⟨last, hl⟩ : ∃ last, conversationId.toList.getLast? = some last := by
    cases hg : conversationId.toList.getLast? with
    | none => exact absurd (String.toList_eq_nil_iff.mp (List.getLast?_eq_none_iff.mp hg)) hne
    | some last => exact ⟨last, rfl⟩
  refine trim_eq_self_of_ends (fun c hc => ?_) (fun c hc => ?_)
  · rw [toList_build, List.head?_append_of_ne_nil] at hc
    · rcases mem_toString (List.mem_of_head? hc) with rfl | hdi
      · decide
      · exact isWhitespace_of_isDigit hdi
    · intro hem
      have hp := signed_toString ms
      rw [hem] at hp
      exact absurd hp (by simp [signed, digits])
  · rw [toList_build, List.getLast?_append, List.getLast?_cons, hl] at hc
    obtain rfl : last = c := by simpa using hc
    exact hen last hl

end Cursor

section Reading

variable (serviceCap : Nat) (lists : Lists) (clocks : Nat → Clock) (tenantId userId : String)

-- The cache and the number of pages read so far.
abbrev Reader := BootstrapPageCache × Nat

def fresh (boundary : Int) : Option (List ProtoConversationSummary) :=
  some (freshRead serviceCap (lists tenantId userId) boundary)

def readSnapshot (req : SyncSnapshotSync) (reader : Reader) (cursor : String) :
    Reader × Option (Page String SnapshotConversationRow) :=
  let (cache, page) := getSyncSnapshot (clocks reader.2) reader.1 tenantId userId
    (fresh serviceCap lists tenantId userId) { req with snapshotCursor := cursor }
  ((cache, reader.2 + 1), page)

def readConversations (limit : Int) (reader : Reader) (cursor : String) :
    Reader × Option (Page String SnapshotConversationRow) :=
  let (cache, page) := conversationsSync (clocks reader.2) reader.1 tenantId userId
    (fresh serviceCap lists tenantId userId) { cursor, limit }
  ((cache, reader.2 + 1), page)

-- Each conversation asked for, once and in order.
def Complete (req : SyncSnapshotSync) (conversations : Conversations)
    (collected : Option (List SnapshotConversationRow)) : Prop :=
  ∃ shown : List ConversationRow, collected = some (shown.map listed) ∧
    shown.Perm (conversations.rows.filter (Wanted req)) ∧
    shown.Pairwise fun a b => Before req.newestFirst (rowKey a) (rowKey b)

-- The pages from the empty cursor on come to an end and hold the whole list.
structure Pages (plain : String → Prop) (ttl : Nat) (calls : List CacheCall) : Prop where
  snapshot : ∀ req, ∃ fuel, Complete req (lists tenantId userId)
    (drain (readSnapshot serviceCap lists clocks tenantId userId req) fuel
      (cacheAfter serviceCap lists ttl calls, 0) "")
  conversations : (∀ row ∈ (lists tenantId userId).rows, plain row.conversationId) →
    ∀ limit, ∃ fuel, Complete {} (lists tenantId userId)
      (drain (readConversations serviceCap lists clocks tenantId userId limit) fuel
        (cacheAfter serviceCap lists ttl calls, 0) "")

def PagesComplete (fits : Conversations → Prop) (plain : String → Prop) : Prop :=
  ∀ serviceCap lists clocks tenantId userId ttl calls, fits (lists tenantId userId) →
    Pages serviceCap lists clocks tenantId userId plain ttl calls

-- The cache holds nothing but answers of the service.
def Faithful (cache : BootstrapPageCache) : Prop :=
  ∀ tenantId userId entry, ((tenantId, userId), entry) ∈ cache.inner →
    entry.resp = freshRead serviceCap (lists tenantId userId) entry.updatedAfterMs

variable {serviceCap lists clocks tenantId userId} {cache : BootstrapPageCache}
  {req : SyncSnapshotSync}

theorem faithful_cacheAfter (ttl : Nat) (calls : List CacheCall) :
    Faithful serviceCap lists (cacheAfter serviceCap lists ttl calls) :=
  fun tenantId userId entry h => ((putBy_cacheAfter ttl calls).1 tenantId userId entry h).2

theorem Faithful.put (h : Faithful serviceCap lists cache) (tenantId userId : String)
    (updatedAfterMs : Int) (now : Nat) :
    Faithful serviceCap lists (cache.put tenantId userId updatedAfterMs
      (freshRead serviceCap (lists tenantId userId) updatedAfterMs) now) := by
  intro tenant user entry hen
  rcases mem_put hen with hm | hn
  · exact h tenant user entry hm
  · obtain ⟨hk, rfl⟩ := Prod.mk.inj hn
    cases hk
    rfl

theorem getSyncSnapshot_page (clock : Clock) (req : SyncSnapshotSync)
    (h : Faithful serviceCap lists cache) (hf : FitsBootstrap (lists tenantId userId)) : ∃ next,
      getSyncSnapshot clock cache tenantId userId (fresh serviceCap lists tenantId userId) req =
        (next, some (listedPage req (lists tenantId userId).rows)) ∧
      Faithful serviceCap lists next := by
  have hr := (lists tenantId userId).nodup
  have hfr : snapshotPage req (freshRead serviceCap (lists tenantId userId)
      (updatedAfter req)) = listedPage req (lists tenantId userId).rows :=
    (covers_freshRead hf (Int.le_refl _)).page hr
  unfold getSyncSnapshot
  simp only
  split
  · next resp hc =>
      split_ifs at hc
      obtain ⟨entry, hm, -, hle, rfl⟩ := get_cases hc
      have hco : Covers req (lists tenantId userId).rows entry.resp := by
        rw [h tenantId userId entry hm]
        exact covers_freshRead hf hle
      exact ⟨cache, by rw [hco.page hr], h⟩
  · refine ⟨_, ?_, h.put tenantId userId (updatedAfter req) clock.put⟩
    simp only [fresh, hfr]

theorem one_le_pageLimit (req : SyncSnapshotSync) : 0 < pageLimit req := by
  unfold pageLimit MIN_SNAPSHOT_PAGE_SIZE
  omega

-- What is left behind a cursor.
def remaining (req : SyncSnapshotSync) (rows : List ConversationRow) (cursor : String) :
    List SnapshotConversationRow :=
  (pageRows { req with snapshotCursor := cursor } rows).map listed

theorem listedPage_rows (rows : List ConversationRow) (cursor : String) :
    (listedPage { req with snapshotCursor := cursor } rows).rows =
      (remaining req rows cursor).take (pageLimit req) := by
  rw [remaining, ← List.map_take]
  rfl

theorem listedPage_hasMore (rows : List ConversationRow) (cursor : String) :
    (listedPage { req with snapshotCursor := cursor } rows).hasMore =
      decide (pageLimit req < (remaining req rows cursor).length) := by
  rw [remaining, List.length_map]
  rfl

def cursorOf (row : ConversationRow) : String :=
  buildSnapshotCursor (timestampMillis row.effectiveUpdatedAt) row.conversationId

theorem listedPage_more (conversations : Conversations) {cursor : String}
    (hmo : pageLimit req < (remaining req conversations.rows cursor).length) :
    ∃ row ∈ conversations.rows, Wanted req row ∧
      (listedPage { req with snapshotCursor := cursor } conversations.rows).next = cursorOf row ∧
      remaining req conversations.rows (cursorOf row) =
        (remaining req conversations.rows cursor).drop (pageLimit req) := by
  have hli : pageLimit { req with snapshotCursor := cursor } = pageLimit req := rfl
  have hpo : 0 < pageLimit req := one_le_pageLimit req
  rw [remaining, List.length_map] at hmo
  cases hl : ((pageRows { req with snapshotCursor := cursor } conversations.rows).take
      (pageLimit req)).getLast? with
  | none =>
    have hn := congrArg List.length (List.getLast?_eq_none_iff.mp hl)
    rw [List.length_take, List.length_nil] at hn
    omega
  | some row =>
    have hm := List.mem_of_mem_take (List.mem_of_getLast? hl)
    obtain ⟨hr, hw⟩ := mem_listing.mp (mem_beyond.mp hm).1
    obtain ⟨hlo, hh⟩ := conversations.inRange row hr
    have hp := parse_build hlo hh row.conversationId
    have hb := beyond_last (pairwise_listing conversations.nodup) hl
    refine ⟨row, hr, hw, ?_, ?_⟩
    · simp only [listedPage, hli, hl, cursorOf]
    · rw [remaining, remaining, ← List.map_drop]
      congr 1
      rw [pageRows, pageCursor, cursorOf, hp]
      exact hb

theorem complete_of_drain {conversations : Conversations}
    {collected : Option (List SnapshotConversationRow)}
    (h : collected = some (remaining req conversations.rows "")) :
    Complete req conversations collected :=
  ⟨listing req conversations.rows, h, perm_listing, pairwise_listing conversations.nodup⟩

theorem complete_snapshot (hfi : FitsBootstrap (lists tenantId userId)) {reader : Reader}
    (h : Faithful serviceCap lists reader.1) : ∃ fuel, Complete req (lists tenantId userId)
      (drain (readSnapshot serviceCap lists clocks tenantId userId req) fuel reader "") := by
  refine ⟨(remaining req (lists tenantId userId).rows "").length + 1, complete_of_drain ?_⟩
  refine drain_eq_some (fun reader => Faithful serviceCap lists reader.1)
    (fun cursor rest => rest = remaining req (lists tenantId userId).rows cursor)
    (one_le_pageLimit req) ?_ h rfl (Nat.lt_succ_self _)
  rintro reader cursor rest hf rfl
  obtain ⟨next, hp, hn⟩ := getSyncSnapshot_page (clocks reader.2)
    { req with snapshotCursor := cursor } hf hfi
  refine ⟨(next, reader.2 + 1), _, by rw [readSnapshot, hp], hn, ?_⟩
  refine ⟨listedPage_rows _ cursor, listedPage_hasMore _ cursor, fun hm => ?_⟩
  obtain ⟨row, -, -, hc, hr⟩ := listedPage_more (lists tenantId userId) hm
  rw [hc, hr]

def listRequest (limit : Int) : SyncSnapshotSync where
  messagesPerConversation := 1
  conversationPageLimit := max limit 1

def listPage (clientCursor : String) (page : Page String SnapshotConversationRow) :
    Page String SnapshotConversationRow where
  rows := page.rows.filter fun row => validSyncConversationId row.conversationId
  next := if page.next ≠ "" then page.next else clientCursor
  hasMore := page.hasMore

-- A list is a snapshot whose cursor is trimmed first.
theorem conversationsSync_eq (clock : Clock) (cache : BootstrapPageCache) (cursor : String)
    (limit : Int) (answer : Int → Option (List ProtoConversationSummary)) :
    conversationsSync clock cache tenantId userId answer { cursor, limit } =
      (getSyncSnapshot clock cache tenantId userId answer
        { listRequest limit with snapshotCursor := trim cursor }).map id
          (Option.map (listPage (trim cursor))) := by
  unfold conversationsSync
  simp only [listRequest]
  generalize getSyncSnapshot clock cache tenantId userId answer _ = outcome
  obtain ⟨cache', page⟩ := outcome
  cases page <;> rfl

theorem listed_valid {rows : List ConversationRow} :
    ∀ row ∈ (listedPage req rows).rows, validSyncConversationId row.conversationId = true := by
  intro row hr
  obtain ⟨shown, hs, rfl⟩ := List.mem_map.mp hr
  exact (mem_listing.mp (mem_beyond.mp (List.mem_of_mem_take hs)).1).2.1

theorem listPage_rows {clientCursor : String} {rows : List ConversationRow} :
    (listPage clientCursor (listedPage req rows)).rows = (listedPage req rows).rows :=
  List.filter_eq_self.mpr listed_valid

theorem listPage_hasMore {clientCursor : String} {page : Page String SnapshotConversationRow} :
    (listPage clientCursor page).hasMore = page.hasMore :=
  rfl

theorem trim_cursorOf {row : ConversationRow} (hw : Wanted req row)
    (hp : EndsPlainly row.conversationId) :
    trim (cursorOf row) = cursorOf row ∧ cursorOf row ≠ "" := by
  have hne : row.conversationId ≠ "" := by
    intro hem
    have hid := hw.1
    rw [hem] at hid
    exact absurd hid (by decide)
  refine ⟨trim_build hne hp _, fun hem => ?_⟩
  have hl := congrArg String.toList hem
  rw [cursorOf, toList_build] at hl
  exact absurd hl (by simp)

theorem complete_conversations (hfi : FitsBootstrap (lists tenantId userId)) (limit : Int)
    (hp : ∀ row ∈ (lists tenantId userId).rows, EndsPlainly row.conversationId)
    {reader : Reader} (h : Faithful serviceCap lists reader.1) :
    ∃ fuel, Complete {} (lists tenantId userId)
      (drain (readConversations serviceCap lists clocks tenantId userId limit) fuel reader "") := by
  have hdr : drain (readConversations serviceCap lists clocks tenantId userId limit)
      ((remaining (listRequest limit) (lists tenantId userId).rows "").length + 1) reader "" =
        some (remaining (listRequest limit) (lists tenantId userId).rows "") := by
    refine drain_eq_some (fun reader => Faithful serviceCap lists reader.1)
      (fun cursor rest => rest =
        remaining (listRequest limit) (lists tenantId userId).rows (trim cursor))
      (one_le_pageLimit (listRequest limit)) ?_ h (by rw [trim_empty]) (Nat.lt_succ_self _)
    rintro reader cursor rest hf rfl
    obtain ⟨next, hpa, hn⟩ := getSyncSnapshot_page (clocks reader.2)
      { listRequest limit with snapshotCursor := trim cursor } hf hfi
    refine ⟨(next, reader.2 + 1), listPage (trim cursor) (listedPage
      { listRequest limit with snapshotCursor := trim cursor } (lists tenantId userId).rows), ?_,
      hn, ?_⟩
    · rw [readConversations, conversationsSync_eq, hpa]
      rfl
    · refine ⟨?_, ?_, fun hm => ?_⟩
      · rw [listPage_rows, listedPage_rows]
      · rw [listPage_hasMore, listedPage_hasMore]
      obtain ⟨row, hr, hw, hc, hre⟩ := listedPage_more (lists tenantId userId) hm
      obtain ⟨ht, hs⟩ := trim_cursorOf hw (hp row hr)
      rw [listPage, hc, if_pos hs, ht, hre]
  exact ⟨_, listing (listRequest limit) (lists tenantId userId).rows, hdr, perm_listing,
    pairwise_listing (lists tenantId userId).nodup⟩

theorem pages_complete : PagesComplete FitsBootstrap EndsPlainly := by
  intro serviceCap lists clocks tenantId userId ttl calls hfits
  have hcache : Faithful serviceCap lists (cacheAfter serviceCap lists ttl calls) :=
    faithful_cacheAfter ttl calls
  exact ⟨fun req => complete_snapshot hfits hcache,
    fun hplain limit => complete_conversations hfits limit hplain hcache⟩

theorem getSyncSnapshot_uncached (clock : Clock) (req : SyncSnapshotSync) (h : cache.ttl = 0) :
    getSyncSnapshot clock cache tenantId userId (fresh serviceCap lists tenantId userId) req =
      (cache, some (snapshotPage req (freshRead serviceCap (lists tenantId userId)
        (updatedAfter req)))) := by
  have hget : cache.get tenantId userId (updatedAfter req) clock.get = none := by
    rw [BootstrapPageCache.get, if_pos h]
  have hp (resp : List ProtoConversationSummary) :
      cache.put tenantId userId (updatedAfter req) resp clock.put = cache := by
    rw [BootstrapPageCache.put, if_pos h]
  unfold getSyncSnapshot
  simp only [hget, ite_self, fresh, hp]

end Reading

section Incomplete

theorem snapshotPage_subset {req : SyncSnapshotSync} {resp : List ProtoConversationSummary}
    (h : (resp.map (·.conversationId)).Nodup) :
    ∀ row ∈ (snapshotPage req resp).rows, ∃ bootstrap ∈ resp, row = snapshotRow bootstrap := by
  intro row hr
  obtain ⟨key, -, hf⟩ := List.mem_filterMap.mp hr
  obtain ⟨bootstrap, hfi, rfl⟩ := Option.map_eq_some_iff.mp hf
  have hin := List.mem_of_find?_eq_some hfi
  rw [candidateIndex_of_nodup h] at hin
  exact ⟨bootstrap, List.mem_of_mem_filter hin, rfl⟩

def newestList : SyncSnapshotSync := { newestFirst := true }

theorem drain_overfull {clocks : Nat → Clock} {fuel : Nat} {reader : Reader} {cursor : String}
    {rows : List SnapshotConversationRow} (hra : reader.1.ttl = 0)
    (h : drain (readSnapshot 0 (fun _ _ => overfull) clocks "acme" "alice" newestList) fuel
      reader cursor = some rows) : ∀ row ∈ rows, row.conversationId ≠ "x" := by
  refine drain_subset (fun reader => reader.1.ttl = 0) _ ?_ hra h
  intro reader cursor next page ht hre
  have hp : readSnapshot 0 (fun _ _ => overfull) clocks "acme" "alice" newestList reader
      cursor = ((reader.1, reader.2 + 1), some (snapshotPage
        { newestList with snapshotCursor := cursor } (freshRead 0 overfull 0))) := by
    rw [readSnapshot, getSyncSnapshot_uncached _ _ ht]
    rfl
  rw [hp] at hre
  obtain ⟨rfl, hs⟩ := Prod.mk.inj hre
  cases hs
  refine ⟨ht, fun row hr => ?_⟩
  obtain ⟨bootstrap, hm, rfl⟩ := snapshotPage_subset nodup_freshRead row hr
  rw [freshRead_overfull] at hm
  obtain ⟨unread, hu, rfl⟩ := List.mem_map.mp hm
  obtain ⟨n, -, rfl⟩ := List.mem_map.mp hu
  have hc : 'c' ∈ (unreadRow n).conversationId.toList := by simp [unreadRow]
  intro hid
  rw [show (snapshotRow (protoRow (unreadRow n))).conversationId =
    (unreadRow n).conversationId from rfl] at hid
  rw [hid] at hc
  exact absurd hc (by decide)

def spacedRow : ConversationRow :=
  { unreadRow 0 with conversationId := "a ", updatedAt := 5000 }

def spaced : Conversations where
  rows := [spacedRow, { unreadRow 0 with conversationId := "b", updatedAt := 6000 }]
  nodup := by decide
  inRange := by decide

theorem drain_spaced {clocks : Nat → Clock} (fuel : Nat) {reader : Reader} (hr : reader.1.ttl = 0) :
    drain (readConversations 0 (fun _ _ => spaced) clocks "acme" "alice" 1) fuel reader "" =
      none := by
  refine drain_eq_none (fun reader cursor => reader.1.ttl = 0 ∧
    (trim cursor = "" ∨ trim cursor = "5|a")) ?_ ⟨hr, Or.inl trim_empty⟩ fuel
  rintro reader cursor ⟨ht, hc⟩
  have hp : readConversations 0 (fun _ _ => spaced) clocks "acme" "alice" 1 reader cursor =
      ((reader.1, reader.2 + 1), some (listPage (trim cursor) (snapshotPage
        { listRequest 1 with snapshotCursor := trim cursor } (freshRead 0 spaced
          (updatedAfter { listRequest 1 with snapshotCursor := trim cursor }))))) := by
    rw [readConversations, conversationsSync_eq, getSyncSnapshot_uncached _ _ ht]
    rfl
  have hl : ∀ start ∈ ["", "5|a"], ∃ page, listPage start (snapshotPage
      { listRequest 1 with snapshotCursor := start } (freshRead 0 spaced
        (updatedAfter { listRequest 1 with snapshotCursor := start }))) = page ∧
      page.hasMore = true ∧ trim page.next = "5|a" := by
    intro start hs
    refine ⟨_, rfl, ?_⟩
    rcases List.mem_pair.mp hs with rfl | rfl <;> decide +kernel
  obtain ⟨page, hsa, hm, hn⟩ := hl (trim cursor) (List.mem_pair.mpr hc)
  rw [hsa] at hp
  exact ⟨_, page, hp, hm, ht, Or.inr hn⟩

theorem long_or_spaced_list_incomplete :
    ¬ PagesComplete (fun _ => True) EndsPlainly ∧
      ¬ PagesComplete FitsBootstrap fun _ => True := by
  constructor
  · intro h
    have hpages := h 0 (fun _ _ => overfull) (fun n => ⟨n, n⟩) "acme" "alice" 0 [] trivial
    obtain ⟨fuel, shown, hdrain, hperm, -⟩ := hpages.snapshot newestList
    have hwanted : readRow ∈ overfull.rows.filter (Wanted newestList) := by
      refine List.mem_filter.mpr ⟨List.mem_append_right _ List.mem_cons_self, ?_⟩
      exact decide_eq_true ⟨by decide, Or.inl rfl⟩
    exact drain_overfull rfl hdrain _ (List.mem_map_of_mem (hperm.mem_iff.mpr hwanted)) rfl
  · intro h
    have hpages := h 0 (fun _ _ => spaced) (fun n => ⟨n, n⟩) "acme" "alice" 0 [] (by decide)
    obtain ⟨fuel, shown, hdrain, -⟩ := hpages.conversations (fun _ _ => trivial) 1
    rw [drain_spaced fuel rfl] at hdrain
    exact absurd hdrain (by simp)

end Incomplete

end FlareIm.SnapshotPaging
