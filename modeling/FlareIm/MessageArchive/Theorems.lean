import FlareIm.MessageArchive

namespace FlareIm.MessageArchive

open Text Context Proto EventRow EventApplication Fallible

variable {outcome : ArchiveOutcome} {before : Tables} {answer : Except FlareError ArchiveOutcome}
  {answers : List Bool} {event : EventStreamInsertRow} {answered : Bool}

section Ledger

variable {ledger : List LedgerClaim} {claims : List LedgerClaim} {claim : LedgerClaim}

theorem occupant_eq_some {entry : LedgerClaim} (h : occupant ledger claim = some entry) :
    entry ∈ ledger ∧ entry.key = claim.key :=
  ⟨List.mem_of_find?_eq_some h, by simpa using List.find?_some h⟩

theorem occupant_eq_none (h : occupant ledger claim = none) :
    ∀ entry ∈ ledger, entry.key ≠ claim.key := by
  intro entry hen
  simpa using List.find?_eq_none.mp h entry hen

-- No two entries have one key.
def UniqueKeys (ledger : List LedgerClaim) : Prop :=
  ∀ a ∈ ledger, ∀ b ∈ ledger, a.key = b.key → a = b

theorem UniqueKeys.cons (h : UniqueKeys ledger) (hf : occupant ledger claim = none) :
    UniqueKeys (claim :: ledger) := by
  have hne := occupant_eq_none hf
  intro a ha b hb hk
  rcases List.mem_cons.mp ha with rfl | hold
  · rcases List.mem_cons.mp hb with rfl | hold
    · rfl
    · exact absurd hk.symm (hne b hold)
  · rcases List.mem_cons.mp hb with rfl | hold'
    · exact absurd hk (hne a hold)
    · exact h a hold b hold' hk

theorem mem_insertClaims (h : claim ∈ ledger) : claim ∈ (insertClaims ledger claims).1 := by
  induction claims generalizing ledger with
  | nil => exact h
  | cons head rest ih =>
    simp only [insertClaims]
    split
    · exact ih h
    · exact ih (List.mem_cons_of_mem _ h)

theorem of_mem_insertClaims (h : claim ∈ (insertClaims ledger claims).1) :
    claim ∈ ledger ∨ claim ∈ claims ∧ claim.serverId ∈ (insertClaims ledger claims).2 := by
  induction claims generalizing ledger with
  | nil => exact .inl h
  | cons head rest ih =>
    simp only [insertClaims] at h ⊢
    split at h
    · rcases ih h with hold | ⟨hm, hs⟩
      · exact .inl hold
      · exact .inr ⟨List.mem_cons_of_mem _ hm, hs⟩
    · rename_i ho
      rcases ih h with hold | ⟨hm, hs⟩
      · rcases List.mem_cons.mp hold with rfl | hold
        · exact .inr ⟨List.mem_cons_self, List.mem_cons_self⟩
        · exact .inl hold
      · exact .inr ⟨List.mem_cons_of_mem _ hm, List.mem_cons_of_mem _ hs⟩

theorem UniqueKeys.insertClaims (h : UniqueKeys ledger) :
    UniqueKeys (insertClaims ledger claims).1 := by
  induction claims generalizing ledger with
  | nil => exact h
  | cons head rest ih =>
    simp only [MessageArchive.insertClaims]
    split
    · exact ih h
    · rename_i ho
      exact ih (h.cons ho)

-- The ledger has another message of the same send in the same conversation.
def Occupied (ledger : List LedgerClaim) (claim : LedgerClaim) : Prop :=
  ∃ entry ∈ ledger, entry.key = claim.key ∧ entry.serverId ≠ claim.serverId ∧
    entry.conversationId = claim.conversationId

theorem of_mem_judge {duplicate : LedgerDuplicate}
    (h : duplicate ∈ (judge ledger outcome claim).duplicates) :
    duplicate ∈ outcome.duplicates ∨ duplicate.serverId = claim.serverId ∧ Occupied ledger claim := by
  simp only [judge] at h
  split at h
  · exact .inl h
  · rename_i entry ho
    obtain ⟨hm, hk⟩ := occupant_eq_some ho
    split at h
    · exact .inl h
    · rename_i hs
      split at h
      · exact .inl h
      · rename_i hc
        rcases List.mem_append.mp h with hold | hn
        · exact .inl hold
        · rw [List.mem_singleton] at hn
          subst hn
          exact .inr ⟨rfl, entry, hm, hk, hs, not_not.mp hc⟩

theorem of_mem_foldl_judge {duplicate : LedgerDuplicate}
    (h : duplicate ∈ (claims.foldl (judge ledger) outcome).duplicates) :
    duplicate ∈ outcome.duplicates ∨
      ∃ claim ∈ claims, duplicate.serverId = claim.serverId ∧ Occupied ledger claim := by
  induction claims generalizing outcome with
  | nil => exact .inl h
  | cons head rest ih =>
    rcases ih h with hold | ⟨claim, hm, hc⟩
    · rcases of_mem_judge hold with hold | hh
      · exact .inl hold
      · exact .inr ⟨head, List.mem_cons_self, hh⟩
    · exact .inr ⟨claim, List.mem_cons_of_mem _ hm, hc⟩

theorem isDuplicate_eq_true {serverId : String} :
    outcome.isDuplicate serverId = true ↔
      ∃ duplicate ∈ outcome.duplicates, duplicate.serverId = serverId := by
  simp [ArchiveOutcome.isDuplicate]

theorem isDuplicate_merge (outcome other : ArchiveOutcome) (serverId : String) :
    (outcome.merge other).isDuplicate serverId =
      (outcome.isDuplicate serverId || other.isDuplicate serverId) := by
  simp [ArchiveOutcome.isDuplicate, ArchiveOutcome.merge]

-- A message is called a duplicate only when its claim did not go in and another message of
-- its conversation has the key.
theorem claimSendIdempotency_duplicate {serverId : String}
    (h : (claimSendIdempotency ledger claims).2.isDuplicate serverId = true) :
    serverId ∉ (insertClaims ledger claims).2 ∧ ∃ claim ∈ claims, claim.serverId = serverId ∧
      Occupied (claimSendIdempotency ledger claims).1 claim := by
  obtain ⟨duplicate, hm, rfl⟩ := isDuplicate_eq_true.mp h
  rcases of_mem_foldl_judge hm with hn | ⟨claim, hcl, hs, ho⟩
  · exact absurd hn List.not_mem_nil
  · obtain ⟨hc, hu⟩ := List.mem_filter.mp hcl
    refine ⟨?_, claim, hc, hs.symm, ho⟩
    rw [hs]
    simpa using hu

end Ledger

section Tables

-- The columns that tell which message a row is.
structure RowIdentity where
  tenantId : String
  serverId : String
  conversationId : String
  clientMsgId : Option String
  senderId : String
  seq : Int

def ArchiveRow.identity (row : ArchiveRow) : RowIdentity :=
  ⟨row.tenantId, row.serverId, row.conversationId, row.clientMsgId, row.senderId, row.seq⟩

theorem LedgerClaim.of_congr {a b : ArchiveRow} (h : a.identity = b.identity) :
    LedgerClaim.of a = LedgerClaim.of b := by
  obtain ⟨ht, hs, hc, hcl, hse, hsq⟩ := RowIdentity.mk.inj h
  simp only [LedgerClaim.of, ht, hs, hc, hcl, hse, hsq]

def LedgerClaim.identity (claim : LedgerClaim) : RowIdentity :=
  ⟨claim.tenantId, claim.serverId, claim.conversationId, some claim.clientMsgId, claim.senderId,
    claim.seq⟩

theorem LedgerClaim.identity_injective : Function.Injective LedgerClaim.identity := by
  rintro ⟨⟩ ⟨⟩ h
  obtain ⟨rfl, rfl, rfl, hc, rfl, rfl⟩ := RowIdentity.mk.inj h
  cases hc
  rfl

theorem LedgerClaim.identity_of {row : ArchiveRow} {claim : LedgerClaim}
    (h : LedgerClaim.of row = some claim) : row.identity = claim.identity := by
  simp only [LedgerClaim.of] at h
  split at h
  · cases h
  · rename_i clientMsgId hc
    split at h
    · cases h
    · cases h
      simp only [ArchiveRow.identity, LedgerClaim.identity, hc]

theorem LedgerClaim.clientMsgId_ne {row : ArchiveRow} {claim : LedgerClaim}
    (h : LedgerClaim.of row = some claim) : claim.clientMsgId ≠ "" := by
  simp only [LedgerClaim.of] at h
  split at h
  · cases h
  · split at h
    · cases h
    · rename_i hb
      rw [← Option.some.inj h]
      rintro rfl
      exact hb (by decide)

theorem LedgerClaim.serverId_of {row : ArchiveRow} {claim : LedgerClaim}
    (h : LedgerClaim.of row = some claim) : claim.serverId = row.serverId :=
  (congrArg RowIdentity.serverId (LedgerClaim.identity_of h)).symm

theorem insertKeys_fst {writeLedger keys : List (String × String)} {key : String × String}
    (h : key ∈ (insertKeys writeLedger keys).1) : key ∈ writeLedger ∨ key ∈ keys := by
  induction keys generalizing writeLedger with
  | nil => exact .inl h
  | cons head rest ih =>
    simp only [insertKeys] at h
    split at h
    · exact (ih h).imp_right (List.mem_cons_of_mem _)
    · rcases ih h with hold | hr
      · rcases List.mem_cons.mp hold with rfl | hold
        · exact .inr List.mem_cons_self
        · exact .inl hold
      · exact .inr (List.mem_cons_of_mem _ hr)

theorem insertKeys_snd {writeLedger keys : List (String × String)} {key : String × String}
    (h : key ∈ keys) : key ∈ writeLedger ∨ key ∈ (insertKeys writeLedger keys).2 := by
  induction keys generalizing writeLedger with
  | nil => exact absurd h List.not_mem_nil
  | cons head rest ih =>
    simp only [insertKeys]
    by_cases hh : head ∈ writeLedger
    · rw [if_pos hh]
      rcases List.mem_cons.mp h with rfl | hr
      · exact .inl hh
      · exact ih hr
    · rw [if_neg hh]
      rcases List.mem_cons.mp h with rfl | hr
      · exact .inr List.mem_cons_self
      · have hin : key ∈ head :: writeLedger ∨
            key ∈ (insertKeys (head :: writeLedger) rest).2 := ih hr
        rcases hin with hold | hn
        · rcases List.mem_cons.mp hold with rfl | hold
          · exact .inr List.mem_cons_self
          · exact .inl hold
        · exact .inr (List.mem_cons_of_mem _ hn)

theorem mem_insertRow {messages : List ArchiveRow} {row other : ArchiveRow} (h : other ∈ messages) :
    other ∈ insertRow messages row := by
  unfold insertRow
  split
  · exact h
  · exact List.mem_cons_of_mem _ h

theorem exists_mem_insertRow (messages : List ArchiveRow) (row : ArchiveRow) :
    ∃ stored ∈ insertRow messages row, stored.writeKey = row.writeKey := by
  unfold insertRow
  split
  · rename_i ha
    obtain ⟨stored, hm, hs⟩ := List.any_eq_true.mp ha
    simp only [Bool.and_eq_true, beq_iff_eq] at hs
    exact ⟨stored, hm, hs.1⟩
  · exact ⟨row, List.mem_cons_self, rfl⟩

theorem mem_foldl_insertRow {messages rows : List ArchiveRow} {row : ArchiveRow}
    (h : row ∈ messages) : row ∈ rows.foldl insertRow messages := by
  induction rows generalizing messages with
  | nil => exact h
  | cons head rest ih => exact ih (mem_insertRow h)

theorem of_mem_foldl_insertRow {messages rows : List ArchiveRow} {row : ArchiveRow}
    (h : row ∈ rows.foldl insertRow messages) : row ∈ messages ∨ row ∈ rows := by
  induction rows generalizing messages with
  | nil => exact .inl h
  | cons head rest ih =>
    rcases ih h with hold | hr
    · unfold insertRow at hold
      split at hold
      · exact .inl hold
      · rcases List.mem_cons.mp hold with rfl | hold
        · exact .inr List.mem_cons_self
        · exact .inl hold
    · exact .inr (List.mem_cons_of_mem _ hr)

theorem exists_mem_foldl_insertRow {messages rows : List ArchiveRow} {row : ArchiveRow}
    (h : row ∈ rows) : ∃ stored ∈ rows.foldl insertRow messages, stored.writeKey = row.writeKey := by
  induction rows generalizing messages with
  | nil => exact absurd h List.not_mem_nil
  | cons head rest ih =>
    rcases List.mem_cons.mp h with rfl | hr
    · obtain ⟨stored, hm, hk⟩ := exists_mem_insertRow messages row
      have hke : stored ∈ rest.foldl insertRow (insertRow messages row) :=
        mem_foldl_insertRow hm
      exact ⟨stored, hke, hk⟩
    · exact ih hr

end Tables

section Archive

-- The rows that may be stored. A server id stands for one message of its tenant.
structure Issue where
  row : ArchiveRow → Prop
  one_message : ∀ a b, row a → row b → a.writeKey = b.writeKey → a.identity = b.identity

-- Every entry of either ledger has its row.
structure Consistent (issue : Issue) (tables : Tables) : Prop where
  issued : ∀ row ∈ tables.messages, issue.row row
  unique : UniqueKeys tables.ledger
  claimed : ∀ claim ∈ tables.ledger, ∃ row ∈ tables.messages, LedgerClaim.of row = some claim
  written : ∀ key ∈ tables.writeLedger, ∃ row ∈ tables.messages, row.writeKey = key

-- What archiving some rows does to the tables.
structure Archived (before after : Tables) (rows : List ArchiveRow) (outcome : ArchiveOutcome) :
    Prop where
  messages : ∀ row ∈ before.messages, row ∈ after.messages
  ledger : ∀ claim ∈ before.ledger, claim ∈ after.ledger
  events : after.events = before.events
  claimed : ∀ claim ∈ after.ledger, claim ∈ before.ledger ∨
    ∃ row ∈ rows, LedgerClaim.of row = some claim
  stored : ∀ row ∈ rows, outcome.isDuplicate row.serverId = false →
    ∃ stored ∈ after.messages, stored.identity = row.identity
  duplicate : ∀ serverId, outcome.isDuplicate serverId = true →
    ∃ row ∈ rows, row.serverId = serverId ∧ ∃ claim, LedgerClaim.of row = some claim ∧
      Occupied after.ledger claim

theorem Occupied.mono {ledger ledger' : List LedgerClaim} {claim : LedgerClaim}
    (h : Occupied ledger claim) (hmo : ∀ entry ∈ ledger, entry ∈ ledger') :
    Occupied ledger' claim := by
  obtain ⟨entry, hm, hen⟩ := h
  exact ⟨entry, hmo entry hm, hen⟩

theorem Archived.refl (tables : Tables) : Archived tables tables [] {} where
  messages _ h := h
  ledger _ h := h
  events := rfl
  claimed _ h := .inl h
  stored _ h := absurd h List.not_mem_nil
  duplicate _ h := absurd h (by simp [ArchiveOutcome.isDuplicate])

theorem Archived.append {first middle last : Tables} {rows rows' : List ArchiveRow}
    {outcome' : ArchiveOutcome} (h : Archived first middle rows outcome)
    (h' : Archived middle last rows' outcome') :
    Archived first last (rows ++ rows') (outcome.merge outcome') where
  messages row hr := h'.messages row (h.messages row hr)
  ledger claim hc := h'.ledger claim (h.ledger claim hc)
  events := h'.events.trans h.events
  claimed claim hc := by
    rcases h'.claimed claim hc with hmi | ⟨row, hr, hof⟩
    · rcases h.claimed claim hmi with hf | ⟨row, hr, hof⟩
      · exact .inl hf
      · exact .inr ⟨row, List.mem_append_left _ hr, hof⟩
    · exact .inr ⟨row, List.mem_append_right _ hr, hof⟩
  stored row hr hdu := by
    rw [isDuplicate_merge, Bool.or_eq_false_iff] at hdu
    rcases List.mem_append.mp hr with hr | hr
    · obtain ⟨stored, hm, hie⟩ := h.stored row hr hdu.1
      exact ⟨stored, h'.messages stored hm, hie⟩
    · exact h'.stored row hr hdu.2
  duplicate serverId hdu := by
    rw [isDuplicate_merge, Bool.or_eq_true] at hdu
    rcases hdu with hdu | hdu
    · obtain ⟨row, hr, hs, claim, hof, ho⟩ := h.duplicate serverId hdu
      exact ⟨row, List.mem_append_left _ hr, hs, claim, hof, ho.mono h'.ledger⟩
    · obtain ⟨row, hr, hre⟩ := h'.duplicate serverId hdu
      exact ⟨row, List.mem_append_right _ hr, hre⟩

variable {issue : Issue} {tables : Tables} {rows : List ArchiveRow}

-- A row that is no duplicate is in the table after the transaction: it was written now, or
-- the write ledger knows it.
theorem archiveRows_stored (hco : Consistent issue tables) (hro : ∀ row ∈ rows, issue.row row)
    {row : ArchiveRow} (hr : row ∈ rows)
    (hdu : (archiveRows tables rows).2.isDuplicate row.serverId = false) :
    ∃ stored ∈ (archiveRows tables rows).1.messages, stored.identity = row.identity := by
  let candidates := rows.filter fun row =>
    !(archiveRows tables rows).2.isDuplicate row.serverId
  let written := insertKeys tables.writeLedger (candidates.map ArchiveRow.writeKey)
  have hc : row ∈ candidates := List.mem_filter.mpr ⟨hr, by simp [hdu]⟩
  have hk : row.writeKey ∈ tables.writeLedger ∨ row.writeKey ∈ written.2 :=
    insertKeys_snd (List.mem_map_of_mem hc)
  rcases hk with hold | hn
  · obtain ⟨stored, hm, hk⟩ := hco.written _ hold
    exact ⟨stored, mem_foldl_insertRow hm,
      issue.one_message _ _ (hco.issued stored hm) (hro row hr) hk⟩
  · have hie : row ∈ candidates.filter fun row => row.writeKey ∈ written.2 :=
      List.mem_filter.mpr ⟨hc, by simpa using hn⟩
    obtain ⟨stored, hm, hk⟩ : ∃ stored ∈ (archiveRows tables rows).1.messages,
      stored.writeKey = row.writeKey := exists_mem_foldl_insertRow hie
    have hiu : issue.row stored := by
      rcases of_mem_foldl_insertRow hm with hold | hin
      · exact hco.issued stored hold
      · exact hro stored (List.mem_of_mem_filter (List.mem_of_mem_filter hin))
    exact ⟨stored, hm, issue.one_message _ _ hiu (hro row hr) hk⟩

theorem archiveRows_archived (hco : Consistent issue tables) (hro : ∀ row ∈ rows, issue.row row) :
    Archived tables (archiveRows tables rows).1 rows (archiveRows tables rows).2 where
  messages _ h := mem_foldl_insertRow h
  ledger _ h := mem_insertClaims h
  events := rfl
  claimed claim h := by
    rcases of_mem_insertClaims h with hold | ⟨hm, -⟩
    · exact .inl hold
    · exact .inr (List.mem_filterMap.mp hm)
  stored _ hr hdu := archiveRows_stored hco hro hr hdu
  duplicate serverId hdu := by
    obtain ⟨-, claim, hc, hs, ho⟩ := claimSendIdempotency_duplicate hdu
    obtain ⟨row, hr, hof⟩ := List.mem_filterMap.mp hc
    exact ⟨row, hr, (LedgerClaim.serverId_of hof).symm.trans hs, claim, hof, ho⟩

theorem archiveRows_consistent (hc : Consistent issue tables)
    (hro : ∀ row ∈ rows, issue.row row) : Consistent issue (archiveRows tables rows).1 where
  issued row h := by
    rcases of_mem_foldl_insertRow h with hold | hn
    · exact hc.issued row hold
    · exact hro row (List.mem_of_mem_filter (List.mem_of_mem_filter hn))
  unique := hc.unique.insertClaims
  claimed claim h := by
    rcases of_mem_insertClaims h with hold | ⟨hm, hs⟩
    · obtain ⟨row, hr, hof⟩ := hc.claimed claim hold
      exact ⟨row, mem_foldl_insertRow hr, hof⟩
    · obtain ⟨row, hr, hof⟩ := List.mem_filterMap.mp hm
      -- a claim that went in is not a duplicate, so its row was stored with it
      have hdu : (archiveRows tables rows).2.isDuplicate row.serverId = false := by
        rw [Bool.eq_false_iff]
        intro hdu
        rw [← LedgerClaim.serverId_of hof] at hdu
        exact (claimSendIdempotency_duplicate hdu).1 hs
      obtain ⟨stored, hst, hie⟩ := archiveRows_stored hc hro hr hdu
      exact ⟨stored, hst, (LedgerClaim.of_congr hie).trans hof⟩
  written key h := by
    rcases insertKeys_fst h with hold | hn
    · obtain ⟨row, hr, hk⟩ := hc.written key hold
      exact ⟨row, mem_foldl_insertRow hr, hk⟩
    · obtain ⟨row, hca, rfl⟩ := List.mem_map.mp hn
      obtain ⟨hr, hke⟩ := List.mem_filter.mp hca
      have hdu : (archiveRows tables rows).2.isDuplicate row.serverId = false :=
        (Bool.not_eq_true' _).mp hke
      obtain ⟨stored, hst, hie⟩ := archiveRows_stored hc hro hr hdu
      obtain ⟨ht, hs, -⟩ := RowIdentity.mk.inj hie
      exact ⟨stored, hst, Prod.ext ht hs⟩

end Archive

section Groups

variable {clock : Clock} {ctx : Ctx} {issue : Issue}

-- The messages whose rows may be stored.
def Issue.messages (issue : Issue) (clock : Clock) (ctx : Ctx) (messages : List Message) : Prop :=
  ∀ message ∈ messages, ∀ row, archiveRow clock ctx message = .ok row → issue.row row

-- What archiving some messages does to the tables, `outcome` being there on success only.
structure Stores (clock : Clock) (ctx : Ctx) (issue : Issue) (before : Tables)
    (messages : List Message) (after : Tables) (outcome : ArchiveOutcome) : Prop where
  consistent : Consistent issue after
  archived : ∃ rows, List.Forall₂ (fun message row => archiveRow clock ctx message = .ok row)
    messages rows ∧ Archived before after rows outcome

-- A failed attempt leaves rows of some of the messages behind.
structure Keeps (issue : Issue) (before after : Tables) : Prop where
  consistent : Consistent issue after
  messages : ∀ row ∈ before.messages, row ∈ after.messages
  events : after.events = before.events

theorem Issue.messages.rows {messages : List Message} {rows : List ArchiveRow}
    (h : issue.messages clock ctx messages)
    (hro : List.Forall₂ (fun message row => archiveRow clock ctx message = .ok row)
      messages rows) : ∀ row ∈ rows, issue.row row := by
  intro row hr
  obtain ⟨message, hm, ha⟩ := Listing.exists_left_of_mem hro hr
  exact h message hm row ha

theorem storeArchiveBatchValues_spec {after : Tables} {messages : List Message}
    {committed : Bool}
    (hc : Consistent issue before) (hiu : issue.messages clock ctx messages)
    (h : storeArchiveBatchValues clock ctx before committed messages = (after, answer)) :
    (∃ error, answer = .error error ∧ after = before) ∨
      ∃ outcome, answer = .ok outcome ∧ Stores clock ctx issue before messages after outcome := by
  simp only [storeArchiveBatchValues] at h
  split at h
  · cases h
    exact .inl ⟨_, rfl, rfl⟩
  · rename_i rows hr
    have hr' := traverse_eq_ok hr
    split at h
    · cases h
      exact .inr ⟨_, rfl, archiveRows_consistent hc (hiu.rows hr'),
        rows, hr', archiveRows_archived hc (hiu.rows hr')⟩
    · cases h
      exact .inl ⟨_, rfl, rfl⟩

-- The transactions of one archiving: each keeps what the ones before it stored.
theorem archiveGroups_spec {groups : List (List Message)} {middle after : Tables}
    {done : List Message}
    (hdo : Stores clock ctx issue before done middle outcome)
    (hiu : issue.messages clock ctx groups.flatten)
    (h : archiveGroups clock ctx outcome middle answers groups = (after, answer)) :
    (∃ error, answer = .error error ∧ Keeps issue before after) ∨
      ∃ outcome', answer = .ok outcome' ∧
        Stores clock ctx issue before (done ++ groups.flatten) after outcome' := by
  induction groups generalizing middle answers outcome done with
  | nil =>
    simp only [archiveGroups] at h
    cases h
    exact .inr ⟨outcome, rfl, by simpa using hdo⟩
  | cons group rest ih =>
    obtain ⟨rows, hr, ha⟩ := hdo.archived
    have hg : issue.messages clock ctx group := fun message hm =>
      hiu message (List.mem_flatten_of_mem List.mem_cons_self hm)
    have hre : issue.messages clock ctx rest.flatten := by
      intro message hm
      obtain ⟨other, ho, hm⟩ := List.mem_flatten.mp hm
      exact hiu message (List.mem_flatten_of_mem (List.mem_cons_of_mem _ ho) hm)
    simp only [archiveGroups] at h
    split at h
    · rename_i stored error hs
      cases h
      rcases storeArchiveBatchValues_spec hdo.consistent hg hs with
        ⟨_, -, rfl⟩ | ⟨_, hok, -⟩
      · exact .inl ⟨error, rfl, hdo.consistent, ha.messages, ha.events⟩
      · cases hok
    · rename_i stored judged hs
      rcases storeArchiveBatchValues_spec hdo.consistent hg hs with
        ⟨_, heo, -⟩ | ⟨outcome', hok, hst⟩
      · cases heo
      · obtain rfl : judged = outcome' := Except.ok.inj hok
        obtain ⟨rows', hr', ha'⟩ := hst.archived
        have hb : Stores clock ctx issue before (done ++ group) stored
            (outcome.merge judged) :=
          ⟨hst.consistent, rows ++ rows', List.rel_append hr hr', ha.append ha'⟩
        rcases ih hb hre h with hf | ⟨outcome'', hok, hal⟩
        · exact .inl hf
        · refine .inr ⟨outcome'', hok, ?_⟩
          simpa only [List.flatten_cons, List.append_assoc] using hal

theorem archiveMessages_spec {size : Message → Nat} {after : Tables}
    {messages : List Message}
    (hc : Consistent issue before) (hiu : issue.messages clock ctx messages)
    (h : archiveMessages clock ctx size before answers messages = (after, answer)) :
    (∃ error, answer = .error error ∧ Keeps issue before after) ∨
      ∃ outcome, answer = .ok outcome ∧ Stores clock ctx issue before messages after outcome := by
  have hg : (if messages.length ≤ 10 then messages.map ([·])
      else messages.toChunks (optimalBatchSize size messages)).flatten = messages := by
    split
    · simp [List.flatten_eq_flatMap, List.flatMap_map]
    · exact Listing.toChunks_flatten _ _
  have hs : Stores clock ctx issue before [] before {} :=
    ⟨hc, [], .nil, Archived.refl before⟩
  have hsp := archiveGroups_spec hs (by rwa [hg]) h
  rwa [List.nil_append, hg] at hsp

end Groups

section EventStream

variable {codec : Codec} {events : List EventStreamInsertRow} {row : EventStreamInsertRow}

-- What tells one message from another in its event.
def messageIdentity (message : Message) : String × String × String × String × Nat :=
  (message.serverId, message.clientMsgId, message.senderId, message.conversationId,
    message.conversationSeq)

def eventIdentity (codec : Codec) (payload : List UInt8) :
    Option (String × String × String × String × Nat) :=
  (codec.message.decode payload).map messageIdentity

def MessageRow (row : EventStreamInsertRow) : Prop := row.eventType = .known .eventMessage

theorem eventIdentity_of_match {existingPayload : List UInt8} {acceptLegacy : Bool}
    (hr : MessageRow row)
    (h : matchExistingEvent codec (.known .eventMessage) existingPayload row acceptLegacy ≠
      .conflict) : eventIdentity codec existingPayload = eventIdentity codec row.payload := by
  have hde (payload : List UInt8) : decodeStored codec row.eventType payload =
      (codec.message.decode payload).map .message := by
    rw [hr]
    rfl
  rw [matchExistingEvent, hr] at h
  by_cases hs : existingPayload = row.payload
  · rw [hs]
  · rw [if_neg (by simp [hs])] at h
    simp only [bne_self_eq_false, Bool.and_false, Bool.false_and, ne_eq, not_true_eq_false,
      false_and, if_false, hs] at h
    rw [← hr, hde, hde] at h
    unfold eventIdentity
    cases hei : codec.message.decode existingPayload with
    | none => simp [hei] at h
    | some existing =>
      cases hn : codec.message.decode row.payload with
      | none => simp [hei, hn] at h
      | some new =>
        simp only [hei, hn, Option.map_some, Payload.message.injEq] at h
        by_cases heq : existing = new
        · rw [heq]
        · rw [if_neg heq] at h
          have hm : sameMessage existing new = true := by
            by_contra hno
            simp [hno] at h
          simp only [sameMessage, Bool.and_eq_true, beq_iff_eq] at hm
          simp [messageIdentity, hm]

-- The stream has the event of the row, or an event about the same message in its place.
def Recorded (codec : Codec) (events : List EventStreamInsertRow) (row : EventStreamInsertRow) :
    Prop :=
  ∃ event ∈ events, eventKey event = eventKey row ∧ MessageRow event ∧
    eventIdentity codec event.payload = eventIdentity codec row.payload

theorem Recorded.mono {events' : List EventStreamInsertRow} (h : Recorded codec events row)
    (hmo : ∀ event ∈ events, event ∈ events') : Recorded codec events' row := by
  obtain ⟨event, hm, hev⟩ := h
  exact ⟨event, hmo event hm, hev⟩

theorem loadExistingEvent_eq_some {existing : TypeNumber × List UInt8}
    (h : loadExistingEvent events row = some existing) : ∃ event ∈ events,
      eventKey event = eventKey row ∧ (event.eventType, event.payload) = existing := by
  obtain ⟨event, hf, hei⟩ := Option.map_eq_some_iff.mp h
  exact ⟨event, List.mem_of_find?_eq_some hf, by simpa using List.find?_some hf, hei⟩

theorem loadExistingEvent_eq_none (h : loadExistingEvent events row = none) :
    ∀ event ∈ events, eventKey event ≠ eventKey row := by
  intro event hev
  simpa using List.find?_eq_none.mp (Option.map_eq_none_iff.mp h) event hev

theorem mem_insertEvent (h : event ∈ events) :
    event ∈ insertEvent events row := by
  unfold insertEvent
  split
  · exact h
  · exact List.mem_cons_of_mem _ h

theorem of_mem_insertEvent (h : event ∈ insertEvent events row) : event ∈ events ∨ event = row := by
  unfold insertEvent at h
  split at h
  · exact .inl h
  · exact (List.mem_cons.mp h).symm

theorem exists_mem_insertEvent (events : List EventStreamInsertRow) (row : EventStreamInsertRow) :
    ∃ event ∈ insertEvent events row, eventKey event = eventKey row := by
  unfold insertEvent
  split
  · rename_i hs
    obtain ⟨existing, hei⟩ := Option.isSome_iff_exists.mp hs
    obtain ⟨event, hm, hk, -⟩ := loadExistingEvent_eq_some hei
    exact ⟨event, hm, hk⟩
  · exact ⟨row, List.mem_cons_self, rfl⟩

theorem mem_foldl_insertEvent {rows : List EventStreamInsertRow}
    (h : event ∈ events) : event ∈ rows.foldl insertEvent events := by
  induction rows generalizing events with
  | nil => exact h
  | cons head rest ih => exact ih (mem_insertEvent h)

theorem of_mem_foldl_insertEvent {rows : List EventStreamInsertRow}
    (h : event ∈ rows.foldl insertEvent events) : event ∈ events ∨ event ∈ rows := by
  induction rows generalizing events with
  | nil => exact .inl h
  | cons head rest ih =>
    rcases ih h with hold | hr
    · rcases of_mem_insertEvent hold with hold | rfl
      · exact .inl hold
      · exact .inr List.mem_cons_self
    · exact .inr (List.mem_cons_of_mem _ hr)

theorem exists_mem_foldl_insertEvent {rows : List EventStreamInsertRow} (h : row ∈ rows) :
    ∃ event ∈ rows.foldl insertEvent events, eventKey event = eventKey row := by
  induction rows generalizing events with
  | nil => exact absurd h List.not_mem_nil
  | cons head rest ih =>
    rcases List.mem_cons.mp h with rfl | hr
    · obtain ⟨event, hm, hk⟩ := exists_mem_insertEvent events row
      have hke : event ∈ rest.foldl insertEvent (insertEvent events row) :=
        mem_foldl_insertEvent hm
      exact ⟨event, hke, hk⟩
    · exact ih hr

theorem recorded_of_existing {existing : TypeNumber × List UInt8}
    (hev : ∀ event ∈ events, MessageRow event) (hr : MessageRow row)
    (hl : loadExistingEvent events row = some existing)
    (hma : isConflict codec row existing = false) : Recorded codec events row := by
  obtain ⟨event, hm, hk, rfl⟩ := loadExistingEvent_eq_some hl
  have ht : event.eventType = .known .eventMessage := hev event hm
  refine ⟨event, hm, hk, ht, ?_⟩
  simp only [isConflict, ht, beq_eq_false_iff_ne] at hma
  exact eventIdentity_of_match hr hma

-- No two rows contradict each other at one position.
def Agreeing (codec : Codec) (rows : List EventStreamInsertRow) : Prop :=
  ∀ a ∈ rows, ∀ b ∈ rows, eventKey a = eventKey b →
    eventIdentity codec a.payload = eventIdentity codec b.payload

theorem Agreeing.cons {rows : List EventStreamInsertRow} (h : Agreeing codec rows)
    (hr : ∀ other ∈ rows, eventKey other = eventKey row →
      eventIdentity codec other.payload = eventIdentity codec row.payload) :
    Agreeing codec (row :: rows) := by
  intro a ha b hb hk
  rcases List.mem_cons.mp ha with rfl | hold
  · rcases List.mem_cons.mp hb with rfl | hold
    · rfl
    · exact (hr b hold hk.symm).symm
  · rcases List.mem_cons.mp hb with rfl | hold'
    · exact hr a hold hk
    · exact h a hold b hold' hk

theorem agreeing_of_conflictingDuplicate {seen rows : List EventStreamInsertRow}
    (hs : ∀ event ∈ seen, MessageRow event) (hro : ∀ event ∈ rows, MessageRow event)
    (ha : Agreeing codec seen) (h : conflictingDuplicate codec seen rows = none) :
    Agreeing codec (rows.reverse ++ seen) := by
  induction rows generalizing seen with
  | nil => exact ha
  | cons row rest ih =>
    have hr : MessageRow row := hro row List.mem_cons_self
    have hn : Agreeing codec (row :: seen) ∧
        conflictingDuplicate codec (row :: seen) rest = none := by
      simp only [conflictingDuplicate] at h
      split at h
      · rename_i hf
        refine ⟨ha.cons fun other hm hk => ?_, h⟩
        exact absurd hk (by simpa using List.find?_eq_none.mp hf other hm)
      · rename_i previous hf
        split at h
        · cases h
        · rename_i hma
          have hp := List.mem_of_find?_eq_some hf
          have hk : eventKey previous = eventKey row := by simpa using List.find?_some hf
          rw [hs previous hp] at hma
          -- what was seen at the position agrees with the last of it
          refine ⟨ha.cons fun other hm ho => ?_, h⟩
          exact (ha other hm previous hp (ho.trans hk.symm)).trans (eventIdentity_of_match hr hma)
    have hal : Agreeing codec (rest.reverse ++ row :: seen) :=
      ih (List.forall_mem_cons.mpr ⟨hr, hs⟩)
        (fun event hm => hro event (List.mem_cons_of_mem _ hm)) hn.1 hn.2
    simpa using hal

-- What appending some rows does to the stream.
structure Appended (before after rows : List EventStreamInsertRow) : Prop where
  kept : ∀ event ∈ before, event ∈ after
  only : ∀ event ∈ after, event ∈ before ∨ event ∈ rows

theorem Appended.messageRows {before after rows : List EventStreamInsertRow}
    (h : Appended before after rows) (hb : ∀ event ∈ before, MessageRow event)
    (hr : ∀ event ∈ rows, MessageRow event) : ∀ event ∈ after, MessageRow event := by
  intro event hm
  rcases h.only event hm with hold | hn
  · exact hb event hold
  · exact hr event hn

theorem appendEventRows_appended {rows : List EventStreamInsertRow} :
    Appended events (appendEventRows codec events answered rows).1 rows := by
  unfold appendEventRows
  split
  · exact ⟨fun _ h => mem_foldl_insertEvent h, fun _ h => of_mem_foldl_insertEvent h⟩
  · exact ⟨fun _ h => h, fun _ h => .inl h⟩

theorem appendEventRows_recorded {rows : List EventStreamInsertRow}
    (hev : ∀ event ∈ events, MessageRow event) (hro : ∀ event ∈ rows, MessageRow event)
    (ha : Agreeing codec rows) (h : (appendEventRows codec events answered rows).2 = .ok ()) :
    ∀ row ∈ rows, Recorded codec (appendEventRows codec events answered rows).1 row := by
  intro row hr
  cases answered with
  | false => exact absurd h (by simp [appendEventRows])
  | true =>
    simp only [appendEventRows, if_true] at h ⊢
    have hn : conflictingEvents codec events rows = [] := by
      split at h
      · assumption
      · cases h
    cases hl : loadExistingEvent events row with
    | some existing =>
      have hma : isConflict codec row existing = false := by
        have hno := List.filterMap_eq_nil_iff.mp hn row hr
        rw [hl] at hno
        by_contra hc
        simp [hc] at hno
      exact (recorded_of_existing hev (hro row hr) hl hma).mono fun _ hm => mem_foldl_insertEvent hm
    | none =>
      obtain ⟨event, hm, hk⟩ : ∃ event ∈ rows.foldl insertEvent events,
        eventKey event = eventKey row := exists_mem_foldl_insertEvent hr
      rcases of_mem_foldl_insertEvent hm with hold | hnw
      · exact absurd hk (loadExistingEvent_eq_none hl event hold)
      · exact ⟨event, hm, hk, hro event hnw, ha event hnw row hr hk⟩

theorem Appended.append {first middle last rows rows' : List EventStreamInsertRow}
    (h : Appended first middle rows) (h' : Appended middle last rows') :
    Appended first last (rows ++ rows') where
  kept event hm := h'.kept event (h.kept event hm)
  only event hm := by
    rcases h'.only event hm with hmi | hn
    · rcases h.only event hmi with hf | hn
      · exact .inl hf
      · exact .inr (List.mem_append_left _ hn)
    · exact .inr (List.mem_append_right _ hn)

theorem appendChunks_appended (answers : List Bool) (chunks : List (List EventStreamInsertRow)) :
    Appended events (appendChunks codec events answers chunks).1 chunks.flatten := by
  induction chunks generalizing events answers with
  | nil => exact ⟨fun _ h => h, fun _ h => .inl h⟩
  | cons chunk rest ih =>
    have hc : Appended events
        (appendEventRows codec events (answers.headD true) chunk).1 chunk :=
      appendEventRows_appended
    simp only [appendChunks, List.flatten_cons]
    split
    · rename_i appended error ha
      rw [ha] at hc
      exact ⟨hc.kept, fun event hm =>
        (hc.only event hm).imp_right (List.mem_append_left _)⟩
    · rename_i appended ha
      rw [ha] at hc
      exact hc.append (ih _)

theorem appendChunks_recorded {chunks : List (List EventStreamInsertRow)}
    (hev : ∀ event ∈ events, MessageRow event) (hro : ∀ event ∈ chunks.flatten, MessageRow event)
    (hag : Agreeing codec chunks.flatten)
    (h : (appendChunks codec events answers chunks).2 = .ok ()) :
    ∀ row ∈ chunks.flatten, Recorded codec (appendChunks codec events answers chunks).1 row := by
  induction chunks generalizing events answers with
  | nil => exact fun row hr => absurd hr (by simp)
  | cons chunk rest ih =>
    rw [List.flatten_cons] at hro hag ⊢
    have hc : ∀ event ∈ chunk, MessageRow event :=
      fun event hm => hro event (List.mem_append_left _ hm)
    have hrt : ∀ event ∈ rest.flatten, MessageRow event :=
      fun event hm => hro event (List.mem_append_right _ hm)
    have hch : Agreeing codec chunk := fun a ha b hb =>
      hag a (List.mem_append_left _ ha) b (List.mem_append_left _ hb)
    have hrs : Agreeing codec rest.flatten := fun a ha b hb =>
      hag a (List.mem_append_right _ ha) b (List.mem_append_right _ hb)
    simp only [appendChunks] at h ⊢
    split at h
    · cases h
    · rename_i appended hap
      have hcu : Appended events
          (appendEventRows codec events (answers.headD true) chunk).1 chunk :=
        appendEventRows_appended
      have hre : ∀ row ∈ chunk, Recorded codec
          (appendEventRows codec events (answers.headD true) chunk).1 row :=
        appendEventRows_recorded hev hc hch (by rw [hap])
      rw [hap] at hcu hre
      intro row hr
      rcases List.mem_append.mp hr with hr | hr
      · exact (hre row hr).mono (appendChunks_appended _ _).kept
      · exact ih (hcu.messageRows hev hc) hrt hrs h row hr

variable {clock : Clock} {tables : Tables}

-- Appending a batch of message events: its rows, and after success an event for each of them.
theorem appendEventsToStream_spec {batch : List EventRow.Event}
    {after : Tables} {answer : Except FlareError Unit}
    (hev : ∀ event ∈ tables.events, MessageRow event)
    (hba : ∀ event ∈ batch, ∀ row, eventToInsertRow codec clock event = some row → MessageRow row)
    (h : appendEventsToStream codec clock tables answers batch = (after, answer)) :
    ∃ appended, after = { tables with events := appended } ∧
      Appended tables.events appended (batch.filterMap (eventToInsertRow codec clock)) ∧
      (answer = .ok () → ∀ row ∈ batch.filterMap (eventToInsertRow codec clock),
        Recorded codec appended row) := by
  have hro : ∀ row ∈ batch.filterMap (eventToInsertRow codec clock), MessageRow row := by
    intro row hr
    obtain ⟨event, hm, hee⟩ := List.mem_filterMap.mp hr
    exact hba event hm row hee
  simp only [appendEventsToStream] at h
  split at h
  · cases h
    exact ⟨tables.events, rfl, ⟨fun _ h => h, fun _ h => .inl h⟩, fun hok => absurd hok (by simp)⟩
  · rename_i hn
    cases h
    have hag := agreeing_of_conflictingDuplicate (fun event hm => absurd hm List.not_mem_nil) hro
      (fun a ha => absurd ha List.not_mem_nil) hn
    rw [List.append_nil] at hag
    have hag' : Agreeing codec (batch.filterMap (eventToInsertRow codec clock)) :=
      fun a ha b hb => hag a (List.mem_reverse.mpr ha) b (List.mem_reverse.mpr hb)
    have hc := Listing.toChunks_flatten EVENT_STREAM_BATCH_SIZE
      (batch.filterMap (eventToInsertRow codec clock))
    refine ⟨_, rfl, ?_, fun hok => ?_⟩
    · have hap : Appended tables.events
          (appendChunks codec tables.events answers _).1 _ := appendChunks_appended answers
        ((batch.filterMap (eventToInsertRow codec clock)).toChunks EVENT_STREAM_BATCH_SIZE)
      rwa [hc] at hap
    · have hre := appendChunks_recorded hev (by rwa [hc]) (by rwa [hc]) hok
      rwa [hc] at hre

theorem appendEvent_spec {event : EventRow.Event} {row : EventStreamInsertRow}
    {after : Tables} {answer : Except FlareError Unit}
    (hev : ∀ event ∈ tables.events, MessageRow event)
    (hie : eventToInsertRow codec clock event = some row) (hr : MessageRow row)
    (h : appendEvent codec clock tables answered event = (after, answer)) :
    ∃ appended, after = { tables with events := appended } ∧ Appended tables.events appended [row] ∧
      (answer = .ok () → Recorded codec appended row) := by
  have hs : Appended tables.events tables.events [row] :=
    ⟨fun _ h => h, fun _ h => .inl h⟩
  simp only [appendEvent, appendEventToStream, hie] at h
  cases answered with
  | false =>
    simp only [eventTable, Bool.false_eq_true, if_false] at h
    cases h
    exact ⟨tables.events, rfl, hs, fun hok => absurd hok (by simp)⟩
  | true =>
    simp only [eventTable, if_true] at h
    have hin : Appended tables.events (insertEvent tables.events row) [row] :=
      ⟨fun _ h => mem_insertEvent h, fun _ h =>
        (of_mem_insertEvent h).imp_right List.mem_singleton.mpr⟩
    cases hl : loadExistingEvent tables.events row with
    | none =>
      simp only [hl] at h
      cases h
      refine ⟨_, rfl, hin, fun _ => ⟨row, ?_, rfl, hr, rfl⟩⟩
      simp [insertEvent, hl]
    | some existing =>
      simp only [hl] at h
      cases hm : isConflict codec row existing with
      | true =>
        simp only [hm, if_true] at h
        cases h
        exact ⟨tables.events, rfl, hs, fun hok => absurd hok (by simp)⟩
      | false =>
        simp only [hm, Bool.false_eq_true, if_false] at h
        cases h
        exact ⟨_, rfl, hin, fun _ =>
          (recorded_of_existing hev hr hl hm).mono fun _ h => mem_insertEvent h⟩

end EventStream

end FlareIm.MessageArchive
