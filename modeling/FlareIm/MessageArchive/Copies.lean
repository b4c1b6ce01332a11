import FlareIm.Lib.Transition
import FlareIm.MessageArchive.Theorems

namespace FlareIm.MessageArchive

open Text Context Proto EventRow EventApplication Fallible Transition

variable {answer : Except FlareError ArchiveOutcome} {outcome : ArchiveOutcome} {row : ArchiveRow}

section Claims

variable {ledger claims rest : List LedgerClaim} {claim head : LedgerClaim}

theorem occupant_append : occupant (ledger ++ claims) claim =
    (occupant ledger claim).or (occupant claims claim) :=
  List.find?_append

theorem occupant_congr {other : LedgerClaim} (hk : claim.key = other.key) :
    occupant ledger claim = occupant ledger other := by
  simp only [occupant, hk]

theorem occupant_cons : occupant (head :: ledger) claim =
    if head.key = claim.key then some head else occupant ledger claim := by
  simp only [occupant, List.find?_cons]
  split
  · rename_i hk
    rw [if_pos (by simpa using hk)]
  · rename_i hk
    rw [if_neg (by simpa using hk)]

theorem exists_occupant (hm : claim ∈ ledger) : ∃ entry, occupant ledger claim = some entry := by
  have hs : (occupant ledger claim).isSome := by
    rw [occupant, List.find?_isSome]
    exact ⟨claim, hm, by simp⟩
  exact Option.isSome_iff_exists.mp hs

theorem UniqueKeys.occupant_eq (h : UniqueKeys ledger) {entry : LedgerClaim}
    (hm : entry ∈ ledger) (hk : entry.key = claim.key) : occupant ledger claim = some entry := by
  obtain ⟨found, hf⟩ := exists_occupant hm
  obtain ⟨hfo, hfu⟩ := occupant_eq_some hf
  rw [occupant_congr hk.symm, hf, h found hfo entry hm hfu]

-- A key goes to its first claim: the ledger answers as if the claims stood behind it.
theorem occupant_insertClaims :
    occupant (insertClaims ledger claims).1 claim = occupant (ledger ++ claims) claim := by
  induction claims generalizing ledger with
  | nil => rw [insertClaims, List.append_nil]
  | cons head rest ih =>
    simp only [insertClaims]
    split
    · rename_i entry hh
      rw [ih, occupant_append, occupant_append, occupant_cons]
      split
      · rename_i hk
        rw [← occupant_congr hk, hh]
        rfl
      · rfl
    · rename_i hf
      rw [ih, List.cons_append, occupant_cons, occupant_append, occupant_append, occupant_cons]
      split
      · rename_i hk
        rw [← occupant_congr hk, hf]
        rfl
      · rfl

theorem occupant_of_inserted {serverId : String} (h : serverId ∈ (insertClaims ledger claims).2) :
    ∃ claim ∈ claims, claim.serverId = serverId ∧
      occupant (insertClaims ledger claims).1 claim = some claim := by
  induction claims generalizing ledger with
  | nil => exact absurd h List.not_mem_nil
  | cons head rest ih =>
    simp only [insertClaims] at h ⊢
    split at h
    · obtain ⟨claim, hm, hc⟩ := ih h
      exact ⟨claim, List.mem_cons_of_mem _ hm, hc⟩
    · rcases List.mem_cons.mp h with rfl | hr
      · refine ⟨head, List.mem_cons_self, rfl, ?_⟩
        rw [occupant_insertClaims, List.cons_append, occupant_cons, if_pos rfl]
      · obtain ⟨claim, hm, hc⟩ := ih hr
        exact ⟨claim, List.mem_cons_of_mem _ hm, hc⟩

-- The first claim of the key is of another message in the same conversation.
def Resend (ledger : List LedgerClaim) (claim : LedgerClaim) : Prop :=
  ∃ entry, occupant ledger claim = some entry ∧ entry.serverId ≠ claim.serverId ∧
    entry.conversationId = claim.conversationId

theorem Resend.congr {other : List LedgerClaim} (h : occupant ledger claim = occupant other claim) :
    Resend ledger claim ↔ Resend other claim := by
  rw [Resend, Resend, h]

theorem isDuplicate_judge {serverId : String} :
    (judge ledger outcome claim).isDuplicate serverId = true ↔
      outcome.isDuplicate serverId = true ∨ claim.serverId = serverId ∧ Resend ledger claim := by
  unfold judge Resend
  split
  · rename_i hf
    simp [hf]
  · rename_i entry hh
    split_ifs with hs hc
    · simp [hh, hs]
    · have ho : ¬ (entry.conversationId = claim.conversationId) := hc
      simp [ArchiveOutcome.isDuplicate, hh, ho]
    · have hsa : entry.conversationId = claim.conversationId := not_not.mp hc
      simp [ArchiveOutcome.isDuplicate, hh, hs, hsa, List.any_append]

theorem isDuplicate_foldl_judge {serverId : String} :
    (claims.foldl (judge ledger) outcome).isDuplicate serverId = true ↔
      outcome.isDuplicate serverId = true ∨
        ∃ claim ∈ claims, claim.serverId = serverId ∧ Resend ledger claim := by
  induction claims generalizing outcome with
  | nil => simp
  | cons head rest ih =>
    rw [List.foldl_cons, ih, isDuplicate_judge]
    simp only [List.mem_cons, exists_eq_or_imp]
    tauto

-- A server id stands for one claim.
def OneClaim (claims : List LedgerClaim) : Prop :=
  ∀ a ∈ claims, ∀ b ∈ claims, a.serverId = b.serverId → a = b

theorem isDuplicate_claimSendIdempotency (hon : OneClaim claims) {serverId : String} :
    (claimSendIdempotency ledger claims).2.isDuplicate serverId = true ↔
      ∃ claim ∈ claims, claim.serverId = serverId ∧ Resend (ledger ++ claims) claim := by
  have hsa (claim : LedgerClaim) : Resend (insertClaims ledger claims).1 claim ↔
      Resend (ledger ++ claims) claim := Resend.congr occupant_insertClaims
  rw [claimSendIdempotency, isDuplicate_foldl_judge]
  simp only [ArchiveOutcome.isDuplicate, List.any_nil, Bool.false_eq_true, false_or,
    List.mem_filter, decide_eq_true_eq, hsa]
  constructor
  · rintro ⟨claim, ⟨hm, -⟩, hs, hr⟩
    exact ⟨claim, hm, hs, hr⟩
  · rintro ⟨claim, hm, hs, hr⟩
    refine ⟨claim, ⟨hm, fun hin => ?_⟩, hs, hr⟩
    obtain ⟨other, ho, hoh, hf⟩ := occupant_of_inserted hin
    obtain rfl : other = claim := hon other ho claim hm hoh
    obtain ⟨entry, hen, hne, -⟩ := (hsa other).mpr hr
    rw [hf] at hen
    exact hne (congrArg LedgerClaim.serverId (Option.some.inj hen)).symm

end Claims

section Rows

variable {tables : Tables} {rows : List ArchiveRow}

theorem mem_insertKeys_fst {writeLedger keys : List (String × String)} {key : String × String}
    (h : key ∈ writeLedger ∨ key ∈ keys) : key ∈ (insertKeys writeLedger keys).1 := by
  induction keys generalizing writeLedger with
  | nil =>
    rcases h with hold | hn
    · exact hold
    · exact absurd hn List.not_mem_nil
  | cons head rest ih =>
    simp only [insertKeys]
    split
    · rename_i hh
      rcases h with hold | hn
      · exact ih (.inl hold)
      · rcases List.mem_cons.mp hn with rfl | hr
        · exact ih (.inl hh)
        · exact ih (.inr hr)
    · rcases h with hold | hn
      · exact ih (.inl (List.mem_cons_of_mem _ hold))
      · rcases List.mem_cons.mp hn with rfl | hr
        · exact ih (.inl List.mem_cons_self)
        · exact ih (.inr hr)

theorem not_mem_of_insertKeys_snd {writeLedger keys : List (String × String)}
    {key : String × String} (h : key ∈ (insertKeys writeLedger keys).2) : key ∉ writeLedger := by
  induction keys generalizing writeLedger with
  | nil => exact absurd h List.not_mem_nil
  | cons head rest ih =>
    simp only [insertKeys] at h
    split at h
    · exact ih h
    · rename_i hh
      rcases List.mem_cons.mp h with rfl | hr
      · exact hh
      · exact fun hold => ih hr (List.mem_cons_of_mem _ hold)

theorem nodup_foldl_insertRow {messages : List ArchiveRow}
    (h : (messages.map ArchiveRow.writeKey ++ rows.map ArchiveRow.writeKey).Nodup) :
    ((rows.foldl insertRow messages).map ArchiveRow.writeKey).Nodup := by
  induction rows generalizing messages with
  | nil => simpa using h
  | cons row rest ih =>
    refine ih ?_
    have hin : insertRow messages row = row :: messages := by
      rw [insertRow, if_neg]
      intro ha
      obtain ⟨other, ho, hs⟩ := List.any_eq_true.mp ha
      simp only [Bool.and_eq_true, beq_iff_eq] at hs
      have hdi := List.disjoint_of_nodup_append h
      refine hdi (List.mem_map_of_mem ho) ?_
      rw [hs.1]
      exact List.mem_cons_self
    rw [hin]
    simpa using List.perm_middle.nodup_iff.mp h

-- Each message is archived once, and the ledger points to the first one of its sends.
structure OneCopy (tables : Tables) : Prop where
  unique : UniqueKeys tables.ledger
  once : (tables.messages.map ArchiveRow.writeKey).Nodup
  written : ∀ row ∈ tables.messages, row.writeKey ∈ tables.writeLedger
  keyed : ∀ key ∈ tables.writeLedger, ∃ row ∈ tables.messages, row.writeKey = key
  judged : ∀ row ∈ tables.messages, ∀ claim, LedgerClaim.of row = some claim →
    ∃ entry ∈ tables.ledger, entry.key = claim.key ∧
      (entry.serverId = claim.serverId ∨ entry.conversationId ≠ claim.conversationId)
  stored : ∀ entry ∈ tables.ledger, (entry.tenantId, entry.serverId) ∈ tables.writeLedger

theorem oneClaim_of_nodup (h : (rows.map (·.serverId)).Nodup) :
    OneClaim (rows.filterMap LedgerClaim.of) := by
  intro a ha b hb hs
  obtain ⟨rowA, hr, ho⟩ := List.mem_filterMap.mp ha
  obtain ⟨rowB, hro, hof⟩ := List.mem_filterMap.mp hb
  rw [LedgerClaim.serverId_of ho, LedgerClaim.serverId_of hof] at hs
  obtain rfl : rowA = rowB := List.inj_on_of_nodup_map h hr hro hs
  exact Option.some.inj (ho.symm.trans hof)

theorem LedgerClaim.writeKey_of {claim : LedgerClaim}
    (h : LedgerClaim.of row = some claim) : row.writeKey = (claim.tenantId, claim.serverId) := by
  obtain ⟨ht, hs, -⟩ := RowIdentity.mk.inj (LedgerClaim.identity_of h)
  exact Prod.ext ht hs

-- The rows of a call that are no resends, and those among them that are new to the write ledger.
def candidateRows (tables : Tables) (rows : List ArchiveRow) : List ArchiveRow :=
  rows.filter fun row => !(archiveRows tables rows).2.isDuplicate row.serverId

def insertedRows (tables : Tables) (rows : List ArchiveRow) : List ArchiveRow :=
  (candidateRows tables rows).filter fun row =>
    row.writeKey ∈
      (insertKeys tables.writeLedger ((candidateRows tables rows).map ArchiveRow.writeKey)).2

theorem archiveRows_messages : (archiveRows tables rows).1.messages =
    (insertedRows tables rows).foldl insertRow tables.messages :=
  rfl

theorem mem_candidateRows : row ∈ candidateRows tables rows ↔
    row ∈ rows ∧ (archiveRows tables rows).2.isDuplicate row.serverId = false := by
  rw [candidateRows, List.mem_filter, Bool.not_eq_true']

theorem writeKey_of_candidate (hr : row ∈ candidateRows tables rows) :
    row.writeKey ∈ (archiveRows tables rows).1.writeLedger :=
  mem_insertKeys_fst (.inr (List.mem_map_of_mem hr))

theorem archiveRows_once (h : OneCopy tables) (hids : (rows.map (·.serverId)).Nodup) :
    ((archiveRows tables rows).1.messages.map ArchiveRow.writeKey).Nodup := by
  rw [archiveRows_messages]
  refine nodup_foldl_insertRow (List.nodup_append'.mpr ⟨h.once, ?_, ?_⟩)
  · have hs : (insertedRows tables rows).Sublist rows :=
      List.filter_sublist.trans List.filter_sublist
    have hke : (rows.map ArchiveRow.writeKey).Nodup := by
      refine List.Nodup.of_map Prod.snd ?_
      rw [List.map_map]
      exact hids
    exact (hs.map _).nodup hke
  · intro key hold hn
    obtain ⟨row, hr, rfl⟩ := List.mem_map.mp hn
    obtain ⟨old, hm, hk⟩ := List.mem_map.mp hold
    have hf := not_mem_of_insertKeys_snd (of_decide_eq_true (List.mem_filter.mp hr).2)
    exact hf (hk ▸ h.written old hm)

theorem archiveRows_keyed (h : OneCopy tables) :
    ∀ key ∈ (archiveRows tables rows).1.writeLedger,
      ∃ row ∈ (archiveRows tables rows).1.messages, row.writeKey = key := by
  intro key hk
  have hr (old : key ∈ tables.writeLedger) :
      ∃ row ∈ (archiveRows tables rows).1.messages, row.writeKey = key := by
    obtain ⟨row, hm, hs⟩ := h.keyed key old
    exact ⟨row, mem_foldl_insertRow hm, hs⟩
  rcases insertKeys_fst hk with hold | hn
  · exact hr hold
  · rcases insertKeys_snd hn with hold | hf
    · exact hr hold
    · obtain ⟨row, hm, rfl⟩ := List.mem_map.mp hn
      exact exists_mem_foldl_insertRow (List.mem_filter.mpr ⟨hm, by simpa using hf⟩)

-- A row that is no resend: the first claim of its key is its own or of another conversation.
theorem candidate_judged (hids : (rows.map (·.serverId)).Nodup)
    (hr : row ∈ candidateRows tables rows) {claim : LedgerClaim}
    (hof : LedgerClaim.of row = some claim) :
    ∃ entry ∈ (archiveRows tables rows).1.ledger, entry.key = claim.key ∧
      (entry.serverId = claim.serverId ∨ entry.conversationId ≠ claim.conversationId) := by
  obtain ⟨hm, hu⟩ := mem_candidateRows.mp hr
  have ho : OneClaim (rows.filterMap LedgerClaim.of) := oneClaim_of_nodup hids
  have hc : claim ∈ rows.filterMap LedgerClaim.of := List.mem_filterMap.mpr ⟨row, hm, hof⟩
  obtain ⟨entry, hen⟩ := exists_occupant (List.mem_append_right tables.ledger hc)
  have hn : ¬ Resend (tables.ledger ++ rows.filterMap LedgerClaim.of) claim := by
    intro hre
    have hl := (isDuplicate_claimSendIdempotency ho).mpr
      ⟨claim, hc, LedgerClaim.serverId_of hof, hre⟩
    exact absurd hl (Bool.eq_false_iff.mp hu)
  obtain ⟨hin, hk⟩ := occupant_eq_some (occupant_insertClaims.trans hen)
  refine ⟨entry, hin, hk, ?_⟩
  by_contra hb
  rw [not_or, not_not] at hb
  exact hn ⟨entry, hen, hb⟩

theorem archiveRows_oneCopy (h : OneCopy tables) (hids : (rows.map (·.serverId)).Nodup) :
    OneCopy (archiveRows tables rows).1 := by
  refine ⟨h.unique.insertClaims, archiveRows_once h hids, ?_, archiveRows_keyed h, ?_, ?_⟩
  · intro row hr
    rcases of_mem_foldl_insertRow hr with hold | hn
    · exact mem_insertKeys_fst (.inl (h.written row hold))
    · exact writeKey_of_candidate (List.mem_of_mem_filter hn)
  · intro row hr claim hof
    rcases of_mem_foldl_insertRow hr with hold | hn
    · obtain ⟨entry, hen, hk, hj⟩ := h.judged row hold claim hof
      exact ⟨entry, mem_insertClaims hen, hk, hj⟩
    · exact candidate_judged hids (List.mem_of_mem_filter hn) hof
  · intro entry hen
    rcases of_mem_insertClaims hen with hold | ⟨hm, hin⟩
    · exact mem_insertKeys_fst (.inl (h.stored entry hold))
    · obtain ⟨row, hr, hof⟩ := List.mem_filterMap.mp hm
      have hdu : (archiveRows tables rows).2.isDuplicate row.serverId = false := by
        rw [Bool.eq_false_iff]
        intro hdu
        rw [← LedgerClaim.serverId_of hof] at hdu
        exact (claimSendIdempotency_duplicate hdu).1 hin
      rw [← LedgerClaim.writeKey_of hof]
      exact writeKey_of_candidate (mem_candidateRows.mpr ⟨hr, hdu⟩)

end Rows

section Calls

variable (clock : Clock) (ctx : Ctx)

-- What the row of a message claims in the send ledger.
def messageClaim (message : Message) : Option LedgerClaim :=
  match archiveRow clock ctx message with
  | .error _ => none
  | .ok row => LedgerClaim.of row

structure Call where
  clock : Clock
  ctx : Ctx
  size : Message → Nat
  answers : List Bool
  messages : List Message

def Call.claims (call : Call) : List LedgerClaim :=
  call.messages.filterMap (messageClaim call.clock call.ctx)

def Call.archive (tables : Tables) (call : Call) : Tables × Except FlareError ArchiveOutcome :=
  archiveMessages call.clock call.ctx call.size tables call.answers call.messages

def archiveStep (tables : Tables) (call : Call) : Option Tables :=
  some (call.archive tables).1

-- More than ten messages may share a transaction, and no two of them have one server id.
def Call.idsOnce (call : Call) : Prop :=
  10 < call.messages.length → (call.messages.map (·.serverId)).Nodup

variable {clock ctx} {tables after : Tables} {messages : List Message}

theorem archiveRow_serverId {message : Message}
    (h : archiveRow clock ctx message = .ok row) : row.serverId = message.serverId := by
  unfold archiveRow at h
  split at h
  · cases h
  · split at h
    · cases h
    · split at h
      · cases h
      · rw [← Except.ok.inj h]

theorem rows_of_messages {rows : List ArchiveRow}
    (h : List.Forall₂ (fun message row => archiveRow clock ctx message = .ok row) messages rows) :
    rows.map (·.serverId) = messages.map (·.serverId) ∧
      rows.filterMap LedgerClaim.of = messages.filterMap (messageClaim clock ctx) := by
  induction h with
  | nil => exact ⟨rfl, rfl⟩
  | cons hr _ ih =>
    obtain ⟨hids, hc⟩ := ih
    refine ⟨by rw [List.map_cons, List.map_cons, hids, archiveRow_serverId hr], ?_⟩
    rw [List.filterMap_cons, List.filterMap_cons, hc, messageClaim, hr]

-- What an answer to some transactions says of their messages. `listed` are the server ids that
-- earlier transactions found to be duplicates.
structure Answered (clock : Clock) (ctx : Ctx) (before after : Tables) (messages : List Message)
    (outcome : ArchiveOutcome) (listed : String → Prop) : Prop where
  ledger : ∀ claim, occupant after.ledger claim =
    occupant (before.ledger ++ messages.filterMap (messageClaim clock ctx)) claim
  judged : ∀ serverId, outcome.isDuplicate serverId = true ↔ listed serverId ∨
    ∃ claim ∈ messages.filterMap (messageClaim clock ctx), claim.serverId = serverId ∧
      Resend (before.ledger ++ messages.filterMap (messageClaim clock ctx)) claim
  written : ∀ message ∈ messages, outcome.isDuplicate message.serverId = false →
    ∃ row, archiveRow clock ctx message = .ok row ∧ row.writeKey ∈ after.writeLedger

-- What some transactions do, one after the other.
structure Judges (clock : Clock) (ctx : Ctx) (before after : Tables) (messages : List Message)
    (answer : Except FlareError ArchiveOutcome) (listed : String → Prop) : Prop where
  oneCopy : OneCopy after
  writeLedger : ∀ key ∈ before.writeLedger, key ∈ after.writeLedger
  kept : ∀ row ∈ before.messages, row ∈ after.messages
  events : after.events = before.events
  rows : ∀ row ∈ after.messages, row ∈ before.messages ∨
    ∃ message ∈ messages, archiveRow clock ctx message = .ok row
  answered : ∀ outcome, answer = .ok outcome →
    Answered clock ctx before after messages outcome listed

theorem Judges.nothing (ho : OneCopy tables) {messages : List Message}
    {listed : String → Prop}
    (ha : ∀ outcome, answer = .ok outcome →
      Answered clock ctx tables tables messages outcome listed) :
    Judges clock ctx tables tables messages answer listed where
  oneCopy := ho
  writeLedger _ h := h
  kept _ h := h
  events := rfl
  rows _ h := .inl h
  answered := ha

theorem Answered.cons {middle : Tables} {group rest : List Message} {rows : List ArchiveRow}
    {result : ArchiveOutcome}
    (hro : List.Forall₂ (fun message row => archiveRow clock ctx message = .ok row) group rows)
    (hids : (group.map (·.serverId)).Nodup) (hmi : (archiveRows tables rows).1 = middle)
    (hk : ∀ key ∈ middle.writeLedger, key ∈ after.writeLedger)
    (h : Answered clock ctx middle after rest result fun serverId =>
      (outcome.merge (archiveRows tables rows).2).isDuplicate serverId = true) :
    Answered clock ctx tables after (group ++ rest) result fun serverId =>
      outcome.isDuplicate serverId = true := by
  obtain ⟨hs, hcl⟩ := rows_of_messages hro
  let first := group.filterMap (messageClaim clock ctx)
  let later := rest.filterMap (messageClaim clock ctx)
  have hc : rows.filterMap LedgerClaim.of = first := hcl
  have ho : OneClaim first := by
    rw [← hc]
    exact oneClaim_of_nodup (hs ▸ hids)
  have hf (serverId : String) : (archiveRows tables rows).2.isDuplicate serverId = true ↔
      ∃ claim ∈ first, claim.serverId = serverId ∧ Resend (tables.ledger ++ first) claim := by
    have hdu := @isDuplicate_claimSendIdempotency tables.ledger first ho serverId
    rw [← hdu, ← hc]
    rfl
  -- the first claims of the keys are those of the ledger and of all messages in order
  have hl (claim : LedgerClaim) : occupant (middle.ledger ++ later) claim =
      occupant (tables.ledger ++ (first ++ later)) claim := by
    have hld : middle.ledger = (insertClaims tables.ledger first).1 := by
      rw [← hmi, ← hc]
      rfl
    rw [hld, occupant_append, occupant_insertClaims, ← List.append_assoc, @occupant_append _ later]
  have hsa (claim : LedgerClaim) (hm : claim ∈ first) : Resend (tables.ledger ++ first) claim ↔
        Resend (tables.ledger ++ (first ++ later)) claim := by
    obtain ⟨entry, hen⟩ := exists_occupant (List.mem_append_right tables.ledger hm)
    refine Resend.congr ?_
    rw [← List.append_assoc, @occupant_append _ later, hen]
    rfl
  refine ⟨fun claim => ?_, fun serverId => ?_, fun message hm hdp => ?_⟩
  · rw [h.ledger, List.filterMap_append]
    exact hl claim
  · rw [h.judged, isDuplicate_merge, Bool.or_eq_true, hf, List.filterMap_append, or_assoc]
    refine or_congr_right ?_
    simp only [List.mem_append, or_and_right, exists_or]
    refine or_congr ?_ ?_
    · refine exists_congr fun claim => and_congr_right fun hm => and_congr_right fun _ => ?_
      exact hsa claim hm
    · refine exists_congr fun claim => and_congr_right fun _ => and_congr_right fun _ => ?_
      exact Resend.congr (hl claim)
  · rcases List.mem_append.mp hm with hg | hre
    · obtain ⟨row, hr, ha⟩ := Listing.exists_right_of_mem hro hg
      have hn : (archiveRows tables rows).2.isDuplicate row.serverId = false := by
        rw [Bool.eq_false_iff, archiveRow_serverId ha]
        intro hli
        have hal := (h.judged message.serverId).mpr
          (.inl (by rw [isDuplicate_merge, hli, Bool.or_true]))
        exact absurd hal (by simp [hdp])
      refine ⟨row, ha, hk _ ?_⟩
      rw [← hmi]
      exact writeKey_of_candidate (mem_candidateRows.mpr ⟨hr, hn⟩)
    · exact h.written message hre hdp

theorem archiveGroups_judges {groups : List (List Message)} {answers : List Bool}
    (hon : OneCopy tables) (hids : ∀ group ∈ groups, (group.map (·.serverId)).Nodup)
    (h : archiveGroups clock ctx outcome tables answers groups = (after, answer)) :
    Judges clock ctx tables after groups.flatten answer fun serverId =>
      outcome.isDuplicate serverId = true := by
  induction groups generalizing tables answers outcome with
  | nil =>
    cases h
    refine .nothing hon fun result hok => ?_
    obtain rfl := Except.ok.inj hok
    exact ⟨fun claim => by simp, fun serverId => by simp, fun _ h => absurd h List.not_mem_nil⟩
  | cons group rest ih =>
    have hg := hids group List.mem_cons_self
    have hre : ∀ other ∈ rest, (other.map (·.serverId)).Nodup :=
      fun other ho => hids other (List.mem_cons_of_mem _ ho)
    rw [archiveGroups, storeArchiveBatchValues] at h
    cases hro : Fallible.traverse (archiveRow clock ctx) group with
    | error error =>
      simp only [hro] at h
      cases h
      exact .nothing hon fun result hok => absurd hok (by simp)
    | ok rows =>
      simp only [hro] at h
      have hf := traverse_eq_ok hro
      have hmi := archiveRows_oneCopy hon
        ((rows_of_messages hf).1 ▸ hg : (rows.map (·.serverId)).Nodup)
      cases hc : answers.headD true with
      | false =>
        simp only [hc, Bool.false_eq_true, if_false] at h
        cases h
        exact .nothing hon fun result hok => absurd hok (by simp)
      | true =>
        simp only [hc, if_true] at h
        have hl := ih hmi hre h
        refine ⟨hl.oneCopy, ?_, ?_, hl.events, ?_, ?_⟩
        · exact fun key hk => hl.writeLedger key (mem_insertKeys_fst (.inl hk))
        · exact fun row hr => hl.kept row (mem_foldl_insertRow hr)
        · intro row hr
          rcases hl.rows row hr with hea | ⟨message, hm, ha⟩
          · rcases of_mem_foldl_insertRow hea with hold | hn
            · exact .inl hold
            · obtain ⟨message, hm, ha⟩ := Listing.exists_left_of_mem hf
                (List.mem_of_mem_filter (List.mem_of_mem_filter hn))
              exact .inr ⟨message, List.mem_append_left _ hm, ha⟩
          · exact .inr ⟨message, List.mem_append_right _ hm, ha⟩
        · intro result hok
          exact (hl.answered result hok).cons hf hg rfl hl.writeLedger

theorem Call.archive_judges {call : Call}
    (ho : OneCopy tables) (hids : call.idsOnce) (h : call.archive tables = (after, answer)) :
    Judges call.clock call.ctx tables after call.messages answer fun _ => False := by
  let groups := if call.messages.length ≤ 10 then call.messages.map ([·])
    else call.messages.toChunks (optimalBatchSize call.size call.messages)
  have hf : groups.flatten = call.messages := by
    unfold groups
    split
    · simp [List.flatten_eq_flatMap, List.flatMap_map]
    · exact Listing.toChunks_flatten _ _
  have hgr : ∀ group ∈ groups, (group.map (·.serverId)).Nodup := by
    intro group hg
    by_cases hfe : call.messages.length ≤ 10
    · simp only [groups, if_pos hfe] at hg
      obtain ⟨message, -, rfl⟩ := List.mem_map.mp hg
      exact List.nodup_singleton _
    · have hal := hids (by omega)
      rw [← hf] at hal
      have hsu := List.sublist_flatten_of_mem hg
      exact (hsu.map _).nodup hal
  have hj := archiveGroups_judges ho hgr h
  rw [hf] at hj
  obtain ⟨hc, hw, hm, hev, hr, ha⟩ := hj
  refine ⟨hc, hw, hm, hev, hr, fun outcome hok => ?_⟩
  obtain ⟨hl, hju, hs⟩ := ha outcome hok
  refine ⟨hl, fun serverId => ?_, hs⟩
  rw [hju]
  simp [ArchiveOutcome.isDuplicate]

end Calls

section Runs

-- No two rows are of one message, or of one send.
def OneRowPerSend (tables : Tables) : Prop :=
  (tables.messages.map ArchiveRow.writeKey).Nodup ∧
    ∀ a ∈ tables.messages, ∀ b ∈ tables.messages, a.tenantId = b.tenantId →
      a.senderId = b.senderId → a.conversationId = b.conversationId →
      a.clientMsgId = b.clientMsgId → a.clientMsgId.isSome → a = b

theorem oneCopy_initial : OneCopy {} where
  unique _ h := absurd h List.not_mem_nil
  once := List.nodup_nil
  written _ h := absurd h List.not_mem_nil
  keyed _ h := absurd h List.not_mem_nil
  judged _ h := absurd h List.not_mem_nil
  stored _ h := absurd h List.not_mem_nil

theorem OneCopy.of_run {calls : List Call} {last : Tables}
    (hr : Run archiveStep (fun _ call => call.idsOnce) {} calls last) : OneCopy last := by
  refine hr.preserves OneCopy ?_ oneCopy_initial
  intro tables call next ho hids hs
  cases hs
  exact (Call.archive_judges ho hids rfl).oneCopy

-- The ledger keeps the first message of a client id. When that one is of the conversation, no
-- other row of the send is there.
theorem OneCopy.eq_of_send {tables : Tables} (h : OneCopy tables) {a b : ArchiveRow}
    {claimA claimB : LedgerClaim} (ha : a ∈ tables.messages) (hb : b ∈ tables.messages)
    (ho : LedgerClaim.of a = some claimA) (hof : LedgerClaim.of b = some claimB)
    (hk : claimA.key = claimB.key) (hc : claimA.conversationId = claimB.conversationId)
    (hf : ∀ entry ∈ tables.ledger, entry.key = claimA.key →
      entry.conversationId = claimA.conversationId) : a = b := by
  obtain ⟨entryA, hm, hke, hj⟩ := h.judged a ha claimA ho
  obtain ⟨entryB, hme, hky, hju⟩ := h.judged b hb claimB hof
  obtain rfl : entryA = entryB :=
    h.unique entryA hm entryB hme (hke.trans (hk.trans hky.symm))
  have hp := hf entryA hm hke
  have hs := hj.resolve_right (not_not.mpr hp)
  have hse := hju.resolve_right (not_not.mpr (hp.trans hc))
  have hw : a.writeKey = b.writeKey := by
    rw [LedgerClaim.writeKey_of ho, LedgerClaim.writeKey_of hof]
    exact Prod.ext (Prod.mk.inj hk).1 (hs.symm.trans hse)
  exact List.inj_on_of_nodup_map h.once ha hb hw

-- The rows of a reached state and the answer to the next call: one row a message; one row a send
-- whose client id its sender first used in the same conversation; listed are the messages whose
-- client id went to another message of the conversation, which is archived.
structure OnceArchived (ok : Tables → Call → Prop) (tables : Tables) : Prop where
  messages : (tables.messages.map ArchiveRow.writeKey).Nodup
  sends : ∀ a ∈ tables.messages, ∀ b ∈ tables.messages, ∀ claimA claimB,
    LedgerClaim.of a = some claimA → LedgerClaim.of b = some claimB →
    claimA.key = claimB.key → claimA.conversationId = claimB.conversationId →
    (∀ entry ∈ tables.ledger, entry.key = claimA.key →
      entry.conversationId = claimA.conversationId) → a = b
  first : ∀ entry ∈ tables.ledger, ∃ row ∈ tables.messages,
    row.writeKey = (entry.tenantId, entry.serverId)
  listed : ∀ call after outcome, ok tables call →
    call.archive tables = (after, .ok outcome) → ∀ serverId,
      outcome.isDuplicate serverId = true ↔
        ∃ message ∈ call.messages, message.serverId = serverId ∧
          ∃ claim, messageClaim call.clock call.ctx message = some claim ∧
            Resend (tables.ledger ++ call.claims) claim

def ArchivesOnce (ok : Tables → Call → Prop) : Prop :=
  ∀ calls last, Run archiveStep ok {} calls last → OnceArchived ok last

theorem messageClaim_serverId {clock : Clock} {ctx : Ctx} {message : Message}
    {claim : LedgerClaim} (h : messageClaim clock ctx message = some claim) :
    claim.serverId = message.serverId := by
  unfold messageClaim at h
  split at h
  · cases h
  · rename_i row hr
    rw [LedgerClaim.serverId_of h, archiveRow_serverId hr]

theorem archives_once : ArchivesOnce fun _ call => call.idsOnce := by
  intro calls last hrun
  have hone : OneCopy last := .of_run hrun
  refine ⟨hone.once, ?_, ?_, ?_⟩
  · intro a ha b hb claimA claimB hofA hofB hkey hconversation hfirst
    exact hone.eq_of_send ha hb hofA hofB hkey hconversation hfirst
  · intro entry hentry
    exact hone.keyed _ (hone.stored entry hentry)
  · intro call after outcome hids harchive serverId
    have hanswered := (Call.archive_judges hone hids harchive).answered outcome rfl
    rw [hanswered.judged, false_or]
    constructor
    · rintro ⟨claim, hmem, hserver, hresend⟩
      obtain ⟨message, hmessage, hclaim⟩ := List.mem_filterMap.mp hmem
      rw [messageClaim_serverId hclaim] at hserver
      exact ⟨message, hmessage, hserver, claim, hclaim, hresend⟩
    · rintro ⟨message, hmessage, hserver, claim, hclaim, hresend⟩
      have hmem := List.mem_filterMap.mpr ⟨message, hmessage, hclaim⟩
      exact ⟨claim, hmem, (messageClaim_serverId hclaim).trans hserver, hresend⟩

def sendOf (serverId conversationId : String) (seq : Nat) : Call where
  clock := ⟨0, fun _ => true⟩
  ctx := { tenantId := some "acme" }
  size _ := 0
  answers := []
  messages := [{
    serverId
    conversationId
    clientMsgId := "k1"
    senderId := "alice"
    conversationSeq := seq }]

-- The client id is used again in another conversation. The ledger keeps the first use, and the
-- resend in the second conversation is stored beside the message it repeats.
theorem reused_clientMsgId_stored_twice :
    ¬ ∀ calls last, Run archiveStep anyStep {} calls last → OneRowPerSend last := by
  intro h
  obtain ⟨last, hrun, hrows⟩ : ∃ last,
      execute archiveStep anyStep {}
        [sendOf "s1" "c1" 1, sendOf "s2" "c2" 1, sendOf "s3" "c2" 2] = some last ∧
      ∃ a ∈ last.messages, ∃ b ∈ last.messages,
        (a.tenantId = b.tenantId ∧ a.senderId = b.senderId ∧
          a.conversationId = b.conversationId ∧ a.clientMsgId = b.clientMsgId ∧
          a.clientMsgId.isSome) ∧ a ≠ b := by
    decide
  obtain ⟨a, ha, b, hb, ⟨htenant, hsender, hconversation, hclient, hsome⟩, hne⟩ := hrows
  exact hne ((h _ last (run_of_execute hrun)).2 a ha b hb htenant hsender hconversation hclient
    hsome)

end Runs

end FlareIm.MessageArchive
