import FlareIm.MessagePersistence.Theorems

namespace FlareIm.MessagePersistence

open Text Context Proto EventRow EventApplication MessageArchive Fallible
open List (mem_append mem_append_left mem_append_right mem_cons mem_singleton not_mem_nil)

section Footprints

variable (ttlSeconds : Nat) (ctx : Ctx)

-- What a check does with its key: a key that was free is taken, or left behind by a failed
-- EXPIRE.
inductive Check where
  | unanswered
  | held
  | stranded (key : String)
  | taken (key : String)

def check (keys : List String) (setNx expire : Bool) (id : String) : Check :=
  match messageKey ctx id with
  | .error _ => .unanswered
  | .ok key =>
    if !setNx then .unanswered
    else if key ∈ keys then .held
    else if 0 < ttlSeconds ∧ (2 ^ 63 ≤ ttlSeconds ∨ !expire) then .stranded key
    else .taken key

-- The keys one message leaves behind and takes, and whether it ends the batch: its check fails,
-- or it was delivered before and its acknowledgement fails.
structure Footprint where
  stranded : List String := []
  taken : List String := []
  stops : Bool := false

def Footprint.marks (footprint : Footprint) : List String :=
  footprint.taken ++ footprint.stranded

def serverFootprint (keys : List String) (member : Member) : Footprint :=
  match check ttlSeconds ctx keys member.answers.serverSetNx member.answers.serverExpire
    member.prepared.messageId with
  | .unanswered => { stops := true }
  | .held => { stops := !member.answers.ack }
  | .stranded key => { stranded := [key], stops := true }
  | .taken key => { taken := [key] }

-- A client id whose check fails gives way to the server id, and may leave its key behind.
def footprint (keys : List String) (member : Member) : Footprint :=
  let message := member.prepared.message
  if message.clientMsgId = "" then serverFootprint ttlSeconds ctx keys member
  else
    match scopedClientIdempotencyKey ctx message.clientMsgId (some message.senderId)
      (some member.prepared.conversationId) with
    | .error _ => serverFootprint ttlSeconds ctx keys member
    | .ok scopedId =>
      match check ttlSeconds ctx keys member.answers.clientSetNx member.answers.clientExpire
        scopedId with
      | .unanswered => serverFootprint ttlSeconds ctx keys member
      | .held => { stops := !member.answers.ack }
      | .stranded key =>
        let server := serverFootprint ttlSeconds ctx (key :: keys) member
        { server with stranded := server.stranded ++ [key] }
      | .taken key => { taken := [key] }

-- The footprints of the members of a batch, up to the one that ends it.
def footprints (keys : List String) : List Member → List Footprint
  | [] => []
  | member :: rest =>
    let first := footprint ttlSeconds ctx keys member
    first :: if first.stops then [] else footprints (first.marks ++ keys) rest

-- A batch that a member ends has taken no key before. A batch that goes through with a new
-- member has left no key behind.
def Traceless (keys : List String) (members : List Member) : Prop :=
  let walked := footprints ttlSeconds ctx keys members
  ((∃ one ∈ walked, one.stops) → ∀ one ∈ walked, one.marks = []) ∧
    ((∃ one ∈ walked, one.taken ≠ []) → ∀ one ∈ walked, one.stranded = [])

end Footprints

section Claims

variable (writer : Writer) (ctx : Ctx) (database : Database) (store : Store)

def StaysFree (before after : List String) : Prop :=
  ∀ key, key ∉ before → key ∉ after

def Persisted (member : Member) : Prop :=
  ∃ keys decision tables outcome,
    reserveIdempotency writer.ttlSeconds ctx store.keys member = (keys, .ok decision) ∧
      decision.isNew ∧
      persistMessage writer ctx database store.tables member.prepared = (tables, .ok outcome)

def BatchPersisted (members : List Member) : Prop :=
  ∃ entered reserved results tables outcome,
    reserveLoop writer ctx store members = (entered, .ok (reserved, results)) ∧
      persistBatch writer ctx database entered.tables (reserved.map (·.1.prepared)) =
        (tables, .ok outcome)

-- However the database answers, a message that fails before it is stored leaves no key behind.
def LeavesNoReservation (member : Member) : Prop :=
  ∀ database after error,
    ensureConsistency writer ctx database store member = (after, .error error) →
      ¬ Persisted writer ctx database store member → StaysFree store.keys after.keys

def BatchLeavesNoReservation (members : List Member) : Prop :=
  ∀ database after error,
    ensureBatchConsistency writer ctx database store members = (after, .error error) →
      ¬ BatchPersisted writer ctx database store members → StaysFree store.keys after.keys

end Claims

section Members

variable {ttlSeconds : Nat} {ctx : Ctx} {keys : List String} {member : Member}

-- The answer to a check as its key shows it.
inductive Checked (ctx : Ctx) (keys : List String) (id : String) :
    Check → List String × Except FlareError Bool → Prop where
  | unanswered (error : FlareError) : Checked ctx keys id .unanswered (keys, .error error)
  | held : Checked ctx keys id .held (keys, .ok false)
  | stranded (key : String) (error : FlareError) (hfree : key ∉ keys) :
      Checked ctx keys id (.stranded key) (key :: keys, .error error)
  | taken (key : String) (hfree : key ∉ keys) (hkey : messageKey ctx id = .ok key) :
      Checked ctx keys id (.taken key) (key :: keys, .ok true)

theorem isNew_checked (setNx expire : Bool) (id : String) :
    Checked ctx keys id (check ttlSeconds ctx keys setNx expire id)
      (isNew ttlSeconds ctx keys setNx expire id) := by
  cases hk : messageKey ctx id with
  | error error =>
    simp only [check, isNew, hk]
    exact .unanswered error
  | ok key =>
    simp only [check, isNew, hk]
    split_ifs with hset hh hep
    · exact .unanswered _
    · exact .held
    · exact .stranded key _ hh
    · exact .taken key hh hk

-- What a reservation does, as the footprint of its member shows it.
structure Walks (ctx : Ctx) (keys : List String) (member : Member) (footprint : Footprint)
    (reserved : List String × Except FlareError IdempotencyDecision) : Prop where
  keys_eq : reserved.1 = footprint.marks ++ keys
  fresh : ∀ key ∈ footprint.marks, key ∉ keys
  apart : ∀ key ∈ footprint.taken, key ∉ footprint.stranded
  error : ∀ error, reserved.2 = .error error → footprint.stops ∧ footprint.taken = []
  held : ∀ decision, reserved.2 = .ok decision → decision.isNew = false →
    footprint.stops = !member.answers.ack ∧ footprint.taken = []
  isNew : ∀ decision, reserved.2 = .ok decision → decision.isNew = true →
    footprint.stops = false ∧
      ∃ key, footprint.taken = [key] ∧ releaseKey ctx decision.reservation = some key

theorem serverFootprint_walks (keys : List String) (member : Member) :
    let reserved := isNew ttlSeconds ctx keys member.answers.serverSetNx
      member.answers.serverExpire member.prepared.messageId
    Walks ctx keys member (serverFootprint ttlSeconds ctx keys member)
      (reserved.1, serverDecision member.prepared reserved.2) := by
  intro reserved
  have hc : Checked ctx keys member.prepared.messageId _ reserved :=
    isNew_checked _ _ _
  unfold serverFootprint
  generalize reserved = reserved at hc ⊢
  generalize check ttlSeconds ctx keys member.answers.serverSetNx member.answers.serverExpire
    member.prepared.messageId = checked at hc ⊢
  cases hc with
  | unanswered error => constructor <;> simp [Footprint.marks, serverDecision]
  | held => constructor <;> simp +contextual [Footprint.marks, serverDecision]
  | stranded key error hf => constructor <;> simp [Footprint.marks, serverDecision, hf]
  | taken key hf hk =>
    have hr : releaseKey ctx (.serverMessageId member.prepared.messageId) = some key := by
      have hne : member.prepared.messageId ≠ "" := member.prepared.server_id_ne
      simp [releaseKey, hne, hk, Except.toOption]
    constructor <;> simp [Footprint.marks, serverDecision, hf, hr]

theorem Walks.after_stranded {key : String} {footprint : Footprint}
    {reserved : List String × Except FlareError IdempotencyDecision}
    (h : Walks ctx (key :: keys) member footprint reserved) (hf : key ∉ keys) :
    Walks ctx keys member { footprint with stranded := footprint.stranded ++ [key] } reserved := by
  have ho (other : String) (hm : other ∈ footprint.marks) : other ≠ key ∧ other ∉ keys := by
    simpa using h.fresh other hm
  constructor
  · rw [h.keys_eq]
    simp [Footprint.marks]
  · intro other hm
    rw [Footprint.marks, ← List.append_assoc, mem_append, mem_singleton] at hm
    rcases hm with hm | rfl
    · exact (ho other hm).2
    · exact hf
  · intro other hm hs
    rcases mem_append.mp hs with hold | hn
    · exact h.apart other hm hold
    · have hne := (ho other (mem_append_left _ hm)).1
      exact hne (mem_singleton.mp hn)
  · exact h.error
  · exact h.held
  · exact h.isNew

theorem footprint_walks (keys : List String) (member : Member) :
    Walks ctx keys member (footprint ttlSeconds ctx keys member)
      (reserveIdempotency ttlSeconds ctx keys member) := by
  have hs (keys : List String) := @serverFootprint_walks ttlSeconds ctx keys member
  unfold footprint reserveIdempotency
  by_cases hc : member.prepared.message.clientMsgId = ""
  · rw [if_pos hc, if_neg (not_not.mpr hc)]
    exact hs keys
  · rw [if_neg hc, if_pos hc, isNewByClientMsgId, if_neg hc]
    cases hsc : scopedClientIdempotencyKey ctx member.prepared.message.clientMsgId
      (some member.prepared.message.senderId) (some member.prepared.conversationId) with
    | error error => exact hs keys
    | ok scopedId =>
      have hch := @isNew_checked ttlSeconds ctx keys
        member.answers.clientSetNx member.answers.clientExpire scopedId
      simp only
      generalize isNew ttlSeconds ctx keys member.answers.clientSetNx
        member.answers.clientExpire scopedId = asked at hch ⊢
      generalize check ttlSeconds ctx keys member.answers.clientSetNx
        member.answers.clientExpire scopedId = checked at hch ⊢
      cases hch with
      | unanswered error => exact hs keys
      | held => constructor <;> simp [Footprint.marks]
      | stranded key error hf => exact (hs (key :: keys)).after_stranded hf
      | taken key hf hk =>
        have hr : releaseKey ctx (.clientMessageId member.prepared.message.clientMsgId
            (nonEmpty member.prepared.message.senderId)
            (nonEmpty member.prepared.conversationId)) = some key := by
          rw [releaseKey, if_neg hc, scopedClientIdempotencyKey_nonEmpty, hsc]
          simp only [hk, Except.toOption]
        constructor <;> simp [Footprint.marks, hf, hr]

end Members

section Loop

variable {writer : Writer} {ctx : Ctx} {keys : List String}

theorem footprints_fresh (members : List Member) :
    ∀ one ∈ footprints writer.ttlSeconds ctx keys members, ∀ key ∈ one.marks, key ∉ keys := by
  induction members generalizing keys with
  | nil => exact fun _ h => absurd h not_mem_nil
  | cons member rest ih =>
    have hf := @footprint_walks writer.ttlSeconds ctx keys member
    intro one ho key hk
    rw [footprints] at ho
    rcases mem_cons.mp ho with rfl | hr
    · exact hf.fresh key hk
    · split at hr
      · exact absurd hr not_mem_nil
      · have hfr := ih one hr key hk
        exact fun hm => hfr (mem_append_right _ hm)

theorem footprints_apart (members : List Member) :
    ∀ one ∈ footprints writer.ttlSeconds ctx keys members,
      ∀ other ∈ footprints writer.ttlSeconds ctx keys members,
        ∀ key ∈ one.taken, key ∉ other.stranded := by
  induction members generalizing keys with
  | nil => exact fun _ h => absurd h not_mem_nil
  | cons member rest ih =>
    have hf := @footprint_walks writer.ttlSeconds ctx keys member
    intro one hon other ho key ht hs
    rw [footprints] at hon ho
    split at hon
    · rename_i hst
      rw [if_pos hst] at ho
      obtain rfl := mem_singleton.mp hon
      obtain rfl := mem_singleton.mp ho
      exact hf.apart key ht hs
    · rename_i hst
      rw [if_neg hst] at ho
      have hl (later : Footprint) (hl : later ∈ footprints writer.ttlSeconds ctx
          ((footprint writer.ttlSeconds ctx keys member).marks ++ keys) rest)
          (hk : key ∈ later.marks) :
          key ∉ (footprint writer.ttlSeconds ctx keys member).marks := by
        have hfr := footprints_fresh rest later hl key hk
        exact fun hm => hfr (mem_append_left _ hm)
      rcases mem_cons.mp hon with rfl | hon <;> rcases mem_cons.mp ho with rfl | ho
      · exact hf.apart key ht hs
      · exact hl other ho (mem_append_right _ hs) (mem_append_left _ ht)
      · exact hl one hon (mem_append_left _ ht) (mem_append_right _ hs)
      · exact ih one hon other ho key ht hs

-- The keys that the reservations of a batch are released by.
def releasedKeys (ctx : Ctx) (reserved : List Reserved) : List String :=
  reserved.filterMap fun entry => releaseKey ctx entry.2

-- The members whose check took a key.
def newMembers (walked : List (Member × Footprint)) : List Member :=
  (walked.filter fun one => one.2.taken ≠ []).map (·.1)

-- What the reservations of a batch do, as its footprints show it.
structure LoopWalks (ctx : Ctx) (store : Store) (members : List Member) (walked : List Footprint)
    (looped : Store × Except FlareError (List Reserved × List PersistenceResult)) : Prop where
  tables : looped.1.tables = store.tables
  keys : ∀ key, key ∈ looped.1.keys ↔ key ∈ store.keys ∨ ∃ one ∈ walked, key ∈ one.marks
  error : ∀ error, looped.2 = .error error → ∃ one ∈ walked, one.stops
  ok : ∀ reserved results, looped.2 = .ok (reserved, results) →
    (∀ one ∈ walked, one.stops = false) ∧
      (∀ key, key ∈ releasedKeys ctx reserved ↔ ∃ one ∈ walked, key ∈ one.taken) ∧
      (releasedKeys ctx reserved).length = reserved.length ∧
      reserved.map (·.1) = newMembers (members.zip walked)

theorem LoopWalks.stopped {store after : Store} {members : List Member} {first : Footprint}
    {error : FlareError}
    (ht : after.tables = store.tables) (hk : after.keys = first.marks ++ store.keys)
    (hs : first.stops) : LoopWalks ctx store members [first] (after, .error error) where
  tables := ht
  keys key := by simp [hk, or_comm]
  error _ _ := ⟨first, List.mem_cons_self, hs⟩
  ok _ _ h := absurd h (by simp)

-- The batch goes on after its first member, whose reservation joins the later ones.
theorem LoopWalks.cons (store : Store) {entered after : Store} (member : Member)
    {rest : List Member} {first : Footprint} {later : List Footprint}
    {looped : Except FlareError (List Reserved × List PersistenceResult)}
    (hla : LoopWalks ctx entered rest later (after, looped))
    (ht : entered.tables = store.tables) (hk : entered.keys = first.marks ++ store.keys)
    (hs : first.stops = false) (before : List Reserved)
    (answered : List PersistenceResult → List PersistenceResult)
    (hb : releasedKeys ctx before = first.taken) (hln : first.taken.length = before.length)
    (hn : before.map (·.1) = newMembers [(member, first)]) :
    LoopWalks ctx store (member :: rest) (first :: later)
      (after, looped.map fun entry => (before ++ entry.1, answered entry.2)) where
  tables := by rw [hla.tables, ht]
  keys key := by
    rw [hla.keys, hk, mem_append]
    simp only [mem_cons, exists_eq_or_imp]
    tauto
  error error h := by
    cases looped with
    | error error' =>
      obtain ⟨one, ho, hl⟩ := hla.error error h
      exact ⟨one, List.mem_cons_of_mem _ ho, hl⟩
    | ok entry => exact absurd h (by simp [Except.map])
  ok reserved results h := by
    cases looped with
    | error error' => exact absurd h (by simp [Except.map])
    | ok entry =>
      obtain ⟨reserved', results'⟩ := entry
      obtain ⟨rfl, -⟩ := Prod.mk.inj (Except.ok.inj h)
      obtain ⟨hg, hr, hc, hlr⟩ := hla.ok _ _ rfl
      have hj : releasedKeys ctx (before ++ reserved') =
          first.taken ++ releasedKeys ctx reserved' := by
        rw [releasedKeys, List.filterMap_append]
        exact congrArg (· ++ _) hb
      refine ⟨List.forall_mem_cons.mpr ⟨hs, hg⟩, fun key => ?_, ?_, ?_⟩
      · rw [hj, mem_append, hr]
        simp only [mem_cons, exists_eq_or_imp]
      · rw [hj, List.length_append, List.length_append, hc, hln]
      · rw [List.map_append, hn, hlr, newMembers, newMembers, newMembers,
          ← List.map_append, ← List.filter_append]
        rfl

theorem reserveLoop_walks (store : Store) (members : List Member) :
    LoopWalks ctx store members (footprints writer.ttlSeconds ctx store.keys members)
      (reserveLoop writer ctx store members) := by
  induction members generalizing store with
  | nil => constructor <;> simp [reserveLoop, footprints, releasedKeys, newMembers]
  | cons member rest ih =>
    have hf := @footprint_walks writer.ttlSeconds ctx store.keys member
    rw [footprints, reserveLoop]
    generalize footprint writer.ttlSeconds ctx store.keys member = first at hf ⊢
    generalize reserveIdempotency writer.ttlSeconds ctx store.keys member = reserved at hf ⊢
    obtain ⟨keys, answer⟩ := reserved
    obtain rfl : keys = first.marks ++ store.keys := hf.keys_eq
    cases answer with
    | error error =>
      have hs := (hf.error error rfl).1
      rw [if_pos hs]
      exact .stopped rfl rfl hs
    | ok decision =>
      simp only
      by_cases hn : decision.isNew
      · obtain ⟨hg, key, ht, hr⟩ := hf.isNew decision rfl hn
        rw [if_pos hn, if_neg (by simp [hg])]
        have hl := ih { store with keys := first.marks ++ store.keys }
        generalize reserveLoop writer ctx { store with keys := first.marks ++ store.keys }
          rest = looped at hl ⊢
        obtain ⟨after, looped⟩ := looped
        have hj := hl.cons store member rfl rfl hg
          [(member, decision.reservation)] id (by simp [releasedKeys, hr, ht])
          (by simp [ht]) (by simp [newMembers, ht])
        cases looped <;> exact hj
      · obtain ⟨hac, ht⟩ := hf.held decision rfl (by simpa using hn)
        rw [if_neg hn]
        cases ha : member.answers.ack with
        | false =>
          have hs : first.stops := by simp [hac, ha]
          rw [if_pos hs]
          exact .stopped rfl rfl hs
        | true =>
          have hg : first.stops = false := by simp [hac, ha]
          rw [if_neg (by simp [hg])]
          simp only [publishAck, if_true]
          have hl := ih
            { store with
              keys := first.marks ++ store.keys
              acks := result member.prepared true :: store.acks }
          generalize reserveLoop writer ctx
            { store with
              keys := first.marks ++ store.keys
              acks := result member.prepared true :: store.acks } rest = looped
            at hl ⊢
          obtain ⟨after, looped⟩ := looped
          have hj := hl.cons store member rfl rfl hg []
            (result member.prepared true :: ·) (by simp [releasedKeys, ht])
            (by simp [ht]) (by simp [newMembers, ht])
          cases looped <;> exact hj

end Loop

section Failures

variable {writer : Writer} {ctx : Ctx} {store : Store}

theorem mem_releasedKeys {reserved : List Reserved} {key : String} :
    key ∈ releasedKeys ctx reserved ↔
      ∃ reservation ∈ reserved.map (·.2), releaseKey ctx reservation = some key := by
  simp only [releasedKeys, List.mem_filterMap, List.mem_map, exists_exists_and_eq_and]

-- The database refuses the first transaction.
def unreachable : Database := { clock := ⟨0, fun _ => true⟩, archive := [false] }

theorem archiveMessages_unreachable (tables : Tables) {messages : List Message}
    (hne : messages ≠ []) : ∃ error,
      archiveMessages unreachable.clock ctx writer.size tables unreachable.archive messages =
        (tables, .error error) := by
  have hg : (if messages.length ≤ 10 then messages.map ([·])
      else messages.toChunks (optimalBatchSize writer.size messages)) ≠ [] := by
    split
    · simpa using hne
    · intro hn
      have hf := Listing.toChunks_flatten (optimalBatchSize writer.size messages) messages
      rw [hn] at hf
      exact hne hf.symm
  obtain ⟨group, rest, hgr⟩ := List.exists_cons_of_ne_nil hg
  have hfa : ∃ error, storeArchiveBatchValues unreachable.clock ctx tables false group =
      (tables, .error error) := by
    unfold storeArchiveBatchValues
    split <;> exact ⟨_, rfl⟩
  obtain ⟨error, heo⟩ := hfa
  refine ⟨error, ?_⟩
  have ha : unreachable.archive.headD true = false := rfl
  rw [archiveMessages, hgr, archiveGroups, ha, heo]

theorem persistMessage_unreachable (tables : Tables) (prepared : PreparedMessage) : ∃ error,
    persistMessage writer ctx unreachable tables prepared = (tables, .error error) := by
  obtain ⟨error, heo⟩ := @archiveMessages_unreachable writer ctx tables [prepared.message] (by simp)
  exact ⟨_, by rw [persistMessage, heo]⟩

theorem persistBatch_unreachable {tables : Tables} {prepared : List PreparedMessage}
    (hne : prepared ≠ []) : ∃ error,
      persistBatch writer ctx unreachable tables prepared = (tables, .error error) := by
  obtain ⟨error, heo⟩ := @archiveMessages_unreachable writer ctx tables
    (prepared.map (·.message)) (by simpa using hne)
  exact ⟨_, by rw [persistBatch, heo]⟩

theorem StaysFree.of_marks {marks keys after : List String} (hma : marks = [])
    (ha : ∀ key ∈ after, key ∈ marks ++ keys) : StaysFree keys after := by
  intro key hf hm
  have hk := ha key hm
  rw [hma] at hk
  exact hf hk

end Failures

section Single

variable (writer : Writer) (ctx : Ctx) (store : Store) (member : Member)

theorem StaysFree.eq_nil {before after marks : List String} (hs : StaysFree before after)
    (hf : ∀ key ∈ marks, key ∉ before) (ha : ∀ key ∈ marks, key ∈ after) : marks = [] :=
  List.eq_nil_iff_forall_not_mem.mpr fun key hk =>
    hs key (hf key hk) (ha key hk)

theorem leavesNoReservation_of_traceless (h : Traceless writer.ttlSeconds ctx store.keys [member]) :
    LeavesNoReservation writer ctx store member := by
  intro database after error hf hu
  obtain ⟨hs, hst⟩ := h
  simp only [footprints, ite_self, mem_singleton, exists_eq_left, forall_eq] at hs hst
  have hw := @footprint_walks writer.ttlSeconds ctx store.keys member
  rw [ensureConsistency] at hf
  cases hr : reserveIdempotency writer.ttlSeconds ctx store.keys member with
  | mk keys answer =>
    rw [hr] at hw hf
    obtain rfl : keys = _ := hw.keys_eq
    cases answer with
    | error error' =>
      obtain ⟨rfl, -⟩ := Prod.mk.inj hf
      exact .of_marks (hs (hw.error error' rfl).1) fun _ hm => hm
    | ok decision =>
      simp only at hf
      by_cases hnw : decision.isNew
      · obtain ⟨-, key, ht, hre⟩ := hw.isNew decision rfl hnw
        have hn := hst (by simp [ht])
        rw [if_neg (by simpa using hnw)] at hf
        cases hp : persistMessage writer ctx database store.tables member.prepared with
        | mk tables persisted =>
          cases persisted with
          | error error' =>
            rw [hp] at hf
            cases hf
            intro other hfr hm
            obtain ⟨hk, hke⟩ := mem_release.mp hm
            rw [Footprint.marks, ht, hn] at hk
            rcases mem_cons.mp hk with rfl | hold
            · exact hke hre
            · exact hfr hold
          | ok outcome =>
            exact absurd ⟨_, decision, tables, outcome, hr, hnw, hp⟩ hu
      · obtain ⟨hac, -⟩ := hw.held decision rfl (by simpa using hnw)
        rw [if_pos (by simpa using hnw)] at hf
        cases ha : member.answers.ack with
        | true =>
          rw [ha] at hf
          exact absurd (Prod.mk.inj hf).2 (by simp)
        | false =>
          rw [ha] at hf
          cases hf
          exact .of_marks (hs (by simp [hac, ha])) fun _ hm => hm

theorem traceless_of_leavesNoReservation (h : LeavesNoReservation writer ctx store member) :
    Traceless writer.ttlSeconds ctx store.keys [member] := by
  have hw := @footprint_walks writer.ttlSeconds ctx store.keys member
  rw [Traceless]
  simp only [footprints, ite_self, mem_singleton, exists_eq_left, forall_eq]
  -- what is free stays free when the database fails the message
  have hf {after : Store} {error : FlareError}
      (hfa : ensureConsistency writer ctx unreachable store member = (after, .error error)) :
      StaysFree store.keys after.keys := by
    refine h unreachable after error hfa ?_
    rintro ⟨keys, decision, tables, outcome, -, -, hp⟩
    obtain ⟨error, heo⟩ := @persistMessage_unreachable writer ctx store.tables member.prepared
    rw [heo] at hp
    exact absurd (Prod.mk.inj hp).2 (by simp)
  unfold ensureConsistency at hf
  generalize footprint writer.ttlSeconds ctx store.keys member = first at hw ⊢
  generalize reserveIdempotency writer.ttlSeconds ctx store.keys member = reserved at hw hf
  obtain ⟨keys, answer⟩ := reserved
  obtain rfl : keys = _ := hw.keys_eq
  have hni (hst : StaysFree store.keys (first.marks ++ store.keys)) : first.marks = [] :=
    hst.eq_nil hw.fresh fun _ hm => mem_append_left _ hm
  cases answer with
  | error error =>
    have hn := (hw.error error rfl).2
    exact ⟨fun _ => hni (hf rfl), fun hne => absurd hn hne⟩
  | ok decision =>
    simp only at hf
    by_cases hnw : decision.isNew
    · obtain ⟨hg, key, ht, hr⟩ := hw.isNew decision rfl hnw
      obtain ⟨error, heo⟩ := @persistMessage_unreachable writer ctx store.tables member.prepared
      rw [if_neg (by simpa using hnw), heo] at hf
      refine ⟨fun hs => absurd hs (by simp [hg]), fun _ => ?_⟩
      refine (hf rfl).eq_nil (fun other ho => ?_) fun other ho => ?_
      · exact hw.fresh other (mem_append_right _ ho)
      refine mem_release.mpr ⟨?_, fun heq => ?_⟩
      · exact mem_append_left _ (mem_append_right _ ho)
      · have hsa : key = other := Option.some.inj (hr.symm.trans heq)
        exact hw.apart other (by simp [ht, hsa]) ho
    · obtain ⟨ha, hn⟩ := hw.held decision rfl (by simpa using hnw)
      refine ⟨fun hs => ?_, fun hne => absurd hn hne⟩
      have hu : member.answers.ack = false := by simpa [ha] using hs
      rw [if_pos (by simpa using hnw), hu] at hf
      exact hni (hf rfl)

end Single

section Batch

variable (writer : Writer) (ctx : Ctx) (store : Store) (members : List Member)

theorem batchLeavesNoReservation_of_traceless
    (h : Traceless writer.ttlSeconds ctx store.keys members) :
    BatchLeavesNoReservation writer ctx store members := by
  intro database after error hf hu
  obtain ⟨hst, hs⟩ := h
  have hw := @reserveLoop_walks writer ctx store members
  rw [ensureBatchConsistency] at hf
  generalize footprints writer.ttlSeconds ctx store.keys members = walked at hw hst hs
  cases hl : reserveLoop writer ctx store members with
  | mk entered looped =>
    rw [hl] at hw hf
    cases looped with
    | error error' =>
      obtain ⟨rfl, -⟩ := Prod.mk.inj hf
      intro key hfr hm
      rcases (hw.keys key).mp hm with hold | ⟨one, ho, hma⟩
      · exact hfr hold
      · rw [hst (hw.error error' rfl) one ho] at hma
        exact absurd hma not_mem_nil
    | ok walk =>
      obtain ⟨reserved, results⟩ := walk
      obtain ⟨-, hr, hln, -⟩ := hw.ok reserved results rfl
      simp only at hf
      split at hf
      · exact absurd (Prod.mk.inj hf).2 (by simp)
      · rename_i hno
        cases hp : persistBatch writer ctx database entered.tables
            (reserved.map (·.1.prepared)) with
        | mk tables persisted =>
          cases persisted with
          | ok outcome =>
            exact absurd ⟨entered, reserved, results, tables, outcome, hl, hp⟩ hu
          | error error' =>
            rw [hp] at hf
            cases hf
            -- one member is new, so that none left its key behind
            obtain ⟨taken, ht⟩ : ∃ key, key ∈ releasedKeys ctx reserved := by
              refine List.exists_mem_of_length_pos ?_
              rw [hln]
              exact List.length_pos_iff.mpr (by simpa using hno)
            obtain ⟨new, hnw, hto⟩ := (hr taken).mp ht
            have hn := hs ⟨new, hnw, List.ne_nil_of_mem hto⟩
            intro key hfr hm
            obtain ⟨hk, hke⟩ := mem_foldl_release.mp hm
            rcases (hw.keys key).mp hk with hold | ⟨one, ho, hma⟩
            · exact hfr hold
            · rw [Footprint.marks, hn one ho, List.append_nil] at hma
              have hre := (hr key).mpr ⟨one, ho, hma⟩
              obtain ⟨reservation, hm, heq⟩ := mem_releasedKeys.mp hre
              exact hke reservation hm heq

theorem traceless_of_batchLeavesNoReservation
    (h : BatchLeavesNoReservation writer ctx store members) :
    Traceless writer.ttlSeconds ctx store.keys members := by
  have hw := @reserveLoop_walks writer ctx store members
  have hf := @footprints_fresh writer ctx store.keys members
  have ha := @footprints_apart writer ctx store.keys members
  rw [Traceless]
  generalize footprints writer.ttlSeconds ctx store.keys members = walked at hw hf ha ⊢
  have hn {marks : Footprint → List String} {after : List String}
      (hma : ∀ one ∈ walked, ∀ key ∈ marks one, key ∈ one.marks ∧ key ∈ after)
      (hs : StaysFree store.keys after) : ∀ one ∈ walked, marks one = [] := by
    intro one hon
    refine hs.eq_nil (fun key hk => ?_) fun key hk => (hma one hon key hk).2
    exact hf one hon key (hma one hon key hk).1
  cases hl : reserveLoop writer ctx store members with
  | mk entered looped =>
    rw [hl] at hw
    cases looped with
    | error error =>
      -- the reservations fail, and the database is not asked
      have hs : StaysFree store.keys entered.keys := by
        refine h unreachable entered error (by rw [ensureBatchConsistency, hl]) ?_
        rintro ⟨_, _, _, _, _, hok, -⟩
        rw [hl] at hok
        exact absurd (Prod.mk.inj hok).2 (by simp)
      have hma : ∀ one ∈ walked, one.marks = [] := by
        refine hn (fun one hon key hk => ⟨hk, ?_⟩) hs
        exact (hw.keys key).mpr (.inr ⟨one, hon, hk⟩)
      refine ⟨fun _ => hma, fun _ one hon => ?_⟩
      exact (List.append_eq_nil_iff.mp (hma one hon)).2
    | ok walk =>
      obtain ⟨reserved, results⟩ := walk
      obtain ⟨hg, hr, -⟩ := hw.ok reserved results rfl
      have hns : ¬ ∃ one ∈ walked, one.stops = true := by
        rintro ⟨one, hon, hst⟩
        exact absurd hst (by simp [hg one hon])
      refine ⟨fun hs => absurd hs hns, ?_⟩
      rintro ⟨new, hnw, ht⟩
      obtain ⟨taken, hta⟩ := List.exists_mem_of_ne_nil _ ht
      have hre := (hr taken).mpr ⟨new, hnw, hta⟩
      have hne : reserved ≠ [] := by
        rintro rfl
        exact absurd hre not_mem_nil
      obtain ⟨error, heo⟩ := @persistBatch_unreachable writer ctx
        entered.tables (reserved.map (·.1.prepared)) (by simpa using hne)
      have hu : ¬ BatchPersisted writer ctx unreachable store members := by
        rintro ⟨entered', reserved', results', tables, outcome, hok, hp⟩
        rw [hl] at hok
        obtain ⟨rfl, hsa⟩ := Prod.mk.inj hok
        obtain ⟨rfl, rfl⟩ := Prod.mk.inj (Except.ok.inj hsa)
        rw [heo] at hp
        exact absurd (Prod.mk.inj hp).2 (by simp)
      have hfa : ensureBatchConsistency writer ctx unreachable store members =
          ({ entered with
              keys := (reserved.map (·.2)).foldl (releaseIdempotencyReservation ctx)
                entered.keys }, .error error) := by
        rw [ensureBatchConsistency, hl]
        simp only [List.isEmpty_iff, hne, if_false, heo]
      have hs := h unreachable _ error hfa hu
      refine hn (fun one hon key hk => ⟨mem_append_right _ hk, ?_⟩) hs
      refine mem_foldl_release.mpr ⟨?_, fun reservation hm heq => ?_⟩
      · exact (hw.keys key).mpr (.inr ⟨one, hon, mem_append_right _ hk⟩)
      · obtain ⟨other, ho, ht⟩ := (hr key).mp (mem_releasedKeys.mpr ⟨reservation, hm, heq⟩)
        exact ha other ho one hon key ht hk

-- A member that ends its batch needs that no key was taken before it; a batch with a new member,
-- that none of its keys was left behind. Nothing else keeps a failed delivery from releasing all
-- that it took.
theorem leavesNoReservation_iff_traceless (writer : Writer) (ctx : Ctx) (store : Store) :
    (∀ members, BatchLeavesNoReservation writer ctx store members ↔
      Traceless writer.ttlSeconds ctx store.keys members) ∧
    (∀ member, LeavesNoReservation writer ctx store member ↔
      Traceless writer.ttlSeconds ctx store.keys [member]) := by
  constructor
  · intro members
    constructor
    · exact traceless_of_batchLeavesNoReservation writer ctx store members
    · exact batchLeavesNoReservation_of_traceless writer ctx store members
  · intro member
    constructor
    · exact traceless_of_leavesNoReservation writer ctx store member
    · exact leavesNoReservation_of_traceless writer ctx store member

-- Redis does not answer the second member of a batch. The key of the first stays taken.
theorem unanswered_member_leaves_reservation :
    ¬ BatchLeavesNoReservation smallWriter acme {}
      [⟨preparedFirst, {}⟩,
        ⟨preparedSecond, { clientSetNx := false, serverSetNx := false }⟩] := by
  intro h
  have htraceless := traceless_of_batchLeavesNoReservation smallWriter acme {} _ h
  have hmarks := htraceless.1 (by decide)
  exact absurd hmarks (by decide)

end Batch

end FlareIm.MessagePersistence
