import FlareIm.WalReplay

namespace FlareIm.WalReplay

open Text Context Proto MessageProfile Transition
open Function (update_of_ne update_self)
open List (mem_cons mem_cons_of_mem mem_cons_self mem_map not_mem_nil)

variable {call score worker limit : Nat} {phase : WorkerPhase} {other : String} {executed : Bool}
  {reply : Reply}

-- The sends of a run. Each has a server id of its own, a tenant, and a message that the codec
-- reads back.
structure Sends (ingest : Ingest) where
  submission : Nat → Submission
  fresh : ∀ a b, (submission a).messageId = (submission b).messageId → a = b
  server_id : ∀ call, isBlank (submission call).messageId = false
  tenant : ∀ call, isBlank (submission call).tenantId = false
  reads : ∀ call, ingest.codec.decode (ingest.codec.encode (submission call).message) =
    some (submission call).message

def pendingOf (submission : Submission) : WalPendingMessage :=
  ⟨submission.proof, submission.messageId, submission.tenantId, submission.message⟩

-- The entries a worker has in hand.
def WorkerPhase.pendings : WorkerPhase → List WalPendingMessage
  | .listing _ listed => listed
  | .replaying rest => rest
  | .removing replayed rest => replayed :: rest
  | _ => []

def WorkerPhase.unread : WorkerPhase → List (String × Option WalEntrySnapshot)
  | .listing rest _ => rest
  | _ => []

def WorkerPhase.ids : WorkerPhase → List String
  | .claimed ids => ids
  | phase => phase.unread.map (·.1) ++ phase.pendings.map (·.messageId)

-- The phases of a send that has promised that its message is not lost.
def Phase.promises (message : Message) : Phase → Prop
  | .written => True
  | .published => durability message ≠ .transientAccepted
  | .returned promised => promised ≠ .transientAccepted
  | _ => False

-- The message needs no proof, or its proof is accepted under its tenant.
def Verified (ingest : Ingest) (submission : Submission) : Prop :=
  requiresProof submission.message = true ∨ submission.proof.isSome = true →
    ∃ proof tenantId, submission.proof = some proof ∧
      normalizeOptionalTenantId (some submission.tenantId) = some tenantId ∧
      ingest.recover proof tenantId submission.message = true

section Invariant

variable {ingest : Ingest} (sends : Sends ingest)

def Known (state : State) (id : String) : Prop :=
  ∃ call ∈ state.written, (sends.submission call).messageId = id

-- What a worker holds is what the sends wrote. What it found missing is missing for good.
structure WorkerFits (state : State) (phase : WorkerPhase) : Prop where
  known : ∀ id ∈ phase.ids, Known sends state id
  missing : ∀ id, (id, none) ∈ phase.unread → state.wal id = none
  unread : ∀ id entry, (id, some entry) ∈ phase.unread → ∃ call ∈ state.written,
    (sends.submission call).messageId = id ∧ entry = snapshotOf ingest (sends.submission call)
  pendings : ∀ pending ∈ phase.pendings, ∃ call ∈ state.written,
    pending = pendingOf (sends.submission call)
  acked : ∀ replayed rest, phase = .removing replayed rest → replayed.messageId ∈ state.acked

-- An entry of the WAL is in the hash and in the index until its message was published, and an
-- index entry is not due before the lease of its worker ends.
structure Inv (state : State) : Prop where
  begun : ∀ call ∈ state.written, state.phase call ≠ .waiting
  durable : ∀ call ∈ state.written, shouldWriteWal (sends.submission call).message
    (sendPersistenceMode (sends.submission call).message) = true
  promised : ∀ call, (state.phase call).promises (sends.submission call).message →
    call ∈ state.written
  entries : ∀ id entry, state.wal id = some entry → ∃ call ∈ state.written,
    (sends.submission call).messageId = id ∧ entry = snapshotOf ingest (sends.submission call)
  indexed : ∀ id, state.wal id ≠ none → state.pending.score id ≠ none
  known : ∀ id, state.pending.score id ≠ none → Known sends state id
  kept : ∀ call ∈ state.written, (sends.submission call).messageId ∈ state.published ∨
    state.wal (sends.submission call).messageId =
      some (snapshotOf ingest (sends.submission call))
  acked : ∀ id ∈ state.acked, id ∈ state.published
  workers : ∀ worker, WorkerFits sends state (state.worker worker).phase
  leased : ∀ worker, ∀ id ∈ (state.worker worker).phase.ids,
    state.now < (state.worker worker).leaseUntil →
    ∀ score, state.pending.score id = some score → (state.worker worker).leaseUntil ≤ score
  exclusive : ∀ worker other, worker ≠ other → ∀ id ∈ (state.worker worker).phase.ids,
    id ∈ (state.worker other).phase.ids → state.now < (state.worker worker).leaseUntil →
    ¬ state.now < (state.worker other).leaseUntil

variable {sends} {state next : State}

theorem inv_initial : Inv sends {} where
  begun _ h := absurd h not_mem_nil
  durable _ h := absurd h not_mem_nil
  promised _ h := h.elim
  entries _ _ h := absurd h (by simp)
  indexed _ h := absurd rfl h
  known _ h := absurd rfl h
  kept _ h := absurd h not_mem_nil
  acked _ h := absurd h not_mem_nil
  workers _ := ⟨fun _ h => absurd h not_mem_nil, fun _ h => absurd h not_mem_nil,
    fun _ _ h => absurd h not_mem_nil, fun _ h => absurd h not_mem_nil,
    fun _ _ h => absurd h (by simp)⟩
  leased _ _ h := absurd h not_mem_nil
  exclusive _ _ _ _ h := absurd h not_mem_nil

theorem replayDecision_pendingOf
    (h : shouldWriteWal (sends.submission call).message
      (sendPersistenceMode (sends.submission call).message) = true) :
    replayDecision ingest (pendingOf (sends.submission call)) = .publish ∨
      replayDecision ingest (pendingOf (sends.submission call)) = .refuse ∧
        ¬ Verified ingest (sends.submission call) := by
  have hs : withServerId (pendingOf (sends.submission call)) = (sends.submission call).message := by
    refine if_neg ?_
    have hb := sends.server_id call
    simp only [Submission.messageId] at hb
    simp [pendingOf, hb]
  have hk := replay_keeps _ h
  unfold replayDecision
  dsimp only
  rw [hs, hk, if_neg Bool.false_ne_true]
  split
  · rename_i hn
    have hb := (normalizeOptionalTenantId_eq_none _).mp (Option.or_eq_none_iff.mp hn).1
      (sends.submission call).tenantId rfl
    exact absurd hb (by simp [sends.tenant call])
  · rename_i tenantId ht
    split
    · rename_i hp
      split
      · exact .inl rfl
      · rename_i hr
        refine .inr ⟨rfl, fun hv => ?_⟩
        obtain ⟨proof, tenant, hso, hno, hre⟩ := hv hp
        have hsa : tenantId = tenant := by
          rw [show normalizeOptionalTenantId (some (pendingOf (sends.submission call)).tenantId) =
            some tenant from hno, Option.some_or] at ht
          exact (Option.some.inj ht).symm
        refine hr ?_
        rw [show (pendingOf (sends.submission call)).writeProof = some proof from hso, hsa]
        exact hre
    · exact .inl rfl

end Invariant

section Preserve

variable {ingest : Ingest} {sends : Sends ingest} {state next : State}

theorem mem_ids_of_unread {id : String} {entry : Option WalEntrySnapshot}
    (h : (id, entry) ∈ phase.unread) : id ∈ phase.ids := by
  cases phase with
  | listing rest listed => exact List.mem_append_left _ (List.mem_map_of_mem h)
  | _ => exact absurd h not_mem_nil

theorem mem_ids_of_pendings {pending : WalPendingMessage}
    (h : pending ∈ phase.pendings) : pending.messageId ∈ phase.ids := by
  cases phase with
  | idle | claimed ids => exact absurd h not_mem_nil
  | listing rest listed | replaying rest
  | removing replayed rest => exact List.mem_append_right _ (List.mem_map_of_mem h)

theorem Known.mono {id : String} (h : Known sends state id)
    (hw : ∀ call ∈ state.written, call ∈ next.written) : Known sends next id := by
  obtain ⟨call, hc, hid⟩ := h
  exact ⟨call, hw call hc, hid⟩

theorem WorkerFits.mono (h : WorkerFits sends state phase)
    (hw : ∀ call ∈ state.written, call ∈ next.written)
    (hwa : ∀ id, Known sends state id → state.wal id = none → next.wal id = none)
    (ha : ∀ id ∈ state.acked, id ∈ next.acked) : WorkerFits sends next phase where
  known id hid := (h.known id hid).mono hw
  missing id hid := hwa id (h.known id (mem_ids_of_unread hid)) (h.missing id hid)
  unread id entry hen := by
    obtain ⟨call, hc, hs⟩ := h.unread id entry hen
    exact ⟨call, hw call hc, hs⟩
  pendings pending hpe := by
    obtain ⟨call, hc, hs⟩ := h.pendings pending hpe
    exact ⟨call, hw call hc, hs⟩
  acked replayed rest hp := ha _ (h.acked replayed rest hp)

theorem Inv.goTo {phase : Phase} (h : Inv sends state) (hp : phase ≠ .waiting)
    (hpr : phase.promises (sends.submission call).message → call ∈ state.written) :
    Inv sends (state.goTo call phase) :=
  { h with
    begun := by
      intro other ho
      by_cases heq : other = call
      · simpa [State.goTo, heq] using hp
      · simpa [State.goTo, heq] using h.begun other ho
    promised := by
      intro other ho
      by_cases heq : other = call
      · subst heq
        exact hpr (by simpa [State.goTo] using ho)
      · exact h.promised other (by simpa [State.goTo, heq] using ho)
    workers := fun worker => (h.workers worker).mono (fun _ hc => hc) (fun _ _ hn => hn)
      fun _ hid => hid }

theorem Inv.appendEntry {phase : Phase} (h : Inv sends state)
    (hw : state.phase call = .waiting) (hp : phase ≠ .waiting)
    (hdu : shouldWriteWal (sends.submission call).message
      (sendPersistenceMode (sends.submission call).message) = true) :
    Inv sends ((state.appendEntry ingest call (sends.submission call)).goTo call phase) := by
  have hnw : call ∉ state.written := fun hm => h.begun call hm hw
  -- an id that is known is that of an earlier send
  have ho {id : String} (hk : Known sends state id) :
      id ≠ (sends.submission call).messageId := by
    rintro rfl
    obtain ⟨other, hm, hsa⟩ := hk
    exact hnw (sends.fresh other call hsa ▸ hm)
  have hsc {id : String} (hne : id ≠ (sends.submission call).messageId) :
      (state.pending.add (sends.submission call).messageId state.now).score id =
        state.pending.score id := ScoredSet.score_add_of_ne hne
  refine ⟨?_, ?_, ?_, ?_, ?_, ?_, ?_, h.acked, ?_, ?_, ?_⟩
  · intro other hm
    by_cases heq : other = call
    · simpa [State.goTo, heq] using hp
    · have hold : other ∈ state.written := (mem_cons.mp hm).resolve_left heq
      simpa [State.goTo, State.appendEntry, heq] using h.begun other hold
  · exact List.forall_mem_cons.mpr ⟨hdu, h.durable⟩
  · intro other hpr
    by_cases heq : other = call
    · exact heq ▸ mem_cons_self
    · exact mem_cons_of_mem _
        (h.promised other (by simpa [State.goTo, State.appendEntry, heq] using hpr))
  · intro id entry hen
    by_cases heq : id = (sends.submission call).messageId
    · subst heq
      refine ⟨call, mem_cons_self, rfl, ?_⟩
      simpa [State.goTo, State.appendEntry, eq_comm] using hen
    · have hold : state.wal id = some entry := by
        simpa [State.goTo, State.appendEntry, heq] using hen
      obtain ⟨other, hm, hsa⟩ := h.entries id entry hold
      exact ⟨other, mem_cons_of_mem _ hm, hsa⟩
  · intro id hs
    by_cases heq : id = (sends.submission call).messageId
    · subst heq
      simp [State.goTo, State.appendEntry]
    · have hold : state.wal id ≠ none := by
        simpa [State.goTo, State.appendEntry, heq] using hs
      simpa [State.goTo, State.appendEntry, hsc heq] using h.indexed id hold
  · intro id hs
    by_cases heq : id = (sends.submission call).messageId
    · exact ⟨call, mem_cons_self, heq.symm⟩
    · have hold : state.pending.score id ≠ none := by
        simpa [State.goTo, State.appendEntry, hsc heq] using hs
      exact (h.known id hold).mono fun _ hm => mem_cons_of_mem _ hm
  · intro other hm
    rcases mem_cons.mp hm with rfl | hold
    · refine .inr ?_
      simp [State.goTo, State.appendEntry]
    · have hne := ho ⟨other, hold, rfl⟩
      rcases h.kept other hold with hpu | hwa
      · exact .inl hpu
      · refine .inr ?_
        simpa [State.goTo, State.appendEntry, hne] using hwa
  · intro worker
    refine (h.workers worker).mono (fun _ hm => mem_cons_of_mem _ hm) ?_ fun _ hid => hid
    intro id hk hn
    simpa [State.goTo, State.appendEntry, ho hk] using hn
  · intro worker id hid ha score hs
    have hne := ho ((h.workers worker).known id hid)
    refine h.leased worker id hid ha score ?_
    simpa [State.goTo, State.appendEntry, hsc hne] using hs
  · exact h.exclusive

theorem score_remove_ne_none {pending : ScoredSet String} {id : String}
    (h : (pending.remove id).score other = some score) : pending.score other = some score := by
  by_cases heq : other = id
  · subst heq
    exact absurd h (by simp)
  · rwa [ScoredSet.score_remove_of_ne heq] at h

theorem Inv.dropIndex {id : String} (h : Inv sends state) (hm : state.wal id = none) :
    Inv sends { state with pending := state.pending.remove id } :=
  { h with
    indexed := by
      intro other hs
      have hne : other ≠ id := by
        rintro rfl
        exact hs hm
      simpa [ScoredSet.score_remove_of_ne hne] using h.indexed other hs
    known := by
      intro other hs
      obtain ⟨score, hsc⟩ := Option.ne_none_iff_exists'.mp hs
      exact h.known other (by simp [score_remove_ne_none hsc])
    workers := fun worker => (h.workers worker).mono (fun _ hc => hc)
      (fun _ _ hn => hn) fun _ hid => hid
    leased := fun worker other ho ha score hs =>
      h.leased worker other ho ha score (score_remove_ne_none hs) }

theorem Inv.removeEntry {id : String} (h : Inv sends state) (hp : id ∈ state.published) :
    Inv sends (state.removeEntry id) := by
  have hw {other : String} {entry : WalEntrySnapshot}
      (hs : (state.removeEntry id).wal other = some entry) :
      other ≠ id ∧ state.wal other = some entry := by
    by_cases heq : other = id
    · subst heq
      exact absurd hs (by simp [State.removeEntry])
    · exact ⟨heq, by simpa [State.removeEntry, heq] using hs⟩
  refine ⟨h.begun, h.durable, h.promised, ?_, ?_, ?_, ?_, h.acked, ?_, ?_, h.exclusive⟩
  · intro other entry hs
    exact h.entries other entry (hw hs).2
  · intro other hs
    obtain ⟨entry, hen⟩ := Option.ne_none_iff_exists'.mp hs
    obtain ⟨hne, hold⟩ := hw hen
    have hin := h.indexed other (by simp [hold])
    simpa [State.removeEntry, ScoredSet.score_remove_of_ne hne] using hin
  · intro other hs
    obtain ⟨score, hsc⟩ := Option.ne_none_iff_exists'.mp hs
    exact h.known other (by simp [score_remove_ne_none hsc])
  · intro call hc
    by_cases heq : (sends.submission call).messageId = id
    · exact .inl (heq ▸ hp)
    · rcases h.kept call hc with hold | hold
      · exact .inl hold
      · exact .inr (by simpa [State.removeEntry, heq] using hold)
  · intro worker
    refine (h.workers worker).mono (fun _ hc => hc) ?_ fun _ hid => hid
    intro other _ hn
    by_cases heq : other = id
    · simp [State.removeEntry, heq]
    · simpa [State.removeEntry, heq] using hn
  · intro worker other ho ha score hs
    exact h.leased worker other ho ha score (score_remove_ne_none hs)

theorem Inv.publish {id : String} {acked : List String} (h : Inv sends state)
    (hold : ∀ other ∈ state.acked, other ∈ acked)
    (ha : ∀ other ∈ acked, other = id ∨ other ∈ state.acked) :
    Inv sends { state with published := id :: state.published, acked } :=
  { h with
    kept := by
      intro call hc
      rcases h.kept call hc with hp | hw
      · exact .inl (mem_cons_of_mem _ hp)
      · exact .inr hw
    acked := by
      intro other ho
      rcases ha other ho with rfl | hm
      · exact mem_cons_self
      · exact mem_cons_of_mem _ (h.acked other hm)
    workers := fun worker => (h.workers worker).mono (fun _ hc => hc) (fun _ _ hn => hn) hold }

theorem setWorker_phase_self : ((state.setWorker worker phase).worker worker).phase = phase := by
  simp [State.setWorker]

theorem setWorker_leaseUntil {other : Nat} :
    ((state.setWorker worker phase).worker other).leaseUntil = (state.worker other).leaseUntil := by
  by_cases heq : other = worker <;> simp [State.setWorker, heq]

theorem Inv.setWorker (h : Inv sends state) (hf : WorkerFits sends state phase)
    (hids : ∀ id ∈ phase.ids, id ∈ (state.worker worker).phase.ids) :
    Inv sends (state.setWorker worker phase) := by
  have hh {other : Nat} {id : String}
      (hid : id ∈ ((state.setWorker worker phase).worker other).phase.ids) :
      id ∈ (state.worker other).phase.ids := by
    by_cases heq : other = worker
    · subst heq
      rw [setWorker_phase_self] at hid
      exact hids id hid
    · simpa [State.setWorker, heq] using hid
  refine { h with workers := ?_, leased := ?_, exclusive := ?_ }
  · intro other
    have hs {phase' : WorkerPhase} (hf' : WorkerFits sends state phase') :
        WorkerFits sends (state.setWorker worker phase) phase' :=
      hf'.mono (fun _ hc => hc) (fun _ _ hn => hn) fun _ hid => hid
    by_cases heq : other = worker
    · subst heq
      rw [setWorker_phase_self]
      exact hs hf
    · simpa [State.setWorker, heq] using hs (h.workers other)
  · intro other id hid
    rw [setWorker_leaseUntil]
    exact h.leased other id (hh hid)
  · intro first second hne id hid hid'
    rw [setWorker_leaseUntil, setWorker_leaseUntil]
    exact h.exclusive first second hne id (hh hid) (hh hid')

theorem Inv.tick (h : Inv sends state) : Inv sends { state with now := state.now + 1 } :=
  { h with
    workers := fun worker => (h.workers worker).mono (fun _ hc => hc)
      (fun _ _ hn => hn) fun _ hid => hid
    leased := fun worker id hid ha =>
      h.leased worker id hid (Nat.lt_of_succ_lt ha)
    exclusive := fun worker other hne id hid hid' ha ha' =>
      h.exclusive worker other hne id hid hid' (Nat.lt_of_succ_lt ha) (Nat.lt_of_succ_lt ha') }

end Preserve

section Claim

variable {ingest : Ingest} {sends : Sends ingest} {state : State}
  {wal : String → Option WalEntrySnapshot} {leaseUntil : Nat} {ids : List String}
  {pending : ScoredSet String} {id : String}

theorem score_claimPending : (claimPending wal leaseUntil ids pending).1.score id =
    if id ∈ ids then if (wal id).isSome then some leaseUntil else none
    else pending.score id := by
  induction ids generalizing pending with
  | nil => simp [claimPending]
  | cons first rest ih =>
    by_cases hr : id ∈ rest
    · unfold claimPending
      split <;> rw [ih, if_pos hr, if_pos (mem_cons_of_mem _ hr)]
    · by_cases hf : id = first
      · subst hf
        rw [if_pos mem_cons_self]
        unfold claimPending
        split
        · rw [ih, if_neg hr, ScoredSet.score_add_self]
        · rw [ih, if_neg hr, ScoredSet.score_remove_self]
      · have hn : id ∉ first :: rest := by simp [hf, hr]
        rw [if_neg hn]
        unfold claimPending
        split
        · rw [ih, if_neg hr, ScoredSet.score_add_of_ne hf]
        · rw [ih, if_neg hr, ScoredSet.score_remove_of_ne hf]

theorem mem_claimPending : id ∈ (claimPending wal leaseUntil ids pending).2 ↔
    id ∈ ids ∧ (wal id).isSome := by
  induction ids generalizing pending with
  | nil => simp [claimPending]
  | cons first rest ih =>
    unfold claimPending
    split
    · rename_i hs
      rw [mem_cons, mem_cons, ih]
      constructor
      · rintro (rfl | ⟨hr, hid⟩)
        · exact ⟨.inl rfl, hs⟩
        · exact ⟨.inr hr, hid⟩
      · rintro ⟨rfl | hr, hid⟩
        · exact .inl rfl
        · exact .inr ⟨hr, hid⟩
    · rename_i hn
      rw [mem_cons, ih]
      constructor
      · rintro ⟨hr, hid⟩
        exact ⟨.inr hr, hid⟩
      · rintro ⟨rfl | hr, hid⟩
        · exact absurd hid hn
        · exact ⟨hr, hid⟩

-- The index after a claim of the worker.
def claimedIndex (ingest : Ingest) (state : State) (limit : Nat) : ScoredSet String × List String :=
  claimPending state.wal (state.now + replayClaimLeaseMs ingest)
    (state.pending.due state.now limit) state.pending

theorem lease_pos : 0 < replayClaimLeaseMs ingest :=
  Nat.lt_of_lt_of_le (by decide) (Nat.le_max_right _ 1000)

theorem Inv.not_leased (h : Inv sends state) (hdu : id ∈ state.pending.due state.now limit)
    (hid : id ∈ (state.worker worker).phase.ids) :
    ¬ state.now < (state.worker worker).leaseUntil := by
  intro ha
  obtain ⟨score, hs, hn⟩ := ScoredSet.score_of_mem_due hdu
  have hl := h.leased worker id hid ha score hs
  omega

theorem Inv.claimIndex (h : Inv sends state) (limit : Nat) :
    Inv sends { state with pending := (claimedIndex ingest state limit).1 } :=
  { h with
    indexed := by
      intro other hs
      rw [claimedIndex, score_claimPending]
      split
      · rw [if_pos (Option.isSome_iff_ne_none.mpr hs)]
        simp
      · exact h.indexed other hs
    known := by
      intro other hs
      rw [claimedIndex, score_claimPending] at hs
      split at hs
      · rename_i hdu
        obtain ⟨score, hsc, -⟩ := ScoredSet.score_of_mem_due hdu
        exact h.known other (by simp [hsc])
      · exact h.known other hs
    workers := fun worker => (h.workers worker).mono (fun _ hc => hc)
      (fun _ _ hn => hn) fun _ hid => hid
    leased := by
      intro worker other ho ha score hs
      rw [claimedIndex, score_claimPending] at hs
      split at hs
      · rename_i hdu
        exact absurd ha (h.not_leased hdu ho)
      · exact h.leased worker other ho ha score hs }

-- The state after a claim whose answer the worker got.
def claimedState (ingest : Ingest) (state : State) (limit worker : Nat) : State :=
  { state with
    pending := (claimedIndex ingest state limit).1
    worker := Function.update state.worker worker
      ⟨.claimed (claimedIndex ingest state limit).2, state.now + replayClaimLeaseMs ingest⟩ }

theorem Inv.claim (h : Inv sends state) (limit worker : Nat) :
    Inv sends (claimedState ingest state limit worker) := by
  have hin := h.claimIndex limit
  have hnw {other : String} (hid : other ∈ (claimedIndex ingest state limit).2) :
      other ∈ state.pending.due state.now limit ∧ (state.wal other).isSome :=
    mem_claimPending.mp hid
  refine { hin with workers := ?_, leased := ?_, exclusive := ?_ }
  · intro other
    have hsa {phase : WorkerPhase} (hfi : WorkerFits sends state phase) :
        WorkerFits sends (claimedState ingest state limit worker) phase :=
      hfi.mono (fun _ hc => hc) (fun _ _ hn => hn) fun _ hid => hid
    by_cases heq : other = worker
    · subst heq
      simp only [claimedState, update_self]
      refine ⟨?_, fun _ hm => absurd hm not_mem_nil,
        fun _ _ hm => absurd hm not_mem_nil, fun _ hm => absurd hm not_mem_nil,
        fun _ _ hp => absurd hp (by simp)⟩
      intro id hid
      obtain ⟨-, hs⟩ := hnw hid
      obtain ⟨entry, hen⟩ := Option.isSome_iff_exists.mp hs
      obtain ⟨call, hc, hsu, -⟩ := h.entries id entry hen
      exact ⟨call, hc, hsu⟩
    · have hp : ((claimedState ingest state limit worker).worker other).phase =
          (state.worker other).phase := by
        simp [claimedState, heq]
      rw [hp]
      exact hsa (h.workers other)
  · intro other id hid ha score hs
    by_cases heq : other = worker
    · subst heq
      simp only [claimedState, update_self] at hid hs ⊢
      obtain ⟨hdu, hw⟩ := hnw hid
      simp only [claimedIndex] at hs
      rw [score_claimPending, if_pos hdu, if_pos hw] at hs
      exact Nat.le_of_eq (Option.some.inj hs)
    · simp only [claimedState, update_of_ne heq] at hid ha ⊢
      exact hin.leased other id hid ha score hs
  · intro first second hne id hid hid'
    by_cases hf : first = worker
    · subst hf
      simp only [claimedState, update_self, update_of_ne hne.symm] at hid hid' ⊢
      exact fun _ => h.not_leased (hnw hid).1 hid'
    · by_cases hse : second = worker
      · subst hse
        simp only [claimedState, update_self, update_of_ne hne] at hid hid' ⊢
        exact fun ha => absurd ha (h.not_leased (hnw hid').1 hid)
      · simp only [claimedState, update_of_ne hf, update_of_ne hse] at hid hid' ⊢
        exact h.exclusive first second hne id hid hid'

-- An entry whose turn has come is claimed, or fewer entries stand before it than did.
theorem claim_advances (ingest : Ingest) (hl : 0 < limit) (hw : state.wal id ≠ none)
    (hs : state.pending.score id = some score) (hn : score ≤ state.now) :
    id ∈ (claimedIndex ingest state limit).2 ∨
      (claimedIndex ingest state limit).1.score id = some score ∧
      ((claimedIndex ingest state limit).1.ahead id score).card <
        (state.pending.ahead id score).card := by
  by_cases hdu : id ∈ state.pending.due state.now limit
  · exact .inl (mem_claimPending.mpr ⟨hdu, Option.isSome_iff_ne_none.mpr hw⟩)
  · have hp : 0 < replayClaimLeaseMs ingest := lease_pos
    have hla {other : String} {m : Nat} (hme : other ∈ state.pending.due state.now limit)
        (hm : (claimedIndex ingest state limit).1.score other = some m) :
        ¬ ScoredSet.before (other, m) (id, score) := by
      rw [claimedIndex, score_claimPending, if_pos hme] at hm
      split at hm
      · cases hm
        rintro (hlt | ⟨heq, -⟩)
        · simp only at hlt
          omega
        · simp only at heq
          omega
      · cases hm
    refine .inr ⟨?_, ScoredSet.card_ahead_lt hs hn hl hdu ?_ ?_⟩
    · rw [claimedIndex, score_claimPending, if_neg hdu]
      exact hs
    · intro other hme
      rw [claimedIndex, score_claimPending, if_neg hme]
    · intro other hme m hm
      exact hla hme hm

end Claim

section Steps

variable {ingest : Ingest} {sends : Sends ingest} {state next : State}

theorem WorkerFits.idle : WorkerFits sends state .idle :=
  ⟨fun _ h => absurd h not_mem_nil, fun _ h => absurd h not_mem_nil,
    fun _ _ h => absurd h not_mem_nil, fun _ h => absurd h not_mem_nil,
    fun _ _ h => absurd h (by simp)⟩

theorem Inv.rest (h : Inv sends state) :
    Inv sends (state.setWorker worker .idle) :=
  h.setWorker WorkerFits.idle fun _ hid => absurd hid not_mem_nil

theorem WorkerFits.replaying (h : WorkerFits sends state phase)
    (rest : List WalPendingMessage) (hr : ∀ pending ∈ rest, pending ∈ phase.pendings) :
    WorkerFits sends state (.replaying rest) ∧
      ∀ id ∈ (WorkerPhase.replaying rest).ids, id ∈ phase.ids := by
  have hids : ∀ id ∈ (WorkerPhase.replaying rest).ids, id ∈ phase.ids := by
    intro id hid
    obtain ⟨pending, hm, rfl⟩ := mem_map.mp hid
    exact mem_ids_of_pendings (hr pending hm)
  exact ⟨⟨fun id hid => h.known id (hids id hid), fun _ hm => absurd hm not_mem_nil,
    fun _ _ hm => absurd hm not_mem_nil, fun pending hm => h.pendings pending (hr pending hm),
    fun _ _ hp => absurd hp (by simp)⟩, hids⟩

theorem appendStep_inv (h : Inv sends state) (hw : state.phase call = .waiting)
    (hdu : shouldWriteWal (sends.submission call).message
      (sendPersistenceMode (sends.submission call).message) = true)
    (hs : appendStep ingest sends.submission state call executed reply = some next) :
    Inv sends next := by
  have hf : Inv sends ((if executed = true then
      state.appendEntry ingest call (sends.submission call) else state).goTo call .failed) := by
    split
    · exact h.appendEntry hw (by simp) hdu
    · exact h.goTo (by simp) False.elim
  unfold appendStep at hs
  dsimp only at hs
  split at hs
  · exact Option.some.inj hs ▸ h.goTo (by simp) False.elim
  · split at hs
    · split at hs
      · exact Option.some.inj hs ▸ h.appendEntry hw (by simp) hdu
      · cases hs
    · exact Option.some.inj hs ▸ hf

theorem publishStep_inv (h : Inv sends state)
    (hw : durability (sends.submission call).message ≠ .transientAccepted → call ∈ state.written)
    (hs : publishStep sends.submission state call executed reply = some next) : Inv sends next := by
  have ha : Inv sends (if executed = true then
      { state with published := (sends.submission call).messageId :: state.published }
      else state) := by
    split
    · exact h.publish (fun _ hold => hold) fun _ hold => .inr hold
    · exact h
  have hsa : (if executed = true then
      { state with published := (sends.submission call).messageId :: state.published }
      else state).written = state.written := by
    cases executed <;> rfl
  unfold publishStep at hs
  dsimp only at hs
  split at hs
  · split at hs
    · rw [← Option.some.inj hs]
      refine Inv.goTo (h.publish (fun _ hold => mem_cons_of_mem _ hold)
        fun _ hm => mem_cons.mp hm) (by simp) hw
    · cases hs
  · rw [← Option.some.inj hs]
    by_cases ht : durability (sends.submission call).message = .transientAccepted
    · rw [if_pos ht]
      exact ha.goTo (by simp) False.elim
    · rw [if_neg ht]
      refine ha.goTo (by simp) fun _ => ?_
      rw [hsa]
      exact hw ht
  · exact Option.some.inj hs ▸ ha.goTo (by simp) False.elim

theorem listStep_inv {id : String} {entry : Option WalEntrySnapshot}
    {rest : List (String × Option WalEntrySnapshot)} {listed : List WalPendingMessage}
    (h : Inv sends state)
    (hp : (state.worker worker).phase = .listing ((id, entry) :: rest) listed)
    (hs : listStep ingest state worker id entry rest listed executed reply = some next) :
    Inv sends next := by
  have hf := hp ▸ h.workers worker
  -- the worker goes on, with the entry or without it
  have hg {added : List WalPendingMessage} (had : ∀ pending ∈ added,
      pending.messageId = id ∧ ∃ call ∈ state.written,
        pending = pendingOf (sends.submission call)) :
      WorkerFits sends state (.listing rest (listed ++ added)) ∧
        ∀ other ∈ (WorkerPhase.listing rest (listed ++ added)).ids,
          other ∈ (state.worker worker).phase.ids := by
    have hids : ∀ other ∈ (WorkerPhase.listing rest (listed ++ added)).ids,
        other ∈ (WorkerPhase.listing ((id, entry) :: rest) listed).ids := by
      intro other ho
      simp only [WorkerPhase.ids, WorkerPhase.unread, WorkerPhase.pendings, List.map_append,
        List.mem_append, List.map_cons, mem_cons] at ho ⊢
      rcases ho with hre | hl | hnw
      · exact .inl (.inr hre)
      · exact .inr hl
      · obtain ⟨pending, hm, rfl⟩ := mem_map.mp hnw
        exact .inl (.inl (had pending hm).1)
    refine ⟨⟨fun other ho => hf.known other (hids other ho), ?_, ?_, ?_,
      fun _ _ hr => absurd hr (by simp)⟩, hp ▸ hids⟩
    · exact fun other hm => hf.missing other (mem_cons_of_mem _ hm)
    · exact fun other found hm => hf.unread other found (mem_cons_of_mem _ hm)
    · intro pending hm
      rcases List.mem_append.mp hm with hold | hnw
      · exact hf.pendings pending hold
      · exact (had pending hnw).2
  obtain ⟨hdo, hdr⟩ := hg fun _ hm => absurd hm not_mem_nil
  rw [List.append_nil] at hdo hdr
  unfold listStep at hs
  dsimp only at hs
  split at hs
  · have hmi := hf.missing id mem_cons_self
    have ha : Inv sends (if executed = true then
        { state with pending := state.pending.remove id } else state) := by
      split
      · exact h.dropIndex hmi
      · exact h
    split at hs
    · split at hs
      · rw [← Option.some.inj hs]
        refine (h.dropIndex hmi).setWorker (hdo.mono (fun _ hc => hc)
          (fun _ _ hn => hn) fun _ hid => hid) hdr
      · cases hs
    · exact Option.some.inj hs ▸ ha.rest
  · rename_i found
    obtain ⟨call, hc, hid, rfl⟩ := hf.unread id found mem_cons_self
    split at hs
    · rename_i hpe
      exact absurd hpe (by simp [snapshotOf])
    · rw [show ingest.codec.decode (snapshotOf ingest (sends.submission call)).encoded =
        some (sends.submission call).message from sends.reads call] at hs
      rw [← Option.some.inj hs]
      refine (fun hpa : _ ∧ _ => h.setWorker hpa.1 hpa.2) (hg ?_)
      intro pending hm
      rw [List.mem_singleton.mp hm]
      exact ⟨rfl, call, hc, by rw [← hid]; rfl⟩

theorem replayStep_inv {pending : WalPendingMessage}
    {rest : List WalPendingMessage} (h : Inv sends state)
    (hp : (state.worker worker).phase = .replaying (pending :: rest))
    (hs : replayStep ingest state worker pending rest executed reply = some next) :
    Inv sends next := by
  have hf := hp ▸ h.workers worker
  obtain ⟨call, hc, rfl⟩ := hf.pendings pending mem_cons_self
  have hg := hf.replaying rest fun _ hm => mem_cons_of_mem _ hm
  rw [← hp] at hg
  have hco : Inv sends (state.setWorker worker (.replaying rest)) :=
    h.setWorker hg.1 hg.2
  unfold replayStep at hs
  rcases replayDecision_pendingOf (h.durable call hc) with hpu | ⟨hre, -⟩
  · rw [hpu] at hs
    dsimp only at hs
    have ha : Inv sends (if executed = true then
        { state with published := (pendingOf (sends.submission call)).messageId ::
          state.published } else state) := by
      split
      · exact h.publish (fun _ hold => hold) fun _ hold => .inr hold
      · exact h
    split at hs
    · split at hs
      · rw [← Option.some.inj hs]
        have hac : Inv sends { state with
            published := (pendingOf (sends.submission call)).messageId :: state.published
            acked := (pendingOf (sends.submission call)).messageId :: state.acked } :=
          h.publish (fun _ hold => mem_cons_of_mem _ hold) fun _ hm => mem_cons.mp hm
        refine hac.setWorker ⟨?_, ?_, ?_, ?_, ?_⟩ ?_
        · exact fun id hid => hf.known id hid
        · exact fun _ hm => absurd hm not_mem_nil
        · exact fun _ _ hm => absurd hm not_mem_nil
        · exact fun other hm => hf.pendings other hm
        · intro replayed others hr
          obtain ⟨rfl, -⟩ := WorkerPhase.removing.inj hr
          exact mem_cons_self
        · intro id hid
          rw [hp]
          exact hid
      · cases hs
    · rw [← Option.some.inj hs]
      refine ha.setWorker (hg.1.mono ?_ ?_ ?_) ?_
      · cases executed <;> exact fun _ hm => hm
      · cases executed <;> exact fun _ _ hn => hn
      · cases executed <;> exact fun _ hm => hm
      · cases executed <;> exact hg.2
    · exact Option.some.inj hs ▸ ha.rest
  · rw [hre] at hs
    exact Option.some.inj hs ▸ hco

-- No key of the WAL expires.
def Unexpired (_ : State) : Action → Prop
  | .expireWal | .expirePending => False
  | _ => True

theorem step_inv {action : Action} (h : Inv sends state) (hu : Unexpired state action)
    (hs : step ingest sends.submission state action = some next) : Inv sends next := by
  cases action with
  | append call executed reply =>
    simp only [step] at hs
    split at hs
    · rename_i hw
      split at hs
      · rename_i hdu
        exact appendStep_inv h hw hdu hs
      · cases hs
    · cases hs
  | publish call executed reply =>
    simp only [step] at hs
    split at hs
    · split at hs
      · cases hs
      · rename_i ht
        refine publishStep_inv h (fun hdu => ?_) hs
        exact absurd ((shouldWriteWal_iff _ _).mpr hdu) ht
    · rename_i hp
      refine publishStep_inv h (fun _ => h.promised call ?_) hs
      rw [hp]
      trivial
    · cases hs
  | finish call =>
    simp only [step] at hs
    split at hs
    · rename_i hp
      rw [← Option.some.inj hs]
      refine h.goTo (by simp) fun hpr => h.promised call ?_
      rw [hp]
      exact hpr
    · cases hs
  | cleanup call executed =>
    simp only [step] at hs
    split at hs
    · rename_i ha
      rw [← Option.some.inj hs]
      split
      · exact h.removeEntry (h.acked _ ha.1)
      · exact h
    · cases hs
  | claim worker limit executed reply =>
    simp only [step] at hs
    split at hs
    · split at hs
      · exact Option.some.inj hs ▸ h
      · unfold claimStep at hs
        dsimp only at hs
        split at hs
        · split at hs
          · exact Option.some.inj hs ▸ h.claim limit worker
          · cases hs
        · rw [← Option.some.inj hs]
          refine Inv.rest ?_
          split
          · exact h.claimIndex limit
          · exact h
    · cases hs
  | read worker reply =>
    simp only [step] at hs
    split at hs
    · rename_i ids hp
      have hf := hp ▸ h.workers worker
      rw [← Option.some.inj hs]
      have hids (id : String) (hid : id ∈ (WorkerPhase.listing
          (ids.map fun id => (id, state.wal id)) []).ids) : id ∈ ids := by
        simpa [WorkerPhase.ids, WorkerPhase.unread, WorkerPhase.pendings] using hid
      refine h.setWorker ⟨fun id hid => hf.known id (hids id hid), ?_, ?_,
        fun _ hm => absurd hm not_mem_nil, fun _ _ hre => absurd hre (by simp)⟩
        (by rw [hp]; exact hids)
      · intro id hm
        obtain ⟨other, -, hpa⟩ := mem_map.mp hm
        obtain ⟨rfl, hn⟩ := Prod.mk.inj hpa
        exact hn
      · intro id entry hm
        obtain ⟨other, -, hpa⟩ := mem_map.mp hm
        obtain ⟨rfl, hso⟩ := Prod.mk.inj hpa
        exact h.entries other entry hso
    · exact Option.some.inj hs ▸ h.rest
    · cases hs
  | list worker executed reply =>
    simp only [step] at hs
    split at hs
    · rename_i listed hp
      have hg := (hp ▸ h.workers worker).replaying listed fun _ hm => hm
      rw [← hp] at hg
      exact Option.some.inj hs ▸ h.setWorker hg.1 hg.2
    · rename_i id entry rest listed hp
      exact listStep_inv h hp hs
    · cases hs
  | replay worker executed reply =>
    simp only [step] at hs
    split at hs
    · exact Option.some.inj hs ▸ h.rest
    · rename_i pending rest hp
      exact replayStep_inv h hp hs
    · cases hs
  | remove worker executed reply =>
    simp only [step] at hs
    split at hs
    · rename_i replayed rest hp
      have hf := hp ▸ h.workers worker
      have hpu := h.acked _ (hf.acked replayed rest rfl)
      have hg := hf.replaying rest fun _ hm => mem_cons_of_mem _ hm
      rw [← hp] at hg
      have hr := h.removeEntry hpu
      split at hs
      · split at hs
        · rw [← Option.some.inj hs]
          refine hr.setWorker (hg.1.mono (fun _ hc => hc) ?_ fun _ hid => hid) hg.2
          intro other _ hn
          by_cases heq : other = replayed.messageId
          · simp [State.removeEntry, heq]
          · simpa [State.removeEntry, heq] using hn
        · cases hs
      · rw [← Option.some.inj hs]
        refine Inv.rest ?_
        split
        · exact hr
        · exact h
    · cases hs
  | quit worker => exact Option.some.inj hs ▸ h.rest
  | consumed id =>
    simp only [step] at hs
    split at hs
    · rename_i hpu
      exact Option.some.inj hs ▸ h.removeEntry hpu
    · cases hs
  | tick => exact Option.some.inj hs ▸ h.tick
  | expireWal | expirePending => exact hu.elim

end Steps

section Runs

variable {ingest : Ingest} {sends : Sends ingest} {state next : State}

-- The broker has the message, or the WAL has it in its hash and in its index.
def Recoverable (sends : Sends ingest) (state : State) (call : Nat) : Prop :=
  (sends.submission call).messageId ∈ state.published ∨
    state.wal (sends.submission call).messageId =
        some (snapshotOf ingest (sends.submission call)) ∧
      state.pending.score (sends.submission call).messageId ≠ none

-- A send that returned a durable outcome can be recovered, whatever a worker is about to replay
-- was written by a send and is published, unless its proof is refused, and no entry is in the
-- hands of two workers inside their leases.
structure Recovers (sends : Sends ingest) (state : State) : Prop where
  recoverable : ∀ call promised, state.phase call = .returned promised →
    promised ≠ .transientAccepted → Recoverable sends state call
  replayed : ∀ worker pending rest, (state.worker worker).phase = .replaying (pending :: rest) →
    ∃ call, pending = pendingOf (sends.submission call) ∧
      (replayDecision ingest pending = .publish ∨
        replayDecision ingest pending = .refuse ∧ ¬ Verified ingest (sends.submission call))
  exclusive : ∀ worker other, worker ≠ other → ∀ id ∈ (state.worker worker).phase.ids,
    id ∈ (state.worker other).phase.ids → state.now < (state.worker worker).leaseUntil →
    ¬ state.now < (state.worker other).leaseUntil

-- The ingest takes an entry out of the WAL only after its publish returned Ok, the storage writer
-- only after the broker gave it the message. A claim takes every entry whose turn has come, or
-- shortens the queue before it.
structure Careful (ingest : Ingest) (state next : State) (action : Action) : Prop where
  removes : ∀ id, state.wal id ≠ none → next.wal id = none →
    id ∈ state.acked ∨ action = .consumed id ∧ id ∈ state.published
  advances : ∀ worker limit, action = .claim worker limit true .ok → 0 < limit →
    ∀ id score, state.wal id ≠ none → state.pending.score id = some score → score ≤ state.now →
    id ∈ (next.worker worker).phase.ids ∨ next.pending.score id = some score ∧
      (next.pending.ahead id score).card < (state.pending.ahead id score).card

def WalRecovers (sends : Sends ingest) (ok : State → Action → Prop) : Prop :=
  ∀ actions last, Run (step ingest sends.submission) ok {} actions last →
    Recovers sends last ∧ ∀ action next, ok last action →
      step ingest sends.submission last action = some next → Careful ingest last next action

theorem Inv.recovers (h : Inv sends state) : Recovers sends state where
  recoverable call promised hp hdu := by
    have hw : call ∈ state.written := by
      refine h.promised call ?_
      rw [hp]
      exact hdu
    rcases h.kept call hw with hpu | hwa
    · exact .inl hpu
    · exact .inr ⟨hwa, h.indexed _ (by simp [hwa])⟩
  replayed worker pending rest hp := by
    obtain ⟨call, hc, rfl⟩ := (hp ▸ h.workers worker).pendings pending mem_cons_self
    exact ⟨call, rfl, replayDecision_pendingOf (h.durable call hc)⟩
  exclusive := h.exclusive

theorem wal_appendEntry {submission : Submission} {id : String} (call : Nat)
    (h : state.wal id ≠ none) : (state.appendEntry ingest call submission).wal id ≠ none := by
  by_cases heq : id = submission.messageId
  · simp [State.appendEntry, heq]
  · simpa [State.appendEntry, heq] using h

theorem wal_removeEntry {id : String} (h : state.wal id ≠ none)
    (hn : (state.removeEntry other).wal id = none) : id = other := by
  by_contra hne
  exact h (by simpa [State.removeEntry, hne] using hn)

theorem wal_removed {id : String} (h : state.wal id ≠ none)
    (hn : (if executed = true then state.removeEntry other else state).wal id = none) :
    id = other := by
  split at hn
  · exact wal_removeEntry h hn
  · exact absurd hn h

theorem Inv.removes {action : Action} {id : String} (h : Inv sends state)
    (hu : Unexpired state action) (hs : step ingest sends.submission state action = some next)
    (hso : state.wal id ≠ none) (hn : next.wal id = none) :
    id ∈ state.acked ∨ action = .consumed id ∧ id ∈ state.published := by
  -- a step that leaves the hash as it is removes nothing
  have hsa (hw : next.wal = state.wal) :
      id ∈ state.acked ∨ action = .consumed id ∧ id ∈ state.published :=
    absurd (hw ▸ hn) hso
  cases action with
  | append call executed reply =>
    have ha {phase : Phase} : ((if executed = true then
        state.appendEntry ingest call (sends.submission call) else state).goTo
          call phase).wal id ≠ none := by
      show (if executed = true then state.appendEntry ingest call (sends.submission call)
        else state).wal id ≠ none
      split
      · exact wal_appendEntry call hso
      · exact hso
    simp only [step] at hs
    split at hs
    · split at hs
      · unfold appendStep at hs
        dsimp only at hs
        split at hs
        · exact hsa (Option.some.inj hs ▸ rfl)
        · split at hs
          · split at hs
            · rw [← Option.some.inj hs] at hn
              exact absurd hn (wal_appendEntry call hso)
            · cases hs
          · rw [← Option.some.inj hs] at hn
            exact absurd hn ha
      · cases hs
    · cases hs
  | publish call executed reply =>
    have hpu (hpu : publishStep sends.submission state call executed reply =
        some next) : next.wal = state.wal := by
      unfold publishStep at hpu
      dsimp only at hpu
      split at hpu
      · split at hpu
        · rw [← Option.some.inj hpu]
          rfl
        · cases hpu
      · rw [← Option.some.inj hpu]
        cases executed <;> rfl
      · rw [← Option.some.inj hpu]
        cases executed <;> rfl
    simp only [step] at hs
    split at hs
    · split at hs
      · cases hs
      · exact hsa (hpu hs)
    · exact hsa (hpu hs)
    · cases hs
  | finish call =>
    simp only [step] at hs
    split at hs
    · exact hsa (Option.some.inj hs ▸ rfl)
    · cases hs
  | cleanup call executed =>
    simp only [step] at hs
    split at hs
    · rename_i hac
      rw [← Option.some.inj hs] at hn
      exact .inl (wal_removed hso hn ▸ hac.1)
    · cases hs
  | claim worker limit executed reply =>
    simp only [step] at hs
    split at hs
    · split at hs
      · exact hsa (Option.some.inj hs ▸ rfl)
      · unfold claimStep at hs
        dsimp only at hs
        split at hs
        · split at hs
          · exact hsa (Option.some.inj hs ▸ rfl)
          · cases hs
        · rw [← Option.some.inj hs] at hn
          cases executed <;> exact absurd hn hso
    · cases hs
  | read worker reply =>
    simp only [step] at hs
    split at hs
    · exact hsa (Option.some.inj hs ▸ rfl)
    · exact hsa (Option.some.inj hs ▸ rfl)
    · cases hs
  | list worker executed reply =>
    simp only [step] at hs
    split at hs
    · exact hsa (Option.some.inj hs ▸ rfl)
    · rename_i listed entry rest pendings hp
      have hf := hp ▸ h.workers worker
      unfold listStep at hs
      dsimp only at hs
      split at hs
      · split at hs
        · split at hs
          · exact hsa (Option.some.inj hs ▸ rfl)
          · cases hs
        · rw [← Option.some.inj hs] at hn
          cases executed <;> exact absurd hn hso
      · rename_i found
        obtain ⟨call, -, -, rfl⟩ := hf.unread listed found mem_cons_self
        split at hs
        · rename_i hpe
          exact absurd hpe (by simp [snapshotOf])
        · split at hs <;> exact hsa (Option.some.inj hs ▸ rfl)
    · cases hs
  | replay worker executed reply =>
    simp only [step] at hs
    split at hs
    · exact hsa (Option.some.inj hs ▸ rfl)
    · rename_i pending rest hp
      obtain ⟨call, hc, rfl⟩ :=
        (hp ▸ h.workers worker).pendings pending mem_cons_self
      unfold replayStep at hs
      rcases replayDecision_pendingOf (h.durable call hc) with hpu | ⟨hr, -⟩
      · rw [hpu] at hs
        dsimp only at hs
        split at hs
        · split at hs
          · exact hsa (Option.some.inj hs ▸ rfl)
          · cases hs
        · rw [← Option.some.inj hs] at hn
          cases executed <;> exact absurd hn hso
        · rw [← Option.some.inj hs] at hn
          cases executed <;> exact absurd hn hso
      · rw [hr] at hs
        exact hsa (Option.some.inj hs ▸ rfl)
    · cases hs
  | remove worker executed reply =>
    simp only [step] at hs
    split at hs
    · rename_i replayed rest hp
      have hac := (hp ▸ h.workers worker).acked replayed rest rfl
      split at hs
      · split at hs
        · rw [← Option.some.inj hs] at hn
          exact .inl (wal_removeEntry hso hn ▸ hac)
        · cases hs
      · rw [← Option.some.inj hs] at hn
        exact .inl (wal_removed hso hn ▸ hac)
    · cases hs
  | quit worker | tick => exact hsa (Option.some.inj hs ▸ rfl)
  | consumed other =>
    simp only [step] at hs
    split at hs
    · rename_i hpb
      rw [← Option.some.inj hs] at hn
      obtain rfl := wal_removeEntry hso hn
      exact .inr ⟨rfl, hpb⟩
    · cases hs
  | expireWal | expirePending => exact hu.elim

theorem step_advances
    (hs : step ingest sends.submission state (.claim worker limit true .ok) = some next)
    (hl : 0 < limit) {id : String} (hw : state.wal id ≠ none)
    (hsc : state.pending.score id = some score) (hn : score ≤ state.now) :
    id ∈ (next.worker worker).phase.ids ∨ next.pending.score id = some score ∧
      (next.pending.ahead id score).card < (state.pending.ahead id score).card := by
  simp only [step] at hs
  split at hs
  · rw [if_neg (Nat.pos_iff_ne_zero.mp hl)] at hs
    obtain rfl : claimedState ingest state limit worker = next := Option.some.inj hs
    rcases claim_advances ingest hl hw hsc hn with hc | hsh
    · refine .inl ?_
      simpa [claimedState, WorkerPhase.ids] using hc
    · exact .inr hsh
  · cases hs

theorem wal_recovers_unexpired (sends : Sends ingest) : WalRecovers sends Unexpired := by
  intro actions last hrun
  have hinv : Inv sends last := hrun.preserves _
    (fun state action next hinv hunexpired hstep => step_inv hinv hunexpired hstep) inv_initial
  refine ⟨hinv.recovers, fun action next hunexpired hstep => ⟨?_, ?_⟩⟩
  · exact fun id hsome hnone => hinv.removes hunexpired hstep hsome hnone
  · rintro worker limit rfl hlimit id score hwal hscore hnow
    exact step_advances hstep hlimit hwal hscore hnow

end Runs

section Sample

-- Texts of alice's whose server ids differ in their length, and a format that keeps the length.
def text (length : Nat) : Message where
  serverId := String.ofList (List.replicate (length + 1) 'a')
  clientMsgId := "k1"
  conversationId := "c1"
  senderId := "alice"
  content := some ⟨some (.text "hello")⟩

def textIngest : Ingest where
  codec := {
    encode := fun message => message.serverId.toList.map fun _ => 0
    decode := fun bytes => some (text (bytes.length - 1)) }

theorem isBlank_text (length : Nat) : isBlank (text length).serverId = false := by
  have hs : isWhitespace 'a' = false := by decide
  rw [isBlank_eq_false]
  simp [text, trim, trimChars, List.replicate_succ, hs, List.rdropWhile]

def texts : Sends textIngest where
  submission call := { message := text call, tenantId := "acme" }
  fresh a b h := by
    have hlength := congrArg (fun id : String => id.toList.length) h
    simpa [Submission.messageId, text] using hlength
  server_id call := isBlank_text call
  tenant _ := show isBlank "acme" = false by decide
  reads call := by simp [textIngest, text]

-- The broker fails a send, which returns that its message is in the WAL. Then the WAL expires.
theorem expired_wal_loses_a_message : ¬ WalRecovers texts anyStep := by
  intro hrecovers
  have hrun : (execute (step textIngest texts.submission) anyStep {}
      [.append 0 true .ok, .publish 0 false .error, .expireWal]).map (fun last =>
        (last.phase 0, last.published, last.wal (text 0).serverId)) =
      some (.returned .walAccepted, [], none) := by
    decide
  obtain ⟨last, hexecute, hlast⟩ := Option.map_eq_some_iff.mp hrun
  obtain ⟨hphase, hrest⟩ := Prod.mk.inj hlast
  obtain ⟨hpublished, hwal⟩ := Prod.mk.inj hrest
  have hrecoverable := (hrecovers _ last (run_of_execute hexecute)).1.recoverable 0 .walAccepted
    hphase (by decide)
  rcases hrecoverable with hmem | ⟨hentry, -⟩
  · rw [hpublished] at hmem
    exact absurd hmem List.not_mem_nil
  · rw [show last.wal (texts.submission 0).messageId = none from hwal] at hentry
    exact absurd hentry (by simp)

end Sample

end FlareIm.WalReplay
