import FlareIm.Lib.Transition
import FlareIm.SyncCursor

namespace FlareIm.SyncCursor

open Text EventRow Transition

variable {cursor : MultiDeviceCursor}

section Numbers

theorem asI64_of_lt {n : Nat} (h : n < 2 ^ 63) : asI64 n = n := if_pos h

theorem asU64_asI64 {n : Nat} (h : n < 2 ^ 63) : asU64 n = n := by
  rw [asU64, if_pos (Int.natCast_nonneg n)]
  omega

theorem mergedCursor_seq {previous : Option MultiDeviceCursor}
    (hc : cursor.lastConversationSeq < 2 ^ 63)
    (hp : ∀ found, previous = some found → found.lastConversationSeq < 2 ^ 63) :
    (mergedCursor previous cursor).lastConversationSeq < 2 ^ 63 ∧ ∀ found, previous = some found →
        found.lastConversationSeq ≤ (mergedCursor previous cursor).lastConversationSeq := by
  cases previous with
  | none =>
    have hs : (mergedCursor none cursor).lastConversationSeq = cursor.lastConversationSeq := by
      simp only [mergedCursor, Option.map_none, mergeCursorMonotonic, asI64_of_lt hc,
        asU64_asI64 hc]
    exact ⟨hs ▸ hc, fun found hf => absurd hf (by simp)⟩
  | some found =>
    have hf := hp found rfl
    have hs : (mergedCursor (some found) cursor).lastConversationSeq =
        max cursor.lastConversationSeq found.lastConversationSeq := by
      have hm : max (cursor.lastConversationSeq : Int) found.lastConversationSeq =
          (max cursor.lastConversationSeq found.lastConversationSeq : Nat) := by omega
      have hlt : max cursor.lastConversationSeq found.lastConversationSeq < 2 ^ 63 := by omega
      simp only [mergedCursor, Option.map_some, mergeCursorMonotonic, asI64_of_lt hc,
        asI64_of_lt hf, hm, asU64_asI64 hlt]
    refine ⟨by omega, ?_⟩
    rintro other ho
    cases ho
    omega

end Numbers

section Rows

variable {conversationId : String} {row : CursorRow} {syncSeq now : Int}

theorem syncCursor_updatedRow (h : conversationId = CONVERSATION_LIST ∨
    10 ^ 12 ≤ row.lastSyncedTs) : syncCursor conversationId row ≤
      syncCursor conversationId (updatedRow conversationId (some row) syncSeq now) := by
  unfold syncCursor updatedRow
  by_cases hl : conversationId = CONVERSATION_LIST
  · simp only [hl, if_true]
    omega
  · have ht := h.resolve_left hl
    simp only [hl, if_false]
    split_ifs <;> omega

theorem syncCursor_updatedRow_lt {row : Option CursorRow}
    (hr : ∀ found, row = some found → syncCursor conversationId found < 2 ^ 63)
    (hs : syncSeq < 2 ^ 63) :
    syncCursor conversationId (updatedRow conversationId row syncSeq now) < 2 ^ 63 := by
  cases row with
  | none =>
    unfold syncCursor updatedRow
    by_cases hl : conversationId = CONVERSATION_LIST
    · simp only [hl, if_true]
      exact hs
    · simp only [hl, if_false]
      split_ifs <;> omega
  | some found =>
    have hf := hr found rfl
    unfold syncCursor at hf ⊢
    unfold updatedRow
    by_cases hl : conversationId = CONVERSATION_LIST
    · simp only [hl, if_true] at hf ⊢
      omega
    · simp only [hl, if_false] at hf ⊢
      split_ifs <;> split_ifs at hf <;> omega

theorem bootstrapCursor_eq_some {request : GetSyncCursorSync} {row : Option CursorRow}
    {summary : Option ConversationSummary}
    (hr : ∀ found, row = some found → syncCursor request.conversationId found < 2 ^ 63)
    (h : bootstrapCursor request row summary = some cursor) :
    cursor.conversationId = request.conversationId ∧ cursor.lastConversationSeq < 2 ^ 63 := by
  obtain ⟨seq, hs, rfl⟩ := Option.map_eq_some_iff.mp h
  obtain ⟨hf, hpo⟩ := Option.filter_eq_some_iff.mp hs
  refine ⟨rfl, ?_⟩
  have hlt : seq < 2 ^ 63 := by
    cases row with
    | some found =>
      cases hf
      exact hr found rfl
    | none =>
      obtain ⟨tail, -, rfl⟩ := Option.map_eq_some_iff.mp hf
      have hp : 0 < asI64 tail.maxConversationSeq.toNat := by simpa using hpo
      have hb := tail.maxConversationSeq.toNat_lt
      unfold asI64 at hp ⊢
      split_ifs at hp ⊢ <;> omega
  have hp : 0 < seq := by simpa using hpo
  change seq.toNat < 2 ^ 63
  omega

end Rows

section Forward

-- Every call of the run is for the cursor of this tenant, user and conversation.
def Concerns (target : RowKey) (taken : CallId × Action) : Prop :=
  taken.1.1 = target.1 ∧
    match taken.2 with
    | .getSyncCursor userId request _ =>
      userId = target.2.1 ∧ request.conversationId = target.2.2
    | .updateSyncCursor userId request =>
      userId = target.2.1 ∧ ∀ cursor ∈ request.cursor, cursor.conversationId = target.2.2
    | _ => True

instance (target : RowKey) : (taken : CallId × Action) → Decidable (Concerns target taken)
  | (_, .getSyncCursor _ _ _) => inferInstanceAs (Decidable (_ ∧ _ ∧ _))
  | (_, .updateSyncCursor _ request) =>
    inferInstanceAs (Decidable (_ ∧ _ ∧ ∀ cursor ∈ request.cursor, _))
  | (_, .bootstrap _ _) | (_, .write _ _) | (_, .put) => inferInstanceAs (Decidable (_ ∧ True))

-- Neither the cursor in the cache nor the one in the store has moved backwards.
structure Forward (target : RowKey) (before after : State) : Prop where
  cache : ∀ cursor, before.cache.get target.2 = some cursor →
    ∃ cursor', after.cache.get target.2 = some cursor' ∧
      cursor.lastConversationSeq ≤ cursor'.lastConversationSeq
  store : ∀ row, before.rows target = some row →
    ∃ row', after.rows target = some row' ∧
      syncCursor target.2.2 row ≤ syncCursor target.2.2 row'

-- The columns are signed 64-bit numbers.
def SignedRows (rows : Rows) : Prop :=
  ∀ key row, rows key = some row → syncCursor key.2.2 row < 2 ^ 63

def NeverBackwards (capacity : Nat) (ok : State → CallId × Action → Prop) : Prop :=
  ∀ rows target earlier middle later last, SignedRows rows →
    Run step (fun state taken => Concerns target taken ∧ ok state taken) (start capacity rows)
      earlier middle →
    Run step (fun state taken => Concerns target taken ∧ ok state taken) middle later last →
    Forward target middle last

-- No other call has put a newer cursor into the cache than the one this call found there.
def NoNewer (held found : Option MultiDeviceCursor) : Prop :=
  ∀ cursor, held = some cursor → ∃ earlier, found = some earlier ∧
    cursor.lastConversationSeq ≤ earlier.lastConversationSeq

-- Cursors are sent in the signed range, the rows of conversations have real times, and no call
-- puts its cursor after another one that it has not seen.
def InOrder (state : State) (taken : CallId × Action) : Prop :=
  match taken.2, state.calls taken.1 with
  | .updateSyncCursor _ request, _ => ∀ cursor, request.cursor = some cursor →
      cursor.lastConversationSeq < 2 ^ 63
  | .write _ _, some (.writing userId _ merged) =>
    merged.conversationId = CONVERSATION_LIST ∨
      ∀ row, state.rows (taken.1.1, userId, merged.conversationId) = some row →
        10 ^ 12 ≤ row.lastSyncedTs
  | .put, some (.filling userId cursor _) =>
    NoNewer (state.cache.get (userId, cursor.conversationId)) none
  | .put, some (.putting userId previous merged) =>
    NoNewer (state.cache.get (userId, merged.conversationId)) previous
  | _, _ => True

variable {target : RowKey} {state next last : State} {taken : CallId × Action}

-- A call in flight is for the target, and what it is about to put is no older than what it found.
def CallFor (target : RowKey) : Call → Prop
  | .asking userId request _ => userId = target.2.1 ∧ request.conversationId = target.2.2
  | .filling userId cursor _ => userId = target.2.1 ∧ cursor.conversationId = target.2.2 ∧
      cursor.lastConversationSeq < 2 ^ 63
  | .writing userId previous merged | .putting userId previous merged =>
    userId = target.2.1 ∧ merged.conversationId = target.2.2 ∧
      merged.lastConversationSeq < 2 ^ 63 ∧
      ∀ found, previous = some found → found.lastConversationSeq ≤ merged.lastConversationSeq

structure Inv (target : RowKey) (state : State) : Prop where
  within : FifoMap.Within [target.2] state.cache
  cached : ∀ cursor, state.cache.get target.2 = some cursor → cursor.lastConversationSeq < 2 ^ 63
  stored : ∀ row, state.rows target = some row → syncCursor target.2.2 row < 2 ^ 63
  calls : ∀ id call, state.calls id = some call → CallFor target call

theorem Forward.refl (target : RowKey) (state : State) : Forward target state state where
  cache cursor h := ⟨cursor, h, Nat.le_refl _⟩
  store row h := ⟨row, h, Int.le_refl _⟩

theorem Forward.trans {a b c : State} (h : Forward target a b) (h' : Forward target b c) :
    Forward target a c where
  cache cursor hc := by
    obtain ⟨middle, hm, hle⟩ := h.cache cursor hc
    obtain ⟨last, hl, hle'⟩ := h'.cache middle hm
    exact ⟨last, hl, Nat.le_trans hle hle'⟩
  store row hr := by
    obtain ⟨middle, hm, hle⟩ := h.store row hr
    obtain ⟨last, hl, hle'⟩ := h'.store middle hm
    exact ⟨last, hl, Int.le_trans hle hle'⟩

theorem Inv.respond (h : Inv target state) (id : CallId) (response : Response) :
    Inv target (state.respond id response) where
  within := h.within
  cached := h.cached
  stored := h.stored
  calls other call hc := by
    by_cases hs : other = id
    · subst hs
      simp [State.respond] at hc
    · simp only [State.respond, Function.update_of_ne hs] at hc
      exact h.calls other call hc

theorem Inv.proceed (h : Inv target state) (id : CallId) {call : Call} (hc : CallFor target call) :
    Inv target (state.proceed id call) where
  within := h.within
  cached := h.cached
  stored := h.stored
  calls other found hf := by
    by_cases hs : other = id
    · subst hs
      simp only [State.proceed, Function.update_self, Option.some.injEq] at hf
      exact hf ▸ hc
    · simp only [State.proceed, Function.update_of_ne hs] at hf
      exact h.calls other found hf

end Forward

section Steps

variable {target : RowKey} {state next : State} {id : CallId}

theorem Forward.of_same (hc : next.cache = state.cache) (hr : next.rows = state.rows) :
    Forward target state next where
  cache cursor h := ⟨cursor, hc ▸ h, Nat.le_refl _⟩
  store row h := ⟨row, hr ▸ h, Int.le_refl _⟩

theorem Inv.put (h : Inv target state) (hs : cursor.lastConversationSeq < 2 ^ 63) :
    Inv target { state with cache := state.cache.insert target.2 cursor } where
  within := h.within.insert List.mem_cons_self cursor
  cached found hf := by
    rw [FifoMap.get_insert_self] at hf
    exact Option.some.inj hf ▸ hs
  stored := h.stored
  calls := h.calls

theorem Forward.put (hle : ∀ held,
    state.cache.get target.2 = some held → held.lastConversationSeq ≤ cursor.lastConversationSeq) :
    Forward target state { state with cache := state.cache.insert target.2 cursor } where
  cache held hh := ⟨cursor, FifoMap.get_insert_self _ _ _, hle held hh⟩
  store row h := ⟨row, h, Int.le_refl _⟩

theorem Inv.write {merged : MultiDeviceCursor} (h : Inv target state) (now : Int)
    (hsm : merged.lastConversationSeq < 2 ^ 63)
    (hr : target.2.2 = CONVERSATION_LIST ∨
      ∀ row, state.rows target = some row → 10 ^ 12 ≤ row.lastSyncedTs) :
    let row := updatedRow target.2.2 (state.rows target) (asI64 merged.lastConversationSeq) now
    let written := { state with rows := Function.update state.rows target (some row) }
    Inv target written ∧ Forward target state written := by
  intro row written
  have hs : written.rows target = some row := Function.update_self ..
  refine ⟨⟨h.within, h.cached, ?_, h.calls⟩, ⟨fun cursor hc => ⟨cursor, hc, Nat.le_refl _⟩, ?_⟩⟩
  · intro found hf
    cases (hs.symm.trans hf)
    refine syncCursor_updatedRow_lt h.stored ?_
    rw [asI64_of_lt hsm]
    omega
  · intro old hold
    refine ⟨row, hs, ?_⟩
    simp only [row, hold]
    exact syncCursor_updatedRow (hr.imp_right fun ht => ht old hold)

-- Everything that one access of a call can do.
inductive Moves (state : State) (id : CallId) : Action → State → Prop where
  | idle (action : Action) : Moves state id action state
  | blankGet (userId : String) (request : GetSyncCursorSync)
      (changes : Option (List ConversationVersion)) :
      Moves state id (.getSyncCursor userId request changes)
        (state.respond id .conversationIdEmpty)
  | hit (userId : String) (request : GetSyncCursorSync)
      (changes : Option (List ConversationVersion)) (cursor : MultiDeviceCursor) :
      Moves state id (.getSyncCursor userId request changes)
        (state.respond id (.got (some cursor)
          (conversationVersionHints request.knownConversationVersions changes)))
  | miss (userId : String) (request : GetSyncCursorSync)
      (changes : Option (List ConversationVersion)) :
      Moves state id (.getSyncCursor userId request changes)
        (state.proceed id (.asking userId request
          (conversationVersionHints request.knownConversationVersions changes)))
  | refuse (userId : String) (request : UpdateSyncCursorSync) (response : Response) :
      Moves state id (.updateSyncCursor userId request) (state.respond id response)
  | merge (userId : String) (request : UpdateSyncCursorSync) (cursor : MultiDeviceCursor)
      (hcursor : request.cursor = some cursor) :
      Moves state id (.updateSyncCursor userId request)
        (state.proceed id (.writing userId (state.cache.get (userId, cursor.conversationId))
          (mergedCursor (state.cache.get (userId, cursor.conversationId)) cursor)))
  | unlisted (summary : Option ConversationSummary) (answered : Bool) (response : Response) :
      Moves state id (.bootstrap summary answered) (state.respond id response)
  | listed (summary : Option ConversationSummary) (answered : Bool) (userId : String)
      (request : GetSyncCursorSync) (hints : Option (List ConversationVersion))
      (cursor : MultiDeviceCursor) (hcall : state.calls id = some (.asking userId request hints))
      (hcursor : bootstrapCursor request (state.rows (id.1, userId, request.conversationId))
        summary = some cursor) :
      Moves state id (.bootstrap summary answered) (state.proceed id (.filling userId cursor hints))
  | unwritten (now : Int) (outcome : Outcome) :
      Moves state id (.write now outcome) (state.respond id .unavailable)
  | write (now : Int) (outcome : Outcome) (userId : String) (previous : Option MultiDeviceCursor)
      (merged : MultiDeviceCursor) (row : CursorRow) (written next : State)
      (hcall : state.calls id = some (.writing userId previous merged))
      (hrow : row = updatedRow merged.conversationId
        (state.rows (id.1, userId, merged.conversationId)) (asI64 merged.lastConversationSeq) now)
      (hwritten : written = { state with
        rows := Function.update state.rows (id.1, userId, merged.conversationId) (some row) })
      (hnext : next = written.proceed id (.putting userId previous merged) ∨
        next = written.respond id .unavailable) :
      Moves state id (.write now outcome) next
  | fill (userId : String) (cursor : MultiDeviceCursor)
      (hints : Option (List ConversationVersion))
      (hcall : state.calls id = some (.filling userId cursor hints)) :
      Moves state id .put
        (({ state with cache := state.cache.insert (userId, cursor.conversationId) cursor } :
          State).respond id (.got (some cursor) hints))
  | put (userId : String) (previous : Option MultiDeviceCursor) (merged : MultiDeviceCursor)
      (hcall : state.calls id = some (.putting userId previous merged)) :
      Moves state id .put
        (({ state with cache := state.cache.insert (userId, merged.conversationId) merged } :
          State).respond id (.updated merged))

theorem step_moves {action : Action} (h : step state (id, action) = some next) :
    Moves state id action next := by
  cases action with
  | getSyncCursor userId request changes =>
    cases hc : state.calls id with
    | some call => simp [step, hc] at h
    | none =>
      simp only [step, hc] at h
      split at h
      · exact Option.some.inj h ▸ .blankGet userId request changes
      · split at h
        · exact Option.some.inj h ▸ .hit userId request changes _
        · exact Option.some.inj h ▸ .miss userId request changes
  | updateSyncCursor userId request =>
    cases hc : state.calls id with
    | some call => simp [step, hc] at h
    | none =>
      simp only [step, hc] at h
      split at h
      · exact Option.some.inj h ▸ .refuse userId request _
      · rename_i cursor hcu
        split at h
        · exact Option.some.inj h ▸ .refuse userId request _
        · exact Option.some.inj h ▸ .merge userId request cursor hcu
  | bootstrap summary answered =>
    cases hc : state.calls id with
    | none =>
      simp only [step, hc] at h
      exact Option.some.inj h ▸ .idle _
    | some call =>
      cases call with
      | asking userId request hin =>
        simp only [step, hc] at h
        split at h
        · exact Option.some.inj h ▸ .unlisted summary answered _
        · split at h
          · exact Option.some.inj h ▸ .unlisted summary answered _
          · rename_i cursor hcu
            exact Option.some.inj h ▸ .listed summary answered userId request hin cursor hc hcu
      | filling | writing | putting =>
        simp only [step, hc] at h
        exact Option.some.inj h ▸ .idle _
  | write now outcome =>
    cases hc : state.calls id with
    | none =>
      simp only [step, hc] at h
      exact Option.some.inj h ▸ .idle _
    | some call =>
      cases call with
      | writing userId previous merged =>
        simp only [step, hc] at h
        cases outcome with
        | answered =>
          exact .write now _ userId previous merged _ _ next hc rfl rfl
            (.inl (Option.some.inj h).symm)
        | lost =>
          exact .write now _ userId previous merged _ _ next hc rfl rfl
            (.inr (Option.some.inj h).symm)
        | refused => exact Option.some.inj h ▸ .unwritten now _
      | asking | filling | putting =>
        simp only [step, hc] at h
        exact Option.some.inj h ▸ .idle _
  | put =>
    cases hc : state.calls id with
    | none =>
      simp only [step, hc] at h
      exact Option.some.inj h ▸ .idle _
    | some call =>
      cases call with
      | filling userId cursor hin =>
        simp only [step, hc] at h
        exact Option.some.inj h ▸ .fill userId cursor hin hc
      | putting userId previous merged =>
        simp only [step, hc] at h
        exact Option.some.inj h ▸ .put userId previous merged hc
      | asking | writing =>
        simp only [step, hc] at h
        exact Option.some.inj h ▸ .idle _

theorem step_forward {taken : CallId × Action} (h : Inv target state)
    (hcn : Concerns target taken) (ho : InOrder state taken)
    (hs : step state taken = some next) : Inv target next ∧ Forward target state next := by
  obtain ⟨id, action⟩ := taken
  obtain ⟨ht, hcn⟩ := hcn
  change id.1 = target.1 at ht
  have hsa (response : Response) : Inv target (state.respond id response) ∧
      Forward target state (state.respond id response) := ⟨h.respond id response, .of_same rfl rfl⟩
  have hn {call : Call} (hc : CallFor target call) : Inv target (state.proceed id call) ∧
      Forward target state (state.proceed id call) := ⟨h.proceed id hc, .of_same rfl rfl⟩
  have hp {cursor : MultiDeviceCursor} {found : Option MultiDeviceCursor} {response : Response}
      (hsm : cursor.lastConversationSeq < 2 ^ 63)
      (hle : ∀ earlier, found = some earlier →
        earlier.lastConversationSeq ≤ cursor.lastConversationSeq)
      (hnw : NoNewer (state.cache.get target.2) found) :
      Inv target (({ state with cache := state.cache.insert target.2 cursor } :
        State).respond id response) ∧
      Forward target state (({ state with cache := state.cache.insert target.2 cursor } :
        State).respond id response) := by
    refine ⟨(h.put hsm).respond id response, (Forward.put ?_).trans (.of_same rfl rfl)⟩
    intro held hh
    obtain ⟨earlier, hea, hhe⟩ := hnw held hh
    exact Nat.le_trans hhe (hle earlier hea)
  cases step_moves hs with
  | idle => exact ⟨h, .refl target state⟩
  | blankGet userId request changes | hit userId request changes cursor
  | refuse userId request response | unlisted summary answered response
  | unwritten now outcome => exact hsa _
  | miss userId request changes => exact hn hcn
  | merge userId request cursor hcu =>
    obtain ⟨rfl, hco⟩ := hcn
    have hta : (target.2.1, cursor.conversationId) = target.2 :=
      Prod.ext rfl (hco cursor hcu)
    rw [hta]
    have hm := mergedCursor_seq (ho cursor hcu) h.cached
    exact hn ⟨rfl, hco cursor hcu, hm.1, hm.2⟩
  | listed summary answered userId request hint cursor hc hcu =>
    obtain ⟨rfl, hco⟩ := h.calls id _ hc
    have hk : (id.1, target.2.1, request.conversationId) = target := by
      rw [ht, hco]
    rw [hk] at hcu
    obtain ⟨hcr, hsm⟩ := bootstrapCursor_eq_some (hco ▸ h.stored) hcu
    exact hn ⟨rfl, hcr.trans hco, hsm⟩
  | write now outcome userId previous merged row written next hc hr hw hnx =>
    have hca := h.calls id _ hc
    obtain ⟨rfl, hco, hsm, hle⟩ := hca
    have hk : (id.1, target.2.1, merged.conversationId) = target := by
      rw [ht, hco]
    simp only [InOrder, hc, hk] at ho
    rw [hk, hco] at hr
    rw [hk] at hw
    obtain ⟨hin, hf⟩ := h.write now hsm (hco ▸ ho)
    rw [hr] at hw
    rw [← hw] at hin hf
    rcases hnx with rfl | rfl
    · exact ⟨hin.proceed id ⟨rfl, hco, hsm, hle⟩, hf.trans (.of_same rfl rfl)⟩
    · exact ⟨hin.respond id _, hf.trans (.of_same rfl rfl)⟩
  | fill userId cursor hint hc =>
    obtain ⟨rfl, hco, hsm⟩ := h.calls id _ hc
    have hk : (target.2.1, cursor.conversationId) = target.2 := Prod.ext rfl hco
    simp only [InOrder, hc, hk] at ho
    rw [hk]
    exact hp hsm (fun earlier hea => absurd hea (by simp)) ho
  | put userId previous merged hc =>
    obtain ⟨rfl, hco, hsm, hle⟩ := h.calls id _ hc
    have hk : (target.2.1, merged.conversationId) = target.2 := Prod.ext rfl hco
    simp only [InOrder, hc, hk] at ho
    rw [hk]
    exact hp hsm hle ho

theorem inv_start {capacity : Nat} {rows : Rows} (hr : SignedRows rows) :
    Inv target (start capacity rows) where
  within := FifoMap.within_empty (Nat.le_max_right _ _)
  cached := nofun
  stored row h := hr target row h
  calls id call h := absurd h (by simp [start])

theorem neverBackwards_inOrder (capacity : Nat) : NeverBackwards capacity InOrder := by
  intro rows target earlier middle later last hrows hearlier hlater
  have hmiddle : Inv target middle := hearlier.preserves _
    (fun _ _ _ h hok hstep => (step_forward h hok.1 hok.2 hstep).1) (inv_start hrows)
  exact hlater.relates (Forward target)
    (fun _ _ _ h hok hstep => (step_forward h hok.1 hok.2 hstep).1) (Forward.refl target)
    (fun _ _ _ h h' => h.trans h')
    (fun _ _ _ h hok hstep => (step_forward h hok.1 hok.2 hstep).2) hmiddle

def update (deviceId : String) (seq : Nat) : Action :=
  .updateSyncCursor "alice" ⟨some { deviceId, conversationId := "c1", lastConversationSeq := seq }⟩

-- Two devices find no cursor in the cache. The one with the newer cursor is done first.
def newerFirst : List (CallId × Action) :=
  [(("acme", 1), update "phone" 10), (("acme", 2), update "desktop" 20),
    (("acme", 2), .write (2 * 10 ^ 12) .answered), (("acme", 2), .put)]

def thenOlder : List (CallId × Action) :=
  [(("acme", 1), .write (2 * 10 ^ 12) .answered), (("acme", 1), .put)]

theorem concurrent_update_moves_cache_back : ¬ ∀ capacity, NeverBackwards capacity anyStep := by
  intro h
  let ok (state : State) (taken : CallId × Action) : Prop :=
    Concerns ("acme", "alice", "c1") taken ∧ anyStep state taken
  obtain ⟨middle, hearlier, hmiddle, last, hlater, hlast⟩ : ∃ middle,
      execute step ok (start 1 fun _ => none) newerFirst = some middle ∧
      (middle.cache.get ("alice", "c1")).map (·.lastConversationSeq) = some 20 ∧
      ∃ last, execute step ok middle thenOlder = some last ∧
        (last.cache.get ("alice", "c1")).map (·.lastConversationSeq) = some 10 :=
    ⟨_, rfl, rfl, _, rfl, rfl⟩
  have hforward := h 1 (fun _ => none) ("acme", "alice", "c1") newerFirst middle thenOlder last
    (fun _ _ hrow => absurd hrow (by simp)) (run_of_execute hearlier) (run_of_execute hlater)
  obtain ⟨newer, hnewer, hseq⟩ := Option.map_eq_some_iff.mp hmiddle
  obtain ⟨older, holder, hle⟩ := hforward.cache newer hnewer
  rw [holder, Option.map_some] at hlast
  have holderseq := Option.some.inj hlast
  omega

end Steps

end FlareIm.SyncCursor
