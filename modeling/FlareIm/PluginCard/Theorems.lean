import FlareIm.PluginCard

namespace FlareIm.PluginCard

open RoundTrip Transition
open Function (update update_of_ne update_self)

variable {phase : WorkerPhase} {reason : Reason} {ok : Bool} {outcome : Outcome}

section Contract

structure Sound (state : State) : Prop where
  never_both : state.called = true → state.stored = []
  one_card : state.bindings.length ≤ 1
  ends_once : ∀ reason, (state.ends reason).length ≤ 1
  delivered_answered : ∀ reason, .delivered ∈ state.ends reason → state.answered reason = true

def PostedOrRolledBack (setup : Setup) (ok : State → Action → Prop) : Prop :=
  ∀ actions state, Run (step setup) ok emptyState actions state → Sound state

-- A delivery of `post_failed` found the entity without a card and is on its way to the plugin, or the
-- plugin was called.
def Passed (state : State) : Prop :=
  state.called = true ∨ ∃ worker, state.workers worker = .calling .postFailed

-- Every card Ingest stored or may still store is bound, and no call is about to post one.
def Settled (state : State) : Prop :=
  (∀ card ∈ state.stored, ∃ binding ∈ state.bindings, binding.serverMsgId = card.serverMsgId) ∧
    state.inFlight = [] ∧ ∀ call, (state.calls call).sending = false

-- The windows between a check and what goes by it that nothing else may fall into.
def InOrder (state : State) : Action → Prop
  | .checkBindings worker ok _ =>
    state.workers worker = .checking → ok = true → state.bindings = [] → Settled state
  | .checkOutbox call ok =>
    state.calls call = .checkingOutbox → ok = true → Passed state →
      ∀ row ∈ state.rows .postFailed, ¬(row.unconfirmed = true ∧ row.status = none)
  | .insert call ok =>
    ok = true → ∀ serverMsgId, state.calls call = .inserting serverMsgId →
      ∀ binding ∈ state.bindings, binding.serverMsgId = serverMsgId
  | .writerInsert binder =>
    ∀ serverMsgId ∈ state.binders binder,
      ∀ binding ∈ state.bindings, binding.serverMsgId = serverMsgId
  | _ => True

end Contract

section Invariant

structure Inv (state : State) : Prop where
  quiet : Passed state →
    state.stored = [] ∧ state.inFlight = [] ∧ ∀ call, (state.calls call).sending = false
  row_there : Passed state ∨ (∃ worker, state.workers worker = .checking) →
    (state.rows .postFailed).isSome
  one_card : state.bindings.length ≤ 1
  ends_eq : ∀ reason, state.ends reason = ((state.rows reason).bind (·.status)).toList
  completing_answered : ∀ worker reason,
    state.workers worker = .completing reason .delivered → state.answered reason = true
  delivered_answered : ∀ reason, .delivered ∈ state.ends reason → state.answered reason = true

variable {state : State}

theorem inv_empty : Inv emptyState where
  quiet h := by
    rcases h with h | ⟨worker, h⟩ <;> exact absurd h (by simp [emptyState])
  row_there h := by
    rcases h with (h | ⟨worker, h⟩) | ⟨worker, h⟩
    · exact absurd h (by simp [emptyState])
    · exact absurd h (by simp [emptyState])
    · exact absurd h (by simp [emptyState])
  one_card := Nat.zero_le 1
  ends_eq reason := rfl
  completing_answered worker reason h := absurd h (by simp [emptyState])
  delivered_answered reason h := absurd h List.not_mem_nil

theorem Inv.sound (hin : Inv state) : Sound state where
  never_both h := (hin.quiet (Or.inl h)).1
  one_card := hin.one_card
  ends_once reason := by
    rw [hin.ends_eq reason]
    cases (state.rows reason).bind (·.status) <;> simp
  delivered_answered := hin.delivered_answered

theorem Inv.setCall (hin : Inv state) {call : Nat} {phase : CallPhase}
    (hp : Passed state → phase.sending = false) : Inv (state.setCall call phase) where
  quiet h := by
    have hpa : Passed state := h
    obtain ⟨hs, hf, hc⟩ := hin.quiet hpa
    refine ⟨hs, hf, ?_⟩
    intro other
    simp only [State.setCall]
    by_cases heq : other = call
    · subst heq
      rw [update_self]
      exact hp hpa
    · rw [update_of_ne heq]
      exact hc other
  row_there := hin.row_there
  one_card := hin.one_card
  ends_eq := hin.ends_eq
  completing_answered := hin.completing_answered
  delivered_answered := hin.delivered_answered

theorem setWorker_eq {worker other : Nat} {found : WorkerPhase}
    (h : (state.setWorker worker phase).workers other = found) :
    phase = found ∨ state.workers other = found := by
  simp only [State.setWorker] at h
  by_cases heq : other = worker
  · subst heq
    rw [update_self] at h
    exact Or.inl h
  · rw [update_of_ne heq] at h
    exact Or.inr h

theorem passed_setWorker {worker : Nat} (h : Passed (state.setWorker worker phase)) :
    phase = .calling .postFailed ∨ Passed state := by
  rcases h with hc | ⟨other, ho⟩
  · exact Or.inr (Or.inl hc)
  · rcases setWorker_eq ho with hp | hold
    · exact Or.inl hp
    · exact Or.inr (Or.inr ⟨other, hold⟩)

theorem Inv.setWorker (hin : Inv state) {worker : Nat}
    (hc : phase = .calling .postFailed →
      state.stored = [] ∧ state.inFlight = [] ∧ ∀ call, (state.calls call).sending = false)
    (hr : phase = .calling .postFailed ∨ phase = .checking → (state.rows .postFailed).isSome)
    (ha : ∀ reason, phase = .completing reason .delivered → state.answered reason = true) :
    Inv (state.setWorker worker phase) where
  quiet h := by
    rcases passed_setWorker h with hp | hpa
    · exact hc hp
    · exact hin.quiet hpa
  row_there h := by
    rcases h with hpa | ⟨other, ho⟩
    · rcases passed_setWorker hpa with hp | hpa
      · exact hr (Or.inl hp)
      · exact hin.row_there (Or.inl hpa)
    · rcases setWorker_eq ho with hp | hold
      · exact hr (Or.inr hp)
      · exact hin.row_there (Or.inr ⟨other, hold⟩)
  one_card := hin.one_card
  ends_eq := hin.ends_eq
  completing_answered other reason h := by
    rcases setWorker_eq h with hp | hold
    · exact ha reason hp
    · exact hin.completing_answered other reason hold
  delivered_answered := hin.delivered_answered

theorem Inv.restWorker (hin : Inv state) {worker : Nat}
    (hc : phase ≠ .calling .postFailed) (hch : phase ≠ .checking)
    (hde : ∀ reason, phase ≠ .completing reason .delivered) :
    Inv (state.setWorker worker phase) :=
  hin.setWorker (fun h => absurd h hc)
    (fun h => h.elim (fun h => absurd h hc) fun h => absurd h hch)
    (fun reason h => absurd h (hde reason))

theorem Inv.retry (hin : Inv state) {worker : Nat} {expired : Bool} :
    Inv (retry state worker reason expired) := by
  unfold PluginCard.retry
  split <;> exact hin.restWorker (by simp) (by simp) (by simp)

theorem Inv.setRow (hin : Inv state) {row : OutboxRow}
    (hs : row.status = (state.rows reason).bind (·.status)) : Inv (state.setRow reason row) where
  quiet := hin.quiet
  row_there h := by
    simp only [State.setRow]
    by_cases heq : Reason.postFailed = reason
    · subst heq
      rw [update_self]
      rfl
    · rw [update_of_ne heq]
      exact hin.row_there h
  one_card := hin.one_card
  ends_eq other := by
    simp only [State.setRow]
    by_cases heq : other = reason
    · subst heq
      rw [update_self, hin.ends_eq other, Option.bind_some, hs]
    · rw [update_of_ne heq]
      exact hin.ends_eq other
  completing_answered := hin.completing_answered
  delivered_answered := hin.delivered_answered

theorem Inv.setStored (hin : Inv state) {stored : List Card} {inFlight : List Nat}
    (hn : ¬Passed state) : Inv { state with stored := stored, inFlight := inFlight } :=
  { hin with quiet := fun h => absurd h hn }

theorem Inv.setBindings (hin : Inv state) {bindings : List Binding} {binders : Nat → Option Nat}
    (ho : bindings.length ≤ 1) : Inv { state with bindings := bindings, binders := binders } :=
  { hin with one_card := ho }

theorem length_bind {serverMsgId : Nat} (ho : state.bindings.length ≤ 1)
    (hs : ∀ binding ∈ state.bindings, binding.serverMsgId = serverMsgId) :
    (state.bind serverMsgId).bindings.length ≤ 1 := by
  unfold State.bind
  split
  · exact ho
  · rename_i hn
    have hem : state.bindings = [] := by
      rw [List.eq_nil_iff_forall_not_mem]
      intro binding hm
      apply hn
      rw [List.any_eq_true]
      exact ⟨binding, hm, by rw [hs binding hm, beq_self_eq_true]⟩
    simp [hem]

theorem bind_eq (serverMsgId : Nat) :
    state.bind serverMsgId = { state with bindings := (state.bind serverMsgId).bindings } := by
  unfold State.bind
  split <;> rfl

end Invariant

section Calls

variable {setup : Setup} {state next : State} {call : Nat}

theorem not_passed_of_sending (hin : Inv state) (h : (state.calls call).sending = true) :
    ¬Passed state := by
  intro hp
  rw [(hin.quiet hp).2.2 call] at h
  cases h

theorem Inv.of_moved (hin : Inv state) {phase : CallPhase}
    (hp : Passed state → phase.sending = false)
    (h : some (state.setCall call phase) = some next) : Inv next := by
  cases h
  exact hin.setCall hp

theorem keeps_start (hin : Inv state) (h : start setup state call = some next) : Inv next := by
  unfold start at h
  split at h
  · cases h
  · split at h <;> exact hin.of_moved (fun _ => rfl) h

theorem keeps_readBindings (hin : Inv state)
    (h : readBindings setup state call ok = some next) : Inv next := by
  unfold readBindings at h
  split at h
  · cases h
  · split at h
    · exact hin.of_moved (fun _ => rfl) h
    · split at h <;> exact hin.of_moved (fun _ => rfl) h

theorem not_passed_of_checked (hin : Inv state)
    (hok : InOrder state (.checkOutbox call ok)) (hp : state.calls call = .checkingOutbox)
    (hg : ¬(ok = false ∨ postFailed (state.rows .postFailed) = true)) : ¬Passed state := by
  intro hpa
  rw [not_or, Bool.not_eq_false, Bool.not_eq_true] at hg
  obtain ⟨row, hr⟩ := Option.isSome_iff_exists.mp (hin.row_there (Or.inl hpa))
  have ho := hok hp hg.1 hpa row hr
  have hpe := hg.2
  rw [hr] at hpe
  simp only [postFailed, Bool.or_eq_false_iff, Bool.not_eq_false', Option.isSome_eq_false_iff,
    Option.isNone_iff_eq_none] at hpe
  exact ho hpe

theorem keeps_checkOutbox (hin : Inv state) (hok : InOrder state (.checkOutbox call ok))
    (h : checkOutbox setup state call ok = some next) : Inv next := by
  unfold checkOutbox at h
  split at h
  · cases h
  · rename_i hp
    split at h
    · exact hin.of_moved (fun _ => rfl) h
    · rename_i hg
      split at h
      · cases h
        apply hin.setCall
        intro hpa
        exact absurd hpa (not_passed_of_checked hin hok (not_not.mp hp) hg)
      · exact hin.of_moved (fun _ => rfl) h

theorem keeps_route {answer : RouteAnswer} (hin : Inv state)
    (h : route state call answer = some next) : Inv next := by
  unfold route at h
  split at h
  · rename_i attempt sentUnanswered hp
    have hn := @not_passed_of_sending _ call hin (by rw [hp]; rfl)
    cases answer with
    | ok | refused | unavailable =>
      cases h
      exact hin.setCall fun hpa => absurd hpa hn
  · cases h

theorem keeps_storeCard (hin : Inv state) (hn : ¬Passed state) :
    Inv (state.storeCard setup call).1 ∧ ¬Passed (state.storeCard setup call).1 ∧
      (state.storeCard setup call).1.inFlight = state.inFlight := by
  unfold State.storeCard
  split
  · exact ⟨hin, hn, rfl⟩
  · exact ⟨hin.setStored hn, hn, rfl⟩

theorem keeps_post {answer : PostAnswer} (hin : Inv state)
    (h : post setup state call answer = some next) : Inv next := by
  unfold post at h
  split at h
  · rename_i attempt sentUnanswered hp
    have hn := @not_passed_of_sending _ call hin (by rw [hp]; rfl)
    obtain ⟨hs, hno, -⟩ := @keeps_storeCard setup _ call hin hn
    cases answer with
    | posted =>
      cases h
      exact hs.setCall fun _ => rfl
    | lost =>
      cases h
      exact hs.setCall fun hpa => absurd hpa hno
    | accepted =>
      cases h
      refine (hin.setStored hn).setCall fun hpa => absurd hpa hn
    | refused | unavailable =>
      cases h
      exact hin.setCall fun hpa => absurd hpa hn
  · cases h

theorem keeps_land (hin : Inv state) (h : land setup state call = some next) : Inv next := by
  unfold land at h
  split at h
  · rename_i hf
    have hno : ¬Passed state := by
      intro hp
      rw [(hin.quiet hp).2.1] at hf
      exact absurd hf List.not_mem_nil
    obtain ⟨hs, hn, -⟩ := @keeps_storeCard setup _ call hin hno
    cases h
    exact hs.setStored hn
  · cases h

theorem keeps_giveUp (hin : Inv state) (h : giveUp state call ok = some next) : Inv next := by
  unfold giveUp at h
  split at h
  · split at h <;> exact hin.of_moved (fun _ => rfl) h
  · cases h

theorem enqueue_status (row : Option OutboxRow) : (enqueue row).status = row.bind (·.status) := by
  cases row with
  | none => rfl
  | some row =>
    simp only [enqueue]
    split <;> rfl

theorem enqueueUnconfirmed_status (row : Option OutboxRow) :
    (enqueueUnconfirmed call row).status = row.bind (·.status) := by
  cases row <;> rfl

theorem keeps_enqueueRow (hin : Inv state)
    (h : enqueueRow state call outcome = some next) : Inv next := by
  unfold enqueueRow at h
  split at h
  · rename_i confirmed hp
    cases h
    split
    · refine Inv.setCall ?_ fun _ => rfl
      apply hin.setRow
      cases confirmed with
      | false => exact enqueueUnconfirmed_status _
      | true => exact enqueue_status _
    · exact hin.setCall fun _ => rfl
  · cases h

theorem keeps_register (hin : Inv state) (h : register state call ok = some next) : Inv next := by
  unfold register at h
  split at h
  · split at h <;> exact hin.of_moved (fun _ => rfl) h
  · cases h

theorem keeps_insert (hin : Inv state) (hok : InOrder state (.insert call ok))
    (h : insert state call ok = some next) : Inv next := by
  unfold insert at h
  split at h
  · rename_i serverMsgId hp
    cases h
    split
    · rename_i hr
      refine Inv.setCall ?_ fun _ => rfl
      rw [bind_eq]
      exact hin.setBindings (length_bind hin.one_card (hok hr serverMsgId hp))
    · exact hin.setCall fun _ => rfl
  · cases h

theorem keeps_writerRegister {binder : Nat} {card : Card} (hin : Inv state)
    (h : writerRegister state binder card = some next) : Inv next := by
  unfold writerRegister at h
  split at h
  · cases h
    exact hin.setBindings hin.one_card
  · cases h

theorem keeps_writerInsert {binder : Nat} (hin : Inv state)
    (hok : InOrder state (.writerInsert binder))
    (h : writerInsert state binder = some next) : Inv next := by
  unfold writerInsert at h
  split at h
  · rename_i serverMsgId hb
    cases h
    rw [bind_eq]
    exact hin.setBindings (length_bind hin.one_card (hok serverMsgId hb))
  · cases h

end Calls

section Workers

variable {state next : State} {worker : Nat}

theorem keeps_recall (hin : Inv state) (h : «recall» state = some next) : Inv next := by
  unfold «recall» at h
  split at h
  · cases h
  · have ho : (state.bindings.map fun binding => { binding with recalled := true }).length ≤ 1 := by
      rw [List.length_map]
      exact hin.one_card
    have hre := @Inv.setBindings _ hin _ state.binders ho
    split at h
    · cases h
      exact hre
    · rename_i hr
      cases h
      refine hre.setRow ?_
      simp only at hr ⊢
      rw [hr]
      rfl

theorem keeps_fallsDue (hin : Inv state) (h : fallsDue state reason = some next) : Inv next := by
  unfold fallsDue at h
  split at h
  · rename_i row hr
    split at h
    · cases h
      apply hin.setRow
      rw [hr]
      rfl
    · cases h
  · cases h

theorem keeps_claim (hin : Inv state) (h : claim state worker reason = some next) : Inv next := by
  unfold claim at h
  split at h
  · rename_i row hr
    split at h
    · cases h
      have hc : Inv (state.setRow reason { row with due := false }) := by
        apply hin.setRow
        rw [hr]
        rfl
      split
      · rename_i hre
        subst hre
        refine hc.setWorker (fun hp => absurd hp (by simp)) (fun _ => ?_)
          (fun _ hp => absurd hp (by simp))
        simp only [State.setRow, update_self]
        rfl
      · rename_i hre
        refine hc.restWorker ?_ (by simp) (by simp)
        intro hp
        simp only [WorkerPhase.calling.injEq] at hp
        exact hre hp
    · cases h
  · cases h

theorem keeps_checkBindings {expired : Bool} (hin : Inv state)
    (hok : InOrder state (.checkBindings worker ok expired))
    (h : checkBindings state worker ok expired = some next) : Inv next := by
  unfold checkBindings at h
  split at h
  · cases h
  · rename_i hp
    rw [not_not] at hp
    split at h
    · cases h
      exact hin.retry
    · rename_i hr
      split at h
      · cases h
        exact hin.restWorker (by simp) (by simp) (by simp)
      · rename_i hn
        rw [not_not] at hn
        cases h
        obtain ⟨hbo, hf, hc⟩ := hok hp (by simpa using hr) hn
        have hs : state.stored = [] := by
          rw [List.eq_nil_iff_forall_not_mem]
          intro card hca
          obtain ⟨binding, hb, -⟩ := hbo card hca
          rw [hn] at hb
          exact absurd hb List.not_mem_nil
        exact hin.setWorker (fun _ => ⟨hs, hf, hc⟩)
          (fun _ => hin.row_there (Or.inr ⟨worker, hp⟩)) (fun _ ho => absurd ho (by simp))

-- A call to the plugin for `post_failed` comes from a delivery that found no card.
theorem Inv.callPlugin (hin : Inv state)
    (hp : state.workers worker = .calling reason) : Inv (state.callPlugin reason) := by
  unfold State.callPlugin
  split
  · rename_i hr
    subst hr
    have hpa : Passed state := Or.inr ⟨worker, hp⟩
    exact { hin with
      quiet := fun _ => hin.quiet hpa
      row_there := fun _ => hin.row_there (Or.inl hpa) }
  · exact hin

theorem Inv.answer (hin : Inv state) :
    Inv { state with answered := update state.answered reason true } := by
  have hg : ∀ other, state.answered other = true →
      update state.answered reason true other = true := by
    intro other h
    by_cases heq : other = reason
    · subst heq
      rw [update_self]
    · rw [update_of_ne heq]
      exact h
  exact { hin with
    completing_answered := fun other found h => hg found (hin.completing_answered other found h)
    delivered_answered := fun found h => hg found (hin.delivered_answered found h) }

theorem keeps_deliver {answer : PluginAnswer} (hin : Inv state)
    (h : deliver state worker answer = some next) : Inv next := by
  unfold deliver at h
  split at h
  · rename_i reason hp
    have hc := hin.callPlugin hp
    cases answer with
    | undeclared | unsigned =>
      cases h
      exact hin.restWorker (by simp) (by simp) (by simp)
    | unavailable expired =>
      cases h
      exact hin.retry
    | credentialRefused =>
      cases h
      exact hc.restWorker (by simp) (by simp) (by simp)
    | answered =>
      cases h
      have ha : Inv { state.callPlugin reason with
          answered := update state.answered reason true } := by
        have hs : (state.callPlugin reason).answered = state.answered := by
          unfold State.callPlugin
          split <;> rfl
        rw [← hs]
        exact hc.answer
      refine ha.setWorker (fun ho => absurd ho (by simp)) (fun ho => absurd ho (by simp)) ?_
      intro other ho
      simp only [WorkerPhase.completing.injEq, and_true] at ho
      subst ho
      exact update_self _ _ _
    | unanswered expired =>
      cases h
      exact hc.retry
  · cases h

theorem Inv.endRow (hin : Inv state) {row : OutboxRow}
    {ending : LifecycleOutcome} (hr : state.rows reason = some row) (hp : row.status = none)
    (ha : ending = .delivered → state.answered reason = true) :
    Inv { state.setRow reason { row with status := some ending } with
      ends := update state.ends reason (ending :: state.ends reason) } where
  quiet := hin.quiet
  row_there h := by
    simp only [State.setRow]
    by_cases heq : Reason.postFailed = reason
    · subst heq
      rw [update_self]
      rfl
    · rw [update_of_ne heq]
      exact hin.row_there h
  one_card := hin.one_card
  ends_eq other := by
    simp only [State.setRow]
    by_cases heq : other = reason
    · subst heq
      have hb := hin.ends_eq other
      rw [hr, Option.bind_some, hp] at hb
      rw [update_self, update_self, hb]
      rfl
    · rw [update_of_ne heq, update_of_ne heq]
      exact hin.ends_eq other
  completing_answered := hin.completing_answered
  delivered_answered other h := by
    simp only at h
    by_cases heq : other = reason
    · subst heq
      rw [update_self] at h
      rcases List.mem_cons.mp h with hen | hold
      · exact ha hen.symm
      · exact hin.delivered_answered other hold
    · rw [update_of_ne heq] at h
      exact hin.delivered_answered other h

theorem keeps_complete (hin : Inv state)
    (h : complete state worker outcome = some next) : Inv next := by
  unfold complete at h
  split at h
  · rename_i reason ending hp
    have hdo : Inv (state.setWorker worker .idle) :=
      hin.restWorker (by simp) (by simp) (by simp)
    dsimp only at h
    split at h
    · rename_i row hr
      split at h
      · rename_i hpe
        cases h
        refine hdo.endRow hr hpe.2 ?_
        rintro rfl
        exact hin.completing_answered worker reason hp
      · cases h
        exact hdo
    · cases h
      exact hdo
  · cases h

theorem keeps_retryAfter (hin : Inv state)
    (h : retryAfter state worker outcome = some next) : Inv next := by
  unfold retryAfter at h
  split at h
  · rename_i reason hp
    have hdo : Inv (state.setWorker worker .idle) :=
      hin.restWorker (by simp) (by simp) (by simp)
    dsimp only at h
    split at h
    · rename_i row hr
      split at h
      · cases h
        apply hdo.setRow
        simp only [State.setWorker, hr]
        rfl
      · cases h
        exact hdo
    · cases h
      exact hdo
  · cases h

end Workers

section Runs

variable {setup : Setup}

theorem inv_step (state : State) (action : Action) (next : State) (hin : Inv state)
    (hok : InOrder state action) (h : step setup state action = some next) : Inv next := by
  cases action with
  | start call => exact keeps_start hin h
  | readBindings call ok => exact keeps_readBindings hin h
  | checkOutbox call ok => exact keeps_checkOutbox hin hok h
  | route call answer => exact keeps_route hin h
  | post call answer => exact keeps_post hin h
  | land call => exact keeps_land hin h
  | giveUp call ok => exact keeps_giveUp hin h
  | enqueue call outcome => exact keeps_enqueueRow hin h
  | register call ok => exact keeps_register hin h
  | insert call ok => exact keeps_insert hin hok h
  | writerRegister binder card => exact keeps_writerRegister hin h
  | writerInsert binder => exact keeps_writerInsert hin hok h
  | «recall» => exact keeps_recall hin h
  | fallsDue reason => exact keeps_fallsDue hin h
  | claim worker reason => exact keeps_claim hin h
  | checkBindings worker ok expired => exact keeps_checkBindings hin hok h
  | deliver worker answer => exact keeps_deliver hin h
  | complete worker outcome => exact keeps_complete hin h
  | retryAfter worker outcome => exact keeps_retryAfter hin h

-- In order, an entity with a card is never rolled back.
theorem posted_or_rolled_back_inOrder (setup : Setup) : PostedOrRolledBack setup InOrder := by
  intro actions state hrun
  exact (hrun.preserves Inv inv_step inv_empty).sound

end Runs

section Counterexample

def replayedCall : Setup where
  call _ := ⟨"pcard", true, true, true⟩
  hasDelivery := true

-- The first call's post is stored without an answer, and its retry finds the user out of the
-- conversation. The replay is refused from the start and confirms what the first one left open,
-- before the card is bound.
def refusedReplay : List Action :=
  [.start 0, .readBindings 0 true, .checkOutbox 0 true, .route 0 .ok, .post 0 .lost,
    .route 0 .refused, .giveUp 0 true, .enqueue 0 .answered,
    .start 1, .readBindings 1 true, .checkOutbox 1 true, .route 1 .refused, .giveUp 1 true,
    .enqueue 1 .answered,
    .claim 0 .postFailed, .checkBindings 0 true false, .deliver 0 .answered]

theorem a_posted_entity_is_rolled_back : ¬PostedOrRolledBack replayedCall anyStep := by
  intro h
  have hboth : (execute (step replayedCall) anyStep emptyState refusedReplay).map
      (fun state => (state.called, state.stored)) = some (true, [⟨"pcard", 0, 0⟩]) := by decide
  obtain ⟨state, hexecute, hpair⟩ := Option.map_eq_some_iff.mp hboth
  rw [Prod.mk.injEq] at hpair
  have hnone := (h refusedReplay state (run_of_execute hexecute)).never_both hpair.1
  rw [hpair.2] at hnone
  exact absurd hnone (by simp)

end Counterexample

end FlareIm.PluginCard
