import FlareIm.ClientPolicy.Announced

namespace FlareIm.ClientPolicy

open Versions

variable {state next : State} {action : Action} {actions : List Action}

section Invariant

structure Invariant (state : State) : Prop where
  locks : Locks state
  exact : Exact state
  channel : Channel state
  covered : Covered state

theorem invariant_start : Invariant {} :=
  ⟨locks_start, exact_start, channel_start, covered_start⟩

theorem Invariant.step (h : Invariant state) (hea : action.exact)
    (hs : step state action = some next) : Invariant next := by
  have hef := effect_of_step hs
  exact ⟨h.locks.effect h.channel hef, h.exact.effect hea hef,
    h.channel.effect h.exact hef, h.covered.effect h.locks h.channel hef⟩

theorem Invariant.run (hr : Run {} actions state) : Invariant state :=
  hr.preserves Invariant (fun _ _ _ h hea hs => h.step hea hs) invariant_start

end Invariant

section Writers

theorem Effect.policies_committed (hc : Channel state) (hef : Effect state action next)
    (hco : ∀ writer, action ≠ .commit writer) :
    next.policies.committed = state.policies.committed := by
  cases hw : action.writer with
  | none => rw [(relays_of_effect hc hw hef).policies]
  | some who =>
    cases hef with
    | selectNone | selectSome | insert | enqueue | rollback => rfl
    | commit writer => exact absurd rfl (hco writer)
    | claim | publish | settle | crash | expire => cases hw

theorem Invariant.rises (h : Invariant state) (hef : Effect state action next)
    {tenant : String} {row : PolicyRow} (hr : state.policies.committed tenant = some row) :
    ∃ after, next.policies.committed tenant = some after ∧ row.Rises after := by
  by_cases hc : ∃ writer, action = .commit writer
  · obtain ⟨writer, rfl⟩ := hc
    cases hef with
    | commit writer record hw => exact h.locks.committed_rises hr
    | rollback => exact ⟨row, hr, row.rises_refl⟩
  · have hk := hef.policies_committed h.channel fun writer heq => hc ⟨writer, heq⟩
    rw [hk]
    exact ⟨row, hr, row.rises_refl⟩

-- The record a statement of a writer is about.
def State.record (state : State) : Action → Option ClientPolicyRecord
  | .select _ record => some record
  | .insert writer | .enqueue writer _ | .commit writer | .fail writer =>
    match state.writers writer with
    | some (.selected record _) | some (.inserted record _) => some record
    | _ => none
  | _ => none

theorem Invariant.unchanged (h : Invariant state)
    (hs : ClientPolicy.step state action = some next) {record : ClientPolicyRecord}
    {row : PolicyRow} (hre : state.record action = some record)
    (hr : state.policies.committed record.tenantId = some row)
    (hold : record.version ≤ row.version) :
    next.policies.committed = state.policies.committed ∧
      next.outbox.committed = state.outbox.committed ∧
      ∀ writer, (action = .select writer record ∨ action = .insert writer) →
        next = state.rollback writer := by
  have hef := effect_of_step hs
  cases hef with
  | selectNone writer found hnew hn =>
    cases hre
    rw [hn] at hr
    cases hr
  | selectSome writer found committed hnew hc hf hnw =>
    cases hre
    cases (hc.symm.trans hr)
    exact absurd hold (Nat.not_le_of_lt hnw)
  | insert writer found previous after hw hf hin =>
    simp only [State.record, hw, Option.some.injEq] at hre
    subst hre
    have hno : ∀ other notices, state.writers writer ≠ some (.inserted other notices) := by
      rw [hw]
      exact fun _ _ => nofun
    rw [h.locks.view_eq hf hno] at hin
    obtain ⟨hv, hri, -⟩ := insert_spec hin
    have hl := (hri row hr).2
    have hb : bigint found.version ≤ found.version := Nat.min_le_left ..
    omega
  | enqueue => exact ⟨rfl, rfl, nofun⟩
  | commit writer found hw =>
    simp only [State.record, hw, Option.some.injEq] at hre
    subst hre
    obtain ⟨held, -, hv, hl⟩ := h.locks.inserted writer found [] hw
    have hnw := hl row hr
    have hb : bigint found.version ≤ found.version := Nat.min_le_left ..
    omega
  | rollback writer action hw =>
    refine ⟨rfl, rfl, fun other ha => ?_⟩
    rcases ha with rfl | rfl
    · cases hw
      rfl
    · cases hw
      rfl
  | claim | publish | settle | crash | expire => cases hre

end Writers

section Last

-- While nothing expires, what Redis holds is the newest version it recorded.
def Latest (state : State) : Prop :=
  ∀ key, ∀ seen ∈ state.recorded key, ∃ version, state.last key = some version ∧ seen ≤ version

theorem Latest.of_frame (h : Latest state) (hl : next.last = state.last)
    (hr : next.recorded = state.recorded) : Latest next := by
  unfold Latest
  rw [hl, hr]
  exact h

theorem Latest.runScript (h : Latest state) (hea : Exact state) {key : NoticeKey}
    {version : Nat} (hv : version < EXACT) : Latest (state.runScript key version) := by
  intro other seen hs
  unfold State.runScript at hs ⊢
  by_cases hn : newerThan (state.last key) version = true
  · rw [if_pos hn] at hs ⊢
    by_cases hsa : other = key
    · subst hsa
      simp only [Function.update_self, Option.some.injEq, exists_eq_left'] at hs ⊢
      rcases List.mem_cons.mp hs with rfl | hs
      · exact le_rfl
      · obtain ⟨current, hc, hle⟩ := h other seen hs
        rw [hc] at hn
        have hl := lt_of_newerThan (hea.last other current hc) hv hn
        omega
    · simp only [Function.update_of_ne hsa] at hs ⊢
      exact h other seen hs
  · rw [if_neg hn] at hs ⊢
    exact h other seen hs

theorem Latest.effect (h : Latest state) (hea : Exact state) (hk : action.expires = false)
    (hef : Effect state action next) : Latest next := by
  cases hef with
  | selectNone | selectSome | insert | enqueue | commit | rollback
  | crash => exact h.of_frame rfl rfl
  | claim replica now keys answered hdu =>
    obtain ⟨hl, hr, -⟩ := @claimAll_frame state now keys
    exact h.of_frame hl hr
  | publish replica notice rest outcome hro =>
    have hp := hea.pending replica
    rw [hro] at hp
    have hs : Latest (state.runScript notice.key notice.version) :=
      h.runScript hea (hp notice List.mem_cons_self)
    cases outcome with
    | answered | lost error => exact hs.of_frame rfl rfl
    | refused error => exact h.of_frame rfl rfl
  | settle replica notice rest stage now applied settled hro hse =>
    obtain ⟨hl, hr, -⟩ := settle_frame hse
    exact h.of_frame hl hr
  | expire => cases hk

theorem latest_of_run {first last : State} (hr : Run first actions last)
    (hin : Invariant first) (hl : Latest first)
    (hk : ∀ action ∈ actions, action.expires = false) : Latest last := by
  induction hr with
  | nil => exact hl
  | @cons state middle last action rest hea hs _ ih =>
    refine ih (hin.step hea hs) ?_ fun other ho => hk other (List.mem_cons_of_mem action ho)
    exact hl.effect hin.exact (hk action List.mem_cons_self) (effect_of_step hs)

end Last

section Announcements

def State.queued (state : State) (key : NoticeKey) : Nat :=
  ((state.outbox.committed key).map (·.version)).getD 0

def State.lastRecorded (state : State) (key : NoticeKey) : Nat :=
  (state.last key).getD 0

theorem Announced.le {key : NoticeKey} {version : Nat} (h : Announced state key version) :
    version ≤ state.queued key ∨ ∃ seen ∈ state.recorded key, version ≤ seen := by
  rcases h with rfl | ⟨row, hr, hle⟩ | hs
  · exact .inl (Nat.zero_le _)
  · left
    simpa [State.queued, hr] using hle
  · exact .inr hs

theorem Announced.le_last {key : NoticeKey} {version : Nat} (h : Announced state key version)
    (hla : Latest state) : version ≤ max (state.queued key) (state.lastRecorded key) := by
  rcases h.le with hq | ⟨seen, hs, hle⟩
  · exact hq.trans (Nat.le_max_left ..)
  · obtain ⟨last, hl, hb⟩ := hla key seen hs
    have hr : state.lastRecorded key = last := by simp [State.lastRecorded, hl]
    rw [hr]
    exact (hle.trans hb).trans (Nat.le_max_right ..)

theorem client_policy_watermarks_are_announced (hrun : Run {} actions state) :
    (∀ tenant row, state.policies.committed tenant = some row →
      ∀ topic ∈ [ACCESS_TOPIC, RELEASE_TOPIC],
        (row.watermark topic ≤ state.queued (tenant, topic) ∨
          ∃ seen ∈ state.recorded (tenant, topic), row.watermark topic ≤ seen) ∧
        ((∀ action ∈ actions, action.expires = false) →
          row.watermark topic ≤
            max (state.queued (tenant, topic)) (state.lastRecorded (tenant, topic)))) ∧
    ∀ action next, action.exact → step state action = some next →
      (∀ tenant row, state.policies.committed tenant = some row →
        ∃ after, next.policies.committed tenant = some after ∧ row.version ≤ after.version ∧
          row.accessSerial ≤ after.accessSerial ∧
          row.releaseGeneration ≤ after.releaseGeneration) ∧
      ∀ record row, state.record action = some record →
        state.policies.committed record.tenantId = some row → record.version ≤ row.version →
        next.policies.committed = state.policies.committed ∧
          next.outbox.committed = state.outbox.committed ∧
          ∀ writer, (action = .select writer record ∨ action = .insert writer) →
            next = state.rollback writer := by
  have h := Invariant.run hrun
  constructor
  · intro tenant row hrow topic _
    have hannounced := h.covered.committed tenant row topic hrow
    refine ⟨hannounced.le, fun hkept => hannounced.le_last ?_⟩
    exact latest_of_run hrun invariant_start (fun _ _ hseen => nomatch hseen) hkept
  · intro action next hexact hstep
    constructor
    · intro tenant row hrow
      exact h.rises (effect_of_step hstep) hrow
    · intro record row hrecord hrow hold
      exact h.unchanged hstep hrecord hrow hold

-- Two writers find no row and race. The one that comes second queues its own watermarks.
def racing : List Action :=
  [.select 0 ⟨"tenant", 1, 3, 0, "\x7b\x7d"⟩, .select 1 ⟨"tenant", 2, 5, 2, "\x7b\x7d"⟩, .insert 0,
    .enqueue 0 10, .commit 0, .claim 0 10 [("tenant", ACCESS_TOPIC)] true, .publish 0 .answered,
    .insert 1, .enqueue 1 20, .enqueue 1 20, .commit 1, .settle 0 30 true]

instance : DecidablePred Action.exact
  | .select .. => inferInstanceAs (Decidable (_ ∧ _))
  | .insert _ | .enqueue .. | .commit _ | .fail _ | .claim .. | .publish .. | .settle ..
  | .crash _ | .expire _ => .isTrue trivial

theorem racing_runs : ∃ state, Run {} racing state ∧
    state.policies.committed "tenant" = some ⟨2, 5, 2, "\x7b\x7d"⟩ :=
  ⟨_, Transition.run_of_isSome (by decide +kernel), by decide +kernel⟩

theorem racing_client_policies_are_announced : ∃ state, Run {} racing state ∧
    ∀ topic ∈ [ACCESS_TOPIC, RELEASE_TOPIC],
      (⟨2, 5, 2, "\x7b\x7d"⟩ : PolicyRow).watermark topic ≤
        max (state.queued ("tenant", topic)) (state.lastRecorded ("tenant", topic)) := by
  obtain ⟨state, hrun, hrow⟩ := racing_runs
  refine ⟨state, hrun, fun topic htopic => ?_⟩
  have hkept : ∀ action ∈ racing, action.expires = false := by decide
  exact ((client_policy_watermarks_are_announced hrun).1 _ _ hrow topic htopic).2 hkept

end Announcements

end FlareIm.ClientPolicy
