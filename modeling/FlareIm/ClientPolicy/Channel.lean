import FlareIm.ClientPolicy.Effects

namespace FlareIm.ClientPolicy

open Versions
open Function (update_of_ne update_self)

variable {state next : State} {action : Action}

-- What the script left, and of what it recorded.
structure Channel (state : State) : Prop where
  seen : ∀ key version, state.last key = some version → version ∈ state.recorded key
  completing : ∀ replica notice rest, state.rounds replica = ⟨notice :: rest, .completing⟩ →
    ∃ seen ∈ state.recorded notice.key, notice.version ≤ seen

theorem channel_start : Channel {} where
  seen _ _ h := nomatch h
  completing _ _ _ h := nomatch h

section Script

theorem le_of_newerThan_eq_false {current version : Nat} (hc : current < EXACT)
    (hv : version < EXACT) (h : newerThan (some current) version = false) :
    version ≤ current := by
  have hle : ¬ LuaNumber.ofNat current < LuaNumber.ofNat version := by
    simpa [newerThan] using h
  rw [LuaNumber.ofNat_of_le (Nat.le_of_lt hc), LuaNumber.ofNat_of_le (Nat.le_of_lt hv)] at hle
  exact Nat.le_of_not_lt hle

theorem lt_of_newerThan {current version : Nat} (hc : current < EXACT)
    (hv : version < EXACT) (h : newerThan (some current) version = true) :
    current < version := by
  have hlt : LuaNumber.ofNat current < LuaNumber.ofNat version := by
    simpa [newerThan] using h
  rw [LuaNumber.ofNat_of_le (Nat.le_of_lt hc), LuaNumber.ofNat_of_le (Nat.le_of_lt hv)] at hlt
  exact hlt

variable {key : NoticeKey} {version : Nat}

theorem runScript_rounds : (state.runScript key version).rounds = state.rounds := by
  unfold State.runScript
  split <;> rfl

theorem mem_runScript {other : NoticeKey} {seen : Nat} (h : seen ∈ state.recorded other) :
    seen ∈ (state.runScript key version).recorded other := by
  unfold State.runScript
  split
  · by_cases hs : other = key
    · subst hs
      simp only [update_self]
      exact List.mem_cons_of_mem version h
    · simp only [update_of_ne hs]
      exact h
  · exact h

theorem recorded_runScript (hc : Channel state) (hea : Exact state) (hv : version < EXACT) :
    ∃ seen ∈ (state.runScript key version).recorded key, version ≤ seen := by
  by_cases hn : newerThan (state.last key) version = true
  · refine ⟨version, ?_, le_rfl⟩
    simp [State.runScript, hn]
  · have hf := Bool.eq_false_of_not_eq_true hn
    cases hl : state.last key with
    | none => simp [newerThan, hl] at hf
    | some current =>
      rw [hl] at hf
      exact ⟨current, mem_runScript (hc.seen key current hl),
        le_of_newerThan_eq_false (hea.last key current hl) hv hf⟩

theorem Channel.runScript (hc : Channel state) : Channel (state.runScript key version) where
  seen other found hf := by
    unfold State.runScript at hf ⊢
    by_cases hn : newerThan (state.last key) version = true
    · rw [if_pos hn] at hf ⊢
      by_cases hs : other = key
      · subst hs
        simp only [update_self, Option.some.injEq] at hf
        simp [hf]
      · simp only [update_of_ne hs] at hf ⊢
        exact hc.seen other found hf
    · rw [if_neg hn] at hf ⊢
      exact hc.seen other found hf
  completing replica notice rest hr := by
    rw [runScript_rounds] at hr
    obtain ⟨seen, hse, hle⟩ := hc.completing replica notice rest hr
    exact ⟨seen, mem_runScript hse, hle⟩

theorem relays_runScript : Relays state (state.runScript key version) := by
  refine Relays.of_outbox_eq ?_ ?_ ?_ fun _ _ hs => mem_runScript hs
  all_goals
    unfold State.runScript
    split <;> rfl

end Script

section Rounds

theorem Channel.setRound (h : Channel state) {replica : Nat} {round : Round}
    (hr : ∀ notice rest, round = ⟨notice :: rest, .completing⟩ →
      ∃ seen ∈ state.recorded notice.key, notice.version ≤ seen) :
    Channel (state.setRound replica round) where
  seen := h.seen
  completing other notice rest ho := by
    by_cases hs : other = replica
    · subst hs
      simp only [State.setRound, update_self] at ho
      exact hr notice rest ho
    · simp only [State.setRound, update_of_ne hs] at ho
      exact h.completing other notice rest ho

theorem relays_setRound (replica : Nat) (round : Round) :
    Relays state (state.setRound replica round) :=
  Relays.of_outbox_eq rfl rfl rfl fun _ _ hs => hs

theorem relays_updateOutbox {key : NoticeKey} {row : OutboxRow} {after : Option OutboxRow}
    (hr : state.outbox.committed key = some row)
    (hk : (∃ found, after = some found ∧ found.version = row.version) ∨
      (after = none ∧ ∃ seen ∈ state.recorded key, row.version ≤ seen)) :
    Relays state (state.updateOutbox key after) where
  policies := rfl
  writers := rfl
  held := rfl
  kept other before hb := by
    by_cases hs : other = key
    · subst hs
      cases (hr.symm.trans hb)
      simp only [State.updateOutbox, update_self]
      exact hk
    · refine .inl ⟨before, ?_, rfl⟩
      simp only [State.updateOutbox, update_of_ne hs]
      exact hb
  fresh other found hf := by
    by_cases hs : other = key
    · subst hs
      simp only [State.updateOutbox, update_self] at hf
      rcases hk with ⟨after, rfl, hv⟩ | ⟨rfl, -⟩
      · cases hf
        exact ⟨row, hr, hv⟩
      · cases hf
    · simp only [State.updateOutbox, update_of_ne hs] at hf
      exact ⟨found, hf, rfl⟩
  recorded _ _ hse := hse

theorem relays_claimAll (now : Nat) (keys : List NoticeKey) :
    Relays state (state.claimAll now keys).1 := by
  induction keys generalizing state with
  | nil => exact Relays.of_outbox_eq rfl rfl rfl fun _ _ hs => hs
  | cons key keys ih =>
    unfold State.claimAll
    cases hr : state.outbox.committed key with
    | none => exact ih
    | some row =>
      have hc : Relays state (state.updateOutbox key (some (claimRow now row))) :=
        relays_updateOutbox hr (.inl ⟨claimRow now row, rfl, rfl⟩)
      exact hc.trans ih

theorem claimAll_frame (now : Nat) (keys : List NoticeKey) :
    (state.claimAll now keys).1.last = state.last ∧
      (state.claimAll now keys).1.recorded = state.recorded ∧
      (state.claimAll now keys).1.rounds = state.rounds := by
  induction keys generalizing state with
  | nil => exact ⟨rfl, rfl, rfl⟩
  | cons key keys ih =>
    unfold State.claimAll
    cases hr : state.outbox.committed key with
    | none => exact ih
    | some row => exact @ih (state.updateOutbox key (some (claimRow now row)))

variable {notice : PendingTenantNotice} {stage : Stage} {now : Nat} {applied : Bool}

theorem settle_frame (hs : state.settle notice stage now applied = some next) :
    next.last = state.last ∧ next.recorded = state.recorded ∧ next.rounds = state.rounds := by
  unfold State.settle at hs
  split at hs
  · cases hs
    exact ⟨rfl, rfl, rfl⟩
  · split at hs
    · cases hs
    · split at hs
      all_goals
        cases hs
        exact ⟨rfl, rfl, rfl⟩

theorem relays_settle
    (hre : stage = .completing → ∃ seen ∈ state.recorded notice.key, notice.version ≤ seen)
    (hs : state.settle notice stage now applied = some next) : Relays state next := by
  have hsa : Relays state state :=
    Relays.of_outbox_eq rfl rfl rfl fun _ _ hse => hse
  unfold State.settle at hs
  split at hs
  · cases hs
    exact hsa
  · split at hs
    · cases hs
    · split at hs
      · rename_i row hr
        cases hs
        refine relays_updateOutbox hr ?_
        obtain ⟨seen, hse, hle⟩ := hre rfl
        by_cases hv : row.version = bigint notice.version
        · refine .inr ⟨if_pos hv, seen, hse, ?_⟩
          have hb : bigint notice.version ≤ notice.version := Nat.min_le_left ..
          omega
        · exact .inl ⟨row, if_neg hv, rfl⟩
      · rename_i row error hr
        cases hs
        refine relays_updateOutbox hr (.inl ⟨_, rfl, ?_⟩)
        unfold retryRow
        split <;> rfl
      · cases hs
        exact hsa
      · cases hs
        exact hsa

end Rounds

section Steps

theorem Channel.of_frame (h : Channel state) (hl : next.last = state.last)
    (hr : next.recorded = state.recorded) (hro : next.rounds = state.rounds) : Channel next := by
  constructor
  · rw [hl, hr]
    exact h.seen
  · rw [hro, hr]
    exact h.completing

theorem Channel.effect (h : Channel state) (hea : Exact state)
    (hef : Effect state action next) : Channel next := by
  cases hef with
  | selectNone | selectSome | insert | enqueue | commit | rollback => exact h.of_frame rfl rfl rfl
  | claim replica now keys answered hdu =>
    obtain ⟨hl, hr, hro⟩ := @claimAll_frame state now keys
    exact (h.of_frame hl hr hro).setRound fun _ _ heq => nomatch (Round.mk.inj heq).2
  | publish replica notice rest outcome hru =>
    have hp := hea.pending replica
    rw [hru] at hp
    have hv := hp notice List.mem_cons_self
    cases outcome with
    | answered =>
      refine h.runScript.setRound fun found others heq => ?_
      obtain ⟨rfl, -⟩ := List.cons.inj (Round.mk.inj heq).1
      exact recorded_runScript h hea hv
    | lost error => exact h.runScript.setRound nofun
    | refused error => exact h.setRound nofun
  | settle replica notice rest stage now applied settled hru hse =>
    obtain ⟨hl, hr, hro⟩ := settle_frame hse
    exact (h.of_frame hl hr hro).setRound nofun
  | crash replica => exact h.setRound nofun
  | expire key =>
    refine ⟨fun other version hf => ?_, h.completing⟩
    by_cases hs : other = key
    · subst hs
      simp at hf
    · simp only [update_of_ne hs] at hf
      exact h.seen other version hf

theorem relays_of_effect (h : Channel state) (hr : action.writer = none)
    (hef : Effect state action next) : Relays state next := by
  cases hef with
  | selectNone | selectSome | insert | enqueue | commit => cases hr
  | rollback writer action hw =>
    rw [hr] at hw
    cases hw
  | claim replica now keys answered hdu =>
    exact (relays_claimAll now keys).trans (relays_setRound replica _)
  | publish replica notice rest outcome hro =>
    cases outcome with
    | answered | lost error => exact relays_runScript.trans (relays_setRound replica _)
    | refused error => exact relays_setRound replica _
  | settle replica notice rest stage now applied settled hro hs =>
    have hre : stage = .completing → ∃ seen ∈ state.recorded notice.key, notice.version ≤ seen := by
      rintro rfl
      exact h.completing replica notice rest hro
    exact (relays_settle hre hs).trans (relays_setRound replica _)
  | crash replica => exact relays_setRound replica {}
  | expire key => exact Relays.of_outbox_eq rfl rfl rfl fun _ _ hse => hse

theorem Locks.effect (h : Locks state) (hc : Channel state)
    (hef : Effect state action next) : Locks next := by
  cases hw : action.writer with
  | none => exact h.relay (relays_of_effect hc hw hef)
  | some who =>
    cases hef with
    | selectNone writer record hnw hn => exact h.selectNone hnw record
    | selectSome writer record row hnw hr hf hnr =>
      have hno : ∀ found notices, state.writers writer ≠ some (.inserted found notices) := by
        rw [hnw]
        exact fun _ _ => nofun
      have hvi := h.view_eq hf hno
      refine h.put hf ?_ (.inl ⟨record, some row.watermarks, rfl, rfl, hr⟩) ?_ ?_ nofun
      · intro old hold
        rw [hvi, hr] at hold
        cases hold
        exact row.rises_refl
      · intro other found hh
        rcases h.held other writer found hh with ⟨_, _, hs, -⟩ | ⟨_, _, hin, -⟩
        · rw [hnw] at hs
          cases hs
        · exact absurd hin (hno _ _)
      · rintro found previous heq
        obtain ⟨rfl, hp⟩ := Writer.selected.inj heq
        cases hp
        exact ⟨row, hr, le_rfl, le_rfl⟩
    | insert writer record previous row hs hf hie =>
      have hno : ∀ found notices, state.writers writer ≠ some (.inserted found notices) := by
        rw [hs]
        exact fun _ _ => nofun
      have hvi := h.view_eq hf hno
      obtain ⟨hv, hri, -⟩ := insert_spec hie
      refine h.put hf (fun old hold => (hri old hold).1) (.inr ⟨record, _, rfl, rfl⟩) ?_ nofun ?_
      · intro other found hh
        rcases h.held other writer found hh with ⟨mine, _, hm, ht, -⟩ | ⟨_, _, hin, -⟩
        · obtain ⟨rfl, -⟩ := Writer.selected.inj (Option.some.inj (hs.symm.trans hm))
          exact ht.symm
        · exact absurd hin (hno _ _)
      · rintro found notices heq
        obtain ⟨rfl, -⟩ := Writer.inserted.inj heq
        refine ⟨rfl, hv, fun old hold => (hri old ?_).2⟩
        rw [hvi]
        exact hold
    | enqueue writer record notice rest now hin hf =>
      refine h.enqueue hin hf fun old hold => ?_
      rw [hold]
      exact Nat.le_max_left ..
    | commit writer record hin => exact h.commit hin
    | rollback writer action hm => exact h.rollback
    | claim | publish | settle | crash | expire => cases hw

end Steps

end FlareIm.ClientPolicy
