import FlareIm.ClientPolicy.Locks

namespace FlareIm.ClientPolicy

open Versions

variable {state next : State} {action : Action}

section Effects

def Action.writer : Action → Option Nat
  | .select writer _ | .insert writer | .enqueue writer _ | .commit writer | .fail writer =>
    some writer
  | _ => none

-- What each action does, with what it finds.
inductive Effect (state : State) : Action → State → Prop
  | selectNone (writer : Nat) (record : ClientPolicyRecord)
      (hnew : state.writers writer = none)
      (hnone : state.policies.committed record.tenantId = none) :
      Effect state (.select writer record) (state.goTo writer (.selected record none))
  | selectSome (writer : Nat) (record : ClientPolicyRecord) (row : PolicyRow)
      (hnew : state.writers writer = none)
      (hrow : state.policies.committed record.tenantId = some row)
      (hfree : state.policies.free writer record.tenantId = true)
      (hnewer : row.version < record.version) :
      Effect state (.select writer record)
        { state.goTo writer (.selected record (some row.watermarks)) with
          policies := state.policies.put writer record.tenantId (some row) }
  | insert (writer : Nat) (record : ClientPolicyRecord)
      (previous : Option ClientPolicyWatermarks) (row : PolicyRow)
      (hwriter : state.writers writer = some (.selected record previous))
      (hfree : state.policies.free writer record.tenantId = true)
      (hinsert : record.insert (state.policies.view writer record.tenantId) = some row) :
      Effect state (.insert writer)
        { state.goTo writer (.inserted record (record.noticesSince previous)) with
          policies := state.policies.put writer record.tenantId (some row) }
  | enqueue (writer : Nat) (record : ClientPolicyRecord) (notice : ClientPolicyNotice)
      (rest : List ClientPolicyNotice) (now : Nat)
      (hwriter : state.writers writer = some (.inserted record (notice :: rest)))
      (hfree : state.outbox.free writer (record.tenantId, notice.topic) = true) :
      Effect state (.enqueue writer now)
        { state.goTo writer (.inserted record rest) with
          outbox := state.outbox.put writer (record.tenantId, notice.topic)
            (some (enqueueRow notice now
              (state.outbox.view writer (record.tenantId, notice.topic)))) }
  | commit (writer : Nat) (record : ClientPolicyRecord)
      (hwriter : state.writers writer = some (.inserted record [])) :
      Effect state (.commit writer) (state.commit writer)
  | rollback (writer : Nat) (action : Action) (hwriter : action.writer = some writer) :
      Effect state action (state.rollback writer)
  | claim (replica now : Nat) (keys : List NoticeKey) (answered : Bool)
      (hdue : ∀ key ∈ keys, due state now key = true) :
      Effect state (.claim replica now keys answered)
        ((state.claimAll now keys).1.setRound replica
          ⟨if answered then (state.claimAll now keys).2 else [], .publishing⟩)
  | publish (replica : Nat) (notice : PendingTenantNotice) (rest : List PendingTenantNotice)
      (outcome : Outcome) (hround : state.rounds replica = ⟨notice :: rest, .publishing⟩) :
      Effect state (.publish replica outcome) (state.publish replica notice rest outcome)
  | settle (replica : Nat) (notice : PendingTenantNotice) (rest : List PendingTenantNotice)
      (stage : Stage) (now : Nat) (applied : Bool) (settled : State)
      (hround : state.rounds replica = ⟨notice :: rest, stage⟩)
      (hsettle : state.settle notice stage now applied = some settled) :
      Effect state (.settle replica now applied) (settled.setRound replica ⟨rest, .publishing⟩)
  | crash (replica : Nat) : Effect state (.crash replica) (state.setRound replica {})
  | expire (key : NoticeKey) :
      Effect state (.expire key) { state with last := Function.update state.last key none }

theorem effect_of_step (hs : step state action = some next) : Effect state action next := by
  cases action with
  | select writer record =>
    cases hw : state.writers writer with
    | some found => simp [step, hw] at hs
    | none =>
      simp only [step, hw, State.select] at hs
      cases hr : state.policies.committed record.tenantId with
      | none =>
        simp only [hr, Option.some.injEq] at hs
        subst hs
        exact .selectNone writer record hw hr
      | some row =>
        simp only [hr] at hs
        by_cases hf : state.policies.free writer record.tenantId = true
        · rw [if_pos hf] at hs
          by_cases hold : record.version ≤ row.version
          · rw [if_pos hold] at hs
            cases hs
            exact .rollback writer _ rfl
          · rw [if_neg hold] at hs
            cases hs
            exact .selectSome writer record row hw hr hf (Nat.lt_of_not_le hold)
        · rw [if_neg hf] at hs
          cases hs
  | insert writer =>
    cases hw : state.writers writer with
    | none => simp [step, hw] at hs
    | some found =>
      cases found with
      | selected record previous =>
        simp only [step, hw, State.insert] at hs
        by_cases hf : state.policies.free writer record.tenantId = true
        · rw [if_pos hf] at hs
          cases hin : record.insert (state.policies.view writer record.tenantId) with
          | none =>
            simp only [hin, Option.some.injEq] at hs
            subst hs
            exact .rollback writer _ rfl
          | some row =>
            simp only [hin, Option.some.injEq] at hs
            subst hs
            exact .insert writer record previous row hw hf hin
        · rw [if_neg hf] at hs
          cases hs
      | inserted record notices | ended => simp [step, hw] at hs
  | enqueue writer now =>
    cases hw : state.writers writer with
    | none => simp [step, hw] at hs
    | some found =>
      cases found with
      | selected record previous | ended => simp [step, hw] at hs
      | inserted record notices =>
        cases notices with
        | nil => simp [step, hw] at hs
        | cons notice rest =>
          simp only [step, hw, State.enqueue] at hs
          by_cases hf : state.outbox.free writer (record.tenantId, notice.topic) = true
          · rw [if_pos hf] at hs
            cases hs
            exact .enqueue writer record notice rest now hw hf
          · rw [if_neg hf] at hs
            cases hs
  | commit writer =>
    cases hw : state.writers writer with
    | none => simp [step, hw] at hs
    | some found =>
      cases found with
      | selected record previous | ended => simp [step, hw] at hs
      | inserted record notices =>
        cases notices with
        | nil =>
          simp only [step, hw, Option.some.injEq] at hs
          subst hs
          exact .commit writer record hw
        | cons notice rest => simp [step, hw] at hs
  | fail writer =>
    cases hw : state.writers writer with
    | none => simp [step, hw] at hs
    | some found =>
      cases found with
      | ended => simp [step, hw] at hs
      | _ =>
        simp only [step, hw, Option.some.injEq] at hs
        subst hs
        exact .rollback writer _ rfl
  | claim replica now keys answered =>
    simp only [step] at hs
    split at hs
    · rename_i hc
      cases hs
      exact .claim replica now keys answered hc.2.2.2
    · cases hs
  | publish replica outcome =>
    simp only [step] at hs
    split at hs
    · rename_i notice rest hro
      cases hs
      exact .publish replica notice rest outcome hro
    · cases hs
  | settle replica now applied =>
    simp only [step] at hs
    split at hs
    · cases hs
    · cases hs
    · rename_i notice rest stage _ hro
      obtain ⟨settled, hse, rfl⟩ := Option.map_eq_some_iff.mp hs
      exact .settle replica notice rest stage now applied settled hro hse
  | crash replica =>
    cases hs
    exact .crash replica
  | expire key =>
    cases hs
    exact .expire key

end Effects

section Numbers

def EXACT : Nat := 2 ^ 53

-- Every watermark on its way is exact as a number of a script.
structure Exact (state : State) : Prop where
  committed : ∀ key row, state.outbox.committed key = some row → row.version < EXACT
  held : ∀ key writer row, state.outbox.uncommitted key = some (writer, some row) →
    row.version < EXACT
  selected : ∀ writer record previous,
    state.writers writer = some (.selected record previous) →
    record.accessSerial < EXACT ∧ record.releaseGeneration < EXACT
  inserted : ∀ writer record notices, state.writers writer = some (.inserted record notices) →
    ∀ notice ∈ notices, notice.version < EXACT
  pending : ∀ replica, ∀ notice ∈ (state.rounds replica).pending, notice.version < EXACT
  last : ∀ key version, state.last key = some version → version < EXACT

theorem exact_start : Exact {} where
  committed _ _ h := nomatch h
  held _ _ _ h := nomatch h
  selected _ _ _ h := nomatch h
  inserted _ _ _ h := nomatch h
  pending _ _ h := absurd h List.not_mem_nil
  last _ _ h := nomatch h

theorem Exact.view (h : Exact state) {writer : Nat} {key : NoticeKey} {row : OutboxRow}
    (hv : state.outbox.view writer key = some row) : row.version < EXACT := by
  unfold Store.view at hv
  cases hh : state.outbox.uncommitted key with
  | none =>
    rw [hh] at hv
    exact h.committed key row hv
  | some held =>
    obtain ⟨holder, version⟩ := held
    rw [hh] at hv
    by_cases hho : holder = writer
    · simp only [hho, if_true] at hv
      subst hv
      exact h.held key holder row hh
    · simp only [hho, if_false] at hv
      exact h.committed key row hv

theorem Exact.goTo (h : Exact state) {writer : Nat} {after : Writer}
    {policies : Store String PolicyRow}
    (hse : ∀ record previous, after = .selected record previous →
      record.accessSerial < EXACT ∧ record.releaseGeneration < EXACT)
    (hin : ∀ record notices, after = .inserted record notices →
      ∀ notice ∈ notices, notice.version < EXACT) :
    Exact { state.goTo writer after with policies } where
  committed := h.committed
  held := h.held
  selected other record previous hw := by
    by_cases hs : other = writer
    · subst hs
      exact hse record previous (Option.some.inj (goTo_self.symm.trans hw))
    · exact h.selected other record previous ((goTo_of_ne hs).symm.trans hw)
  inserted other record notices hw := by
    by_cases hs : other = writer
    · subst hs
      exact hin record notices (Option.some.inj (goTo_self.symm.trans hw))
    · exact h.inserted other record notices ((goTo_of_ne hs).symm.trans hw)
  pending := h.pending
  last := h.last

theorem Exact.withOutbox (h : Exact state) {outbox : Store NoticeKey OutboxRow}
    (hc : ∀ key row, outbox.committed key = some row → row.version < EXACT)
    (hh : ∀ key writer row, outbox.uncommitted key = some (writer, some row) →
      row.version < EXACT) : Exact { state with outbox } :=
  ⟨hc, hh, h.selected, h.inserted, h.pending, h.last⟩

theorem Exact.updateOutbox (h : Exact state) {key : NoticeKey} {row : Option OutboxRow}
    (hr : ∀ found, row = some found → found.version < EXACT) :
    Exact (state.updateOutbox key row) := by
  refine h.withOutbox ?_ h.held
  intro other found hf
  by_cases hs : other = key
  · subst hs
    simp only [Function.update_self] at hf
    exact hr found hf
  · simp only [Function.update_of_ne hs] at hf
    exact h.committed other found hf

theorem Exact.setRound (h : Exact state) {replica : Nat} {round : Round}
    (hr : ∀ notice ∈ round.pending, notice.version < EXACT) :
    Exact (state.setRound replica round) where
  committed := h.committed
  held := h.held
  selected := h.selected
  inserted := h.inserted
  pending other notice hn := by
    by_cases hs : other = replica
    · subst hs
      simp only [State.setRound, Function.update_self] at hn
      exact hr notice hn
    · simp only [State.setRound, Function.update_of_ne hs] at hn
      exact h.pending other notice hn
  last := h.last

theorem Exact.claimAll (h : Exact state) (now : Nat) (keys : List NoticeKey) :
    Exact (state.claimAll now keys).1 ∧
      ∀ notice ∈ (state.claimAll now keys).2, notice.version < EXACT := by
  induction keys generalizing state with
  | nil => exact ⟨h, fun _ hn => absurd hn List.not_mem_nil⟩
  | cons key keys ih =>
    unfold State.claimAll
    cases hr : state.outbox.committed key with
    | none => exact ih h
    | some row =>
      have hv := h.committed key row hr
      have ha : Exact (state.updateOutbox key (some (claimRow now row))) := by
        refine h.updateOutbox fun found hf => ?_
        rw [← Option.some.inj hf]
        exact hv
      obtain ⟨hre, hno⟩ := ih ha
      refine ⟨hre, fun notice hn => ?_⟩
      rcases List.mem_cons.mp hn with rfl | hn
      · exact hv
      · exact hno notice hn

theorem Exact.runScript (h : Exact state) {key : NoticeKey} {version : Nat}
    (hv : version < EXACT) : Exact (state.runScript key version) := by
  unfold State.runScript
  split
  · refine ⟨h.committed, h.held, h.selected, h.inserted, h.pending, ?_⟩
    intro other found hf
    by_cases hs : other = key
    · subst hs
      simp only [Function.update_self, Option.some.injEq] at hf
      rw [← hf]
      exact hv
    · simp only [Function.update_of_ne hs] at hf
      exact h.last other found hf
  · exact h

theorem Exact.settle (h : Exact state) {notice : PendingTenantNotice} {stage : Stage} {now : Nat}
    {applied : Bool} {settled : State}
    (hs : state.settle notice stage now applied = some settled) : Exact settled := by
  unfold State.settle at hs
  by_cases ha : applied
  · simp only [ha, Bool.not_true, Bool.false_eq_true, if_false] at hs
    split at hs
    · cases hs
    · cases hr : state.outbox.committed notice.key with
      | none =>
        simp only [hr, Option.some.injEq] at hs
        subst hs
        exact h
      | some row =>
        have hv := h.committed notice.key row hr
        cases stage with
        | publishing =>
          simp only [hr, Option.some.injEq] at hs
          subst hs
          exact h
        | completing =>
          simp only [hr, Option.some.injEq] at hs
          subst hs
          refine h.updateOutbox fun found hf => ?_
          unfold completeRow at hf
          split at hf
          · cases hf
          · rw [← Option.some.inj hf]
            exact hv
        | retrying error =>
          simp only [hr, Option.some.injEq] at hs
          subst hs
          refine h.updateOutbox fun found hf => ?_
          rw [← Option.some.inj hf]
          unfold retryRow
          split <;> exact hv
  · simp only [ha, Bool.not_false, if_true, Option.some.injEq] at hs
    subst hs
    exact h

theorem Exact.effect (h : Exact state) (hea : action.exact)
    (hef : Effect state action next) : Exact next := by
  cases hef with
  | selectNone writer record hnw hn | selectSome writer record row hnw hr hf hnr =>
    refine h.goTo ?_ nofun
    rintro found previous heq
    obtain rfl := (Writer.selected.inj heq).1
    exact hea
  | insert writer record previous row hw hf hin =>
    refine h.goTo nofun ?_
    rintro found notices heq notice hno
    obtain ⟨rfl, rfl⟩ := Writer.inserted.inj heq
    obtain ⟨hac, hre⟩ := h.selected writer _ previous hw
    rcases version_le_of_mem_noticesSince hno with heq | heq
    · rw [heq]
      exact hac
    · rw [heq]
      exact hre
  | enqueue writer record notice rest now hw hf =>
    have hnt := h.inserted writer record _ hw
    have ha : Exact (state.goTo writer (.inserted record rest)) := by
      refine h.goTo nofun ?_
      rintro found notices heq other ho
      obtain ⟨-, rfl⟩ := Writer.inserted.inj heq
      exact hnt other (List.mem_cons_of_mem notice ho)
    refine ha.withOutbox h.committed ?_
    intro key holder found hh
    by_cases hs : key = (record.tenantId, notice.topic)
    · subst hs
      simp only [put_uncommitted_self, Option.some.injEq, Prod.mk.injEq] at hh
      obtain ⟨-, rfl⟩ := hh
      have hno : bigint notice.version < EXACT :=
        Nat.lt_of_le_of_lt (Nat.min_le_left ..) (hnt notice List.mem_cons_self)
      cases hvi : state.outbox.view writer (record.tenantId, notice.topic) with
      | none => exact hno
      | some before => exact Nat.max_lt.mpr ⟨h.view hvi, hno⟩
    · rw [put_uncommitted_of_ne hs] at hh
      exact h.held key holder found hh
  | commit writer record hw =>
    have ha : Exact (state.goTo writer .ended) := h.goTo nofun nofun
    have hc : Exact { state.goTo writer .ended with
        outbox := state.outbox.commit writer } := by
      refine ha.withOutbox (fun key row hr => h.view hr) ?_
      intro key holder row hh
      exact h.held key holder row (commit_uncommitted.mp hh).1
    exact ⟨hc.committed, hc.held, hc.selected, hc.inserted, hc.pending, hc.last⟩
  | rollback writer action hm =>
    have ha : Exact (state.goTo writer .ended) := h.goTo nofun nofun
    refine ⟨h.committed, ?_, ha.selected, ha.inserted, h.pending, h.last⟩
    intro key holder row hh
    exact h.held key holder row (release_uncommitted.mp hh).1
  | claim replica now keys answered hdu =>
    obtain ⟨hcl, hnt⟩ := h.claimAll now keys
    refine hcl.setRound ?_
    cases answered with
    | true => exact hnt
    | false => exact fun _ hno => absurd hno List.not_mem_nil
  | publish replica notice rest outcome hro =>
    have hp := h.pending replica
    rw [hro] at hp
    have hsc : Exact (state.runScript notice.key notice.version) :=
      h.runScript (hp notice List.mem_cons_self)
    cases outcome with
    | answered | lost error => exact hsc.setRound hp
    | refused error => exact h.setRound hp
  | settle replica notice rest stage now applied settled hro hse =>
    have hp := h.pending replica
    rw [hro] at hp
    exact (h.settle hse).setRound fun other ho => hp other (List.mem_cons_of_mem notice ho)
  | crash replica => exact h.setRound fun _ hno => absurd hno List.not_mem_nil
  | expire key =>
    refine ⟨h.committed, h.held, h.selected, h.inserted, h.pending, ?_⟩
    intro other version hv
    by_cases hs : other = key
    · subst hs
      simp at hv
    · simp only [Function.update_of_ne hs] at hv
      exact h.last other version hv

end Numbers

end FlareIm.ClientPolicy
