import FlareIm.ClientPolicy.Channel

namespace FlareIm.ClientPolicy

open Versions

variable {state next : State} {action : Action} {writer : Nat} {key : NoticeKey}
  {version : Nat} {record : ClientPolicyRecord} {previous : Option ClientPolicyWatermarks}

-- A version is on its way, or the channel recorded it or a newer one.
def Announced (state : State) (key : NoticeKey) (version : Nat) : Prop :=
  version = 0 ∨ (∃ row, state.outbox.committed key = some row ∧ version ≤ row.version) ∨
    ∃ seen ∈ state.recorded key, version ≤ seen

-- A version that a writer inserted is announced, or the writer still queues it, or queued it.
def Owed (state : State) (writer : Nat) (key : NoticeKey) (notices : List ClientPolicyNotice)
    (version : Nat) : Prop :=
  Announced state key version ∨
    (∃ notice ∈ notices, notice.topic = key.2 ∧ version ≤ bigint notice.version) ∨
    ∃ row, state.outbox.uncommitted key = some (writer, some row) ∧ version ≤ row.version

structure Covered (state : State) : Prop where
  committed : ∀ tenant row topic, state.policies.committed tenant = some row →
    Announced state (tenant, topic) (row.watermark topic)
  owed : ∀ writer record notices row topic,
    state.writers writer = some (.inserted record notices) →
    state.policies.uncommitted record.tenantId = some (writer, some row) →
    Owed state writer (record.tenantId, topic) notices (row.watermark topic)

theorem covered_start : Covered {} where
  committed _ _ _ h := nomatch h
  owed _ _ _ _ _ h := nomatch h

section Announcing

theorem Announced.mono {less : Nat} (h : Announced state key version) (hle : less ≤ version) :
    Announced state key less := by
  rcases h with rfl | ⟨row, hr, hv⟩ | ⟨seen, hs, hv⟩
  · exact .inl (Nat.le_zero.mp hle)
  · exact .inr (.inl ⟨row, hr, hle.trans hv⟩)
  · exact .inr (.inr ⟨seen, hs, hle.trans hv⟩)

theorem Announced.of_frame (h : Announced state key version)
    (hc : next.outbox.committed = state.outbox.committed)
    (hr : next.recorded = state.recorded) : Announced next key version := by
  unfold Announced
  rw [hc, hr]
  exact h

theorem Announced.relay (h : Announced state key version) (hre : Relays state next) :
    Announced next key version := by
  rcases h with rfl | ⟨row, hr, hv⟩ | ⟨seen, hs, hv⟩
  · exact .inl rfl
  · rcases hre.kept key row hr with ⟨after, ha, hsa⟩ | ⟨-, seen, hs, hle⟩
    · exact .inr (.inl ⟨after, ha, hv.trans hsa.ge⟩)
    · exact .inr (.inr ⟨seen, hs, hv.trans hle⟩)
  · exact .inr (.inr ⟨seen, hre.recorded key seen hs, hv⟩)

theorem Announced.commit (h : Announced state key version) (hl : Locks state) :
    Announced (state.commit writer) key version := by
  rcases h with rfl | ⟨row, hr, hv⟩ | hs
  · exact .inl rfl
  · cases hvi : state.outbox.view writer key with
    | none =>
      unfold Store.view at hvi
      cases hh : state.outbox.uncommitted key with
      | none =>
        rw [hh] at hvi
        rw [hr] at hvi
        cases hvi
      | some held =>
        obtain ⟨holder, own⟩ := held
        rw [hh] at hvi
        by_cases hho : holder = writer
        · simp only [hho, if_true] at hvi
          subst hvi
          exact absurd hh (hl.outboxPresent key holder)
        · simp only [hho, if_false] at hvi
          rw [hr] at hvi
          cases hvi
    | some after =>
      have hc : (state.outbox.commit writer).committed key = some after := hvi
      have hri := hl.outbox.commit_rel (fun _ => Nat.le_refl _) hr hc
      exact .inr (.inl ⟨after, hc, hv.trans hri⟩)
  · exact .inr (.inr hs)

end Announcing

section Covering

theorem Covered.of_writer (h : Covered state) (writer : Nat)
    (ha : ∀ key version, Announced state key version → Announced next key version)
    (hw : ∀ other, other ≠ writer → next.writers other = state.writers other)
    (hp : ∀ other, other ≠ writer → SameFor other state.policies next.policies)
    (ho : ∀ other, other ≠ writer → SameFor other state.outbox next.outbox)
    (hc : ∀ tenant row topic, next.policies.committed tenant = some row →
      Announced next (tenant, topic) (row.watermark topic))
    (hoe : ∀ record notices row topic, next.writers writer = some (.inserted record notices) →
      next.policies.uncommitted record.tenantId = some (writer, some row) →
      Owed next writer (record.tenantId, topic) notices (row.watermark topic)) : Covered next where
  committed := hc
  owed other record notices row topic hin hh := by
    by_cases hs : other = writer
    · subst hs
      exact hoe record notices row topic hin hh
    · rw [hw other hs] at hin
      have hb := (hp other hs record.tenantId (some row)).mp hh
      rcases h.owed other record notices row topic hin hb with hdo | hl | hq
      · exact .inl (ha _ _ hdo)
      · exact .inr (.inl hl)
      · obtain ⟨queued, hq, hle⟩ := hq
        exact .inr (.inr ⟨queued, (ho other hs _ _).mpr hq, hle⟩)

theorem Covered.relay (h : Covered state) (hre : Relays state next) : Covered next where
  committed tenant row topic hr := by
    rw [hre.policies] at hr
    exact (h.committed tenant row topic hr).relay hre
  owed writer record notices row topic hin hh := by
    rw [hre.writers] at hin
    rw [hre.policies] at hh
    unfold Owed
    rw [hre.held]
    rcases h.owed writer record notices row topic hin hh with hdo | hl | hq
    · exact .inl (hdo.relay hre)
    · exact .inr (.inl hl)
    · exact .inr (.inr hq)

theorem ClientPolicyRecord.row_watermark (record : ClientPolicyRecord) (topic : String) :
    record.row.watermark topic = bigint (record.watermark topic) := by
  unfold PolicyRow.watermark ClientPolicyRecord.watermark
  split
  · rfl
  · split <;> rfl

theorem Covered.owed_of_insert (h : Covered state) (hl : Locks state)
    {row : PolicyRow}
    (hw : state.writers writer = some (.selected record previous))
    (hin : record.insert (state.policies.committed record.tenantId) = some row)
    (topic : String) :
    Announced state (record.tenantId, topic) (row.watermark topic) ∨
      ∃ notice ∈ record.noticesSince previous, notice.topic = topic ∧
        row.watermark topic ≤ bigint notice.version := by
  obtain ⟨-, -, hwa⟩ := insert_spec hin
  rcases hwa topic with hnw | ⟨old, hold, hle⟩
  · rw [record.row_watermark] at hnw
    rcases noticesSince_of_watermark record previous topic with hs | hn
    · left
      have hb : bigint (record.watermark topic) ≤ record.watermark topic :=
        Nat.min_le_left ..
      cases previous with
      | none =>
        left
        simp only [Option.map_none, Option.getD_none] at hs
        omega
      | some previous =>
        obtain ⟨committed, hc, ha, hr⟩ :=
          hl.selected writer record previous hw
        refine (h.committed _ committed topic hc).mono ?_
        have hp : previous.watermark topic ≤ committed.watermark topic := by
          unfold ClientPolicyWatermarks.watermark PolicyRow.watermark
          split
          · exact ha
          · split
            · exact hr
            · exact le_rfl
        simp only [Option.map_some, Option.getD_some] at hs
        omega
    · exact .inr ⟨_, hn, rfl, hnw⟩
  · exact .inl ((h.committed _ old topic hold).mono hle)

theorem Covered.insert (h : Covered state) (hl : Locks state)
    {row : PolicyRow}
    (hw : state.writers writer = some (.selected record previous))
    (hf : state.policies.free writer record.tenantId = true)
    (hin : record.insert (state.policies.view writer record.tenantId) = some row) :
    Covered { state.goTo writer (.inserted record (record.noticesSince previous)) with
      policies := state.policies.put writer record.tenantId (some row) } := by
  have hn : ∀ found notices, state.writers writer ≠ some (.inserted found notices) := by
    rw [hw]
    exact fun _ _ => nofun
  rw [hl.view_eq hf hn] at hin
  refine h.of_writer writer (fun key version hdo => hdo.of_frame rfl rfl)
    (fun other hne => goTo_of_ne hne) (fun other hne => sameFor_put hf hne)
    (fun other hne => sameFor_refl other _)
    (fun tenant row topic hr => (h.committed tenant row topic hr).of_frame rfl rfl) ?_
  intro found notices after topic hie hh
  obtain ⟨rfl, rfl⟩ := Writer.inserted.inj (Option.some.inj (goTo_self.symm.trans hie))
  rw [put_uncommitted_self, Option.some.injEq, Prod.mk.injEq, Option.some.injEq] at hh
  obtain ⟨-, rfl⟩ := hh
  rcases h.owed_of_insert hl hw hin topic with hdo | hlf
  · exact .inl (hdo.of_frame rfl rfl)
  · exact .inr (.inl hlf)

theorem Covered.enqueue (h : Covered state)
    {notice : ClientPolicyNotice} {rest : List ClientPolicyNotice} {now : Nat}
    (hw : state.writers writer = some (.inserted record (notice :: rest)))
    (hf : state.outbox.free writer (record.tenantId, notice.topic) = true) :
    Covered { state.goTo writer (.inserted record rest) with
      outbox := state.outbox.put writer (record.tenantId, notice.topic)
        (some (enqueueRow notice now
          (state.outbox.view writer (record.tenantId, notice.topic)))) } := by
  refine h.of_writer writer (fun key version hdo => hdo.of_frame rfl rfl)
    (fun other hne => goTo_of_ne hne) (fun other hne => sameFor_refl other _)
    (fun other hne => sameFor_put hf hne)
    (fun tenant row topic hr => (h.committed tenant row topic hr).of_frame rfl rfl) ?_
  intro found notices row topic hin hh
  obtain ⟨rfl, rfl⟩ := Writer.inserted.inj (Option.some.inj (goTo_self.symm.trans hin))
  rcases h.owed writer record _ row topic hw hh with hdo | hl | hq
  · exact .inl (hdo.of_frame rfl rfl)
  · obtain ⟨owed, ho, ht, hle⟩ := hl
    rcases List.mem_cons.mp ho with rfl | ho
    · right
      right
      dsimp only at ht
      subst ht
      refine ⟨_, put_uncommitted_self, hle.trans ?_⟩
      cases state.outbox.view writer (record.tenantId, owed.topic) with
      | none => exact le_rfl
      | some before => exact Nat.le_max_right ..
    · exact .inr (.inl ⟨owed, ho, ht, hle⟩)
  · obtain ⟨queued, hq, hle⟩ := hq
    right
    right
    by_cases hs : topic = notice.topic
    · subst hs
      refine ⟨_, put_uncommitted_self, hle.trans ?_⟩
      rw [view_of_held hq]
      exact Nat.le_max_left ..
    · refine ⟨queued, ?_, hle⟩
      have hne : (record.tenantId, topic) ≠ (record.tenantId, notice.topic) :=
        fun heq => hs (Prod.mk.inj heq).2
      exact (put_uncommitted_of_ne hne).trans hq

theorem Covered.commit (h : Covered state) (hl : Locks state)
    (hw : state.writers writer = some (.inserted record [])) : Covered (state.commit writer) := by
  refine h.of_writer writer (fun key version hdo => hdo.commit hl)
    (fun other hne => goTo_of_ne hne) (fun other hne => sameFor_commit hne)
    (fun other hne => sameFor_commit hne) ?_ ?_
  · intro tenant row topic hr
    by_cases ht : tenant = record.tenantId
    · subst ht
      obtain ⟨held, hh, -, -⟩ := hl.inserted writer record [] hw
      have hs : state.policies.view writer record.tenantId = some held := view_of_held hh
      obtain rfl := Option.some.inj (hs.symm.trans hr)
      rcases h.owed writer record [] held topic hw hh with hdo | hlf | hq
      · exact hdo.commit hl
      · obtain ⟨notice, hn, -⟩ := hlf
        exact absurd hn List.not_mem_nil
      · obtain ⟨queued, hq, hle⟩ := hq
        exact .inr (.inl ⟨queued, view_of_held hq, hle⟩)
    · have hb := hl.commit_other hw ht
      exact (h.committed tenant row topic (hb.symm.trans hr)).commit hl
  · intro found notices row topic hin
    have hen : (state.commit writer).writers writer = some .ended := goTo_self
    rw [hen] at hin
    cases hin

theorem Covered.rollback (h : Covered state) : Covered (state.rollback writer) := by
  refine h.of_writer writer (fun key version hdo => hdo.of_frame rfl rfl)
    (fun other hne => goTo_of_ne hne) (fun other hne => sameFor_release hne)
    (fun other hne => sameFor_release hne)
    (fun tenant row topic hr => (h.committed tenant row topic hr).of_frame rfl rfl) ?_
  intro found notices row topic hin
  have hen : (state.rollback writer).writers writer = some .ended := goTo_self
  rw [hen] at hin
  cases hin

theorem Covered.select (h : Covered state)
    {policies : Store String PolicyRow}
    (hc : policies.committed = state.policies.committed)
    (hp : ∀ other, other ≠ writer → SameFor other state.policies policies) :
    Covered { state.goTo writer (.selected record previous) with policies } := by
  refine h.of_writer writer (fun key version hdo => hdo.of_frame rfl rfl)
    (fun other hne => goTo_of_ne hne) hp (fun other hne => sameFor_refl other _) ?_ ?_
  · intro tenant row topic hr
    dsimp only at hr
    rw [hc] at hr
    exact (h.committed tenant row topic hr).of_frame rfl rfl
  · intro found notices row topic hin
    cases Option.some.inj (goTo_self.symm.trans hin)

theorem Covered.effect (h : Covered state) (hl : Locks state) (hc : Channel state)
    (hef : Effect state action next) : Covered next := by
  cases hw : action.writer with
  | none => exact h.relay (relays_of_effect hc hw hef)
  | some who =>
    cases hef with
    | selectNone writer record hnw hn =>
      exact h.select rfl fun other hne => sameFor_refl other _
    | selectSome writer record row hnw hr hf hnr =>
      exact h.select rfl fun other hne => sameFor_put hf hne
    | insert writer record previous row hs hf hie =>
      exact h.insert hl hs hf hie
    | enqueue writer record notice rest now hin hf => exact h.enqueue hin hf
    | commit writer record hin => exact h.commit hl hin
    | rollback writer action hm => exact h.rollback
    | claim | publish | settle | crash | expire => cases hw

end Covering

end FlareIm.ClientPolicy
