import FlareIm.ClientPolicy
import Mathlib.Order.Basic

namespace FlareIm.ClientPolicy

open Versions
open Function (update_of_ne update_self)

variable {record : ClientPolicyRecord} {next : Writer}

section Watermarks

def PolicyRow.watermark (row : PolicyRow) (topic : String) : Nat :=
  if topic = ACCESS_TOPIC then row.accessSerial
  else if topic = RELEASE_TOPIC then row.releaseGeneration
  else 0

def ClientPolicyRecord.watermark (record : ClientPolicyRecord) (topic : String) : Nat :=
  if topic = ACCESS_TOPIC then record.accessSerial
  else if topic = RELEASE_TOPIC then record.releaseGeneration
  else 0

def ClientPolicyWatermarks.watermark (watermarks : ClientPolicyWatermarks) (topic : String) : Nat :=
  if topic = ACCESS_TOPIC then watermarks.accessSerial
  else if topic = RELEASE_TOPIC then watermarks.releaseGeneration
  else 0

def PolicyRow.Rises (old new : PolicyRow) : Prop :=
  old.version ≤ new.version ∧ old.accessSerial ≤ new.accessSerial ∧
    old.releaseGeneration ≤ new.releaseGeneration

def OutboxRow.Rises (old new : OutboxRow) : Prop := old.version ≤ new.version

theorem PolicyRow.rises_refl (row : PolicyRow) : row.Rises row := ⟨le_rfl, le_rfl, le_rfl⟩

theorem PolicyRow.Rises.trans {a b c : PolicyRow} (hab : a.Rises b) (hbc : b.Rises c) :
    a.Rises c :=
  ⟨hab.1.trans hbc.1, hab.2.1.trans hbc.2.1, hab.2.2.trans hbc.2.2⟩

theorem noticesSince_of_watermark (record : ClientPolicyRecord)
    (previous : Option ClientPolicyWatermarks) (topic : String) :
    record.watermark topic ≤ (previous.map (·.watermark topic)).getD 0 ∨
      ⟨topic, record.watermark topic⟩ ∈ record.noticesSince previous := by
  unfold ClientPolicyRecord.watermark ClientPolicyRecord.noticesSince
  by_cases ha : topic = ACCESS_TOPIC
  · subst ha
    by_cases hl : (previous.map (·.accessSerial)).getD 0 < record.accessSerial
    · right
      simp [hl]
    · left
      have hs : (previous.map (·.watermark ACCESS_TOPIC)).getD 0 =
          (previous.map (·.accessSerial)).getD 0 := by
        cases previous <;> simp [ClientPolicyWatermarks.watermark]
      rw [hs, if_pos rfl]
      exact Nat.le_of_not_lt hl
  · by_cases hr : topic = RELEASE_TOPIC
    · subst hr
      by_cases hl : (previous.map (·.releaseGeneration)).getD 0 < record.releaseGeneration
      · right
        simp [hl, ha]
      · left
        have hs : (previous.map (·.watermark RELEASE_TOPIC)).getD 0 =
            (previous.map (·.releaseGeneration)).getD 0 := by
          cases previous <;> simp [ClientPolicyWatermarks.watermark, ha]
        rw [hs, if_neg ha, if_pos rfl]
        exact Nat.le_of_not_lt hl
    · left
      rw [if_neg ha, if_neg hr]
      exact Nat.zero_le _

theorem version_le_of_mem_noticesSince
    {previous : Option ClientPolicyWatermarks} {notice : ClientPolicyNotice}
    (h : notice ∈ record.noticesSince previous) :
    notice.version = record.accessSerial ∨ notice.version = record.releaseGeneration := by
  unfold ClientPolicyRecord.noticesSince at h
  rcases List.mem_append.mp h with h | h
  · split at h
    · left
      rw [List.mem_singleton.mp h]
    · exact absurd h List.not_mem_nil
  · split at h
    · right
      rw [List.mem_singleton.mp h]
    · exact absurd h List.not_mem_nil

theorem insert_spec {before : Option PolicyRow} {row : PolicyRow}
    (h : record.insert before = some row) : row.version = bigint record.version ∧
      (∀ old, before = some old → old.Rises row ∧ old.version < row.version) ∧
      (∀ topic, row.watermark topic ≤ record.row.watermark topic ∨
        ∃ old, before = some old ∧ row.watermark topic ≤ old.watermark topic) := by
  cases before with
  | none =>
    cases h
    exact ⟨rfl, nofun, fun topic => .inl le_rfl⟩
  | some old =>
    by_cases hn : old.version < record.row.version
    · simp only [ClientPolicyRecord.insert, hn, if_true, Option.some.injEq] at h
      subst h
      refine ⟨rfl, ?_, fun topic => ?_⟩
      · intro found hf
        cases hf
        exact ⟨⟨Nat.le_of_lt hn, Nat.le_max_left .., Nat.le_max_left ..⟩, hn⟩
      · unfold PolicyRow.watermark
        dsimp only
        by_cases ha : topic = ACCESS_TOPIC
        · simp only [ha, if_true, Option.some.injEq, exists_eq_left']
          omega
        · by_cases hr : topic = RELEASE_TOPIC
          · have hne : RELEASE_TOPIC ≠ ACCESS_TOPIC := by decide
            simp only [hr, hne, if_false, if_true, Option.some.injEq, exists_eq_left']
            omega
          · left
            simp [ha, hr]
    · simp [ClientPolicyRecord.insert, hn] at h

end Watermarks

section Locks

variable {state : State} {writer : Nat}

-- What the rows held tell of their writers.
structure Locks (state : State) : Prop where
  policies : Respects PolicyRow.Rises state.policies
  outbox : Respects OutboxRow.Rises state.outbox
  policyPresent : ∀ key holder, state.policies.uncommitted key ≠ some (holder, none)
  outboxPresent : ∀ key holder, state.outbox.uncommitted key ≠ some (holder, none)
  held : ∀ tenant writer row, state.policies.uncommitted tenant = some (writer, some row) →
    (∃ record previous, state.writers writer = some (.selected record previous) ∧
      record.tenantId = tenant ∧ state.policies.committed tenant = some row) ∨
    ∃ record notices, state.writers writer = some (.inserted record notices) ∧
      record.tenantId = tenant
  selected : ∀ writer record previous,
    state.writers writer = some (.selected record (some previous)) →
    ∃ row, state.policies.committed record.tenantId = some row ∧
      previous.accessSerial ≤ row.accessSerial ∧
      previous.releaseGeneration ≤ row.releaseGeneration
  inserted : ∀ writer record notices, state.writers writer = some (.inserted record notices) →
    ∃ row, state.policies.uncommitted record.tenantId = some (writer, some row) ∧
      row.version = bigint record.version ∧
      ∀ old, state.policies.committed record.tenantId = some old → old.version < row.version

theorem locks_start : Locks {} where
  policies _ _ _ _ h := nomatch h
  outbox _ _ _ _ h := nomatch h
  policyPresent _ _ h := nomatch h
  outboxPresent _ _ h := nomatch h
  held _ _ _ h := nomatch h
  selected _ _ _ h := nomatch h
  inserted _ _ _ h := nomatch h

theorem Locks.view_eq (h : Locks state) {tenant : String}
    (hf : state.policies.free writer tenant = true)
    (hn : ∀ record notices, state.writers writer ≠ some (.inserted record notices)) :
    state.policies.view writer tenant = state.policies.committed tenant := by
  rcases view_of_free hf with ho | ⟨-, hvi⟩
  · cases hv : state.policies.view writer tenant with
    | none =>
      rw [hv] at ho
      exact absurd ho (h.policyPresent tenant writer)
    | some row =>
      rw [hv] at ho
      rcases h.held tenant writer row ho with ⟨record, previous, -, -, hc⟩ |
        ⟨record, notices, hin, -⟩
      · exact hc.symm
      · exact absurd hin (hn record notices)
  · exact hvi

theorem Locks.rollback (h : Locks state) : Locks (state.rollback writer) where
  policies := h.policies.release
  outbox := h.outbox.release
  policyPresent key holder hh := h.policyPresent key holder (release_uncommitted.mp hh).1
  outboxPresent key holder hh := h.outboxPresent key holder (release_uncommitted.mp hh).1
  held tenant other row hh := by
    obtain ⟨hb, hne⟩ := release_uncommitted.mp hh
    have hwr : (state.rollback writer).writers other = state.writers other :=
      update_of_ne hne ..
    rw [hwr]
    exact h.held tenant other row hb
  selected other record previous hw := by
    by_cases hs : other = writer
    · subst hs
      simp [State.rollback, State.goTo] at hw
    · have hwr : (state.rollback writer).writers other = state.writers other :=
        update_of_ne hs ..
      rw [hwr] at hw
      exact h.selected other record previous hw
  inserted other record notices hw := by
    by_cases hs : other = writer
    · subst hs
      simp [State.rollback, State.goTo] at hw
    · have hwr : (state.rollback writer).writers other = state.writers other :=
        update_of_ne hs ..
      rw [hwr] at hw
      obtain ⟨row, hr, hv, hl⟩ := h.inserted other record notices hw
      exact ⟨row, release_uncommitted.mpr ⟨hr, hs⟩, hv, hl⟩

theorem Locks.put (h : Locks state) {tenant : String} {row : PolicyRow}
    (hfr : state.policies.free writer tenant = true)
    (hm : ∀ old, state.policies.view writer tenant = some old → old.Rises row)
    (hh : (∃ record previous, next = .selected record previous ∧ record.tenantId = tenant ∧
        state.policies.committed tenant = some row) ∨
      ∃ record notices, next = .inserted record notices ∧ record.tenantId = tenant)
    (hoh : ∀ other row, state.policies.uncommitted other = some (writer, some row) → other = tenant)
    (hse : ∀ record previous, next = .selected record (some previous) →
      ∃ row, state.policies.committed record.tenantId = some row ∧
        previous.accessSerial ≤ row.accessSerial ∧
        previous.releaseGeneration ≤ row.releaseGeneration)
    (hin : ∀ record notices, next = .inserted record notices →
      record.tenantId = tenant ∧ row.version = bigint record.version ∧
        ∀ old, state.policies.committed tenant = some old → old.version < row.version) :
    Locks { state.goTo writer next with
      policies := state.policies.put writer tenant (some row) } where
  policies := by
    refine h.policies.put (fun a b c => PolicyRow.Rises.trans) hfr ?_
      (fun _ => h.policyPresent tenant writer)
    intro old new hold hnw
    cases hnw
    exact hm old hold
  outbox := h.outbox
  policyPresent key holder hh := by
    by_cases hs : key = tenant
    · subst hs
      simp at hh
    · rw [put_uncommitted_of_ne hs] at hh
      exact h.policyPresent key holder hh
  outboxPresent := h.outboxPresent
  held other holder found ho := by
    by_cases hs : other = tenant
    · subst hs
      rw [put_uncommitted_self, Option.some.injEq, Prod.mk.injEq, Option.some.injEq] at ho
      obtain ⟨rfl, rfl⟩ := ho
      rcases hh with ⟨record, previous, rfl, ht, hc⟩ | ⟨record, notices, rfl, ht⟩
      · exact .inl ⟨record, previous, update_self .., ht, hc⟩
      · exact .inr ⟨record, notices, update_self .., ht⟩
    · rw [put_uncommitted_of_ne hs] at ho
      have hne : holder ≠ writer := by
        rintro rfl
        exact hs (hoh other found ho)
      have hwr : (state.goTo writer next).writers holder = state.writers holder :=
        update_of_ne hne ..
      rw [hwr]
      exact h.held other holder found ho
  selected other record previous hw := by
    by_cases hs : other = writer
    · subst hs
      have hn : next = .selected record (some previous) := by
        simpa [State.goTo] using hw
      exact hse record previous hn
    · have hwr : (state.goTo writer next).writers other = state.writers other :=
        update_of_ne hs ..
      rw [hwr] at hw
      exact h.selected other record previous hw
  inserted other record notices hw := by
    by_cases hs : other = writer
    · subst hs
      have hn : next = .inserted record notices := by
        simpa [State.goTo] using hw
      obtain ⟨ht, hv, hl⟩ := hin record notices hn
      subst ht
      exact ⟨row, put_uncommitted_self, hv, hl⟩
    · have hwr : (state.goTo writer next).writers other = state.writers other :=
        update_of_ne hs ..
      rw [hwr] at hw
      obtain ⟨found, hf, hv, hl⟩ := h.inserted other record notices hw
      have hk := (@sameFor_put String PolicyRow state.policies writer tenant (some row) _ other
        hfr hs) record.tenantId (some found)
      exact ⟨found, hk.mpr hf, hv, hl⟩

theorem goTo_of_ne {other : Nat} (h : other ≠ writer) :
    (state.goTo writer next).writers other = state.writers other :=
  update_of_ne h ..

theorem goTo_self : (state.goTo writer next).writers writer = some next :=
  update_self ..

theorem Locks.selectNone (h : Locks state) (hn : state.writers writer = none)
    (record : ClientPolicyRecord) : Locks (state.goTo writer (.selected record none)) where
  policies := h.policies
  outbox := h.outbox
  policyPresent := h.policyPresent
  outboxPresent := h.outboxPresent
  held tenant other row hh := by
    have hne : other ≠ writer := by
      rintro rfl
      rcases h.held tenant other row hh with ⟨record, previous, hw, -⟩ | ⟨record, notices, hw, -⟩
      · rw [hn] at hw
        cases hw
      · rw [hn] at hw
        cases hw
    rw [goTo_of_ne hne]
    exact h.held tenant other row hh
  selected other found previous hw := by
    by_cases hs : other = writer
    · subst hs
      rw [goTo_self] at hw
      cases hw
    · rw [goTo_of_ne hs] at hw
      exact h.selected other found previous hw
  inserted other found notices hw := by
    by_cases hs : other = writer
    · subst hs
      rw [goTo_self] at hw
      cases hw
    · rw [goTo_of_ne hs] at hw
      exact h.inserted other found notices hw

theorem Locks.enqueue (h : Locks state)
    {notices rest : List ClientPolicyNotice}
    (hw : state.writers writer = some (.inserted record notices)) {key : NoticeKey}
    {row : OutboxRow} (hf : state.outbox.free writer key = true)
    (hr : ∀ old, state.outbox.view writer key = some old → old.Rises row) :
    Locks { state.goTo writer (.inserted record rest) with
      outbox := state.outbox.put writer key (some row) } where
  policies := h.policies
  outbox := by
    refine h.outbox.put (fun a b c => Nat.le_trans) hf ?_ (fun _ => h.outboxPresent key writer)
    intro old new hold hn
    cases hn
    exact hr old hold
  policyPresent := h.policyPresent
  outboxPresent other holder hh := by
    by_cases hsa : other = key
    · subst hsa
      simp at hh
    · rw [put_uncommitted_of_ne hsa] at hh
      exact h.outboxPresent other holder hh
  held tenant other found hh := by
    by_cases hsa : other = writer
    · subst hsa
      rcases h.held tenant other found hh with ⟨selected, previous, hs, -⟩ |
        ⟨inserted, before, hin, ht⟩
      · rw [hw] at hs
        cases hs
      · rw [hw, Option.some.injEq, Writer.inserted.injEq] at hin
        exact .inr ⟨record, rest, goTo_self, by rw [hin.1, ht]⟩
    · have ho : (state.goTo writer (.inserted record rest)).writers other =
          state.writers other := goTo_of_ne hsa
      rw [ho]
      exact h.held tenant other found hh
  selected other found previous hs := by
    by_cases hsa : other = writer
    · subst hsa
      rw [goTo_self] at hs
      cases hs
    · rw [goTo_of_ne hsa] at hs
      exact h.selected other found previous hs
  inserted other found after hin := by
    by_cases hsa : other = writer
    · subst hsa
      rw [goTo_self, Option.some.injEq, Writer.inserted.injEq] at hin
      obtain ⟨rfl, -⟩ := hin
      exact h.inserted other record notices hw
    · rw [goTo_of_ne hsa] at hin
      exact h.inserted other found after hin

theorem Locks.commit_other (h : Locks state)
    {notices : List ClientPolicyNotice}
    (hw : state.writers writer = some (.inserted record notices)) {tenant : String}
    (hne : tenant ≠ record.tenantId) :
    (state.policies.commit writer).committed tenant = state.policies.committed tenant := by
  show state.policies.view writer tenant = state.policies.committed tenant
  unfold Store.view
  cases hh : state.policies.uncommitted tenant with
  | none => rfl
  | some held =>
    obtain ⟨holder, version⟩ := held
    by_cases hho : holder = writer
    · subst hho
      cases version with
      | none => exact absurd hh (h.policyPresent tenant holder)
      | some row =>
        rcases h.held tenant holder row hh with ⟨selected, previous, hs, -⟩ |
          ⟨inserted, before, hin, ht⟩
        · rw [hw] at hs
          cases hs
        · rw [hw, Option.some.injEq, Writer.inserted.injEq] at hin
          rw [hin.1] at hne
          exact absurd ht.symm hne
    · simp [hho]

theorem Locks.committed_rises (h : Locks state) {tenant : String} {old : PolicyRow}
    (hold : state.policies.committed tenant = some old) :
    ∃ new, (state.policies.commit writer).committed tenant = some new ∧ old.Rises new := by
  have hs : ∃ new, (state.policies.commit writer).committed tenant = some new := by
    show ∃ new, state.policies.view writer tenant = some new
    unfold Store.view
    cases hh : state.policies.uncommitted tenant with
    | none => exact ⟨old, hold⟩
    | some held =>
      obtain ⟨holder, version⟩ := held
      by_cases hho : holder = writer
      · cases version with
        | none => exact absurd hh (h.policyPresent tenant holder)
        | some row => exact ⟨row, by simp [hho]⟩
      · exact ⟨old, by simp [hho, hold]⟩
  obtain ⟨new, hn⟩ := hs
  exact ⟨new, hn, h.policies.commit_rel PolicyRow.rises_refl hold hn⟩

theorem Locks.commit (h : Locks state) (hw : state.writers writer = some (.inserted record [])) :
    Locks (state.commit writer) where
  policies := h.policies.commit
  outbox := h.outbox.commit
  policyPresent key holder hh := h.policyPresent key holder (commit_uncommitted.mp hh).1
  outboxPresent key holder hh := h.outboxPresent key holder (commit_uncommitted.mp hh).1
  held tenant other row hh := by
    obtain ⟨hb, hne⟩ := commit_uncommitted.mp hh
    have hwr : (state.commit writer).writers other = state.writers other := goTo_of_ne hne
    have hc : (state.commit writer).policies.committed tenant =
        state.policies.committed tenant := by
      show state.policies.view writer tenant = state.policies.committed tenant
      simp [Store.view, hb, hne]
    rw [hwr, hc]
    exact h.held tenant other row hb
  selected other found previous hse := by
    by_cases hs : other = writer
    · subst hs
      simp [State.commit, State.goTo] at hse
    · have hwr : (state.commit writer).writers other = state.writers other :=
        goTo_of_ne hs
      rw [hwr] at hse
      obtain ⟨row, hr, ha, hre⟩ := h.selected other found previous hse
      obtain ⟨new, hn, hri⟩ := @Locks.committed_rises state writer h _ row hr
      exact ⟨new, hn, ha.trans hri.2.1, hre.trans hri.2.2⟩
  inserted other found notices hin := by
    by_cases hs : other = writer
    · subst hs
      simp [State.commit, State.goTo] at hin
    · have hwr : (state.commit writer).writers other = state.writers other :=
        goTo_of_ne hs
      rw [hwr] at hin
      obtain ⟨row, hr, hv, hl⟩ := h.inserted other found notices hin
      refine ⟨row, commit_uncommitted.mpr ⟨hr, hs⟩, hv, ?_⟩
      have hc : (state.commit writer).policies.committed found.tenantId =
          state.policies.committed found.tenantId := by
        show state.policies.view writer found.tenantId = state.policies.committed found.tenantId
        simp [Store.view, hr, hs]
      rw [hc]
      exact hl

-- What the relay may do: no row rises, and one that goes was recorded by the channel.
structure Relays (state next : State) : Prop where
  policies : next.policies = state.policies
  writers : next.writers = state.writers
  held : next.outbox.uncommitted = state.outbox.uncommitted
  kept : ∀ key row, state.outbox.committed key = some row →
    (∃ after, next.outbox.committed key = some after ∧ after.version = row.version) ∨
      (next.outbox.committed key = none ∧ ∃ seen ∈ next.recorded key, row.version ≤ seen)
  fresh : ∀ key after, next.outbox.committed key = some after →
    ∃ row, state.outbox.committed key = some row ∧ after.version = row.version
  recorded : ∀ key seen, seen ∈ state.recorded key → seen ∈ next.recorded key

theorem Relays.of_outbox_eq {next : State} (hp : next.policies = state.policies)
    (hw : next.writers = state.writers) (ho : next.outbox = state.outbox)
    (hre : ∀ key seen, seen ∈ state.recorded key → seen ∈ next.recorded key) :
    Relays state next where
  policies := hp
  writers := hw
  held := by rw [ho]
  kept key row hr := .inl ⟨row, by rw [ho, hr], rfl⟩
  fresh key after ha := ⟨after, by rw [← ho, ha], rfl⟩
  recorded := hre

theorem Relays.trans {middle next : State} (hfi : Relays state middle)
    (hs : Relays middle next) : Relays state next where
  policies := hs.policies.trans hfi.policies
  writers := hs.writers.trans hfi.writers
  held := hs.held.trans hfi.held
  kept key row hr := by
    rcases hfi.kept key row hr with ⟨after, ha, hv⟩ | ⟨hg, seen, hse, hle⟩
    · rw [← hv]
      exact hs.kept key after ha
    · right
      refine ⟨?_, seen, hs.recorded key seen hse, hle⟩
      cases hn : next.outbox.committed key with
      | none => rfl
      | some after =>
        obtain ⟨found, hf, -⟩ := hs.fresh key after hn
        rw [hg] at hf
        cases hf
  fresh key after ha := by
    obtain ⟨found, hf, hv⟩ := hs.fresh key after ha
    obtain ⟨row, hr, hb⟩ := hfi.fresh key found hf
    exact ⟨row, hr, hv.trans hb⟩
  recorded key seen hse := hs.recorded key seen (hfi.recorded key seen hse)

theorem Locks.relay (h : Locks state) {next : State} (hre : Relays state next) : Locks next where
  policies := by
    rw [hre.policies]
    exact h.policies
  outbox := by
    intro key holder old new hh hold
    rw [hre.held] at hh
    obtain ⟨row, hr, hv⟩ := hre.fresh key old hold
    have hri := h.outbox key holder row new hh hr
    unfold OutboxRow.Rises at hri ⊢
    rw [hv]
    exact hri
  policyPresent := by
    rw [hre.policies]
    exact h.policyPresent
  outboxPresent := by
    rw [hre.held]
    exact h.outboxPresent
  held := by
    rw [hre.policies, hre.writers]
    exact h.held
  selected := by
    rw [hre.policies, hre.writers]
    exact h.selected
  inserted := by
    rw [hre.policies, hre.writers]
    exact h.inserted

end Locks

end FlareIm.ClientPolicy
