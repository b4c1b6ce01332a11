import FlareIm.SequenceLease
import Mathlib.Data.List.Nodup

namespace FlareIm.SequenceLease

open Transition
open Function (update update_of_ne update_self)

variable {setup : Setup} {state : State} {seq value index call process : Nat} {key : String}
  {outcome : LeaseOutcome}

section Ranges

theorem takeNext_eq_some {range rest : SequenceRange} :
    range.takeNext = some (seq, rest) ↔
      range.next ≤ range.end_ ∧ seq = range.next ∧ rest = ⟨range.next + 1, range.end_⟩ := by
  unfold SequenceRange.takeNext
  split
  · simp only [reduceCtorEq, false_iff]
    omega
  · simp only [Option.some.injEq, Prod.mk.injEq]
    constructor
    · rintro ⟨rfl, rfl⟩
      exact ⟨by omega, rfl, rfl⟩
    · rintro ⟨-, rfl, rfl⟩
      exact ⟨rfl, rfl⟩

theorem Node.validFor_le (node : Node) : node.validFor ≤ node.ttl := by
  unfold Node.validFor
  omega

theorem setCounter_eq_some {next : State} :
    state.setCounter key value = some next ↔
      value < 2 ^ 53 ∧ next = { state with counter := update state.counter key value } := by
  unfold State.setCounter
  split
  · rename_i hv
    rw [Option.some.injEq]
    exact ⟨fun h => ⟨hv, h.symm⟩, fun h => h.2.symm⟩
  · rename_i hv
    exact ⟨fun h => absurd h (by simp), fun h => absurd h.1 hv⟩

-- What the script does to a conversation: nothing, or it counts a segment on and writes a lease
-- of the node for as long as the node asks.
inductive Refill (setup : Setup) (state : State) (index : Nat) (key : String)
    (next : State) (outcome : LeaseOutcome) : Prop where
  | refused (hnext : next = state) (houtcome : outcome = .notOwner)
  | extended (lease : Lease) (hlease : state.lease key = some lease)
      (howner : lease.owner setup = (setup.node index).nodeId.toList)
      (hnext : next = { state with
        counter := Function.update state.counter key
          (state.counter key + (setup.node index).segment)
        lease := Function.update state.lease key
          (some { lease with expiresAt := state.now + (setup.node index).ttl }) })
      (houtcome : outcome = .notOwner ∨ ∃ token, outcome =
        .granted token (state.counter key + 1) (state.counter key + (setup.node index).segment))
  | taken (hlease : state.lease key = none) (token : Nat)
      (hnext : next = { state with
        counter := Function.update state.counter key
          (state.counter key + (setup.node index).segment)
        fence := Function.update state.fence key token
        lease := Function.update state.lease key
          (some ⟨index, token, state.now + (setup.node index).ttl⟩) })
      (houtcome : outcome =
        .granted token (state.counter key + 1) (state.counter key + (setup.node index).segment))

theorem leaseRefill_cases {expected : Option Nat} {next : State}
    (h : leaseRefill setup state index key expected = some (next, outcome)) :
    Refill setup state index key next outcome := by
  have hs : state.counter key + (setup.node index).segment - (setup.node index).segment + 1 =
      state.counter key + 1 := by omega
  unfold leaseRefill at h
  simp only at h
  split at h
  · rename_i lease hl
    split at h
    · simp only [Option.some.injEq, Prod.mk.injEq] at h
      exact .refused h.1.symm h.2.symm
    rename_i ho
    split at h
    · simp only [Option.some.injEq, Prod.mk.injEq] at h
      exact .refused h.1.symm h.2.symm
    obtain ⟨refilled, hre, hr⟩ := Option.map_eq_some_iff.mp h
    obtain ⟨-, rfl⟩ := setCounter_eq_some.mp hre
    simp only [Prod.mk.injEq] at hr
    refine .extended lease hl (not_not.mp ho) hr.1.symm ?_
    rw [← hr.2, hs]
    cases lease.parsedToken setup with
    | none => exact .inl rfl
    | some token => exact .inr ⟨token, rfl⟩
  · rename_i hl
    obtain ⟨refilled, hre, hr⟩ := Option.map_eq_some_iff.mp h
    obtain ⟨-, rfl⟩ := setCounter_eq_some.mp hre
    simp only [Prod.mk.injEq] at hr
    refine .taken hl _ hr.1.symm ?_
    rw [← hr.2, hs]
    rfl

theorem onAllocate_eq_some {act : Nat → String → Option State} {next : State}
    (h : onAllocate setup call act = some next) : ∃ process tenantId conversationId,
      setup.call call = .allocate process tenantId conversationId ∧
        act process (convKey tenantId conversationId) = some next := by
  unfold onAllocate at h
  split at h
  · rename_i process tenantId conversationId hc
    exact ⟨process, tenantId, conversationId, hc, h⟩
  · cases h

theorem fastPath_eq_some {sampled : Nat} {window : ConvState}
    {segment : SequenceRange}
    (h : fastPath state process key sampled = some (window, seq, segment)) :
    state.windows process key = some window ∧ sampled < window.localValidUntil ∧
      window.segment.next ≤ window.segment.end_ ∧ seq = window.segment.next ∧
      segment = ⟨window.segment.next + 1, window.segment.end_⟩ := by
  unfold fastPath at h
  obtain ⟨found, hf, hr⟩ := Option.bind_eq_some_iff.mp h
  split at hr
  · rename_i hv
    obtain ⟨taken, ht, hre⟩ := Option.map_eq_some_iff.mp hr
    simp only [Prod.mk.injEq] at hre
    obtain ⟨rfl, rfl, rfl⟩ := hre
    obtain ⟨hle, hs, hr⟩ := takeNext_eq_some.mp ht
    exact ⟨hf, hv, hle, hs, hr⟩
  · cases hr

end Ranges

section Uniqueness

-- The number is still to be handed out: it is in the window of a process, or in the answer to a
-- call that the call has not seen yet.
def Reserved (setup : Setup) (state : State) (key : String) (seq : Nat) : Nat ⊕ Nat → Prop
  | .inl process => ∃ window, state.windows process key = some window ∧
      window.segment.next ≤ seq ∧ seq ≤ window.segment.end_
  | .inr call => (setup.call call).key = key ∧ ∃ sampled token start end_,
      state.phases call = .replied sampled (.granted token start end_) ∧ start ≤ seq ∧ seq ≤ end_

-- Every number of a counter is handed out once or reserved in one place.
structure Separate (setup : Setup) (state : State) : Prop where
  handed {entry : Handed} (hentry : entry ∈ state.handed) : entry.seq ≤ state.counter entry.key
  counted {key : String} {seq : Nat} {holder : Nat ⊕ Nat}
    (hreserved : Reserved setup state key seq holder) : seq ≤ state.counter key
  fresh {key : String} {seq : Nat} {holder : Nat ⊕ Nat}
    (hreserved : Reserved setup state key seq holder) {entry : Handed}
    (hentry : entry ∈ state.handed) (hkey : entry.key = key) : entry.seq ≠ seq
  apart {key : String} {seq : Nat} {holder other : Nat ⊕ Nat}
    (hreserved : Reserved setup state key seq holder)
    (hother : Reserved setup state key seq other) : holder = other
  nodup : (state.handed.map fun entry => (entry.key, entry.seq)).Nodup

theorem separate_initial : Separate setup initial where
  handed hen := absurd hen List.not_mem_nil
  counted {_ _ holder} hr := by
    cases holder <;> simp [Reserved, initial] at hr
  fresh _ _ hen := absurd hen List.not_mem_nil
  apart {_ _ holder _} hr := by
    cases holder <;> simp [Reserved, initial] at hr
  nodup := List.nodup_nil

variable {next : State}

theorem Separate.shrink (h : Separate setup state) (hh : next.handed = state.handed)
    (hc : ∀ key, state.counter key ≤ next.counter key)
    (hr : ∀ key seq holder, Reserved setup next key seq holder →
      Reserved setup state key seq holder) : Separate setup next where
  handed hen := Nat.le_trans (h.handed (hh ▸ hen)) (hc _)
  counted hre := Nat.le_trans (h.counted (hr _ _ _ hre)) (hc _)
  fresh hre _ hen := h.fresh (hr _ _ _ hre) (hh ▸ hen)
  apart hre ho := h.apart (hr _ _ _ hre) (hr _ _ _ ho)
  nodup := by
    rw [hh]
    exact h.nodup

-- A number that was counted, and is neither handed out nor reserved.
structure Loose (setup : Setup) (state : State) (key : String) (seq : Nat) : Prop where
  counted : seq ≤ state.counter key
  fresh {entry : Handed} (hentry : entry ∈ state.handed) (hkey : entry.key = key) :
    entry.seq ≠ seq
  free (holder : Nat ⊕ Nat) : ¬ Reserved setup state key seq holder

theorem reserved_handOut {deadline : Option Nat} {number : Nat}
    {holder : Nat ⊕ Nat} :
    Reserved setup (state.handOut setup call seq deadline) key number holder ↔
      Reserved setup state key number holder := by
  cases holder <;> exact Iff.rfl

theorem Separate.handOut (h : Separate setup state) (deadline : Option Nat)
    (hl : Loose setup state (setup.call call).key seq) :
    Separate setup (state.handOut setup call seq deadline) where
  handed hen := by
    rcases List.mem_cons.mp hen with rfl | hold
    · exact hl.counted
    · exact h.handed hold
  counted hr := h.counted (reserved_handOut.mp hr)
  fresh {key number holder} hr entry hen hk := by
    rw [reserved_handOut] at hr
    rcases List.mem_cons.mp hen with rfl | hold
    · rintro rfl
      rw [← hk] at hr
      exact hl.free _ hr
    · exact h.fresh hr hold hk
  apart hr ho := h.apart (reserved_handOut.mp hr) (reserved_handOut.mp ho)
  nodup := by
    simp only [State.handOut, List.map_cons, List.nodup_cons]
    refine ⟨fun hm => ?_, h.nodup⟩
    obtain ⟨entry, hen, hs⟩ := List.mem_map.mp hm
    simp only [Prod.mk.injEq] at hs
    exact hl.fresh hen hs.1 hs.2

theorem loose_handOut {number : Nat} {deadline : Option Nat}
    (h : Loose setup state key number) (hne : seq ≠ number) :
    Loose setup (state.handOut setup call seq deadline) key number where
  counted := h.counted
  fresh hen hk := by
    rcases List.mem_cons.mp hen with rfl | hold
    · exact hne
    · exact h.fresh hold hk
  free holder hr := h.free holder (reserved_handOut.mp hr)

theorem Separate.handOutAll {numbers : List Nat} (h : Separate setup state)
    (hl : ∀ seq ∈ numbers, Loose setup state (setup.call call).key seq) (hno : numbers.Nodup) :
    Separate setup (numbers.foldl (fun state seq => state.handOut setup call seq none) state) := by
  induction numbers generalizing state with
  | nil => exact h
  | cons seq rest ih =>
    obtain ⟨hnt, hr⟩ := List.nodup_cons.mp hno
    apply ih (h.handOut none (hl seq List.mem_cons_self)) _ hr
    intro number hn
    apply loose_handOut (hl number (List.mem_cons_of_mem _ hn))
    rintro rfl
    exact hnt hn

theorem Separate.loose_above (h : Separate setup state)
    (hb : state.counter key < seq) (ha : seq ≤ value) :
    Loose setup { state with counter := update state.counter key value } key seq where
  counted := by simpa using ha
  fresh {entry} hen hk := by
    have hle := h.handed hen
    rw [hk] at hle
    omega
  free holder hr := by
    have hs : Reserved setup state key seq holder := by
      cases holder <;> exact hr
    have hle := h.counted hs
    omega

theorem Separate.count (h : Separate setup state) (hv : state.counter key ≤ value) :
    Separate setup { state with counter := update state.counter key value } := by
  refine h.shrink ?_ ?_ ?_
  · rfl
  · intro other
    by_cases ho : other = key
    · subst ho
      simpa using hv
    · simp [ho]
  · intro other seq holder hr
    cases holder <;> exact hr

theorem directNumbers_spec {call : Call} {numbers : List Nat}
    (h : directNumbers setup state key call = some (value, numbers)) :
    state.counter key ≤ value ∧ numbers.Nodup ∧
      ∀ seq ∈ numbers, state.counter key < seq ∧ seq ≤ value := by
  cases call with
  | allocate process tenantId conversationId => exact absurd h (by simp [directNumbers])
  | allocateSeq tenantId conversationId | allocateSeqWithFloor tenantId conversationId floor =>
    simp only [directNumbers, Option.some.injEq, Prod.mk.injEq] at h
    obtain ⟨rfl, rfl⟩ := h
    refine ⟨by omega, List.nodup_singleton _, fun seq hs => ?_⟩
    rw [List.mem_singleton] at hs
    omega
  | allocateBatch tenantId conversationId =>
    simp only [directNumbers, Option.some.injEq, Prod.mk.injEq] at h
    obtain ⟨rfl, rfl⟩ := h
    refine ⟨by omega, List.nodup_range', fun seq hs => ?_⟩
    rw [List.mem_range'_1] at hs
    omega

theorem separate_direct (h : Separate setup state) {answered : Bool}
    (hs : directAllocate setup state call answered = some next) : Separate setup next := by
  unfold directAllocate at hs
  split at hs
  · rename_i hw
    obtain ⟨numbers, hn, hc⟩ := Option.bind_eq_some_iff.mp hs
    obtain ⟨counted, hset, rfl⟩ := Option.map_eq_some_iff.mp hc
    obtain ⟨-, rfl⟩ := setCounter_eq_some.mp hset
    obtain ⟨hv, hno, hr⟩ := directNumbers_spec hn
    have ha : Separate setup (if answered then
        numbers.2.foldl (fun state seq => state.handOut setup call seq none)
          { state with counter := update state.counter (setup.call call).key numbers.1 }
        else
          { state with
            counter := update state.counter (setup.call call).key numbers.1 }) := by
      cases answered with
      | false => exact h.count hv
      | true =>
        apply (h.count hv).handOutAll _ hno
        intro seq hse
        exact h.loose_above (hr seq hse).1 (hr seq hse).2
    refine ha.shrink ?_ ?_ ?_
    · rfl
    · intro key
      exact Nat.le_refl _
    intro key seq holder hre
    cases holder with
    | inl process => exact hre
    | inr other =>
      obtain ⟨hk, sampled, token, start, end_, hp, hr⟩ := hre
      simp only [State.move] at hp
      by_cases ho : other = call
      · subst ho
        simp at hp
      · rw [update_of_ne ho] at hp
        exact ⟨hk, sampled, token, start, end_, hp, hr⟩
  · cases hs

theorem Separate.reserve (h : Separate setup state) (place : Nat ⊕ Nat)
    (hh : next.handed = state.handed) (hc : ∀ key, state.counter key ≤ next.counter key)
    (hr : ∀ key seq holder, Reserved setup next key seq holder →
      Reserved setup state key seq holder ∨
        (holder = place ∧ state.counter key < seq ∧ seq ≤ next.counter key)) :
    Separate setup next where
  handed hen := Nat.le_trans (h.handed (hh ▸ hen)) (hc _)
  counted hre := by
    rcases hr _ _ _ hre with hold | hn
    · exact Nat.le_trans (h.counted hold) (hc _)
    · exact hn.2.2
  fresh {key seq holder} hre entry hen hk := by
    rw [hh] at hen
    rcases hr _ _ _ hre with hold | hn
    · exact h.fresh hold hen hk
    · have hle := h.handed hen
      rw [hk] at hle
      omega
  apart hre ho := by
    rcases hr _ _ _ hre with hold | hn <;> rcases hr _ _ _ ho with hold' | hn'
    · exact h.apart hold hold'
    · have := h.counted hold
      omega
    · have := h.counted hold'
      omega
    · rw [hn.1, hn'.1]
  nodup := by
    rw [hh]
    exact h.nodup

theorem reserved_of_move {phase : Phase}
    (hp : ∀ sampled token start end_, phase ≠ .replied sampled (.granted token start end_))
    {holder : Nat ⊕ Nat}
    (h : Reserved setup (state.move call phase) key seq holder) :
    Reserved setup state key seq holder ∧ holder ≠ .inr call := by
  cases holder with
  | inl process => exact ⟨h, by simp⟩
  | inr other =>
    obtain ⟨hk, sampled, token, start, end_, hf, hr⟩ := h
    simp only [State.move] at hf
    by_cases ho : other = call
    · subst ho
      rw [update_self] at hf
      exact absurd hf (hp _ _ _ _)
    · rw [update_of_ne ho] at hf
      exact ⟨⟨hk, sampled, token, start, end_, hf, hr⟩, by simpa using ho⟩

theorem reserved_of_setWindow {conv : String} {window : Option ConvState}
    {holder : Nat ⊕ Nat}
    (h : Reserved setup (state.setWindow process conv window) key seq holder) :
    (Reserved setup state key seq holder ∧ (holder = .inl process → key ≠ conv)) ∨
      (holder = .inl process ∧ key = conv ∧ ∃ found, window = some found ∧
        found.segment.next ≤ seq ∧ seq ≤ found.segment.end_) := by
  cases holder with
  | inl other =>
    obtain ⟨found, hf, hr⟩ := h
    simp only [State.setWindow] at hf
    by_cases ho : other = process
    · subst ho
      rw [update_self] at hf
      by_cases hk : key = conv
      · subst hk
        rw [update_self] at hf
        exact .inr ⟨rfl, rfl, found, hf, hr⟩
      · rw [update_of_ne hk] at hf
        exact .inl ⟨⟨found, hf, hr⟩, fun _ => hk⟩
    · rw [update_of_ne ho] at hf
      refine .inl ⟨⟨found, hf, hr⟩, fun hs => ?_⟩
      simp only [Sum.inl.injEq] at hs
      exact absurd hs ho
  | inr call => exact .inl ⟨h, by simp⟩

theorem separate_lock (h : Separate setup state) (hk : (setup.call call).key = key)
    (hs : lockAllocate setup state call process key = some next) : Separate setup next := by
  unfold lockAllocate at hs
  split at hs
  · rename_i sampled hp hlo
    split at hs
    · rename_i window seq segment hfa
      obtain ⟨hw, -, hle, rfl, rfl⟩ := fastPath_eq_some hfa
      cases hs
      have hre : Reserved setup state key window.segment.next (.inl process) :=
        ⟨window, hw, Nat.le_refl _, hle⟩
      have hsu : ∀ other number holder,
          Reserved setup (state.setWindow process key (some { window with
            segment := ⟨window.segment.next + 1, window.segment.end_⟩ })) other number holder →
          Reserved setup state other number holder ∧
            (other = key → number ≠ window.segment.next) := by
        intro other number holder hr
        rcases reserved_of_setWindow hr with ⟨hold, hh⟩ | ⟨rfl, rfl, found, hf, hra⟩
        · refine ⟨hold, ?_⟩
          rintro rfl rfl
          exact hh (h.apart hold hre) rfl
        · cases hf
          simp only at hra
          exact ⟨⟨window, hw, by omega, hra.2⟩, fun _ => by omega⟩
      have hwi : Separate setup (state.setWindow process key (some { window with
          segment := ⟨window.segment.next + 1, window.segment.end_⟩ })) := by
        refine h.shrink ?_ ?_ ?_
        · rfl
        · intro other
          exact Nat.le_refl _
        · intro other number holder hr
          exact (hsu other number holder hr).1
      have hl : Loose setup (state.setWindow process key (some { window with
          segment := ⟨window.segment.next + 1, window.segment.end_⟩ })) (setup.call call).key
          window.segment.next := by
        rw [hk]
        exact
          { counted := h.counted hre
            fresh := fun hen hsa => h.fresh hre hen hsa
            free := fun holder hr => (hsu _ _ holder hr).2 rfl rfl }
      refine (hwi.handOut (some window.localValidUntil) hl).shrink ?_ ?_ ?_
      · rfl
      · intro other
        exact Nat.le_refl _
      · intro other number holder hr
        exact (reserved_of_move (by simp) hr).1
    · cases hs
      refine h.shrink ?_ ?_ ?_
      · rfl
      · intro other
        exact Nat.le_refl _
      · intro other number holder hr
        have hm : Reserved setup (state.move call (.refilling sampled
            ((state.windows process key).map (·.fencingToken)))) other number holder := by
          cases holder <;> exact hr
        exact (reserved_of_move (by simp) hm).1
  · cases hs

theorem Refill.unchanged (h : Refill setup state index key next outcome) :
    next.handed = state.handed ∧ next.began = state.began ∧ next.now = state.now ∧
      next.status = state.status ∧ next.running = state.running ∧
      next.windows = state.windows ∧ next.lock = state.lock ∧ next.phases = state.phases ∧
      (∀ other, state.counter other ≤ next.counter other) ∧
      (outcome = .notOwner ∨ ∃ token, outcome =
        .granted token (state.counter key + 1) (next.counter key)) := by
  have hle : ∀ other, state.counter other ≤ update state.counter key
      (state.counter key + (setup.node index).segment) other := by
    intro other
    by_cases ho : other = key
    · subst ho
      rw [update_self]
      omega
    · exact Nat.le_of_eq (update_of_ne ho ..).symm
  cases h with
  | refused hn hou =>
    subst hn
    exact ⟨rfl, rfl, rfl, rfl, rfl, rfl, rfl, rfl, fun _ => Nat.le_refl _, .inl hou⟩
  | extended lease _ _ hn hou =>
    subst hn
    refine ⟨rfl, rfl, rfl, rfl, rfl, rfl, rfl, rfl, hle, ?_⟩
    simpa using hou
  | taken _ token hn hou =>
    subst hn
    refine ⟨rfl, rfl, rfl, rfl, rfl, rfl, rfl, rfl, hle, .inr ⟨token, ?_⟩⟩
    simpa using hou

theorem separate_refill (h : Separate setup state)
    (hk : (setup.call call).key = key) {refilled : State}
    (hrf : Refill setup state index key refilled outcome) {phase : Phase}
    (hp : ∀ sampled token start end_, phase = .replied sampled (.granted token start end_) →
      outcome = .granted token start end_) : Separate setup (refilled.move call phase) := by
  obtain ⟨hh, -, -, -, -, hw, -, hph, hco, hg⟩ := hrf.unchanged
  refine h.reserve (.inr call) hh hco ?_
  intro other seq holder hrs
  cases holder with
  | inl process =>
    obtain ⟨window, hwi, hr⟩ := hrs
    exact .inl ⟨window, hw ▸ hwi, hr⟩
  | inr caller =>
    obtain ⟨hc, sampled, token, start, end_, hf, hr⟩ := hrs
    simp only [State.move] at hf
    by_cases hs : caller = call
    · subst hs
      rw [update_self] at hf
      have ho := hp _ _ _ _ hf
      rcases hg with hre | ⟨token', hg⟩
      · rw [hre] at ho
        cases ho
      · rw [hg, LeaseOutcome.granted.injEq] at ho
        obtain ⟨-, rfl, rfl⟩ := ho
        obtain rfl : key = other := hk.symm.trans hc
        exact .inr ⟨rfl, by omega, hr.2⟩
    · rw [update_of_ne hs, hph] at hf
      exact .inl ⟨hc, sampled, token, start, end_, hf, hr⟩

theorem separate_script (h : Separate setup state) (hk : (setup.call call).key = key)
    (hs : scriptAllocate setup state call process key = some next) : Separate setup next := by
  unfold scriptAllocate at hs
  split at hs
  · obtain ⟨result, hr, rfl⟩ := Option.map_eq_some_iff.mp hs
    apply separate_refill h hk (leaseRefill_cases hr)
    intro sampled token start end_ hp
    simp only [Phase.replied.injEq] at hp
    exact hp.2
  · obtain ⟨result, hr, rfl⟩ := Option.map_eq_some_iff.mp hs
    apply separate_refill h hk (leaseRefill_cases hr)
    intro sampled token start end_ hp
    cases hp
  · cases hs

theorem separate_dropWindow (h : Separate setup state) :
    Separate setup (((state.setWindow process key none).move call .finished).unlock process) := by
  refine h.shrink ?_ ?_ ?_
  · rfl
  · intro other
    exact Nat.le_refl _
  · intro other seq holder hr
    have hm : Reserved setup ((state.setWindow process key none).move call .finished) other
        seq holder := by
      cases holder <;> exact hr
    rcases reserved_of_setWindow (reserved_of_move (by simp) hm).1 with hold | hn
    · exact hold.1
    · obtain ⟨-, -, found, hf, -⟩ := hn
      cases hf

theorem separate_reply (h : Separate setup state) (hk : (setup.call call).key = key)
    (hs : replyAllocate setup state call process key = some next) : Separate setup next := by
  unfold replyAllocate at hs
  split at hs
  · rename_i sampled token start end_ hp
    split at hs
    · rename_i seq segment ht
      obtain ⟨hle, hsq, hrt⟩ := takeNext_eq_some.mp ht
      simp only at hle hsq hrt
      subst hsq hrt
      cases hs
      have hr : ∀ number, seq ≤ number → number ≤ end_ →
          Reserved setup state key number (.inr call) := by
        intro number hl hh
        exact ⟨hk, sampled, token, seq, end_, hp, hl, hh⟩
      generalize hde : sampled + (setup.nodeOf process).validFor = deadline
      -- the state in which the first number is neither in the answer nor in the window
      generalize hw : ((state.setWindow process key
        (some ⟨⟨seq + 1, end_⟩, token, deadline⟩)).move call .finished).unlock process = windowed
      have hsu : ∀ other number holder, Reserved setup windowed other number holder →
          (Reserved setup state other number holder ∧ holder ≠ .inr call) ∨
            (holder = .inl process ∧ other = key ∧ seq < number ∧ number ≤ end_) := by
        intro other number holder hre
        rw [← hw] at hre
        have hm : Reserved setup ((state.setWindow process key
            (some ⟨⟨seq + 1, end_⟩, token, deadline⟩)).move call .finished) other number
            holder := by
          cases holder <;> exact hre
        obtain ⟨hset, hc⟩ := reserved_of_move (by simp) hm
        rcases reserved_of_setWindow hset with hold | ⟨hho, ho, found, hf, hra⟩
        · exact .inl ⟨hold.1, hc⟩
        · cases hf
          simp only at hra
          exact .inr ⟨hho, ho, by omega, hra.2⟩
      have hse : Separate setup windowed := by
        have hha : windowed.handed = state.handed := by
          rw [← hw]
          rfl
        have hco : windowed.counter = state.counter := by
          rw [← hw]
          rfl
        exact
          { handed := fun hen => by
              rw [hco]
              exact h.handed (hha ▸ hen)
            counted := fun hre => by
              rw [hco]
              rcases hsu _ _ _ hre with hold | ⟨-, rfl, hl, hh⟩
              · exact h.counted hold.1
              · exact h.counted (hr _ (by omega) hh)
            fresh := fun {_ _ _} hre {_} hen hsa => by
              rw [hha] at hen
              rcases hsu _ _ _ hre with hold | ⟨-, rfl, hl, hh⟩
              · exact h.fresh hold.1 hen hsa
              · exact h.fresh (hr _ (by omega) hh) hen hsa
            apart := fun {other number holder holder'} hre hre' => by
              rcases hsu _ _ _ hre with hold | ⟨rfl, rfl, hl, hh⟩ <;>
                rcases hsu _ _ _ hre' with hold' | ⟨rfl, hsa, hl', hh'⟩
              · exact h.apart hold.1 hold'.1
              · subst hsa
                exact absurd (h.apart hold.1 (hr _ (by omega) hh')) hold.2
              · exact absurd (h.apart hold'.1 (hr _ (by omega) hh)) hold'.2
              · rfl
            nodup := by
              rw [hha]
              exact h.nodup }
      have hlo : Loose setup windowed (setup.call call).key seq := by
        rw [hk]
        have hha : windowed.handed = state.handed := by
          rw [← hw]
          rfl
        exact
          { counted := by
              rw [← hw]
              exact h.counted (hr seq (Nat.le_refl _) hle)
            fresh := fun hen hsa =>
              h.fresh (hr seq (Nat.le_refl _) hle) (hha ▸ hen) hsa
            free := fun holder hre => by
              rcases hsu _ _ _ hre with hold | ⟨-, -, hl, -⟩
              · exact hold.2 (h.apart hold.1 (hr seq (Nat.le_refl _) hle))
              · omega }
      have hrs := hse.handOut (some deadline) hlo
      rw [← hw] at hrs
      exact hrs
    · cases hs
      exact separate_dropWindow h
  · cases hs
    exact separate_dropWindow h
  · cases hs

theorem separate_fail (h : Separate setup state)
    (hs : failAllocate state call process = some next) : Separate setup next := by
  have hm : ∀ phase : Phase,
      (∀ sampled token start end_, phase ≠ .replied sampled (.granted token start end_)) →
      ∀ key seq holder, Reserved setup (state.move call phase) key seq holder →
        Reserved setup state key seq holder := by
    intro phase hp key seq holder hr
    exact (reserved_of_move hp hr).1
  unfold failAllocate at hs
  split at hs
  · cases hs
    exact h.shrink rfl (fun _ => Nat.le_refl _) (hm _ (by simp))
  · cases hs
    refine h.shrink rfl (fun _ => Nat.le_refl _) fun key seq holder hr => ?_
    apply hm _ _ key seq holder (by cases holder <;> exact hr)
    simp
  · cases hs
    refine h.shrink rfl (fun _ => Nat.le_refl _) fun key seq holder hr => ?_
    apply hm _ _ key seq holder (by cases holder <;> exact hr)
    simp
  · cases hs

theorem separate_crash (h : Separate setup state)
    (hs : crashProcess setup state process = some next) : Separate setup next := by
  unfold crashProcess at hs
  split at hs
  · cases hs
    refine h.shrink rfl (fun _ => Nat.le_refl _) fun key seq holder hre => ?_
    cases holder with
    | inl other =>
      obtain ⟨window, hw, hr⟩ := hre
      by_cases ho : other = process
      · subst ho
        simp at hw
      · simp only [update_of_ne ho] at hw
        exact ⟨window, hw, hr⟩
    | inr call =>
      obtain ⟨hk, sampled, token, start, end_, hp, hr⟩ := hre
      simp only at hp
      split at hp
      · cases hc : state.phases call <;> simp [hc, Phase.drop] at hp
      · exact ⟨hk, sampled, token, start, end_, hp, hr⟩
  · cases hs

theorem key_of_allocate {tenantId conversationId : String}
    (h : setup.call call = .allocate process tenantId conversationId) :
    (setup.call call).key = convKey tenantId conversationId := by
  rw [h]
  rfl

theorem separate_step (h : Separate setup state) {action : Action}
    (hs : step setup state action = some next) : Separate setup next := by
  have hsa : ∀ other : State, other.handed = state.handed → other.counter = state.counter →
      other.windows = state.windows → other.phases = state.phases → Separate setup other := by
    intro other hh hco hw hp
    refine h.shrink hh (fun key => Nat.le_of_eq (by rw [hco])) fun key seq holder hr => ?_
    cases holder with
    | inl process =>
      simp only [Reserved] at hr ⊢
      rwa [hw] at hr
    | inr call =>
      simp only [Reserved] at hr ⊢
      rwa [hp] at hr
  cases action with
  | tick elapsed | expire key =>
    cases hs
    exact hsa _ rfl rfl rfl rfl
  | start process =>
    simp only [step, startProcess] at hs
    split at hs
    · cases hs
      exact hsa _ rfl rfl rfl rfl
    · cases hs
  | crash process => exact separate_crash h hs
  | begin_ call =>
    simp only [step] at hs
    obtain ⟨process, tenantId, conversationId, -, hb⟩ := onAllocate_eq_some hs
    unfold beginAllocate at hb
    split at hb
    · cases hb
      refine h.shrink rfl (fun _ => Nat.le_refl _) fun key seq holder hr => ?_
      have hm : Reserved setup (state.move call (.locking state.now)) key seq holder := by
        cases holder <;> exact hr
      exact (reserved_of_move (by simp) hm).1
    · cases hb
  | lock call =>
    obtain ⟨process, tenantId, conversationId, hc, hl⟩ := onAllocate_eq_some hs
    exact separate_lock h (key_of_allocate hc) hl
  | script call =>
    obtain ⟨process, tenantId, conversationId, hc, hsc⟩ := onAllocate_eq_some hs
    exact separate_script h (key_of_allocate hc) hsc
  | reply call =>
    obtain ⟨process, tenantId, conversationId, hc, hre⟩ := onAllocate_eq_some hs
    exact separate_reply h (key_of_allocate hc) hre
  | fail call =>
    simp only [step] at hs
    obtain ⟨process, tenantId, conversationId, -, hf⟩ := onAllocate_eq_some hs
    exact separate_fail h hf
  | direct call answered => exact separate_direct h hs

-- In no run do two allocations of one conversation return the same number.
def NeverHandsOutTwice (setup : Setup) : Prop :=
  ∀ actions state, Run (step setup) anyStep initial actions state →
    ∀ tenantId conversationId, ((state.handed.filter fun entry =>
      entry.tenantId = tenantId ∧ entry.conversationId = conversationId).map
        (·.seq)).Nodup

theorem never_hands_out_twice (setup : Setup) : NeverHandsOutTwice setup := by
  intro actions state hrun tenantId conversationId
  have hseparate : Separate setup state :=
    hrun.preserves (Separate setup) (fun _ _ _ hinv _ hstep => separate_step hinv hstep)
      separate_initial
  have hfiltered : ((state.handed.filter fun entry =>
      entry.tenantId = tenantId ∧ entry.conversationId = conversationId).map
        fun entry => (entry.key, entry.seq)).Nodup :=
    hseparate.nodup.sublist (List.filter_sublist.map _)
  apply List.Nodup.map_on
  · intro entry hentry other hother hseq
    have hinj := List.inj_on_of_nodup_map hfiltered
    rw [List.mem_filter, decide_eq_true_eq] at hentry hother
    apply hinj
    · exact List.mem_filter.mpr ⟨hentry.1, decide_eq_true hentry.2⟩
    · exact List.mem_filter.mpr ⟨hother.1, decide_eq_true hother.2⟩
    · rw [Handed.key, Handed.key, hentry.2.1, hentry.2.2, hother.2.1, hother.2.2, hseq]
  · exact hfiltered.of_map _

end Uniqueness

end FlareIm.SequenceLease
