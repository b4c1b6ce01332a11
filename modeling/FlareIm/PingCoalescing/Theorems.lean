import FlareIm.PingCoalescing
import Mathlib.Tactic.Common

namespace FlareIm.PingCoalescing

open Transition
open Function (update update_apply)

variable {Key Event Options : Type}

def Table.pendingAt (table : Table Key Event Options) (key : Key) :
    Option (PushEventRequest Event Options) :=
  (table.entries key).bind (·.pending)

-- What the two components have in common: merging keeps the higher number, and a ping that
-- may wait is sent with its number.
structure Lawful (component : Component Key Event Options) where
  good : PushEventRequest Event Options → Prop
  pendingOf_seq (request : PushEventRequest Event Options) :
    (component.pendingOf request).maxConversationSeq = request.maxConversationSeq
  good_pendingOf {key : Key} {request : PushEventRequest Event Options}
    (h : component.asks key request = true) : good (component.pendingOf request)
  merge_seq (existing incoming : PushEventRequest Event Options) :
    (component.merge existing incoming).maxConversationSeq =
      max existing.maxConversationSeq incoming.maxConversationSeq
  good_merge {existing incoming : PushEventRequest Event Options} (hexisting : good existing)
    (hincoming : good incoming) : good (component.merge existing incoming)
  sends_of_good {pending : PushEventRequest Event Options} (h : good pending) :
    component.sends pending = some pending.maxConversationSeq

section Lawful

variable (ping : Int) (window : Nat)

theorem pureConversationPing_eq_some {request : PushEventRequest Event Options}
    {conversationId : String} {seq : Nat} :
    pureConversationPing ping request = some (conversationId, seq) ↔
      request.events = [] ∧ Text.isBlank request.conversationId = false ∧
        request.maxConversationSeq ≠ 0 ∧ request.deliveryMode = ping ∧
        request.conversationId = conversationId ∧ request.maxConversationSeq = seq := by
  unfold pureConversationPing
  by_cases hev : request.events = []
  · by_cases hb : Text.isBlank request.conversationId = true
    · simp [hev, hb]
    · by_cases hs : request.maxConversationSeq = 0
      · simp [hs]
      · by_cases hm : request.deliveryMode = ping <;> simp [hev, hb, hs, hm]
  · simp [hev]

-- A ping waits with no events, under its conversation, with a number and as a ping, so it
-- passes the router's second check.
def coalescerLawful :
    Lawful (conversationPingCoalescer ping window :
      Component ConversationPingCoalesceKey Event Options) where
  good pending := pending.events = [] ∧ Text.isBlank pending.conversationId = false ∧
    pending.maxConversationSeq ≠ 0 ∧ pending.deliveryMode = ping
  pendingOf_seq _ := rfl
  good_pendingOf {key request} h := by
    simp only [conversationPingCoalescer, Bool.and_eq_true, beq_iff_eq] at h
    obtain ⟨⟨conversationId, seq⟩, hpure⟩ := Option.isSome_iff_exists.mp h.1
    obtain ⟨-, hblank, hseq, -⟩ := (pureConversationPing_eq_some ping).mp hpure
    exact ⟨rfl, hblank, hseq, rfl⟩
  merge_seq _ _ := rfl
  good_merge {existing incoming} hexisting _ := by
    obtain ⟨-, hblank, hseq, -⟩ := hexisting
    refine ⟨rfl, hblank, ?_, rfl⟩
    change max existing.maxConversationSeq incoming.maxConversationSeq ≠ 0
    omega
  sends_of_good {pending} h := by
    obtain ⟨hevents, hblank, hseq, hmode⟩ := h
    have hpure := (pureConversationPing_eq_some ping).mpr
      ⟨hevents, hblank, hseq, hmode, rfl, rfl⟩
    simp [conversationPingCoalescer, hpure]

def debouncerLawful :
    Lawful (conversationPingDebouncer ping window :
      Component PingDebounceKey Event Options) where
  good _ := True
  pendingOf_seq _ := rfl
  good_pendingOf _ := trivial
  merge_seq _ _ := rfl
  good_merge _ _ := trivial
  sends_of_good _ := rfl

end Lawful

section Entries

variable (component : Component Key Event Options) (table : Table Key Event Options)

theorem pendingAt_of_entry {key : Key} {entry : Entry Event Options}
    (h : table.entries key = some entry) : table.pendingAt key = entry.pending := by
  simp [Table.pendingAt, h]

theorem isIdle_iff {entry : Entry Event Options} {now window : Nat} :
    entry.isIdle now window = true ↔
      entry.scheduled = false ∧ entry.pending = none ∧ window ≤ now - entry.lastSent := by
  simp [Entry.isIdle, and_assoc]

theorem entries_of_sweep {now : Nat} {key : Key} {entry : Entry Event Options}
    (h : (sweep component table now).entries key = some entry) :
    table.entries key = some entry := by
  unfold sweep at h
  split at h
  · exact h
  · split at h
    · exact (Option.filter_eq_some_iff.mp h).1
    · exact h

theorem sweep_keeps {now : Nat} {key : Key} {entry : Entry Event Options}
    (hen : table.entries key = some entry) (hb : entry.isIdle now component.window = false) :
    (sweep component table now).entries key = some entry := by
  unfold sweep
  split
  · exact hen
  · split
    · simp [Table.dropIdle, hen, hb]
    · exact hen

@[simp] theorem pendingAt_sweep (now : Nat) (key : Key) :
    (sweep component table now).pendingAt key = table.pendingAt key := by
  cases hen : table.entries key with
  | none =>
    have hsw : (sweep component table now).entries key = none := by
      cases hs : (sweep component table now).entries key with
      | none => rfl
      | some entry => simp [entries_of_sweep component table hs] at hen
    simp [Table.pendingAt, hen, hsw]
  | some entry =>
    by_cases hil : entry.isIdle now component.window = true
    · have hn := (isIdle_iff.mp hil).2.1
      cases hs : (sweep component table now).entries key with
      | none => simp [Table.pendingAt, hen, hs, hn]
      | some left =>
        have hsa := entries_of_sweep component table hs
        simp [Table.pendingAt, hsa, hs]
    · have hsw := sweep_keeps component table hen (by simpa using hil)
      simp [Table.pendingAt, hen, hsw]

theorem hold_pending_seq (lawful : Lawful component) (entry : Entry Event Options)
    (pending : PushEventRequest Event Options) :
    ∃ held, (entry.hold component pending).pending = some held ∧
      pending.maxConversationSeq ≤ held.maxConversationSeq ∧
      ∀ existing, entry.pending = some existing →
        existing.maxConversationSeq ≤ held.maxConversationSeq := by
  cases hen : entry.pending with
  | none => exact ⟨pending, by simp [Entry.hold, hen], le_rfl, by simp⟩
  | some existing =>
    refine ⟨component.merge existing pending, by simp [Entry.hold, hen], ?_, ?_⟩
    · rw [lawful.merge_seq]
      exact Nat.le_max_right _ _
    · intro other ho
      cases ho
      rw [lawful.merge_seq]
      exact Nat.le_max_left _ _

theorem good_hold (lawful : Lawful component) {entry : Entry Event Options}
    {pending held : PushEventRequest Event Options} (hp : lawful.good pending)
    (hen : ∀ existing, entry.pending = some existing → lawful.good existing)
    (hh : (entry.hold component pending).pending = some held) : lawful.good held := by
  cases hw : entry.pending with
  | none =>
    simp only [Entry.hold, hw, Option.some.injEq] at hh
    exact hh ▸ hp
  | some existing =>
    simp only [Entry.hold, hw, Option.some.injEq] at hh
    exact hh ▸ lawful.good_merge (hen existing hw) hp

variable [DecidableEq Key]

-- The two outcomes of `observe`: the ping goes out and the entry starts again, or the ping waits
-- in the entry.
theorem observe_cases (hw : component.window ≠ 0) (now : Nat) (key : Key)
    (pending : PushEventRequest Event Options) :
    ((∀ entry, table.entries key = some entry → component.window ≤ now - entry.lastSent) ∧
      observe component table now key pending =
        ({ sweep component table now with
          entries := update (sweep component table now).entries key
            (some (freshEntry now)) }, .sendNow)) ∨
    (∃ entry, table.entries key = some entry ∧ ¬ component.window ≤ now - entry.lastSent ∧
      observe component table now key pending =
        ({ sweep component table now with
          entries := update (sweep component table now).entries key
            (some (entry.hold component pending)) },
          if entry.scheduled then .suppressed
          else .scheduleAfter (component.window - (now - entry.lastSent)))) := by
  unfold observe
  rw [if_neg hw]
  cases hen : table.entries key with
  | none =>
    have hsw : (sweep component table now).entries key = none := by
      cases hs : (sweep component table now).entries key with
      | none => rfl
      | some entry => simp [entries_of_sweep component table hs] at hen
    left
    simp [hsw, observeEntry]
  | some entry =>
    by_cases hel : component.window ≤ now - entry.lastSent
    · left
      refine ⟨fun other ho => Option.some.inj ho ▸ hel, ?_⟩
      cases hs : (sweep component table now).entries key with
      | none => simp [hs, observeEntry]
      | some left =>
        have hsa := entries_of_sweep component table hs
        obtain rfl : entry = left := Option.some.inj (hen.symm.trans hsa)
        simp [hs, observeEntry, hel]
    · right
      have hb : entry.isIdle now component.window = false := by
        rw [Bool.eq_false_iff]
        exact fun hil => hel (isIdle_iff.mp hil).2.2
      refine ⟨entry, rfl, hel, ?_⟩
      simp [sweep_keeps component table hen hb, observeEntry, hel]

theorem pendingAt_update (key other : Key) (entry : Entry Event Options) (lastSweep : Nat) :
    Table.pendingAt { entries := update table.entries key (some entry), lastSweep } other =
      if other = key then entry.pending else table.pendingAt other := by
  by_cases h : other = key
  · subst h
    simp [Table.pendingAt]
  · simp [Table.pendingAt, h]

end Entries

section Progress

variable [DecidableEq Key] (component : Component Key Event Options)

-- No ping is lost: what was observed and is not covered by what was sent is waiting.
structure Covered (lawful : Lawful component) (state : State Key Event Options) : Prop where
  good {key : Key} {pending : PushEventRequest Event Options}
    (h : state.table.pendingAt key = some pending) : lawful.good pending
  reached {key : Key} {seq : Nat} (h : (key, seq) ∈ state.observed) :
    (∃ pending, state.table.pendingAt key = some pending ∧ seq ≤ pending.maxConversationSeq) ∨
      ∃ top, (key, top) ∈ state.sent ∧ seq ≤ top

-- An entry that waits has its timer.
structure Armed (state : State Key Event Options) : Prop where
  scheduled {key : Key} {entry : Entry Event Options}
    (hentry : state.table.entries key = some entry) (hpending : entry.pending ≠ none) :
    entry.scheduled = true
  timer {key : Key} {entry : Entry Event Options}
    (hentry : state.table.entries key = some entry) (hscheduled : entry.scheduled = true) :
    ∃ due, (key, due) ∈ state.timers

-- A ping that meets an expired window before the timer of a waiting one carries at least its
-- number, or a ping with at least that number was sent before.
def InOrder (state : State Key Event Options) : Action Key Event Options → Prop
  | .observe key request now =>
    ∀ entry pending, state.table.entries key = some entry → entry.pending = some pending →
      component.window ≤ now - entry.lastSent →
      pending.maxConversationSeq ≤ request.maxConversationSeq ∨
        ∃ top, (key, top) ∈ state.sent ∧ pending.maxConversationSeq ≤ top
  | .takePending _ _ _ => True

theorem step_observe {state next : State Key Event Options} {key : Key}
    {request : PushEventRequest Event Options} {now : Nat}
    (hs : step component state (.observe key request now) = some next) :
    state.clock ≤ now ∧ component.asks key request = true ∧
      next = dispatch component state key request now := by
  simp only [step] at hs
  split at hs
  · rename_i h
    exact ⟨h.1, h.2, (Option.some.inj hs).symm⟩
  · cases hs

theorem step_takePending {state next : State Key Event Options} {key : Key} {due now : Nat}
    (hs : step component state (.takePending key due now) = some next) :
    state.clock ≤ now ∧ due ≤ now ∧ (key, due) ∈ state.timers ∧
      next = fire component state key due now := by
  simp only [step] at hs
  split at hs
  · rename_i h
    exact ⟨h.1, h.2.1, h.2.2, (Option.some.inj hs).symm⟩
  · cases hs

theorem covered_observe (lawful : Lawful component) {state : State Key Event Options} {key : Key}
    {request : PushEventRequest Event Options} {now : Nat}
    (h : Covered component lawful state) (ha : component.asks key request = true)
    (hok : InOrder component state (.observe key request now)) :
    Covered component lawful (dispatch component state key request now) := by
  by_cases hwi : component.window = 0
  -- without a window every ping goes out and the table stays as it is
  · have ho : observe component state.table now key (component.pendingOf request) =
        (state.table, .sendNow) := by
      simp [observe, hwi]
    constructor
    · intro other pending hp
      simp only [dispatch, ho] at hp
      exact h.good hp
    · intro other seq hm
      simp only [dispatch, ho, Decision.sent, List.mem_cons, Prod.mk.injEq,
        List.cons_append, List.nil_append] at hm ⊢
      rcases hm with ⟨rfl, rfl⟩ | hold
      · exact .inr ⟨_, .inl ⟨rfl, rfl⟩, le_rfl⟩
      · rcases h.reached hold with hw | ⟨top, ht, hle⟩
        · exact .inl hw
        · exact .inr ⟨top, .inr ht, hle⟩
  · rcases observe_cases component state.table hwi now key (component.pendingOf request) with
      ⟨hep, ho⟩ | ⟨entry, hen, -, ho⟩
    · constructor
      · intro other pending hp
        simp only [dispatch, ho, pendingAt_update, pendingAt_sweep] at hp
        split at hp
        · simp [freshEntry] at hp
        · exact h.good hp
      · intro other seq hm
        simp only [dispatch, ho, pendingAt_update, pendingAt_sweep, Decision.sent,
          List.mem_cons, Prod.mk.injEq, List.cons_append, List.nil_append] at hm ⊢
        rcases hm with ⟨rfl, rfl⟩ | hold
        · exact .inr ⟨_, .inl ⟨rfl, rfl⟩, le_rfl⟩
        · rcases h.reached hold with ⟨pending, hw, hle⟩ | ⟨top, ht, hle⟩
          · by_cases hk : other = key
            -- the waiting ping is dropped here
            · subst hk
              obtain ⟨entry, hen, hp⟩ := Option.bind_eq_some_iff.mp hw
              rcases hok entry pending hen hp (hep entry hen) with hup | hs
              · exact .inr ⟨_, .inl ⟨rfl, rfl⟩, le_trans hle hup⟩
              · obtain ⟨top, ht, hup⟩ := hs
                exact .inr ⟨top, .inr ht, le_trans hle hup⟩
            · rw [if_neg hk]
              exact .inl ⟨pending, hw, hle⟩
          · exact .inr ⟨top, .inr ht, hle⟩
    · obtain ⟨held, hh, hin, hei⟩ :=
        hold_pending_seq component lawful entry (component.pendingOf request)
      rw [lawful.pendingOf_seq] at hin
      have hg : ∀ existing, entry.pending = some existing → lawful.good existing :=
        fun existing hw => h.good ((pendingAt_of_entry state.table hen).trans hw)
      constructor
      · intro other pending hp
        simp only [dispatch, ho, pendingAt_update, pendingAt_sweep] at hp
        split at hp
        · exact good_hold component lawful (lawful.good_pendingOf ha) hg hp
        · exact h.good hp
      · intro other seq hm
        simp only [dispatch, ho, pendingAt_update, pendingAt_sweep, List.mem_cons,
          Prod.mk.injEq, List.mem_append] at hm ⊢
        by_cases hk : other = key
        · subst hk
          simp only [if_true]
          rcases hm with ⟨-, rfl⟩ | hold
          · exact .inl ⟨held, hh, hin⟩
          · rcases h.reached hold with ⟨pending, hw, hle⟩ | ⟨top, ht, hle⟩
            · have hp : entry.pending = some pending :=
                (pendingAt_of_entry state.table hen).symm.trans hw
              exact .inl ⟨held, hh, le_trans hle (hei pending hp)⟩
            · exact .inr ⟨top, .inr ht, hle⟩
        · rw [if_neg hk]
          rcases hm with ⟨hsa, -⟩ | hold
          · exact absurd hsa hk
          · rcases h.reached hold with hw | ⟨top, ht, hle⟩
            · exact .inl hw
            · exact .inr ⟨top, .inr ht, hle⟩

theorem covered_takePending (lawful : Lawful component) {state : State Key Event Options}
    {key : Key} {due now : Nat} (h : Covered component lawful state) :
    Covered component lawful (fire component state key due now) := by
  cases hen : state.table.entries key with
  | none =>
    have ht : takePending state.table now key = (state.table, none) := by
      simp [takePending, hen]
    constructor
    · intro other pending hp
      simp only [fire, ht] at hp
      exact h.good hp
    · intro other seq hm
      simp only [fire, ht] at hm ⊢
      exact h.reached hm
  | some entry =>
    have ht : takePending state.table now key =
        ({ state.table with
          entries := update state.table.entries key (some (entry.take now)) },
          entry.pending) := by
      simp [takePending, hen]
    constructor
    · intro other pending hp
      simp only [fire, ht, pendingAt_update] at hp
      split at hp
      · simp [Entry.take] at hp
      · exact h.good hp
    · intro other seq hm
      simp only [fire, ht, pendingAt_update, List.mem_append] at hm ⊢
      rcases h.reached hm with ⟨pending, hw, hle⟩ | ⟨top, hto, hle⟩
      · by_cases hk : other = key
        -- what the timer takes is sent with its number
        · subst hk
          have hp : entry.pending = some pending :=
            (pendingAt_of_entry state.table hen).symm.trans hw
          have hs := lawful.sends_of_good (h.good hw)
          exact .inr ⟨pending.maxConversationSeq, .inl (by simp [hp, hs]), hle⟩
        · rw [if_neg hk]
          exact .inl ⟨pending, hw, hle⟩
      · exact .inr ⟨top, .inr hto, hle⟩

theorem step_covered (lawful : Lawful component) {state next : State Key Event Options}
    {action : Action Key Event Options} (h : Covered component lawful state)
    (hok : InOrder component state action) (hs : step component state action = some next) :
    Covered component lawful next := by
  cases action with
  | observe key request now =>
    obtain ⟨-, ha, rfl⟩ := step_observe component hs
    exact covered_observe component lawful h ha hok
  | takePending key due now =>
    obtain ⟨-, -, -, rfl⟩ := step_takePending component hs
    exact covered_takePending component lawful h

omit [DecidableEq Key] in
theorem covered_initial (lawful : Lawful component) (start : Nat) :
    Covered component lawful (initial start) where
  good h := by simp [initial, Table.pendingAt] at h
  reached h := by simp [initial] at h

theorem armed_observe {state : State Key Event Options} {key : Key}
    {request : PushEventRequest Event Options} {now : Nat} (h : Armed state) :
    Armed (dispatch component state key request now) := by
  by_cases hw : component.window = 0
  · have ho : observe component state.table now key (component.pendingOf request) =
        (state.table, .sendNow) := by
      simp [observe, hw]
    constructor
    · intro other entry hen hp
      simp only [dispatch, ho] at hen
      exact h.scheduled hen hp
    · intro other entry hen hs
      simp only [dispatch, ho] at hen ⊢
      obtain ⟨due, hdu⟩ := h.timer hen hs
      exact ⟨due, List.mem_append_right _ hdu⟩
  · rcases observe_cases component state.table hw now key (component.pendingOf request) with
      ⟨-, ho⟩ | ⟨entry, hen, -, ho⟩
    · constructor
      · intro other left hl hp
        simp only [dispatch, ho, update_apply] at hl
        split at hl
        · cases hl
          simp [freshEntry] at hp
        · exact h.scheduled (entries_of_sweep component state.table hl) hp
      · intro other left hl hs
        simp only [dispatch, ho, update_apply] at hl ⊢
        split at hl
        · cases hl
          simp [freshEntry] at hs
        · obtain ⟨due, hdu⟩ :=
            h.timer (entries_of_sweep component state.table hl) hs
          exact ⟨due, List.mem_append_right _ hdu⟩
    · constructor
      · intro other left hl hp
        simp only [dispatch, ho, update_apply] at hl
        split at hl
        · cases hl
          rfl
        · exact h.scheduled (entries_of_sweep component state.table hl) hp
      · intro other left hl hs
        simp only [dispatch, ho, update_apply] at hl ⊢
        split at hl
        · rename_i hk
          subst hk
          -- the entry has a timer already, or gets one now
          by_cases hb : entry.scheduled = true
          · obtain ⟨due, hdu⟩ := h.timer hen hb
            exact ⟨due, List.mem_append_right _ hdu⟩
          · rw [if_neg hb]
            exact ⟨_, List.mem_append_left _ List.mem_cons_self⟩
        · obtain ⟨due, hdu⟩ :=
            h.timer (entries_of_sweep component state.table hl) hs
          exact ⟨due, List.mem_append_right _ hdu⟩

theorem armed_takePending {state : State Key Event Options} {key : Key} {due now : Nat}
    (h : Armed state) : Armed (fire component state key due now) := by
  have het : ∀ other entry, (takePending state.table now key).1.entries other = some entry →
      (other ≠ key ∧ state.table.entries other = some entry) ∨
        (entry.scheduled = false ∧ entry.pending = none) := by
    intro other entry hen
    unfold takePending at hen
    split at hen
    · rename_i hn
      refine .inl ⟨?_, hen⟩
      rintro rfl
      simp [hn] at hen
    · simp only [update_apply] at hen
      split at hen
      · cases hen
        exact .inr ⟨rfl, rfl⟩
      · exact .inl ⟨‹_›, hen⟩
  constructor
  · intro other entry hen hp
    rcases het other entry hen with ⟨-, hold⟩ | ⟨-, hn⟩
    · exact h.scheduled hold hp
    · exact absurd hn hp
  · intro other entry hen hs
    rcases het other entry hen with ⟨hne, hold⟩ | ⟨hof, -⟩
    · obtain ⟨left, hl⟩ := h.timer hold hs
      have ho : (other, left) ≠ (key, due) := fun heq => hne (Prod.mk.inj heq).1
      exact ⟨left, (List.mem_erase_of_ne ho).mpr hl⟩
    · simp [hof] at hs

theorem step_armed {state next : State Key Event Options} {action : Action Key Event Options}
    (h : Armed state) (hs : step component state action = some next) : Armed next := by
  cases action with
  | observe key request now =>
    obtain ⟨-, -, rfl⟩ := step_observe component hs
    exact armed_observe component h
  | takePending key due now =>
    obtain ⟨-, -, -, rfl⟩ := step_takePending component hs
    exact armed_takePending component h

omit [DecidableEq Key] in
theorem armed_initial (start : Nat) : Armed (initial start : State Key Event Options) where
  scheduled h := by simp [initial] at h
  timer h := by simp [initial] at h

end Progress

section Alike

variable {window now : Nat} {left right : Option (Entry Event Options)}

-- Two entries that the component treats alike: the same, or one idle and the other dropped.
inductive Alike (window now : Nat) :
    Option (Entry Event Options) → Option (Entry Event Options) → Prop where
  | same (entry : Option (Entry Event Options)) : Alike window now entry entry
  | droppedLeft {entry : Entry Event Options} (h : entry.isIdle now window = true) :
      Alike window now none (some entry)
  | droppedRight {entry : Entry Event Options} (h : entry.isIdle now window = true) :
      Alike window now (some entry) none

theorem Alike.symm (h : Alike window now left right) : Alike window now right left := by
  cases h with
  | same => exact .same _
  | droppedLeft h => exact .droppedRight h
  | droppedRight h => exact .droppedLeft h

theorem Alike.later {later : Nat} (h : Alike window now left right) (hle : now ≤ later) :
    Alike window later left right := by
  have hil : ∀ {entry : Entry Event Options}, entry.isIdle now window = true →
      entry.isIdle later window = true := by
    intro entry h
    obtain ⟨hs, hp, hel⟩ := isIdle_iff.mp h
    exact isIdle_iff.mpr ⟨hs, hp, by omega⟩
  cases h with
  | same => exact .same _
  | droppedLeft h => exact .droppedLeft (hil h)
  | droppedRight h => exact .droppedRight (hil h)

theorem Alike.drop (h : Alike window now left right) :
    Alike window now (left.filter fun entry => !entry.isIdle now window) right := by
  cases h with
  | same =>
    cases left with
    | none => exact .same none
    | some entry =>
      by_cases hil : entry.isIdle now window = true
      · simp only [Option.filter, hil, Bool.not_true, Bool.false_eq_true, if_false]
        exact .droppedLeft hil
      · simp only [Option.filter, hil, Bool.not_false, if_true]
        exact .same _
  | droppedLeft h => exact .droppedLeft h
  | droppedRight h =>
    simp only [Option.filter, h, Bool.not_true, Bool.false_eq_true, if_false]
    exact .same none

theorem Alike.pending_eq (h : Alike window now left right) :
    left.bind (·.pending) = right.bind (·.pending) := by
  cases h with
  | same => rfl
  | droppedLeft h | droppedRight h => simp [(isIdle_iff.mp h).2.1]

theorem Alike.observeEntry_eq {component : Component Key Event Options}
    (h : Alike component.window now left right) (pending : PushEventRequest Event Options) :
    observeEntry component now pending left = observeEntry component now pending right := by
  cases h with
  | same => rfl
  | droppedLeft h | droppedRight h => simp [observeEntry, (isIdle_iff.mp h).2.2]

theorem isIdle_take {entry : Entry Event Options} (h : entry.isIdle now window = true) :
    (entry.take now).isIdle now window = true := by
  obtain ⟨-, hp, hel⟩ := isIdle_iff.mp h
  exact isIdle_iff.mpr ⟨rfl, rfl, by simpa [Entry.take, hp] using hel⟩

theorem Alike.take (h : Alike window now left right) :
    Alike window now (left.map fun entry => entry.take now)
      (right.map fun entry => entry.take now) := by
  cases h with
  | same => exact .same _
  | droppedLeft h => exact .droppedLeft (isIdle_take h)
  | droppedRight h => exact .droppedRight (isIdle_take h)

end Alike

section Keys

variable [DecidableEq Key] (component : Component Key Event Options) {key : Key}

def State.answersOf (state : State Key Event Options) (key : Key) :
    List (Answer Event Options) :=
  (state.answers.filter fun answer => answer.1 = key).map (·.2)

-- Two states that have answered the same for a key and will go on doing so.
structure Same (key : Key) (state other : State Key Event Options) : Prop where
  clock : other.clock ≤ state.clock
  entries : Alike component.window state.clock (state.table.entries key)
    (other.table.entries key)
  timers (due : Nat) : state.timers.count (key, due) = other.timers.count (key, due)
  answers : state.answersOf key = other.answersOf key

omit [DecidableEq Key] in
theorem Alike.sweep {now : Nat} {table : Table Key Event Options}
    {right : Option (Entry Event Options)}
    (h : Alike component.window now (table.entries key) right) :
    Alike component.window now ((sweep component table now).entries key) right := by
  unfold PingCoalescing.sweep
  split
  · exact h
  · split
    · exact h.drop
    · exact h

omit [DecidableEq Key] in
theorem Alike.sweep_both {now : Nat} {table other : Table Key Event Options}
    (h : Alike component.window now (table.entries key) (other.entries key)) :
    Alike component.window now ((PingCoalescing.sweep component table now).entries key)
      ((PingCoalescing.sweep component other now).entries key) :=
  (Alike.sweep component (Alike.sweep component h).symm).symm

theorem observe_alike {now : Nat} {table other : Table Key Event Options}
    (h : Alike component.window now (table.entries key) (other.entries key))
    (pending : PushEventRequest Event Options) :
    (observe component table now key pending).2 = (observe component other now key pending).2 ∧
      Alike component.window now ((observe component table now key pending).1.entries key)
        ((observe component other now key pending).1.entries key) := by
  by_cases hw : component.window = 0
  · simpa [observe, hw] using h
  · have heq := (Alike.sweep_both component h).observeEntry_eq pending
    simp only [observe, hw, if_false, heq, Function.update_self]
    exact ⟨trivial, .same _⟩

theorem observe_other {now : Nat} {table : Table Key Event Options} {acted : Key}
    {right : Option (Entry Event Options)} (hne : acted ≠ key)
    (h : Alike component.window now (table.entries key) right)
    (pending : PushEventRequest Event Options) :
    Alike component.window now ((observe component table now acted pending).1.entries key)
      right := by
  by_cases hw : component.window = 0
  · simpa [observe, hw] using h
  · simp only [observe, hw, if_false, Function.update_of_ne hne.symm]
    exact Alike.sweep component h

theorem takePending_entries (table : Table Key Event Options) (now : Nat) (acted key : Key) :
    (takePending table now acted).1.entries key =
      if key = acted then (table.entries acted).map fun entry => entry.take now
      else table.entries key := by
  unfold takePending
  split
  · rename_i hn
    split
    · rename_i hk
      simp [hk, hn]
    · rfl
  · rename_i entry hen
    by_cases hk : key = acted
    · subst hk
      simp [hen]
    · simp [hk]

theorem takePending_pending (table : Table Key Event Options) (now : Nat) (acted : Key) :
    (takePending table now acted).2 = (table.entries acted).bind (·.pending) := by
  unfold takePending
  split
  · rename_i hn
    simp [hn]
  · rename_i entry hen
    simp [hen]

theorem answersOf_cons {state : State Key Event Options} {acted : Key}
    {answer : Answer Event Options} {before : List (Key × Answer Event Options)}
    (h : state.answers = (acted, answer) :: before) (key : Key) :
    state.answersOf key =
      if acted = key then answer :: (before.filter fun other => other.1 = key).map (·.2)
      else (before.filter fun other => other.1 = key).map (·.2) := by
  by_cases hk : acted = key <;> simp [State.answersOf, h, hk]

theorem count_timer (state : State Key Event Options) (decision : Decision) (acted : Key)
    (now due : Nat) : (decision.timer acted now ++ state.timers).count (key, due) =
      (decision.timer acted now).count (key, due) + state.timers.count (key, due) :=
  List.count_append

theorem count_timer_of_ne {acted : Key} (hne : acted ≠ key) (decision : Decision)
    (now due : Nat) : (decision.timer acted now).count (key, due) = 0 := by
  cases decision with
  | scheduleAfter delay => simp [Decision.timer, hne]
  | sendNow => rfl
  | suppressed => rfl

def Action.now : Action Key Event Options → Nat
  | .observe _ _ now => now
  | .takePending _ _ now => now

theorem step_clock {state next : State Key Event Options} {action : Action Key Event Options}
    (hs : step component state action = some next) :
    state.clock ≤ action.now ∧ next.clock = action.now := by
  cases action with
  | observe acted request now =>
    obtain ⟨hc, -, rfl⟩ := step_observe component hs
    exact ⟨hc, rfl⟩
  | takePending acted due now =>
    obtain ⟨hc, -, -, rfl⟩ := step_takePending component hs
    exact ⟨hc, rfl⟩

-- A step on another key may drop this one's entry when it is idle, and leaves its timers and
-- answers alone.
theorem step_other_entries {state next : State Key Event Options}
    {action : Action Key Event Options} {right : Option (Entry Event Options)}
    (hne : action.key ≠ key) (hs : step component state action = some next)
    (h : Alike component.window action.now (state.table.entries key) right) :
    Alike component.window action.now (next.table.entries key) right := by
  cases action with
  | observe acted request now =>
    obtain ⟨-, -, rfl⟩ := step_observe component hs
    exact observe_other component hne h _
  | takePending acted due now =>
    obtain ⟨-, -, -, rfl⟩ := step_takePending component hs
    have hk : key ≠ acted := Ne.symm hne
    simp only [fire, takePending_entries, if_neg hk]
    exact h

theorem step_other_timers {state next : State Key Event Options}
    {action : Action Key Event Options} (hne : action.key ≠ key)
    (hs : step component state action = some next) (due : Nat) :
    next.timers.count (key, due) = state.timers.count (key, due) := by
  cases action with
  | observe acted request now =>
    obtain ⟨-, -, rfl⟩ := step_observe component hs
    have ha : acted ≠ key := hne
    simp only [dispatch, count_timer, count_timer_of_ne ha, Nat.zero_add]
  | takePending acted due' now =>
    obtain ⟨-, -, -, rfl⟩ := step_takePending component hs
    have ho : (key, due) ≠ (acted, due') := fun heq => hne (Prod.mk.inj heq).1.symm
    simp only [fire, List.count_erase_of_ne ho]

theorem step_other_answers {state next : State Key Event Options}
    {action : Action Key Event Options} (hne : action.key ≠ key)
    (hs : step component state action = some next) :
    next.answersOf key = state.answersOf key := by
  cases action with
  | observe acted request now =>
    obtain ⟨-, -, rfl⟩ := step_observe component hs
    have ha : acted ≠ key := hne
    rw [answersOf_cons rfl, if_neg ha]
    rfl
  | takePending acted due now =>
    obtain ⟨-, -, -, rfl⟩ := step_takePending component hs
    have ha : acted ≠ key := hne
    rw [answersOf_cons rfl, if_neg ha]
    rfl

theorem same_step_other {state next other : State Key Event Options}
    {action : Action Key Event Options} (h : Same component key state other)
    (hne : action.key ≠ key) (hs : step component state action = some next) :
    Same component key next other := by
  obtain ⟨hc, hn⟩ := step_clock component hs
  refine ⟨hn ▸ le_trans h.clock hc, ?_, ?_, ?_⟩
  · rw [hn]
    exact step_other_entries component hne hs (h.entries.later hc)
  · intro due
    rw [step_other_timers component hne hs due, h.timers due]
  · rw [step_other_answers component hne hs, h.answers]

theorem same_step_both {state next other after : State Key Event Options}
    {action : Action Key Event Options} (h : Same component key state other)
    (hne : action.key ≠ key) (hs : step component state action = some next)
    (ho : step component other action = some after) : Same component key next after := by
  have hl := same_step_other component h hne hs
  obtain ⟨-, hn⟩ := step_clock component hs
  obtain ⟨-, ha⟩ := step_clock component ho
  refine ⟨by rw [hn, ha], ?_, ?_, ?_⟩
  · have hen := hl.entries
    rw [hn] at hen ⊢
    exact (step_other_entries component hne ho hen.symm).symm
  · intro due
    rw [step_other_timers component hne ho due, hl.timers due]
  · rw [step_other_answers component hne ho, hl.answers]

theorem same_step_self {state next other : State Key Event Options}
    {action : Action Key Event Options} (h : Same component key state other)
    (hk : action.key = key) (hs : step component state action = some next) :
    ∃ after, step component other action = some after ∧ after.clock = next.clock ∧
      Same component key next after := by
  cases action with
  | observe acted request now =>
    obtain rfl : acted = key := hk
    obtain ⟨hc, ha, rfl⟩ := step_observe component hs
    obtain ⟨hde, hen⟩ :=
      observe_alike component (h.entries.later hc) (component.pendingOf request)
    refine ⟨dispatch component other acted request now, ?_, rfl, le_rfl, hen, ?_, ?_⟩
    · simp [step, le_trans h.clock hc, ha]
    · intro due
      simp only [dispatch, count_timer, hde, h.timers due]
    · rw [answersOf_cons rfl, answersOf_cons rfl, if_pos rfl, if_pos rfl, hde]
      exact congrArg _ h.answers
  | takePending acted due now =>
    obtain rfl : acted = key := hk
    obtain ⟨hc, hdu, hm, rfl⟩ := step_takePending component hs
    have ho : (acted, due) ∈ other.timers := by
      rw [← List.count_pos_iff, ← h.timers due]
      exact List.count_pos_iff.mpr hm
    have hl := h.entries.later hc
    refine ⟨fire component other acted due now, ?_, rfl, le_rfl, ?_, ?_, ?_⟩
    · simp [step, le_trans h.clock hc, hdu, ho]
    · simp only [fire, takePending_entries, if_true]
      exact hl.take
    · intro due'
      simp only [fire]
      by_cases hsa : (acted, due') = (acted, due)
      · rw [hsa, List.count_erase_self, List.count_erase_self, h.timers due]
      · rw [List.count_erase_of_ne hsa, List.count_erase_of_ne hsa, h.timers due']
    · rw [answersOf_cons rfl, answersOf_cons rfl, if_pos rfl, if_pos rfl,
        takePending_pending, takePending_pending, hl.pending_eq]
      exact congrArg _ h.answers

theorem same_initial (start : Nat) : Same component key (initial start) (initial start) where
  clock := le_rfl
  entries := .same _
  timers _ := rfl
  answers := rfl

theorem run_alone {state last other : State Key Event Options}
    {actions : List (Action Key Event Options)} (h : Same component key state other)
    (hr : Run (step component) anyStep state actions last) :
    ∃ alone, Run (step component) anyStep other
        (actions.filter fun action => action.key = key) alone ∧ Same component key last alone := by
  induction hr generalizing other with
  | nil => exact ⟨other, .nil _, h⟩
  | @cons state middle last action rest _ hs _ ih =>
    by_cases hk : action.key = key
    · obtain ⟨after, ha, -, hsa⟩ := same_step_self component h hk hs
      obtain ⟨alone, hal, hl⟩ := ih hsa
      rw [List.filter_cons_of_pos (by simpa using hk)]
      exact ⟨alone, .cons trivial ha hal, hl⟩
    · obtain ⟨alone, hal, hl⟩ := ih (same_step_other component h hk hs)
      rw [List.filter_cons_of_neg (by simpa using hk)]
      exact ⟨alone, hal, hl⟩

-- States that are alike for every key stay so when they take the same actions.
theorem run_same {state last other : State Key Event Options}
    {actions : List (Action Key Event Options)}
    (h : ∀ key, Same component key state other)
    (hr : Run (step component) anyStep state actions last) :
    ∃ after, Run (step component) anyStep other actions after ∧
      ∀ key, Same component key last after := by
  induction hr generalizing other with
  | nil => exact ⟨other, .nil _, h⟩
  | @cons state middle last action rest _ hs _ ih =>
    obtain ⟨next, hn, -, hse⟩ :=
      same_step_self component (h action.key) rfl hs
    have hsa : ∀ key, Same component key middle next := by
      intro key
      by_cases hk : action.key = key
      · exact hk ▸ hse
      · exact same_step_both component (h key) hk hs hn
    obtain ⟨after, ha, hl⟩ := ih hsa
    exact ⟨after, .cons trivial hn ha, hl⟩

theorem Same.pendingAt_eq {state other : State Key Event Options}
    (h : Same component key state other) :
    state.table.pendingAt key = other.table.pendingAt key :=
  h.entries.pending_eq

end Keys

section Claim

variable [DecidableEq Key] (component : Component Key Event Options)

-- The state at a later time, with the idle entries still there and with them dropped.
def State.at (state : State Key Event Options) (now : Nat) : State Key Event Options :=
  { state with clock := now }

def State.sweptAt (state : State Key Event Options) (now : Nat) : State Key Event Options :=
  { state with clock := now, table := state.table.dropIdle now component.window }

-- The answers and the waiting ping of a key agree.
def AgreeAt (key : Key) (state other : State Key Event Options) : Prop :=
  state.answersOf key = other.answersOf key ∧
    state.table.pendingAt key = other.table.pendingAt key

-- Everything observed for a key is sent, up to its number, unless a ping of it waits.
def CaughtUp (state : State Key Event Options) (key : Key) : Prop :=
  state.table.pendingAt key = none →
    ∀ seq, (key, seq) ∈ state.observed → ∃ top, (key, top) ∈ state.sent ∧ seq ≤ top

def TimerOutstanding (state : State Key Event Options) (key : Key) : Prop :=
  state.table.pendingAt key ≠ none → ∃ due, (key, due) ∈ state.timers

-- The contract of a component, over the runs whose steps all meet `ok`.
structure LosesNoProgress
    (ok : State Key Event Options → Action Key Event Options → Prop) : Prop where
  caughtUp {start : Nat} {actions : List (Action Key Event Options)}
    {last : State Key Event Options}
    (hrun : Run (step component) ok (initial start) actions last) (key : Key) : CaughtUp last key
  timerOutstanding {start : Nat} {actions : List (Action Key Event Options)}
    {last : State Key Event Options}
    (hrun : Run (step component) ok (initial start) actions last) (key : Key) :
    TimerOutstanding last key
  keysIndependent {start : Nat} {actions : List (Action Key Event Options)}
    {last : State Key Event Options}
    (hrun : Run (step component) anyStep (initial start) actions last) (key : Key) :
    ∃ alone, Run (step component) anyStep (initial start)
        (actions.filter fun action => action.key = key) alone ∧ AgreeAt key last alone
  sweepNeutral {start now : Nat} {before after : List (Action Key Event Options)}
    {state last : State Key Event Options}
    (hrun : Run (step component) anyStep (initial start) before state)
    (hnow : state.clock ≤ now) :
    (Run (step component) anyStep (state.at now) after last →
      ∃ swept, Run (step component) anyStep (state.sweptAt component now) after swept ∧
        ∀ key, AgreeAt key last swept) ∧
    (Run (step component) anyStep (state.sweptAt component now) after last →
      ∃ kept, Run (step component) anyStep (state.at now) after kept ∧
        ∀ key, AgreeAt key last kept)

variable {component}

theorem Same.agreeAt {key : Key} {state other : State Key Event Options}
    (h : Same component key state other) : AgreeAt key state other :=
  ⟨h.answers, h.pendingAt_eq⟩

theorem caughtUp_of_run (lawful : Lawful component) {start : Nat}
    {actions : List (Action Key Event Options)} {last : State Key Event Options}
    (hr : Run (step component) (InOrder component) (initial start) actions last) (key : Key) :
    CaughtUp last key := by
  have hc : Covered component lawful last :=
    hr.preserves _ (fun _ _ _ h hok hs => step_covered component lawful h hok hs)
      (covered_initial component lawful start)
  intro hn seq hm
  rcases hc.reached hm with ⟨pending, hw, -⟩ | hse
  · rw [hn] at hw
    cases hw
  · exact hse

theorem timerOutstanding_of_run {start : Nat} {actions : List (Action Key Event Options)}
    {last : State Key Event Options} {ok : State Key Event Options → Action Key Event Options → Prop}
    (hr : Run (step component) ok (initial start) actions last) (key : Key) :
    TimerOutstanding last key := by
  have ha : Armed last :=
    hr.preserves _ (fun _ _ _ h _ hs => step_armed component h hs) (armed_initial start)
  intro hp
  obtain ⟨pending, hw⟩ := Option.ne_none_iff_exists'.mp hp
  obtain ⟨entry, hen, hso⟩ := Option.bind_eq_some_iff.mp hw
  exact ha.timer hen (ha.scheduled hen (by simp [hso]))

theorem same_sweptAt (state : State Key Event Options) (now : Nat) (key : Key) :
    Same component key (state.at now) (state.sweptAt component now) where
  clock := le_rfl
  entries := (Alike.same (state.table.entries key)).drop.symm
  timers _ := rfl
  answers := rfl

theorem same_kept (state : State Key Event Options) (now : Nat) (key : Key) :
    Same component key (state.sweptAt component now) (state.at now) where
  clock := le_rfl
  entries := (Alike.same (state.table.entries key)).drop
  timers _ := rfl
  answers := rfl

theorem losesNoProgress_inOrder (lawful : Lawful component) :
    LosesNoProgress component (InOrder component) where
  caughtUp hr key := caughtUp_of_run lawful hr key
  timerOutstanding hr key := timerOutstanding_of_run hr key
  keysIndependent {start _ _} hr key := by
    obtain ⟨alone, ha, hs⟩ := run_alone component (same_initial component start) hr
    exact ⟨alone, ha, hs.agreeAt⟩
  sweepNeutral {_ now _ _ state _} _ _ := by
    constructor
    · intro hl
      obtain ⟨swept, hsw, hs⟩ := run_same component (same_sweptAt state now) hl
      exact ⟨swept, hsw, fun key => (hs key).agreeAt⟩
    · intro hl
      obtain ⟨kept, hk, hs⟩ := run_same component (same_kept state now) hl
      exact ⟨kept, hk, fun key => (hs key).agreeAt⟩

end Claim

-- The coalescer of the push server and the debouncer of the push worker lose no progress as
-- long as no ping with a lower number overtakes the timer of a waiting one.
theorem ping_coalescing_loses_no_progress (ping : Int) (window : Nat) :
    LosesNoProgress (conversationPingCoalescer ping window :
        Component ConversationPingCoalesceKey Event Options)
      (InOrder (conversationPingCoalescer ping window)) ∧
    LosesNoProgress (conversationPingDebouncer ping window :
        Component PingDebounceKey Event Options)
      (InOrder (conversationPingDebouncer ping window)) :=
  ⟨losesNoProgress_inOrder (coalescerLawful ping window),
    losesNoProgress_inOrder (debouncerLawful ping window)⟩

section Overtaken

def pingOf (seq : Nat) : PushEventRequest Unit Unit where
  userIds := []
  events := []
  options := none
  conversationId := "2Agroup"
  maxConversationSeq := seq
  deliveryMode := 2
  inlineEventsTruncated := true

-- Ping 5 waits, ping 3 is late and comes after the window but before the timer.
def overtaken {Key : Type} (key : Key) : List (Action Key Unit Unit) :=
  [.observe key (pingOf 1) 0, .observe key (pingOf 5) 10, .observe key (pingOf 3) 100,
    .takePending key 100 101]

theorem overtaken_ping_is_dropped :
    ¬ LosesNoProgress (conversationPingCoalescer 2 100 :
        Component ConversationPingCoalesceKey Unit Unit) anyStep ∧
    ¬ LosesNoProgress (conversationPingDebouncer 2 100 :
        Component PingDebounceKey Unit Unit) anyStep := by
  constructor
  · intro h
    have hrun : (execute (step (conversationPingCoalescer 2 100)) anyStep (initial 0)
        (overtaken (⟨"t", "2Agroup"⟩ : ConversationPingCoalesceKey))).map (fun last =>
          (last.table.pendingAt ⟨"t", "2Agroup"⟩, last.observed, last.sent)) =
        some (none, [(⟨"t", "2Agroup"⟩, 3), (⟨"t", "2Agroup"⟩, 5), (⟨"t", "2Agroup"⟩, 1)],
          [(⟨"t", "2Agroup"⟩, 3), (⟨"t", "2Agroup"⟩, 1)]) := by
      decide
    obtain ⟨last, hexecute, hlast⟩ := Option.map_eq_some_iff.mp hrun
    obtain ⟨hpending, hobserved, hsent⟩ : _ ∧ _ ∧ _ := by simpa using hlast
    obtain ⟨top, htop, hle⟩ := h.caughtUp (run_of_execute hexecute) ⟨"t", "2Agroup"⟩ hpending 5
      (by simp [hobserved])
    simp [hsent] at htop
    omega
  · intro h
    have hrun : (execute (step (conversationPingDebouncer 2 100)) anyStep (initial 0)
        (overtaken (⟨"t", "u", "2Agroup"⟩ : PingDebounceKey))).map (fun last =>
          (last.table.pendingAt ⟨"t", "u", "2Agroup"⟩, last.observed, last.sent)) =
        some (none, [(⟨"t", "u", "2Agroup"⟩, 3), (⟨"t", "u", "2Agroup"⟩, 5),
          (⟨"t", "u", "2Agroup"⟩, 1)], [(⟨"t", "u", "2Agroup"⟩, 3), (⟨"t", "u", "2Agroup"⟩, 1)]) := by
      decide
    obtain ⟨last, hexecute, hlast⟩ := Option.map_eq_some_iff.mp hrun
    obtain ⟨hpending, hobserved, hsent⟩ : _ ∧ _ ∧ _ := by simpa using hlast
    obtain ⟨top, htop, hle⟩ := h.caughtUp (run_of_execute hexecute) ⟨"t", "u", "2Agroup"⟩
      hpending 5 (by simp [hobserved])
    simp [hsent] at htop
    omega

end Overtaken

end FlareIm.PingCoalescing
