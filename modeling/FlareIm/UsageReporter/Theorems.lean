import FlareIm.UsageReporter.Labels
import FlareIm.UsageReporter.Recording

namespace FlareIm.UsageReporter

open Tally Transition
open List (length_cons mem_append mem_append_left mem_append_right mem_cons mem_cons_of_mem mem_cons_self mem_filter mem_flatMap mem_map mem_map_of_mem mem_singleton not_mem_nil)

section Contract

def State.reported (state : State) : List ActiveUser :=
  state.closed.flatMap (·.queued) ++ state.queued

def State.built (state : State) : List UsageEvent :=
  state.closed.flatMap (·.events)

def UsageEvent.Carries (event : UsageEvent) (user : ActiveUser) : Prop :=
  event.app = user.tenant ∧
    ∃ entry ∈ event.activeUsers, entry.day = user.day ∧ user.hash ∈ entry.userHashes

def Backlog.Has (backlog : Backlog) (id : String) : Prop :=
  id ∈ backlog.events.map (·.messageId) ∨ id ∈ backlog.dropped

structure Accounted (setup : Setup) (state : State) : Prop where
  windows : ∀ window ∈ state.closed, window.Conserves
  inProgress : state.window.Holds state.increments state.queued
  users_reported : ∀ user ∈ state.accepted, user ∈ state.reported
  reported_once : ∀ user, user ∉ state.forgotten → state.reported.count user ≤ 1
  events : ∀ event ∈ state.built, event.messageId setup.instance_ ∈ state.acknowledged ∨
    state.backlog.Has (event.messageId setup.instance_)
  dropped_counted : state.backlog.eventsDropped = state.backlog.dropped.length
  backlogBytes_eq : state.backlog.bytes = sizeOf state.backlog.events
  same_of_id : ∀ event ∈ state.built, ∀ other ∈ state.built,
    event.messageId setup.instance_ = other.messageId setup.instance_ → event = other
  flushed : state.shut = true →
    state.increments = [] ∧ state.queued = [] ∧ state.backlog.events = []

def AccountsFor (setup : Setup) : Prop :=
  ∀ actions state, Run (step setup) anyStep initial actions state → Accounted setup state

-- Each user is in the events of one identity only, once everything is flushed.
def EachOnce (setup : Setup) (state : State) : Prop :=
  state.shut = true → ∀ user ∈ state.accepted, ∃! id : String,
    ∃ event ∈ state.built, event.messageId setup.instance_ = id ∧ event.Carries user

end Contract

section Remembering

variable {setup : Setup} {state : State} {tenant : String}

def State.Knows (state : State) (user : ActiveUser) : Prop :=
  (valueAt user.tenant noUsers state.window.active).day = user.day ∧
    user.hash ∈ (valueAt user.tenant noUsers state.window.active).seen

-- A reported user who is not forgotten is one the recorder knows.
structure Remembered (state : State) : Prop where
  known : ∀ user ∈ state.reported, user ∈ state.forgotten ∨ state.Knows user
  once : ∀ user, user ∉ state.forgotten → state.reported.count user ≤ 1
  seen_reported : ∀ user, state.Knows user → user ∈ state.reported
  accepted : ∀ user ∈ state.accepted, user ∈ state.reported

theorem remembered_initial : Remembered initial where
  known _ hm := absurd hm not_mem_nil
  once _ _ := Nat.zero_le 1
  seen_reported _ hk := absurd hk.2 not_mem_nil
  accepted _ hm := absurd hm not_mem_nil

theorem remembered_same {next : State} (h : Remembered state)
    (hr : next.reported = state.reported) (hf : next.forgotten = state.forgotten)
    (hac : next.accepted = state.accepted)
    (ha : next.window.active = state.window.active) : Remembered next where
  known := by
    unfold State.Knows
    rw [hr, hf, ha]
    exact h.known
  once := by
    rw [hr, hf]
    exact h.once
  seen_reported := by
    unfold State.Knows
    rw [hr, ha]
    exact h.seen_reported
  accepted := by
    rw [hr, hac]
    exact h.accepted

theorem mem_forgottenOf {user : ActiveUser} {users : ActiveUsers} (hda : users.day = user.day)
    (hm : user.hash ∈ users.seen) : user ∈ forgottenOf user.tenant users := by
  refine mem_map.mpr ⟨user.hash, hm, ?_⟩
  rw [hda]

theorem remembered_turnDay (h : Remembered state) (tenant : String) (day : Nat) :
    Remembered (state.turnDay tenant day) := by
  by_cases hl : day > (valueAt tenant noUsers state.window.active).day
  · have ha : (state.turnDay tenant day).window.active =
        modify tenant noUsers (fun users => { users with day := day, seen := [] })
          state.window.active := by
      simp [State.turnDay, WindowState.turnDay, hl]
    have hf : (state.turnDay tenant day).forgotten =
        forgottenOf tenant (valueAt tenant noUsers state.window.active) ++ state.forgotten := by
      simp [State.turnDay, hl]
    have ho : ∀ user : ActiveUser, user.tenant ≠ tenant →
        ((state.turnDay tenant day).Knows user ↔ state.Knows user) := by
      intro user hne
      unfold State.Knows
      rw [ha, valueAt_modify_of_ne hne]
    have hn : ∀ user : ActiveUser, user.tenant = tenant →
        ¬(state.turnDay tenant day).Knows user := by
      rintro user rfl hk
      have hm := hk.2
      rw [ha, valueAt_modify_self] at hm
      exact absurd hm not_mem_nil
    constructor
    · intro user hm
      rw [hf]
      rcases h.known user hm with hfo | hk
      · exact Or.inl (mem_append_right _ hfo)
      · by_cases heq : user.tenant = tenant
        · left
          subst heq
          exact mem_append_left _ (mem_forgottenOf hk.1 hk.2)
        · exact Or.inr ((ho user heq).mpr hk)
    · intro user hno
      rw [hf] at hno
      exact h.once user fun hm => hno (mem_append_right _ hm)
    · intro user hk
      by_cases heq : user.tenant = tenant
      · exact absurd hk (hn user heq)
      · exact h.seen_reported user ((ho user heq).mp hk)
    · exact h.accepted
  · have ha : (state.turnDay tenant day).window.active =
        modify tenant noUsers id state.window.active := by
      simp [State.turnDay, WindowState.turnDay, hl]
    have hf : (state.turnDay tenant day).forgotten = state.forgotten := by
      simp [State.turnDay, hl]
    have hs : ∀ user : ActiveUser, ((state.turnDay tenant day).Knows user ↔ state.Knows user) := by
      intro user
      unfold State.Knows
      rw [ha]
      by_cases heq : user.tenant = tenant
      · subst heq
        rw [valueAt_modify_self]
        exact Iff.rfl
      · rw [valueAt_modify_of_ne heq]
    constructor
    · intro user hm
      rw [hf, hs]
      exact h.known user hm
    · intro user hno
      rw [hf] at hno
      exact h.once user hno
    · intro user hk
      exact h.seen_reported user ((hs user).mp hk)
    · exact h.accepted

theorem isKnown_iff {user : ActiveUser} :
    state.window.isKnown user.tenant user.day user.hash = true ↔ state.Knows user := by
  unfold WindowState.isKnown State.Knows
  simp only [Bool.and_eq_true, beq_iff_eq, List.contains_iff_mem]
  exact and_congr_left fun _ => eq_comm

theorem remembered_accept (h : Remembered state) {user : ActiveUser} (hk : state.Knows user) :
    Remembered { state with accepted := user :: state.accepted } where
  known := h.known
  once := h.once
  seen_reported := h.seen_reported
  accepted other hm := by
    rcases mem_cons.mp hm with rfl | hr
    · exact h.seen_reported other hk
    · exact h.accepted other hr

theorem reported_queueUser (day : Nat) (hash : UInt64) :
    (state.queueUser setup tenant day hash).reported = state.reported ++ [⟨tenant, day, hash⟩] := by
  simp [State.reported, State.queueUser, List.append_assoc]

theorem remembered_queueUser (h : Remembered state) {user : ActiveUser} (hn : ¬state.Knows user) :
    Remembered (state.queueUser setup user.tenant user.day user.hash) := by
  have ha : (state.queueUser setup user.tenant user.day user.hash).window.active =
      modify user.tenant noUsers (fun users => users.push user.day user.hash
        (state.window.remembers user.tenant setup.limits user.day)) state.window.active := rfl
  have hke : ∀ other : ActiveUser, state.Knows other →
      (state.queueUser setup user.tenant user.day user.hash).Knows other := by
    rintro other ⟨hda, hm⟩
    unfold State.Knows
    rw [ha]
    by_cases heq : other.tenant = user.tenant
    · rw [heq] at hda hm ⊢
      rw [valueAt_modify_self]
      refine ⟨hda, ?_⟩
      unfold ActiveUsers.push
      simp only
      split
      · exact mem_cons_of_mem _ hm
      · exact hm
    · rw [valueAt_modify_of_ne heq]
      exact ⟨hda, hm⟩
  constructor
  · intro other hm
    rw [reported_queueUser] at hm
    rcases mem_append.mp hm with hold | hl
    · rcases h.known other hold with hf | hk
      · left
        unfold State.queueUser
        simp only
        split
        · exact hf
        · exact mem_cons_of_mem _ hf
      · exact Or.inr (hke other hk)
    · obtain rfl := mem_singleton.mp hl
      by_cases hr : state.window.remembers user.tenant setup.limits user.day = true
      · right
        unfold State.Knows
        rw [ha, valueAt_modify_self]
        have hda : user.day = (valueAt user.tenant noUsers state.window.active).day := by
          unfold WindowState.remembers at hr
          exact beq_iff_eq.mp (Bool.and_eq_true_iff.mp hr).1
        refine ⟨hda.symm, ?_⟩
        simp [ActiveUsers.push, hr]
      · left
        simp [State.queueUser, hr]
  · intro other hno
    rw [reported_queueUser, List.count_append]
    have hb : other ∉ state.forgotten := by
      intro hm
      apply hno
      unfold State.queueUser
      simp only
      split
      · exact hm
      · exact mem_cons_of_mem _ hm
    by_cases heq : other = user
    · subst heq
      have hz : state.reported.count other = 0 := by
        rw [List.count_eq_zero]
        intro hm
        rcases h.known other hm with hf | hk
        · exact hb hf
        · exact hn hk
      rw [hz]
      simp
    · have ho := h.once other hb
      have hl : List.count other [user] = 0 := by
        simp [Ne.symm heq]
      have hsa : (⟨user.tenant, user.day, user.hash⟩ : ActiveUser) = user := rfl
      rw [hsa, hl]
      exact ho
  · intro other hk
    rw [reported_queueUser]
    obtain ⟨hda, hm⟩ := hk
    rw [ha] at hda hm
    by_cases heq : other.tenant = user.tenant
    · rw [heq, valueAt_modify_self] at hda hm
      unfold ActiveUsers.push at hda hm
      simp only at hda hm
      have hold (hs : other.hash ∈ (valueAt user.tenant noUsers state.window.active).seen) :
          other ∈ state.reported :=
        h.seen_reported other ⟨by rw [heq]; exact hda, by rw [heq]; exact hs⟩
      split at hm
      · rename_i hr
        rcases mem_cons.mp hm with hh | hs
        · have hu : user.day = (valueAt user.tenant noUsers state.window.active).day := by
            unfold WindowState.remembers at hr
            exact beq_iff_eq.mp (Bool.and_eq_true_iff.mp hr).1
          apply mem_append_right
          rw [mem_singleton]
          obtain ⟨otherTenant, otherDay, otherHash⟩ := other
          simp only at heq hda hh
          rw [heq, hh, ← hda, ← hu]
        · exact mem_append_left _ (hold hs)
      · exact mem_append_left _ (hold hm)
    · rw [valueAt_modify_of_ne heq] at hda hm
      exact mem_append_left _ (h.seen_reported other ⟨hda, hm⟩)
  · intro other hm
    rw [reported_queueUser]
    rcases mem_cons.mp hm with rfl | hre
    · exact mem_append_right _ (mem_singleton.mpr rfl)
    · exact mem_append_left _ (h.accepted other hre)

theorem valueAt_kept {window : WindowState} (hn : (window.active.map (·.1)).Nodup)
    (connections : List ConnectionReading) (today : Nat) (tenant : String) :
    valueAt tenant noUsers (window.takeWindow connections today).1.active =
        { valueAt tenant noUsers window.active with pending := [] } ∨
      valueAt tenant noUsers (window.takeWindow connections today).1.active = noUsers ∧
        (tenant, valueAt tenant noUsers window.active) ∈ window.active ∧
          ¬(valueAt tenant noUsers window.active).day ≥ today := by
  have hk : (window.takeWindow connections today).1.active.map (·.1) =
      (window.active.filter fun entry => decide (entry.2.day ≥ today)).map (·.1) := by
    simp [WindowState.takeWindow, List.map_map, Function.comp_def]
  have hs : ((window.active.filter fun entry => decide (entry.2.day ≥ today)).map
      (·.1)).Sublist (window.active.map (·.1)) := List.filter_sublist.map _
  by_cases hm : tenant ∈ window.active.map (·.1)
  · have hen := @mem_of_mem_fst _ _ _ tenant noUsers _ hm
    by_cases hda : (valueAt tenant noUsers window.active).day ≥ today
    · left
      apply valueAt_of_mem
      · rw [hk]
        exact hn.sublist hs
      · exact mem_map.mpr ⟨_, mem_filter.mpr ⟨hen, by simpa using hda⟩, rfl⟩
    · right
      refine ⟨valueAt_of_not_mem ?_, hen, hda⟩
      rw [hk]
      intro hke
      obtain ⟨⟨other, users⟩, ho, rfl⟩ := mem_map.mp hke
      obtain ⟨hin, hl⟩ := mem_filter.mp ho
      rw [valueAt_of_mem hn hin] at hda
      exact hda (by simpa using hl)
  · left
    rw [valueAt_of_not_mem hm]
    apply valueAt_of_not_mem
    rw [hk]
    exact fun hke => hm (hs.mem hke)

theorem remembered_close (h : Remembered state) (hno : (state.window.active.map (·.1)).Nodup)
    (windowStartMs : Int) (connections : List ConnectionReading) (today : Nat) :
    Remembered (closeWindow setup state windowStartMs connections today) := by
  have hr : (closeWindow setup state windowStartMs connections today).reported =
      state.reported := by
    simp [State.reported, closeWindow]
  have hf : ∀ user ∈ state.forgotten,
      user ∈ (closeWindow setup state windowStartMs connections today).forgotten :=
    fun user hm => mem_append_right _ hm
  have hke := fun tenant => valueAt_kept hno connections today tenant
  constructor
  · intro user hm
    rw [hr] at hm
    rcases h.known user hm with hfo | hk
    · exact Or.inl (hf user hfo)
    · rcases hke user.tenant with hs | ⟨-, hen, hp⟩
      · right
        have ha : valueAt user.tenant noUsers
            (closeWindow setup state windowStartMs connections today).window.active =
            { valueAt user.tenant noUsers state.window.active with pending := [] } := hs
        unfold State.Knows
        rw [ha]
        exact hk
      · left
        apply mem_append_left
        refine mem_flatMap.mpr ⟨_, mem_filter.mpr ⟨hen, by simpa using hp⟩, ?_⟩
        exact mem_forgottenOf hk.1 hk.2
  · intro user hnt
    rw [hr]
    exact h.once user fun hm => hnt (hf user hm)
  · intro user hk
    rw [hr]
    apply h.seen_reported
    rcases hke user.tenant with hs | ⟨hn, -, -⟩
    · have ha : valueAt user.tenant noUsers
          (closeWindow setup state windowStartMs connections today).window.active =
          { valueAt user.tenant noUsers state.window.active with pending := [] } := hs
      unfold State.Knows at hk
      rw [ha] at hk
      exact hk
    · have ha : valueAt user.tenant noUsers
          (closeWindow setup state windowStartMs connections today).window.active = noUsers := hn
      have hm := hk.2
      rw [ha] at hm
      exact absurd hm not_mem_nil
  · intro user hm
    rw [hr]
    exact h.accepted user hm

end Remembering

section Publishing

variable {setup : Setup} {state : State} {backlog : Backlog}

theorem sizeOf_cons (event : OutgoingEvent) (events : List OutgoingEvent) :
    sizeOf (event :: events) = event.payload.length + sizeOf events := by
  simp [sizeOf]

theorem sizeOf_append (before after : List OutgoingEvent) :
    sizeOf (before ++ after) = sizeOf before + sizeOf after := by
  simp [sizeOf]

structure Backlog.Sound (backlog : Backlog) : Prop where
  bytes_eq : backlog.bytes = sizeOf backlog.events
  dropped_eq : backlog.eventsDropped = backlog.dropped.length

theorem trim_spec (limits : UsageLimits) (events : List OutgoingEvent) :
    (trim limits events (sizeOf events)).2.1 = sizeOf (trim limits events (sizeOf events)).1 ∧
      events.map (·.messageId) = (trim limits events (sizeOf events)).2.2 ++
        (trim limits events (sizeOf events)).1.map (·.messageId) := by
  induction events with
  | nil => exact ⟨rfl, rfl⟩
  | cons oldest rest ih =>
    have hb : sizeOf (oldest :: rest) - oldest.payload.length = sizeOf rest := by
      rw [sizeOf_cons]
      omega
    simp only [trim, hb]
    split
    · refine ⟨ih.1, ?_⟩
      rw [List.map_cons, ih.2, List.cons_append]
    · exact ⟨rfl, rfl⟩

theorem sound_enqueue (h : backlog.Sound) (event : OutgoingEvent) :
    (backlog.enqueue setup event).Sound := by
  have hb : backlog.bytes + event.payload.length = sizeOf (backlog.events ++ [event]) := by
    rw [sizeOf_append, sizeOf_cons, h.bytes_eq]
    rfl
  unfold Backlog.enqueue
  rw [hb]
  constructor
  · exact (trim_spec setup.limits _).1
  · simp only [List.length_append, h.dropped_eq]
    omega

theorem has_enqueue (h : backlog.Sound) (event : OutgoingEvent) {id : String}
    (hid : backlog.Has id ∨ id = event.messageId) : (backlog.enqueue setup event).Has id := by
  have hb : backlog.bytes + event.payload.length = sizeOf (backlog.events ++ [event]) := by
    rw [sizeOf_append, sizeOf_cons, h.bytes_eq]
    rfl
  have hsp := (trim_spec setup.limits (backlog.events ++ [event])).2
  have hs : id ∈ (backlog.events ++ [event]).map (·.messageId) →
      (backlog.enqueue setup event).Has id := by
    intro hm
    rw [hsp] at hm
    unfold Backlog.enqueue Backlog.Has
    rw [hb]
    rcases mem_append.mp hm with hdr | hk
    · exact Or.inr (mem_append_left _ hdr)
    · exact Or.inl hk
  rcases hid with (hq | hdr) | rfl
  · apply hs
    rw [List.map_append]
    exact mem_append_left _ hq
  · exact Or.inr (mem_append_right _ hdr)
  · apply hs
    rw [List.map_append]
    exact mem_append_right _ (mem_singleton.mpr rfl)

theorem sound_put (h : backlog.Sound) (event : UsageEvent) : (backlog.put setup event).Sound := by
  unfold Backlog.put
  split
  · exact sound_enqueue h _
  · constructor
    · exact h.bytes_eq
    · simp only [length_cons, h.dropped_eq]

theorem has_put (h : backlog.Sound) (event : UsageEvent) {id : String}
    (hid : backlog.Has id ∨ id = event.messageId setup.instance_) :
    (backlog.put setup event).Has id := by
  unfold Backlog.put
  split
  · exact has_enqueue h _ hid
  · rcases hid with (hq | hdr) | rfl
    · exact Or.inl hq
    · exact Or.inr (mem_cons_of_mem _ hdr)
    · exact Or.inr mem_cons_self

theorem sound_putAll (h : backlog.Sound) (events : List UsageEvent) :
    (events.foldl (fun backlog event => backlog.put setup event) backlog).Sound := by
  induction events generalizing backlog with
  | nil => exact h
  | cons event rest ih => exact ih (sound_put h event)

theorem has_putAll (h : backlog.Sound) (events : List UsageEvent) {id : String}
    (hid : backlog.Has id ∨ ∃ event ∈ events, id = event.messageId setup.instance_) :
    (events.foldl (fun backlog event => backlog.put setup event) backlog).Has id := by
  induction events generalizing backlog with
  | nil =>
    rcases hid with hh | ⟨event, hm, -⟩
    · exact hh
    · exact absurd hm not_mem_nil
  | cons event rest ih =>
    apply ih (sound_put h event)
    rcases hid with hh | ⟨other, hm, ho⟩
    · exact Or.inl (has_put h event (Or.inl hh))
    · rcases mem_cons.mp hm with rfl | hr
      · exact Or.inl (has_put h other (Or.inr ho))
      · exact Or.inr ⟨other, hr, ho⟩

theorem round_spec (events : List OutgoingEvent) (answers : List Bool) :
    (∀ event ∈ events, event ∈ acknowledged events answers ∨
      event ∈ unacknowledged events answers) ∧
    events.length = (acknowledged events answers).length + (unacknowledged events answers).length ∧
    sizeOf events = sizeOf (acknowledged events answers) +
      sizeOf (unacknowledged events answers) := by
  induction events generalizing answers with
  | nil => exact ⟨fun _ hm => absurd hm not_mem_nil, rfl, rfl⟩
  | cons event rest ih =>
    obtain ⟨hm, hl, hs⟩ := ih answers.tail
    unfold acknowledged unacknowledged
    split
    · refine ⟨fun other ho => ?_, ?_, ?_⟩
      · rcases mem_cons.mp ho with rfl | hr
        · exact Or.inl mem_cons_self
        · rcases hm other hr with hy | hno
          · exact Or.inl (mem_cons_of_mem _ hy)
          · exact Or.inr hno
      · simp only [length_cons]
        omega
      · simp only [sizeOf_cons]
        omega
    · refine ⟨fun other ho => ?_, ?_, ?_⟩
      · rcases mem_cons.mp ho with rfl | hr
        · exact Or.inr mem_cons_self
        · rcases hm other hr with hy | hno
          · exact Or.inl hy
          · exact Or.inr (mem_cons_of_mem _ hno)
      · simp only [length_cons]
        omega
      · simp only [sizeOf_cons]
        omega

theorem sound_publish (h : backlog.Sound) (answers : List Bool) (finished : Bool) :
    (backlog.publish answers finished).Sound := by
  have hs := (round_spec backlog.events answers).2.2
  have hb := h.bytes_eq
  unfold Backlog.publish
  split
  · constructor
    · simp only
      omega
    · exact h.dropped_eq
  · exact h

theorem has_publish (answers : List Bool) (finished : Bool) {id : String} (hid : backlog.Has id) :
    id ∈ (acknowledged backlog.events answers).map (·.messageId) ∨
      (backlog.publish answers finished).Has id := by
  unfold Backlog.publish
  split
  · rcases hid with hq | hdr
    · obtain ⟨event, hm, rfl⟩ := mem_map.mp hq
      rcases (round_spec backlog.events answers).1 event hm with hy | hno
      · exact Or.inl (mem_map_of_mem hy)
      · exact Or.inr (Or.inl (mem_map_of_mem hno))
    · exact Or.inr (Or.inr hdr)
  · exact Or.inr hid

theorem sound_giveUp (h : backlog.Sound) (answers : List Bool) :
    (backlog.giveUp answers).Sound := by
  have hl := (round_spec backlog.events answers).2.1
  have hdr := h.dropped_eq
  constructor
  · rfl
  · simp only [Backlog.giveUp, List.length_append, List.length_map]
    omega

theorem has_giveUp (answers : List Bool) {id : String} (hid : backlog.Has id) :
    id ∈ (acknowledged backlog.events answers).map (·.messageId) ∨
      (backlog.giveUp answers).Has id := by
  rcases hid with hq | hdr
  · obtain ⟨event, hm, rfl⟩ := mem_map.mp hq
    rcases (round_spec backlog.events answers).1 event hm with hy | hno
    · exact Or.inl (mem_map_of_mem hy)
    · exact Or.inr (Or.inr (mem_append_left _ (mem_map_of_mem hno)))
  · exact Or.inr (Or.inr (mem_append_right _ hdr))

-- The windows have labels of their own, and the events of one differ in their tenant or part.
structure Labelled (state : State) : Prop where
  ascending : state.closed.Pairwise fun window later => window.startMs < later.startMs
  last : ∀ window ∈ state.closed, ∃ last, state.lastWindowStartMs = some last ∧
    window.startMs ≤ last
  starts : ∀ window ∈ state.closed, ∀ event ∈ window.events, event.windowStartMs = window.startMs
  parts : ∀ window ∈ state.closed, ∀ event ∈ window.events, ∀ other ∈ window.events,
    event.app = other.app → event.part = other.part → event = other

theorem labelled_initial : Labelled initial where
  ascending := List.Pairwise.nil
  last _ hm := absurd hm not_mem_nil
  starts _ hm := absurd hm not_mem_nil
  parts _ hm := absurd hm not_mem_nil

theorem parts_of_taken {entries : List (String × TenantWindow)}
    (hn : (entries.map (·.1)).Nodup) {label : Int} {event other : UsageEvent}
    (hev : event ∈ entries.flatMap fun entry => tenantEvents label entry.1 entry.2)
    (ho : other ∈ entries.flatMap fun entry => tenantEvents label entry.1 entry.2)
    (ha : event.app = other.app) (hp : event.part = other.part) : event = other := by
  have hon : ∀ made ∈ entries.flatMap (fun entry => tenantEvents label entry.1 entry.2),
      made ∈ tenantEvents label made.app (valueAt made.app noWindow entries) := by
    intro made hm
    rw [← filter_app made.app hn]
    exact mem_filter.mpr ⟨hm, by simp⟩
  have hf := getElem?_part (hon event hev)
  have hs := getElem?_part (hon other ho)
  rw [ha, hp, hs] at hf
  exact (Option.some.inj hf).symm

theorem labelled_close (h : Labelled state) (windowStartMs : Int)
    (connections : List ConnectionReading) (today : Nat) :
    Labelled (closeWindow setup state windowStartMs connections today) := by
  have hp : (0 : Int) < setup.windowMs := by
    have := setup.windowMs_pos
    omega
  have hn : ∀ window ∈ state.closed,
      window.startMs < windowLabel setup state.lastWindowStartMs windowStartMs := by
    intro window hm
    obtain ⟨last, hl, hle⟩ := h.last window hm
    unfold windowLabel
    rw [hl]
    simp only
    split <;> omega
  constructor
  · refine List.pairwise_append.mpr ⟨h.ascending, List.pairwise_singleton _ _, ?_⟩
    intro window hm later hla
    rw [mem_singleton.mp hla]
    exact hn window hm
  · intro window hm
    refine ⟨_, rfl, ?_⟩
    rcases mem_append.mp hm with hold | hl
    · exact Int.le_of_lt (hn window hold)
    · rw [mem_singleton.mp hl]
  · intro window hm event hev
    rcases mem_append.mp hm with hold | hl
    · exact h.starts window hold event hev
    · rw [mem_singleton.mp hl] at hev ⊢
      obtain ⟨entry, -, hma⟩ := mem_flatMap.mp hev
      exact (tenantEvents_app hma).2
  · intro window hm event hev other ho
    rcases mem_append.mp hm with hold | hl
    · exact h.parts window hold event hev other ho
    · rw [mem_singleton.mp hl] at hev ho
      exact parts_of_taken (nodup_taken connections today) hev ho

theorem same_of_id (h : Labelled state) {event other : UsageEvent} (hev : event ∈ state.built)
    (ho : other ∈ state.built)
    (hid : event.messageId setup.instance_ = other.messageId setup.instance_) : event = other := by
  obtain ⟨ha, hs, hp⟩ := messageId_inj hid
  obtain ⟨window, hw, hin⟩ := mem_flatMap.mp hev
  obtain ⟨window', hw', hin'⟩ := mem_flatMap.mp ho
  have hl : window.startMs = window'.startMs := by
    rw [← h.starts window hw event hin, ← h.starts window' hw' other hin']
    exact hs
  have hsa : window = window' := by
    have hne : state.closed.Pairwise fun window later => window.startMs ≠ later.startMs :=
      h.ascending.imp Int.ne_of_lt
    have hn : (state.closed.map (·.startMs)).Nodup := List.pairwise_map.mpr hne
    exact List.inj_on_of_nodup_map hn hw hw' hl
  subst hsa
  exact h.parts window hw event hin other hin' ha hp

end Publishing

section Runs

variable {setup : Setup} {state : State}

structure Inv (setup : Setup) (state : State) : Prop where
  windows : ∀ window ∈ state.closed, window.Conserves
  inProgress : state.window.Holds state.increments state.queued
  remembered : Remembered state
  labelled : Labelled state
  sound : state.backlog.Sound
  events : ∀ event ∈ state.built, event.messageId setup.instance_ ∈ state.acknowledged ∨
    state.backlog.Has (event.messageId setup.instance_)
  flushed : state.shut = true →
    state.increments = [] ∧ state.queued = [] ∧ state.backlog.events = []

theorem inv_initial (setup : Setup) : Inv setup initial where
  windows _ hm := absurd hm not_mem_nil
  inProgress := holds_empty
  remembered := remembered_initial
  labelled := labelled_initial
  sound := ⟨rfl, rfl⟩
  events _ hm := absurd hm not_mem_nil
  flushed hs := absurd hs (by simp [initial])

theorem active_add (window : WindowState) (tenant : String) (limits : UsageLimits)
    (counter : Counter) (value : UInt64) :
    (window.add tenant limits counter value).1.active = window.active := by
  unfold WindowState.add
  simp only
  split
  · rfl
  · split <;> rfl

theorem inv_count (h : Inv setup state) (ho : state.shut = false) (tenant : String)
    (counter : Counter) (value : UInt64) : Inv setup (count setup state tenant counter value) := by
  unfold count
  split
  · exact h
  · simp only
    exact {
      windows := h.windows
      inProgress := holds_add h.inProgress tenant setup.limits counter value
      remembered := remembered_same h.remembered rfl rfl rfl (active_add _ _ _ _ _)
      labelled := ⟨h.labelled.ascending, h.labelled.last, h.labelled.starts, h.labelled.parts⟩
      sound := h.sound
      events := h.events
      flushed := fun hs => absurd (ho.symm.trans hs) (by simp) }

theorem inv_turned (h : Inv setup state) (ho : state.shut = false) (tenant : String)
    (day : Nat) : Inv setup (state.turnDay tenant day) where
  windows := h.windows
  inProgress := holds_turnDay h.inProgress tenant day
  remembered := remembered_turnDay h.remembered tenant day
  labelled := ⟨h.labelled.ascending, h.labelled.last, h.labelled.starts, h.labelled.parts⟩
  sound := h.sound
  events := h.events
  flushed hs := absurd (ho.symm.trans hs) (by simp)

theorem inv_userActive (h : Inv setup state) (ho : state.shut = false) (tenant : String)
    (day : Nat) (hash : UInt64) : Inv setup (userActive setup state tenant day hash) := by
  have ht := inv_turned h ho tenant day
  have hif := @isKnown_iff (state.turnDay tenant day) ⟨tenant, day, hash⟩
  unfold userActive WindowState.userActive
  split
  · exact h
  · simp only
    by_cases hk : (state.window.turnDay tenant day).isKnown tenant day hash = true
    · rw [if_pos hk]
      exact {
        windows := h.windows
        inProgress := ht.inProgress
        remembered := remembered_accept ht.remembered (hif.mp hk)
        labelled := ⟨h.labelled.ascending, h.labelled.last, h.labelled.starts, h.labelled.parts⟩
        sound := h.sound
        events := h.events
        flushed := ht.flushed }
    · rw [if_neg hk]
      split
      · rename_i hf
        split at hf <;> cases hf
      · exact ht
      · exact {
          windows := h.windows
          inProgress := holds_queue ht.inProgress tenant setup.limits day hash
          remembered := remembered_queueUser ht.remembered fun hkn => hk (hif.mpr hkn)
          labelled := ⟨h.labelled.ascending, h.labelled.last, h.labelled.starts, h.labelled.parts⟩
          sound := h.sound
          events := h.events
          flushed := fun hs => absurd (ho.symm.trans hs) (by simp) }

theorem inv_closed (h : Inv setup state) (ho : state.shut = false) (windowStartMs : Int)
    (connections : List ConnectionReading) (today : Nat) :
    Inv setup (closeWindow setup state windowStartMs connections today) where
  windows window hm := by
    rcases mem_append.mp hm with hold | hl
    · exact h.windows window hold
    · rw [mem_singleton.mp hl]
      exact conserves_taken connections today h.inProgress _
  inProgress := holds_taken connections today h.inProgress
  remembered := remembered_close h.remembered h.inProgress.active_nodup windowStartMs connections
    today
  labelled := labelled_close h.labelled windowStartMs connections today
  sound := sound_putAll h.sound _
  events event hm := by
    have hb : (closeWindow setup state windowStartMs connections today).built =
        state.built ++ (state.window.takeWindow connections today).2.flatMap fun entry =>
          tenantEvents (windowLabel setup state.lastWindowStartMs windowStartMs) entry.1
            entry.2 := by
      simp [State.built, closeWindow]
    rw [hb] at hm
    rcases mem_append.mp hm with hold | hn
    · rcases h.events event hold with ha | hh
      · exact Or.inl ha
      · exact Or.inr (has_putAll h.sound _ (Or.inl hh))
    · exact Or.inr (has_putAll h.sound _ (Or.inr ⟨event, hn, rfl⟩))
  flushed hs := absurd (ho.symm.trans hs) (by simp)

theorem inv_published (h : Inv setup state) (ho : state.shut = false) (answers : List Bool)
    (finished : Bool) : Inv setup (publishBacklog state answers finished) where
  windows := h.windows
  inProgress := h.inProgress
  remembered := remembered_same h.remembered rfl rfl rfl rfl
  labelled := ⟨h.labelled.ascending, h.labelled.last, h.labelled.starts, h.labelled.parts⟩
  sound := sound_publish h.sound answers finished
  events event hm := by
    rcases h.events event hm with ha | hh
    · exact Or.inl (mem_append_right _ ha)
    · rcases has_publish answers finished hh with hn | hs
      · exact Or.inl (mem_append_left _ hn)
      · exact Or.inr hs
  flushed hsh := absurd (ho.symm.trans hsh) (by simp)

theorem inv_flushed (h : Inv setup state) (ho : state.shut = false) (windowStartMs : Int)
    (connections : List ConnectionReading) (today : Nat) (answers : List Bool) :
    Inv setup (shutdownFlush setup state windowStartMs connections today answers) := by
  have hc := inv_closed h ho windowStartMs connections today
  exact {
    windows := hc.windows
    inProgress := hc.inProgress
    remembered := remembered_same hc.remembered rfl rfl rfl rfl
    labelled := ⟨hc.labelled.ascending, hc.labelled.last, hc.labelled.starts, hc.labelled.parts⟩
    sound := sound_giveUp hc.sound answers
    events := fun event hm => by
      rcases hc.events event hm with ha | hh
      · exact Or.inl (mem_append_right _ ha)
      · rcases has_giveUp answers hh with hn | hs
        · exact Or.inl (mem_append_left _ hn)
        · exact Or.inr hs
    flushed := fun _ => ⟨rfl, rfl, rfl⟩ }

theorem inv_step {action : Action} {next : State} (h : Inv setup state)
    (hs : step setup state action = some next) : Inv setup next := by
  cases hsh : state.shut with
  | true =>
    cases action <;> simp only [step, hsh, if_true] at hs <;> cases hs
  | false =>
    cases action with
    | count tenant counter value =>
      simp only [step, hsh, Bool.false_eq_true, if_false, Option.some.injEq] at hs
      subst hs
      exact inv_count h hsh tenant counter value
    | userActive tenant day hash =>
      simp only [step, hsh, Bool.false_eq_true, if_false, Option.some.injEq] at hs
      subst hs
      exact inv_userActive h hsh tenant day hash
    | closeWindow windowStartMs connections today =>
      simp only [step, hsh, Bool.false_eq_true, if_false, Option.some.injEq] at hs
      subst hs
      exact inv_closed h hsh windowStartMs connections today
    | publishBacklog answers finished =>
      simp only [step, hsh, Bool.false_eq_true, if_false, Option.some.injEq] at hs
      subst hs
      exact inv_published h hsh answers finished
    | shutdownFlush windowStartMs connections today answers =>
      simp only [step, hsh, Bool.false_eq_true, if_false, Option.some.injEq] at hs
      subst hs
      exact inv_flushed h hsh windowStartMs connections today answers

-- In every run nothing accepted is lost or counted again, but for the users it forgot.
theorem usage_accounted (setup : Setup) : AccountsFor setup := by
  intro actions state hrun
  have h : Inv setup state := hrun.preserves (Inv setup)
    (fun _ _ _ hinv _ hstep => inv_step hinv hstep) (inv_initial setup)
  exact {
    windows := h.windows
    inProgress := h.inProgress
    users_reported := h.remembered.accepted
    reported_once := h.remembered.once
    events := h.events
    dropped_counted := h.sound.dropped_eq
    backlogBytes_eq := h.sound.bytes_eq
    same_of_id := fun _ hevent _ hother hid => same_of_id h.labelled hevent hother hid
    flushed := h.flushed }

end Runs

section Counterexample

-- No user is tracked.
def untracked : Setup where
  instance_ := "media-1"
  limits := ⟨10, 0, 10, 10, 1000⟩
  windowMs := 60000
  windowMs_pos := by decide
  encode _ := some []

-- The same user comes online in two windows of one day.
def seenTwice : List Action :=
  [.userActive "acme" 20261118 7, .closeWindow 0 [] 20261118,
    .userActive "acme" 20261118 7, .shutdownFlush 60000 [] 20261118 []]

theorem a_user_is_reported_twice : ¬∀ actions state,
    Run (step untracked) anyStep initial actions state → EachOnce untracked state := by
  intro h
  have hbuilt : (execute (step untracked) anyStep initial seenTwice).map
      (fun state => (state.shut, state.accepted, state.built)) =
      some (true, [⟨"acme", 20261118, 7⟩, ⟨"acme", 20261118, 7⟩],
        [⟨"acme", 0, 0, [], some ⟨20261118, [7]⟩⟩, ⟨"acme", 60000, 0, [], some ⟨20261118, [7]⟩⟩]) := by
    decide
  obtain ⟨state, hexecute, hfields⟩ := Option.map_eq_some_iff.mp hbuilt
  simp only [Prod.mk.injEq] at hfields
  obtain ⟨hshut, haccepted, hevents⟩ := hfields
  obtain ⟨id, -, hunique⟩ := h seenTwice state (run_of_execute hexecute) hshut
    ⟨"acme", 20261118, 7⟩ (by simp [haccepted])
  have hfirst := hunique "media-1:acme:0:0"
    ⟨⟨"acme", 0, 0, [], some ⟨20261118, [7]⟩⟩, by simp [hevents], by decide, rfl, by simp⟩
  have hsecond := hunique "media-1:acme:60000:0"
    ⟨⟨"acme", 60000, 0, [], some ⟨20261118, [7]⟩⟩, by simp [hevents], by decide, rfl, by simp⟩
  exact absurd (hfirst.trans hsecond.symm) (by decide)

end Counterexample

end FlareIm.UsageReporter
