import FlareIm.ConversationDelivery
import Mathlib.Tactic.Common

namespace FlareIm.ConversationDelivery

open Transition
open Function (update update_of_ne update_self)
open List (any_cons any_eq_true mem_cons mem_cons_of_mem mem_cons_self mem_filter mem_of_mem_erase not_mem_nil)

variable {other : ConversationKey} {c : String} {id : Nat} {baseline found members : List String}
  {rest : List (List String)}

section Registry

variable (registry : Registry) (key : ConversationKey) (connectionId : String)

theorem mem_of_join (h : c ∈ (join key connectionId registry).byConversation other) :
    c = connectionId ∨ c ∈ registry.byConversation other := by
  unfold join at h
  split at h
  · exact .inr h
  · by_cases hk : other = key
    · subst hk
      simpa using h
    · exact .inr (by simpa [hk] using h)

theorem mem_join_of_mem (h : c ∈ registry.byConversation other) :
    c ∈ (join key connectionId registry).byConversation other := by
  unfold join
  split
  · exact h
  · by_cases hk : other = key
    · subst hk
      simp [h]
    · simpa [hk] using h

theorem mem_join_self (ht : canonicalTenant key.tenantId = true)
    (hn : key.conversationId ≠ "") (hc : connectionId ≠ "") :
    connectionId ∈ (join key connectionId registry).byConversation key := by
  simp [join, ht, hn, hc]

theorem mem_of_leave (h : c ∈ (leave key connectionId registry).byConversation other) :
    c ∈ registry.byConversation other := by
  unfold leave at h
  split at h
  · exact h
  · by_cases hk : other = key
    · subst hk
      simp only [update_self] at h
      exact (mem_filter.mp h).1
    · simpa [hk] using h

theorem mem_leave_of_ne (h : c ∈ registry.byConversation other) (hne : c ≠ connectionId) :
    c ∈ (leave key connectionId registry).byConversation other := by
  unfold leave
  split
  · exact h
  · by_cases hk : other = key
    · subst hk
      simp [h, hne]
    · simpa [hk] using h

theorem mem_of_removeConnection
    (h : c ∈ (removeConnection connectionId registry).byConversation other) :
    c ∈ registry.byConversation other := by
  simp only [removeConnection] at h
  split at h
  · exact (mem_filter.mp h).1
  · exact h

theorem mem_removeConnection_of_ne
    (h : c ∈ registry.byConversation other) (hne : c ≠ connectionId) :
    c ∈ (removeConnection connectionId registry).byConversation other := by
  simp only [removeConnection]
  split
  · exact mem_filter.mpr ⟨h, by simpa using hne⟩
  · exact h

end Registry

-- The cache never changes the members a delivery works with.
theorem resolveParticipants_fst (cache : ResolvedConversations) (key : ConversationKey)
    (current : List String) (now ttl largeGroupTtl : Nat) :
    (resolveParticipants cache key current now ttl largeGroupTtl).1 = current := by
  unfold resolveParticipants
  split
  · split
    · assumption
    · rfl
  · rfl

-- A connection that one of the lookups returned.
def Found (lookedUp : List (String × List String)) (connectionId : String) : Prop :=
  ∃ lookup ∈ lookedUp, connectionId ∈ lookup.2

theorem found_cons {lookedUp : List (String × List String)} {lookup : String × List String}
    {connectionId : String} :
    Found (lookup :: lookedUp) connectionId ↔
      connectionId ∈ lookup.2 ∨ Found lookedUp connectionId := by
  simp [Found]

-- The connection is in the connection table, and its end has not been handled.
def State.Alive (state : State) (connectionId : String) : Prop :=
  state.connectionExists connectionId = true ∧ connectionId ∉ state.closed

variable {conversation : Conversation} {state next : State} {action : Action}

-- What a phase says about the reads behind it.
def PhaseSound (read : Option (List String)) (lookedUp : List (String × List String)) :
    Phase → Prop
  | .waiting => lookedUp = []
  | .resolved participants => lookedUp = [] ∧ read = some participants
  | .lookingUp _ chunk rest _ found =>
    (∀ c, c ∈ found ↔ Found lookedUp c) ∧
      ∃ members, read = some members ∧ (∀ userId ∈ chunk, userId ∈ members) ∧
        ∀ later ∈ rest, ∀ userId ∈ later, userId ∈ members
  | .reconciling joins leaves authorized =>
    (∀ c, c ∈ authorized ↔ Found lookedUp c) ∧ (∀ c ∈ joins, c ∈ authorized) ∧
      ∀ c ∈ leaves, c ∉ authorized
  | .checking _ _ authorized => ∀ c, c ∈ authorized ↔ Found lookedUp c
  | .pruning _ _ _ authorized => ∀ c, c ∈ authorized ↔ Found lookedUp c
  | .finished => True

structure Sound (state : State) (id : Nat) : Prop where
  phase : PhaseSound (state.read id) (state.lookedUp id) (state.phase id)
  users {lookup : String × List String} (h : lookup ∈ state.lookedUp id) :
    ∃ members, state.read id = some members ∧ lookup.1 ∈ members
  seen {connectionId : String} (h : Found (state.lookedUp id) connectionId) :
    connectionId ∈ state.seen
  pushed {connectionIds : List String} (h : state.pushed id = some connectionIds) :
    state.phase id = .finished ∧
      ∀ connectionId ∈ connectionIds, Found (state.lookedUp id) connectionId
  failed (h : state.failed id = true) :
    state.pushed id = none ∧ (state.phase id = .finished ∨
      ∃ baseline chunk rest found, state.phase id = .lookingUp baseline chunk rest true found)

-- Connections are seen before they are in the table or in a subscription.
structure Grounded (state : State) : Prop where
  table {connectionId : String} (h : state.connectionExists connectionId = true) :
    connectionId ∈ state.seen
  registry {key : ConversationKey} {connectionId : String}
    (h : connectionId ∈ state.registry.byConversation key) : connectionId ∈ state.seen
  named {connectionId : String} (h : connectionId ∈ state.seen) : connectionId ≠ ""

theorem mem_userConnectionIds {userId connectionId : String}
    (h : connectionId ∈ state.userConnectionIds userId) :
    state.connectionExists connectionId = true := by
  obtain ⟨connection, hm, rfl⟩ := List.mem_map.mp h
  exact any_eq_true.mpr ⟨connection, (mem_filter.mp hm).1, by simp⟩

theorem Sound.frame (h : Sound state id) (hp : next.phase id = state.phase id)
    (hr : next.read id = state.read id) (hl : next.lookedUp id = state.lookedUp id)
    (hfa : next.failed id = state.failed id) (hpu : next.pushed id = state.pushed id)
    (hse : ∀ c ∈ state.seen, c ∈ next.seen) : Sound next id where
  phase := by rw [hp, hr, hl]; exact h.phase
  users hm := by
    rw [hl] at hm
    rw [hr]
    exact h.users hm
  seen hf := by
    rw [hl] at hf
    exact hse _ (h.seen hf)
  pushed hs := by
    rw [hpu] at hs
    rw [hp, hl]
    exact h.pushed hs
  failed ht := by
    rw [hfa] at ht
    rw [hpu, hp]
    exact h.failed ht

theorem Sound.move (h : Sound state id) (hr : next.read id = state.read id)
    (hl : next.lookedUp id = state.lookedUp id)
    (hfa : next.failed id = state.failed id) (hp : next.pushed id = state.pushed id)
    (hse : next.seen = state.seen)
    (hli : state.phase id ≠ .finished) (hso : state.failed id = false)
    (hb : PhaseSound (state.read id) (state.lookedUp id) (next.phase id)) : Sound next id where
  phase := by rw [hr, hl]; exact hb
  users hm := by
    rw [hl] at hm
    rw [hr]
    exact h.users hm
  seen hf := by
    rw [hl] at hf
    exact hse ▸ h.seen hf
  pushed hs := by
    rw [hp] at hs
    exact absurd (h.pushed hs).1 hli
  failed ht := by
    rw [hfa, hso] at ht
    cases ht

-- The steps, each with the state it is taken in and the one it leads to.
inductive Move (conversation : Conversation) (state : State) : Action → State → Prop where
  | connect {connectionId userId : String} (hnamed : connectionId ≠ "")
      (hnew : connectionId ∉ state.seen) :
      Move conversation state (.connect connectionId userId)
        { state with
          connections := (connectionId, userId) :: state.connections
          seen := connectionId :: state.seen }
  | disconnect {connectionId : String} (hseen : connectionId ∈ state.seen) :
      Move conversation state (.disconnect connectionId)
        { state with
          closed := connectionId :: state.closed
          registry := removeConnection connectionId state.registry }
  | reap {connectionId : String} :
      Move conversation state (.reap connectionId)
        { state with
          connections := state.connections.filter fun connection => connection.1 != connectionId }
  | subscribe {key : ConversationKey} {connectionId : String}
      (hseen : connectionId ∈ state.seen) :
      Move conversation state (.subscribe key connectionId)
        { state with registry := join key connectionId state.registry }
  | changeMembers {members : List String} :
      Move conversation state (.changeMembers members) { state with members := members }
  | readMembers {id now : Nat} (hphase : state.phase id = .waiting) :
      Move conversation state (.readMembers id true now) (readMembers conversation state id now)
  | readFails {id now : Nat} (hphase : state.phase id = .waiting) :
      Move conversation state (.readMembers id false now)
        { state.move id .finished with failed := Function.update state.failed id true }
  | readBaseline {id : Nat} {participants : List String}
      (hphase : state.phase id = .resolved participants) :
      Move conversation state (.readBaseline id) (readBaseline conversation state id participants)
  | lookUp {id : Nat} {userId : String} {ok failed : Bool} {baseline chunk found : List String}
      {rest : List (List String)}
      (hphase : state.phase id = .lookingUp baseline chunk rest failed found)
      (hmem : userId ∈ chunk) :
      Move conversation state (.lookUp id userId ok)
        (lookUp state id userId ok baseline chunk rest failed found)
  | joinOne {id : Nat} {connectionId : String} {joins leaves authorized : List String}
      (hphase : state.phase id = .reconciling joins leaves authorized)
      (hmem : connectionId ∈ joins) :
      Move conversation state (.joinOne id connectionId)
        { state.move id (.reconciling (joins.erase connectionId) leaves authorized) with
          registry := join conversation.key connectionId state.registry }
  | leaveOne {id : Nat} {connectionId : String} {leaves authorized : List String}
      (hphase : state.phase id = .reconciling [] leaves authorized)
      (hmem : connectionId ∈ leaves) :
      Move conversation state (.leaveOne id connectionId)
        { state.move id (.reconciling [] (leaves.erase connectionId) authorized) with
          registry := leave conversation.key connectionId state.registry }
  | readSubscribers {id : Nat} {authorized : List String}
      (hphase : state.phase id = .reconciling [] [] authorized) :
      Move conversation state (.readSubscribers id)
        (state.move id
          (.checking (localSubscribers conversation.key state.registry) [] authorized))
  | checkLive {id : Nat} {connectionId : String} {remaining live authorized : List String}
      (hphase : state.phase id = .checking remaining live authorized)
      (hmem : connectionId ∈ remaining) (hexists : state.connectionExists connectionId = true) :
      Move conversation state (.checkOne id connectionId)
        (state.move id
          (.checking (remaining.erase connectionId) (live ++ [connectionId]) authorized))
  | checkGone {id : Nat} {connectionId : String} {remaining live authorized : List String}
      (hphase : state.phase id = .checking remaining live authorized)
      (hmem : connectionId ∈ remaining) (hgone : state.connectionExists connectionId ≠ true) :
      Move conversation state (.checkOne id connectionId)
        (state.move id (.pruning connectionId (remaining.erase connectionId) live authorized))
  | prune {id : Nat} {gone : String} {remaining live authorized : List String}
      (hphase : state.phase id = .pruning gone remaining live authorized) :
      Move conversation state (.prune id)
        { state.move id (.checking remaining live authorized) with
          registry := leave conversation.key gone state.registry }
  | send {id : Nat} {live authorized : List String}
      (hphase : state.phase id = .checking [] live authorized) :
      Move conversation state (.send id) (send state id live authorized)

theorem move_of_step (hs : step conversation state action = some next) :
    Move conversation state action next := by
  cases action with
  | connect connectionId userId =>
    simp only [step] at hs
    split at hs
    · cases hs
    · rename_i h
      rw [not_or] at h
      exact Option.some.inj hs ▸ .connect h.1 h.2
  | disconnect connectionId =>
    simp only [step] at hs
    split at hs
    · exact Option.some.inj hs ▸ .disconnect ‹_›
    · cases hs
  | reap connectionId => exact Option.some.inj hs ▸ .reap
  | subscribe key connectionId =>
    simp only [step] at hs
    split at hs
    · exact Option.some.inj hs ▸ .subscribe ‹_›
    · cases hs
  | changeMembers members => exact Option.some.inj hs ▸ .changeMembers
  | readMembers id ok now =>
    simp only [step] at hs
    split at hs
    · cases ok
      · exact Option.some.inj hs ▸ .readFails ‹_›
      · exact Option.some.inj hs ▸ .readMembers ‹_›
    · cases hs
  | readBaseline id =>
    simp only [step] at hs
    split at hs
    · exact Option.some.inj hs ▸ .readBaseline ‹_›
    · cases hs
  | lookUp id userId ok =>
    simp only [step] at hs
    split at hs
    · split at hs
      · exact Option.some.inj hs ▸ .lookUp ‹_› ‹_›
      · cases hs
    · cases hs
  | joinOne id connectionId =>
    simp only [step] at hs
    split at hs
    · split at hs
      · exact Option.some.inj hs ▸ .joinOne ‹_› ‹_›
      · cases hs
    · cases hs
  | leaveOne id connectionId =>
    simp only [step] at hs
    split at hs
    · split at hs
      · exact Option.some.inj hs ▸ .leaveOne ‹_› ‹_›
      · cases hs
    · cases hs
  | readSubscribers id =>
    simp only [step] at hs
    split at hs
    · exact Option.some.inj hs ▸ .readSubscribers ‹_›
    · cases hs
  | checkOne id connectionId =>
    simp only [step] at hs
    split at hs
    · split at hs
      · by_cases hei : state.connectionExists connectionId = true
        · rw [if_pos hei] at hs
          exact Option.some.inj hs ▸ .checkLive ‹_› ‹_› hei
        · rw [if_neg hei] at hs
          exact Option.some.inj hs ▸ .checkGone ‹_› ‹_› hei
      · cases hs
    · cases hs
  | prune id =>
    simp only [step] at hs
    split at hs
    · exact Option.some.inj hs ▸ .prune ‹_›
    · cases hs
  | send id =>
    simp only [step] at hs
    split at hs
    · exact Option.some.inj hs ▸ .send ‹_›
    · cases hs

theorem step_seen (hm : Move conversation state action next) : ∀ c ∈ state.seen, c ∈ next.seen := by
  cases hm with
  | connect _ _ => exact fun c hc => mem_cons_of_mem _ hc
  | _ => exact fun c hc => hc

theorem grounded_registry (h : Grounded state) (hmo : Move conversation state action next)
    (hs : ∀ id, Sound state id) {key : ConversationKey} {connectionId : String}
    (hm : connectionId ∈ next.registry.byConversation key) : connectionId ∈ next.seen := by
  cases hmo with
  | connect _ _ => exact mem_cons_of_mem _ (h.registry hm)
  | disconnect _ => exact h.registry (mem_of_removeConnection _ _ hm)
  | subscribe hse =>
    rcases mem_of_join _ _ _ hm with rfl | hold
    · exact hse
    · exact h.registry hold
  | @joinOne id _ joins leaves authorized hp hj =>
    rcases mem_of_join _ _ _ hm with rfl | hold
    · have hph := (hs id).phase
      rw [hp] at hph
      obtain ⟨hf, hsu, -⟩ := hph
      exact (hs id).seen ((hf _).mp (hsu _ hj))
    · exact h.registry hold
  | leaveOne _ _ | prune _ => exact h.registry (mem_of_leave _ _ _ hm)
  | _ => exact h.registry hm

theorem step_grounded (h : Grounded state) (hso : ∀ id, Sound state id)
    (hmo : Move conversation state action next) : Grounded next := by
  refine ⟨?_, grounded_registry h hmo hso, ?_⟩
  · intro connectionId hei
    cases hmo with
    | connect _ _ =>
      simp only [State.connectionExists, any_cons, Bool.or_eq_true, beq_iff_eq] at hei
      rcases hei with rfl | hold
      · exact mem_cons_self
      · exact mem_cons_of_mem _ (h.table hold)
    | reap =>
      obtain ⟨connection, hm, heq⟩ := any_eq_true.mp hei
      exact h.table (any_eq_true.mpr ⟨connection, (mem_filter.mp hm).1, heq⟩)
    | _ => exact h.table hei
  · intro connectionId hs
    cases hmo with
    | connect hn _ =>
      rcases mem_cons.mp hs with rfl | hold
      · exact hn
      · exact h.named hold
    | _ => exact h.named hs

theorem Sound.unfailed (h : Sound state id) (hl : state.phase id ≠ .finished)
    (hn : ∀ baseline chunk rest found,
      state.phase id ≠ .lookingUp baseline chunk rest true found) : state.failed id = false := by
  rw [← Bool.not_eq_true]
  intro ht
  rcases (h.failed ht).2 with hen | ⟨baseline, chunk, rest, found, hlo⟩
  · exact hl hen
  · exact hn _ _ _ _ hlo

theorem phaseSound_nextLookups {read : Option (List String)}
    {lookedUp : List (String × List String)}
    (hf : ∀ c, c ∈ found ↔ Found lookedUp c)
    (hre : read = some members) (hr : ∀ later ∈ rest, ∀ userId ∈ later, userId ∈ members) :
    PhaseSound read lookedUp (nextLookups baseline found rest) := by
  cases rest with
  | nil =>
    refine ⟨hf, fun c hc => hc, fun c hc => ?_⟩
    simpa using (mem_filter.mp hc).2
  | cons chunk rest =>
    refine ⟨hf, members, hre, hr chunk mem_cons_self, ?_⟩
    exact fun later hl => hr later (mem_cons_of_mem _ hl)

theorem sound_readBaseline {participants : List String} (h : Sound state id)
    (hp : state.phase id = .resolved participants) :
    Sound (readBaseline conversation state id participants) id := by
  have hb := h.phase
  rw [hp] at hb
  obtain ⟨hn, hr⟩ := hb
  refine h.move rfl rfl rfl rfl rfl (by simp [hp]) (h.unfailed (by simp [hp]) (by simp [hp])) ?_
  simp only [readBaseline, State.move, update_self]
  apply phaseSound_nextLookups _ hr
  · intro later hl userId hu
    exact Listing.mem_of_mem_toChunks hl hu
  · intro c
    simp [hn, Found]

theorem sound_lookUp {userId : String} {ok failed : Bool}
    {chunk : List String} (h : Sound state id)
    (hg : Grounded state)
    (hp : state.phase id = .lookingUp baseline chunk rest failed found)
    (hm : userId ∈ chunk) :
    Sound (lookUp state id userId ok baseline chunk rest failed found) id := by
  have hb := h.phase
  rw [hp] at hb
  obtain ⟨hf, members, hr, hc, hre⟩ := hb
  have hf' : ∀ c, c ∈ found ∪ (if ok then state.userConnectionIds userId else []) ↔
      Found ((userId, if ok then state.userConnectionIds userId else []) :: state.lookedUp id)
        c := by
    intro c
    rw [found_cons, List.mem_union_iff, hf]
    exact or_comm
  have hun : state.pushed id = none := by
    by_contra hsn
    obtain ⟨connectionIds, hs⟩ := Option.ne_none_iff_exists'.mp hsn
    exact absurd ((h.pushed hs).1.symm.trans hp) (by simp)
  refine ⟨?_, ?_, ?_, ?_, ?_⟩
  · simp only [lookUp, State.move, update_self]
    by_cases hlf : chunk.erase userId ≠ []
    · rw [if_pos hlf]
      exact ⟨hf', members, hr, fun user hu => hc user (mem_of_mem_erase hu), hre⟩
    · rw [if_neg hlf]
      by_cases hfa : (failed || !ok) = true
      · rw [if_pos hfa]
        trivial
      · rw [if_neg hfa]
        exact phaseSound_nextLookups hf' hr hre
  · intro lookup hl
    simp only [lookUp, update_self] at hl
    rcases mem_cons.mp hl with rfl | hold
    · exact ⟨members, hr, hc userId hm⟩
    · exact h.users hold
  · intro connectionId hse
    simp only [lookUp, update_self, found_cons] at hse
    rcases hse with hn | hold
    · split at hn
      · exact hg.table (mem_userConnectionIds hn)
      · exact absurd hn not_mem_nil
    · exact h.seen hold
  · intro connectionIds hs
    exact absurd (hun.symm.trans hs) (by simp)
  · intro ht
    refine ⟨hun, ?_⟩
    simp only [lookUp, State.move, update_self] at ht ⊢
    have hfa : (failed || !ok) = true := by
      rcases Bool.or_eq_true _ _ |>.mp ht with hold | hno
      · rcases (h.failed hold).2 with hen | ⟨_, _, _, _, hlo⟩
        · exact absurd (hen.symm.trans hp) (by simp)
        · rw [hp] at hlo
          injection hlo with _ _ _ ht
          simp [ht]
      · simp [hno]
    rw [hfa]
    split
    · exact .inr ⟨_, _, _, _, rfl⟩
    · exact .inl rfl

theorem sound_readMembers {now : Nat} (h : Sound state id) (hp : state.phase id = .waiting) :
    Sound (readMembers conversation state id now) id := by
  have hn := h.phase
  rw [hp] at hn
  have hu := h.unfailed (by simp [hp]) (by simp [hp])
  refine ⟨?_, ?_, ?_, ?_, ?_⟩
  · simp only [readMembers, State.move, update_self]
    exact ⟨hn, by rw [resolveParticipants_fst]⟩
  · intro lookup hm
    change lookup ∈ state.lookedUp id at hm
    rw [show state.lookedUp id = [] from hn] at hm
    exact absurd hm not_mem_nil
  · exact fun hf => h.seen hf
  · intro connectionIds hs
    exact absurd ((h.pushed hs).1.symm.trans hp) (by simp)
  · intro ht
    exact absurd (hu.symm.trans ht) (by simp)

theorem sound_readFails (h : Sound state id) (hp : state.phase id = .waiting) :
    Sound { state.move id .finished with failed := update state.failed id true } id := by
  have hu : state.pushed id = none := by
    by_contra hse
    obtain ⟨connectionIds, hs⟩ := Option.ne_none_iff_exists'.mp hse
    exact absurd ((h.pushed hs).1.symm.trans hp) (by simp)
  refine ⟨?_, fun hm => h.users hm, fun hf => h.seen hf, ?_, ?_⟩
  · simp only [State.move, update_self]
    trivial
  · intro connectionIds hs
    exact absurd (hu.symm.trans hs) (by simp)
  · exact fun _ => ⟨hu, .inl (by simp [State.move])⟩

theorem sound_send {live authorized : List String} (h : Sound state id)
    (hp : state.phase id = .checking [] live authorized) :
    Sound (send state id live authorized) id := by
  have hb := h.phase
  rw [hp] at hb
  have hu := h.unfailed (by simp [hp]) (by simp [hp])
  refine ⟨?_, fun hm => h.users hm, fun hf => h.seen hf, ?_, ?_⟩
  · simp only [send, State.move, update_self]
    trivial
  · intro connectionIds hs
    simp only [send, update_self, Option.some.injEq] at hs
    subst hs
    refine ⟨by simp [send, State.move], fun connectionId hm => ?_⟩
    exact (hb connectionId).mp (by simpa using (mem_filter.mp hm).2)
  · intro ht
    exact absurd (hu.symm.trans ht) (by simp)

theorem sound_moveOn {acted : Nat} (phase : Phase) (registry : Registry)
    (h : ∀ id, Sound state id) (hl : state.phase acted ≠ .finished)
    (hn : ∀ baseline chunk rest found,
      state.phase acted ≠ .lookingUp baseline chunk rest true found)
    (hb : PhaseSound (state.read acted) (state.lookedUp acted) phase) (id : Nat) :
    Sound { state.move acted phase with registry := registry } id := by
  by_cases hid : id = acted
  · subst hid
    refine (h id).move rfl rfl rfl rfl rfl hl ((h id).unfailed hl hn) ?_
    simp only [State.move, update_self]
    exact hb
  · exact (h id).frame (by simp [State.move, hid]) rfl rfl rfl rfl fun c hc => hc

theorem step_sound (h : ∀ id, Sound state id) (hg : Grounded state)
    (hmo : Move conversation state action next) (id : Nat) : Sound next id := by
  have hs := step_seen hmo
  cases hmo with
  | connect _ _ | disconnect _ | reap | subscribe _
  | changeMembers => exact (h id).frame rfl rfl rfl rfl rfl hs
  | @readMembers acted now hp =>
    by_cases hid : id = acted
    · subst hid
      exact sound_readMembers (h id) hp
    · exact (h id).frame (by simp [readMembers, State.move, hid])
        (by simp [readMembers, hid]) rfl rfl rfl hs
  | @readFails acted now hp =>
    by_cases hid : id = acted
    · subst hid
      exact sound_readFails (h id) hp
    · exact (h id).frame (by simp [State.move, hid]) rfl rfl (by simp [hid]) rfl hs
  | @readBaseline acted participants hp =>
    by_cases hid : id = acted
    · subst hid
      exact sound_readBaseline (h id) hp
    · exact (h id).frame (by simp [readBaseline, State.move, hid]) rfl rfl rfl rfl hs
  | @lookUp acted userId ok failed baseline chunk found rest hp hm =>
    by_cases hid : id = acted
    · subst hid
      exact sound_lookUp (h id) hg hp hm
    · exact (h id).frame (by simp [lookUp, State.move, hid]) rfl (by simp [lookUp, hid])
        (by simp [lookUp, hid]) rfl hs
  | @joinOne acted connectionId joins leaves authorized hp _ =>
    have hb := (h acted).phase
    rw [hp] at hb
    obtain ⟨hf, hj, hl⟩ := hb
    exact sound_moveOn (.reconciling (joins.erase connectionId) leaves authorized) _ h
      (by simp [hp]) (by simp [hp]) ⟨hf, fun c hc => hj c (mem_of_mem_erase hc), hl⟩ id
  | @leaveOne acted connectionId leaves authorized hp _ =>
    have hb := (h acted).phase
    rw [hp] at hb
    obtain ⟨hf, hj, hl⟩ := hb
    exact sound_moveOn (.reconciling [] (leaves.erase connectionId) authorized) _ h
      (by simp [hp]) (by simp [hp]) ⟨hf, hj, fun c hc => hl c (mem_of_mem_erase hc)⟩ id
  | @readSubscribers acted authorized hp =>
    have hb := (h acted).phase
    rw [hp] at hb
    exact sound_moveOn (.checking _ [] authorized) state.registry h (by simp [hp])
      (by simp [hp]) hb.1 id
  | @checkLive acted connectionId remaining live authorized hp _ _ =>
    have hb := (h acted).phase
    rw [hp] at hb
    exact sound_moveOn (.checking _ (live ++ [connectionId]) authorized) state.registry h
      (by simp [hp]) (by simp [hp]) hb id
  | @checkGone acted connectionId remaining live authorized hp _ _ =>
    have hb := (h acted).phase
    rw [hp] at hb
    exact sound_moveOn (.pruning connectionId _ live authorized) state.registry h
      (by simp [hp]) (by simp [hp]) hb id
  | @prune acted gone remaining live authorized hp =>
    have hb := (h acted).phase
    rw [hp] at hb
    exact sound_moveOn (.checking remaining live authorized) _ h (by simp [hp]) (by simp [hp]) hb id
  | @send acted live authorized hp =>
    by_cases hid : id = acted
    · subst hid
      exact sound_send (h id) hp
    · exact (h id).frame (by simp [send, State.move, hid]) rfl rfl rfl (by simp [send, hid]) hs

theorem sound_initial (members : List String) (capacity id : Nat) :
    Sound (initial members capacity) id where
  phase := rfl
  users h := absurd h not_mem_nil
  seen h := by simp [initial, Found] at h
  pushed h := by simp [initial] at h
  failed h := by simp [initial] at h

theorem grounded_initial (members : List String) (capacity : Nat) :
    Grounded (initial members capacity) where
  table h := by simp [initial, State.connectionExists] at h
  registry h := by simp [initial, emptyRegistry] at h
  named h := by simp [initial] at h

section Complete

theorem alive_of_next (hmo : Move conversation state action next) {connectionId : String}
    (hs : connectionId ∈ state.seen) (h : next.Alive connectionId) : state.Alive connectionId := by
  obtain ⟨hei, ho⟩ := h
  cases hmo with
  | connect _ hn =>
    refine ⟨?_, ho⟩
    simp only [State.connectionExists, any_cons, Bool.or_eq_true, beq_iff_eq] at hei
    rcases hei with rfl | hold
    · exact absurd hs hn
    · exact hold
  | disconnect _ => exact ⟨hei, fun hm => ho (mem_cons_of_mem _ hm)⟩
  | reap =>
    obtain ⟨connection, hm, heq⟩ := any_eq_true.mp hei
    exact ⟨any_eq_true.mpr ⟨connection, (mem_filter.mp hm).1, heq⟩, ho⟩
  | _ => exact ⟨hei, ho⟩

-- The connections still to be checked have been seen, and one about to be pruned is gone.
def PrunesGone (state : State) : Phase → Prop
  | .checking remaining _ _ => ∀ c ∈ remaining, c ∈ state.seen
  | .pruning gone remaining _ _ =>
    (∀ c ∈ remaining, c ∈ state.seen) ∧ gone ∈ state.seen ∧ ¬ state.Alive gone
  | _ => True

-- A live connection that the lookups of a delivery returned is on its way to the send: to be
-- joined, subscribed, to be checked or found live.
def Carries (key : ConversationKey) (registry : Registry) (connectionId : String) :
    Phase → Prop
  | .reconciling joins _ _ =>
    connectionId ∈ joins ∨ connectionId ∈ registry.byConversation key
  | .checking remaining live _ => connectionId ∈ remaining ∨ connectionId ∈ live
  | .pruning _ remaining live _ => connectionId ∈ remaining ∨ connectionId ∈ live
  | _ => True

structure OnItsWay (conversation : Conversation) (state : State) : Prop where
  carries {id : Nat} {connectionId : String} (hfound : Found (state.lookedUp id) connectionId)
    (halive : state.Alive connectionId) :
    Carries conversation.key state.registry connectionId (state.phase id)
  prunes (id : Nat) : PrunesGone state (state.phase id)

-- No delivery takes a live connection out of the registry that another delivery has joined and
-- not yet read back.
def LeavesOthersAlone (state : State) : Action → Prop
  | .leaveOne _ connectionId => ∀ id joins leaves authorized,
      state.phase id = .reconciling joins leaves authorized → connectionId ∈ authorized →
      state.Alive connectionId → connectionId ∈ joins
  | _ => True

theorem localSubscribers_eq (conversation : Conversation) (registry : Registry) :
    localSubscribers conversation.key registry = registry.byConversation conversation.key := by
  simp [localSubscribers, conversation.canonical]

theorem PrunesGone.later {phase : Phase} (hm : Move conversation state action next)
    (h : PrunesGone state phase) : PrunesGone next phase := by
  have hs := step_seen hm
  cases phase with
  | checking remaining live authorized => exact fun c hc => hs c (h c hc)
  | pruning gone remaining live authorized =>
    obtain ⟨hr, hg, hde⟩ := h
    exact ⟨fun c hc => hs c (hr c hc), hs gone hg, fun ha => hde (alive_of_next hm hg ha)⟩
  | _ => trivial

theorem prunesGone_nextLookups (baseline found : List String) (rest : List (List String)) :
    PrunesGone state (nextLookups baseline found rest) := by
  cases rest <;> trivial

theorem step_prunes (hg : Grounded state) (h : ∀ id, PrunesGone state (state.phase id))
    (hmo : Move conversation state action next) (id : Nat) : PrunesGone next (next.phase id) := by
  have hl : PrunesGone next (state.phase id) := (h id).later hmo
  -- only the phase of the call that moves is new
  have ho : ∀ {acted : Nat} {phase : Phase}, PrunesGone next phase →
      PrunesGone next (update state.phase acted phase id) := by
    intro acted phase hp
    by_cases hid : id = acted
    · subst hid
      simpa using hp
    · simpa [hid] using hl
  cases hmo with
  | readMembers _ | readFails _ | joinOne _ _ | leaveOne _ _ | send _ => exact ho trivial
  | readBaseline _ => exact ho (prunesGone_nextLookups _ _ _)
  | lookUp _ _ =>
    apply ho
    split
    · trivial
    · split
      · trivial
      · exact prunesGone_nextLookups _ _ _
  | readSubscribers _ =>
    refine ho fun c hc => ?_
    rw [localSubscribers_eq] at hc
    exact hg.registry hc
  | @checkLive acted connectionId remaining live authorized hp _ _ =>
    have hr := h acted
    rw [hp] at hr
    exact ho fun c hc => hr c (mem_of_mem_erase hc)
  | @checkGone acted connectionId remaining live authorized hp hm hgo =>
    have hr := h acted
    rw [hp] at hr
    exact ho ⟨fun c hc => hr c (mem_of_mem_erase hc), hr connectionId hm, fun ha => hgo ha.1⟩
  | @prune acted gone remaining live authorized hp =>
    have hr := h acted
    rw [hp] at hr
    exact ho hr.1
  | _ => exact hl

theorem Carries.registry {key : ConversationKey} {registry registry' : Registry}
    {connectionId : String} {phase : Phase} (h : Carries key registry connectionId phase)
    (hk : connectionId ∈ registry.byConversation key →
      connectionId ∈ registry'.byConversation key) :
    Carries key registry' connectionId phase := by
  cases phase with
  | reconciling joins leaves authorized => exact h.imp_right hk
  | _ => exact h

theorem carries_nextLookups {key : ConversationKey} {registry : Registry}
    {connectionId : String}
    (h : connectionId ∈ found) :
    Carries key registry connectionId (nextLookups baseline found rest) := by
  cases rest with
  | nil => exact .inl h
  | cons chunk rest => trivial

-- A delivery's own leaves never concern a connection its lookups returned.
theorem leave_carries (hso : ∀ id, Sound state id) {acted : Nat}
    {left connectionId : String} {leaves authorized : List String}
    (hp : state.phase acted = .reconciling [] leaves authorized) (hm : left ∈ leaves)
    (hok : LeavesOthersAlone state (.leaveOne acted left))
    (hf : Found (state.lookedUp id) connectionId) (hal : state.Alive connectionId)
    (h : Carries conversation.key state.registry connectionId (state.phase id)) :
    Carries conversation.key (leave conversation.key left state.registry) connectionId
      (update state.phase acted (.reconciling [] (leaves.erase left) authorized) id) := by
  by_cases hid : id = acted
  · subst hid
    have hb := (hso id).phase
    rw [hp] at hb h
    obtain ⟨ha, -, hap⟩ := hb
    have hne : connectionId ≠ left := by
      rintro rfl
      exact hap connectionId hm ((ha connectionId).mpr hf)
    simp only [update_self]
    rcases h with hj | hs
    · exact absurd hj not_mem_nil
    · exact .inr (mem_leave_of_ne _ _ _ hs hne)
  · simp only [update_of_ne hid]
    cases ho : state.phase id with
    | reconciling joins leaves' authorized' =>
      have hb := (hso id).phase
      rw [ho] at hb h
      by_cases hsa : connectionId = left
      · subst hsa
        exact .inl (hok id joins leaves' authorized' ho ((hb.1 connectionId).mpr hf) hal)
      · exact h.imp_right fun hs => mem_leave_of_ne _ _ _ hs hsa
    | _ =>
      rw [ho] at h
      exact h

theorem step_onItsWay (hs : ∀ id, Sound state id) (hg : Grounded state)
    (h : OnItsWay conversation state) (hok : LeavesOthersAlone state action)
    (hmo : Move conversation state action next) : OnItsWay conversation next := by
  refine ⟨?_, step_prunes hg h.prunes hmo⟩
  intro id connectionId hf ha
  -- what the delivery found before was alive before
  have hb : Found (state.lookedUp id) connectionId → state.Alive connectionId ∧
      Carries conversation.key state.registry connectionId (state.phase id) := by
    intro hf
    have hw := alive_of_next hmo ((hs id).seen hf) ha
    exact ⟨hw, h.carries hf hw⟩
  -- a delivery that does not move, with a registry that keeps the connection
  have ho : ∀ {acted : Nat} {phase : Phase} {registry : Registry},
      Found (state.lookedUp id) connectionId → id ≠ acted →
      (connectionId ∈ state.registry.byConversation conversation.key →
        connectionId ∈ registry.byConversation conversation.key) →
      Carries conversation.key registry connectionId
        (update state.phase acted phase id) := by
    intro acted phase registry hf hid hk
    rw [update_of_ne hid]
    exact (hb hf).2.registry hk
  cases hmo with
  | connect _ _ | reap | changeMembers => exact (hb hf).2
  | @disconnect closed _ =>
    apply (hb hf).2.registry
    intro hsu
    refine mem_removeConnection_of_ne _ _ hsu ?_
    rintro rfl
    exact ha.2 mem_cons_self
  | subscribe _ => exact (hb hf).2.registry (mem_join_of_mem _ _ _)
  | @readMembers acted now hp =>
    by_cases hid : id = acted
    · subst hid
      simp only [readMembers, State.move, update_self]
      trivial
    · exact ho hf hid fun hm => hm
  | @readFails acted now hp =>
    by_cases hid : id = acted
    · subst hid
      simp only [State.move, update_self]
      trivial
    · exact ho hf hid fun hm => hm
  | @readBaseline acted participants hp =>
    by_cases hid : id = acted
    · subst hid
      have hn := (hs id).phase
      rw [hp] at hn
      change Found (state.lookedUp id) connectionId at hf
      rw [hn.1] at hf
      simp [Found] at hf
    · exact ho hf hid fun hm => hm
  | @lookUp acted userId ok failed baseline chunk found rest hp _ =>
    by_cases hid : id = acted
    · subst hid
      have hph := (hs id).phase
      rw [hp] at hph
      simp only [lookUp, State.move, update_self] at hf ⊢
      have hm : connectionId ∈
          found ∪ (if ok then state.userConnectionIds userId else []) := by
        rw [List.mem_union_iff, hph.1]
        exact (found_cons.mp hf).symm
      by_cases hl : chunk.erase userId ≠ []
      · rw [if_pos hl]
        trivial
      · rw [if_neg hl]
        by_cases hfa : (failed || !ok) = true
        · rw [if_pos hfa]
          trivial
        · rw [if_neg hfa]
          exact carries_nextLookups hm
    · simp only [lookUp, update_of_ne hid] at hf
      exact ho hf hid fun hm => hm
  | @joinOne acted joined joins leaves authorized hp hm =>
    by_cases hid : id = acted
    · subst hid
      have hc := (hb hf).2
      rw [hp] at hc
      simp only [State.move, update_self]
      by_cases hsa : connectionId = joined
      · subst hsa
        exact .inr (mem_join_self _ _ _ conversation.canonical conversation.named
          (hg.named ((hs id).seen hf)))
      · exact hc.imp (fun hj => (List.mem_erase_of_ne hsa).mpr hj) (mem_join_of_mem _ _ _)
    · exact ho hf hid (mem_join_of_mem _ _ _)
  | @leaveOne acted left leaves authorized hp hm =>
    obtain ⟨hw, hc⟩ := hb hf
    exact leave_carries hs hp hm hok hf hw hc
  | @readSubscribers acted authorized hp =>
    by_cases hid : id = acted
    · subst hid
      have hc := (hb hf).2
      rw [hp] at hc
      simp only [State.move, update_self]
      rcases hc with hj | hsu
      · exact absurd hj not_mem_nil
      · exact .inl (by rwa [localSubscribers_eq])
    · exact ho hf hid fun hm => hm
  | @checkLive acted checked remaining live authorized hp _ _ =>
    by_cases hid : id = acted
    · subst hid
      have hc := (hb hf).2
      rw [hp] at hc
      simp only [State.move, update_self]
      by_cases hsa : connectionId = checked
      · exact .inr (by simp [hsa])
      · exact hc.imp (fun hm => (List.mem_erase_of_ne hsa).mpr hm)
          fun hli => List.mem_append_left _ hli
    · exact ho hf hid fun hm => hm
  | @checkGone acted checked remaining live authorized hp _ hgo =>
    by_cases hid : id = acted
    · subst hid
      have hc := (hb hf).2
      rw [hp] at hc
      simp only [State.move, update_self]
      have hne : connectionId ≠ checked := by
        rintro rfl
        exact hgo ha.1
      exact hc.imp_left fun hm => (List.mem_erase_of_ne hne).mpr hm
    · exact ho hf hid fun hm => hm
  | @prune acted gone remaining live authorized hp =>
    have hde := h.prunes acted
    rw [hp] at hde
    obtain ⟨hw, hc⟩ := hb hf
    have hne : connectionId ≠ gone := by
      rintro rfl
      exact hde.2.2 hw
    by_cases hid : id = acted
    · subst hid
      rw [hp] at hc
      simp only [State.move, update_self]
      exact hc
    · exact ho hf hid fun hm => mem_leave_of_ne _ _ _ hm hne
  | @send acted live authorized hp =>
    by_cases hid : id = acted
    · subst hid
      simp only [send, State.move, update_self]
      trivial
    · exact ho hf hid fun hm => hm

theorem onItsWay_initial (members : List String) (capacity : Nat) :
    OnItsWay conversation (initial members capacity) where
  carries hf _ := by simp [initial, Found] at hf
  prunes _ := trivial

end Complete

-- A delivery is pushed to connections its own lookups returned for members of its own read, to
-- all of them that are alive when it sends, and to none when its read or a lookup failed.
structure ReachesMembers (conversation : Conversation) (ok : State → Action → Prop) : Prop where
  contained {members connectionIds : List String} {capacity id : Nat} {actions : List Action}
    {last : State} (hrun : Run (step conversation) ok (initial members capacity) actions last)
    (hpushed : last.pushed id = some connectionIds) :
    ∀ connectionId ∈ connectionIds, ∃ current, last.read id = some current ∧
      ∃ lookup ∈ last.lookedUp id, lookup.1 ∈ current ∧ connectionId ∈ lookup.2
  complete {members : List String} {capacity id : Nat} {actions : List Action}
    {state next : State} (hrun : Run (step conversation) ok (initial members capacity) actions state)
    (hsend : step conversation state (.send id) = some next) {connectionId : String}
    (hfound : Found (state.lookedUp id) connectionId) (halive : state.Alive connectionId) :
    ∃ connectionIds, next.pushed id = some connectionIds ∧ connectionId ∈ connectionIds
  silent {members : List String} {capacity id : Nat} {actions : List Action} {last : State}
    (hrun : Run (step conversation) ok (initial members capacity) actions last)
    (hfailed : last.failed id = true) : last.pushed id = none

theorem run_sound {ok : State → Action → Prop} {capacity : Nat}
    {actions : List Action} {last : State}
    (hr : Run (step conversation) ok (initial members capacity) actions last) :
    (∀ id, Sound last id) ∧ Grounded last :=
  hr.preserves (fun state => (∀ id, Sound state id) ∧ Grounded state)
    (fun _ _ _ h _ hs =>
      ⟨step_sound h.1 h.2 (move_of_step hs), step_grounded h.2 h.1 (move_of_step hs)⟩)
    ⟨sound_initial members capacity, grounded_initial members capacity⟩

theorem run_onItsWay {capacity : Nat} {actions : List Action}
    {last : State}
    (hr : Run (step conversation) LeavesOthersAlone (initial members capacity) actions last) :
    OnItsWay conversation last := by
  have ha := hr.preserves
    (fun state => ((∀ id, Sound state id) ∧ Grounded state) ∧ OnItsWay conversation state)
    (fun _ _ _ h hok hs =>
      ⟨⟨step_sound h.1.1 h.1.2 (move_of_step hs), step_grounded h.1.2 h.1.1 (move_of_step hs)⟩,
        step_onItsWay h.1.1 h.1.2 h.2 hok (move_of_step hs)⟩)
    ⟨⟨sound_initial members capacity, grounded_initial members capacity⟩,
      onItsWay_initial members capacity⟩
  exact ha.2

theorem delivery_reaches_members (conversation : Conversation) :
    ReachesMembers conversation LeavesOthersAlone where
  contained {_ connectionIds _ id _ last} hrun hpushed := by
    intro connectionId hmem
    have hsound := (run_sound hrun).1 id
    obtain ⟨lookup, hlookup, hreturned⟩ := (hsound.pushed hpushed).2 connectionId hmem
    obtain ⟨current, hread, huser⟩ := hsound.users hlookup
    exact ⟨current, hread, lookup, hlookup, huser, hreturned⟩
  complete {_ _ id _ state next} hrun hsend connectionId hfound halive := by
    have hsound := ((run_sound hrun).1 id).phase
    have hcarried := (run_onItsWay hrun).carries hfound halive
    cases move_of_step hsend with
    | @send _ live authorized hphase =>
      rw [hphase] at hsound hcarried
      refine ⟨live.filter fun connectionId => authorized.contains connectionId,
        by simp [send], ?_⟩
      rcases hcarried with hremaining | hlive
      · exact absurd hremaining List.not_mem_nil
      · exact List.mem_filter.mpr ⟨hlive, by simpa using (hsound connectionId).mpr hfound⟩
  silent {_ _ id _ _} hrun hfailed := (((run_sound hrun).1 id).failed hfailed).1

-- Delivery 1 has read the members before bob joined. Delivery 0 subscribes bob's connection,
-- delivery 1 takes it out again as no member's, and delivery 0 reads the subscribers back.
def group : Conversation where
  key := ⟨"acme", "group"⟩
  canonical := by decide
  named := by decide
  participantsTtl := 10
  largeGroupParticipantsTtl := 60

def overlapping : List Action :=
  [.connect "a" "alice", .connect "b" "bob", .readMembers 1 true 0,
    .changeMembers ["alice", "bob"], .readMembers 0 true 1, .readBaseline 0,
    .lookUp 0 "alice" true, .lookUp 0 "bob" true, .joinOne 0 "a", .joinOne 0 "b",
    .readBaseline 1, .lookUp 1 "alice" true, .joinOne 1 "a", .leaveOne 1 "b",
    .readSubscribers 0, .checkOne 0 "a"]

theorem older_delivery_withholds_a_member : ¬ ReachesMembers group anyStep := by
  intro h
  have hrun : (execute (step group) anyStep (initial ["alice"] 1) overlapping).map (fun state =>
      (state.phase 0, state.lookedUp 0, state.connectionExists "b", state.closed)) =
      some (.checking [] ["a"] ["a", "b"], [("bob", ["b"]), ("alice", ["a"])], true, []) := by
    decide
  obtain ⟨state, hexecute, hstate⟩ := Option.map_eq_some_iff.mp hrun
  simp only [Prod.mk.injEq] at hstate
  obtain ⟨hphase, hlookedUp, hexists, hclosed⟩ := hstate
  have hsend : step group state (.send 0) = some (send state 0 ["a"] ["a", "b"]) := by
    simp [step, hphase]
  have hfound : Found (state.lookedUp 0) "b" :=
    ⟨("bob", ["b"]), by simp [hlookedUp], List.mem_cons_self⟩
  obtain ⟨connectionIds, hpushed, hmem⟩ := h.complete (run_of_execute hexecute) hsend hfound
    ⟨hexists, by simp [hclosed]⟩
  simp only [send, Function.update_self, Option.some.injEq] at hpushed
  subst hpushed
  exact absurd hmem (by decide)

end FlareIm.ConversationDelivery
