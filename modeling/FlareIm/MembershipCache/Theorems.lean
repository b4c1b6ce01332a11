import FlareIm.MembershipCache
import FlareIm.Lib.Transition

namespace FlareIm.MembershipCache

open OperationPolicy Transition

variable {ttl : Nat} {key : Key} {state next : State} {call began : Nat} {other : Key}
  {lookup : Lookup} {read : MembershipRead}

-- A current read of the key that found nobody.
def Answer.refuses (answer : Answer) (key : Key) : Prop :=
  answer.key = key ∧ answer.read = .current ∧ answer.member = false

-- A recent read of the key that found a member.
def Answer.admits (answer : Answer) (key : Key) : Prop :=
  answer.key = key ∧ answer.read = .recent ∧ answer.member = true

instance (answer : Answer) (key : Key) : Decidable (answer.refuses key) :=
  inferInstanceAs (Decidable (_ ∧ _))

instance (answer : Answer) (key : Key) : Decidable (answer.admits key) :=
  inferInstanceAs (Decidable (_ ∧ _))

-- What the callers may rely on for one user and conversation.
structure Trustworthy (ttl : Nat) (key : Key) (answers : List Answer) : Prop where
  current : ∀ answer ∈ answers, answer.key = key → answer.read = .current →
    answer.began < answer.lookup.step
  refused : ∀ refusal ∈ answers, refusal.refuses key →
    ∀ answer ∈ answers, answer.admits key → refusal.step < answer.began →
      ¬ answer.lookup.step < refusal.step
  lifetime : ∀ answer ∈ answers, answer.admits key →
    answer.nowMs ≤ answer.lookup.startedMs + ttl

-- A member that a lookup found is written before a current read is refused, and before the
-- lifetime has passed since the lookup started.
def Phase.MayWrite (ttl : Nat) (key : Key) (state : State) : Phase → Prop
  | .found other _ _ lookup true => other = key →
      (∀ answer ∈ state.answers, answer.refuses key → answer.step < lookup.step) ∧
        state.now ≤ lookup.startedMs + ttl
  | _ => True

-- The clock does not stand between the end of the lifetime, as counted from the start of an
-- entry's lookup, and the end of the entry.
def Regular (ttl : Nat) (key : Key) (state : State) : Action → Prop
  | .tick ms => ∀ entry ∈ state.cache key,
      state.now + ms ≤ entry.lookup.startedMs + ttl ∨ entry.isLive ttl (state.now + ms) = false
  | .write call => (state.phase call).MayWrite ttl key state
  | _ => True

instance (ttl : Nat) (key : Key) (state : State) : ∀ phase : Phase,
    Decidable (phase.MayWrite ttl key state)
  | .found _ _ _ _ true => inferInstanceAs (Decidable (_ → _))
  | .found _ _ _ _ false => .isTrue trivial
  | .idle | .begun _ _ _ | .missed _ _ _ | .looking _ _ _ _ => .isTrue trivial

instance (ttl : Nat) (key : Key) (state : State) : ∀ action, Decidable (Regular ttl key state action)
  | .tick _ => inferInstanceAs (Decidable (∀ entry ∈ state.cache key, _))
  | .write call => inferInstanceAs (Decidable ((state.phase call).MayWrite ttl key state))
  | .change _ _ | .evict _ | .begin _ _ _ | .consult _ | .lookUp _ | .answer _ _ | .quit _ =>
    .isTrue trivial

-- The order of a call's steps: it began, and its lookup started, if it has one.
def Phase.Orderly (steps : Nat) : Phase → Prop
  | .idle => True
  | .begun _ _ began | .missed _ _ began => began < steps
  | .looking _ _ began lookup | .found _ _ began lookup _ =>
    began < lookup.step ∧ lookup.step < steps

structure Inv (ttl : Nat) (key : Key) (state : State) : Prop where
  phases : ∀ call, (state.phase call).Orderly state.steps
  past : ∀ answer ∈ state.answers, answer.began < state.steps
  cleared : ∀ entry ∈ state.cache key, ∀ answer ∈ state.answers, answer.refuses key →
    answer.step < entry.lookup.step
  young : ∀ entry ∈ state.cache key,
    state.now ≤ entry.lookup.startedMs + ttl ∨ entry.isLive ttl state.now = false
  sound : Trustworthy ttl key state.answers

section Steps

theorem inv_initial : Inv ttl key {} where
  phases _ := trivial
  past _ h := absurd h List.not_mem_nil
  cleared _ h := absurd h (by simp)
  young _ h := absurd h (by simp)
  sound := ⟨fun _ h => absurd h List.not_mem_nil, fun _ h => absurd h List.not_mem_nil,
    fun _ h => absurd h List.not_mem_nil⟩

theorem Phase.Orderly.mono {phase : Phase} {steps later : Nat} (h : phase.Orderly steps)
    (hle : steps ≤ later) : phase.Orderly later := by
  cases phase with
  | idle => trivial
  | begun | missed => exact Nat.lt_of_lt_of_le h hle
  | looking | found => exact ⟨h.1, Nat.lt_of_lt_of_le h.2 hle⟩

theorem Inv.count (h : Inv ttl key state) :
    Inv ttl key { state with steps := state.steps + 1 } where
  phases call := (h.phases call).mono (Nat.le_succ _)
  past answer hm := Nat.lt_succ_of_lt (h.past answer hm)
  cleared := h.cleared
  young := h.young
  sound := h.sound

theorem Inv.goTo {phase : Phase} (h : Inv ttl key state)
    (hp : phase.Orderly state.steps) : Inv ttl key (state.goTo call phase) where
  phases other := by
    by_cases heq : other = call
    · subst heq
      simpa only [State.goTo, Function.update_self] using hp
    · simpa only [State.goTo, Function.update_of_ne heq] using h.phases other
  past := h.past
  cleared := h.cleared
  young := h.young
  sound := h.sound

theorem Inv.forget (h : Inv ttl key state) :
    Inv ttl key { state with cache := Function.update state.cache other none } := by
  have hs : ∀ entry ∈ Function.update state.cache other none key, entry ∈ state.cache key := by
    intro entry hen
    by_cases heq : key = other
    · subst heq
      rw [Function.update_self] at hen
      cases hen
    · rwa [Function.update_of_ne heq] at hen
  exact {
    phases := h.phases
    past := h.past
    cleared := fun entry hen => h.cleared entry (hs entry hen)
    young := fun entry hen => h.young entry (hs entry hen)
    sound := h.sound }

theorem Inv.insert (h : Inv ttl key state)
    (hw : other = key → (∀ answer ∈ state.answers, answer.refuses key →
      answer.step < lookup.step) ∧ state.now ≤ lookup.startedMs + ttl) :
    Inv ttl key (state.remember other lookup true) := by
  have hen : ∀ entry ∈ (state.remember other lookup true).cache key,
      entry ∈ state.cache key ∨ (other = key ∧ entry = ⟨lookup, state.now⟩) := by
    intro entry hen
    simp only [State.remember, if_true] at hen
    by_cases heq : key = other
    · subst heq
      rw [Function.update_self, Option.mem_some_iff] at hen
      exact .inr ⟨rfl, hen.symm⟩
    · rw [Function.update_of_ne heq] at hen
      exact .inl hen
  refine ⟨h.phases, h.past, fun entry hm => ?_, fun entry hm => ?_, h.sound⟩
  · rcases hen entry hm with hold | ⟨rfl, rfl⟩
    · exact h.cleared entry hold
    · exact (hw rfl).1
  · rcases hen entry hm with hold | ⟨rfl, rfl⟩
    · exact h.young entry hold
    · exact .inl (hw rfl).2

theorem Inv.respond
    {member : Bool} (h : Inv ttl key state) (hb : began < state.steps)
    (hc : other = key → read = .current → began < lookup.step)
    (hrf : other = key → read = .recent → member = true →
      ∀ refusal ∈ state.answers, refusal.refuses key → refusal.step < began →
        ¬ lookup.step < refusal.step)
    (hl : other = key → read = .recent → member = true → state.now ≤ lookup.startedMs + ttl)
    (hcl : other = key → member = false → state.cache key = none) :
    Inv ttl key { state.respond other read began lookup member with
      steps := state.steps + 1 } where
  phases call := (h.phases call).mono (Nat.le_succ _)
  past answer hm := by
    rcases List.mem_cons.mp hm with rfl | hold
    · exact Nat.lt_succ_of_lt hb
    · exact Nat.lt_succ_of_lt (h.past answer hold)
  cleared entry hen answer hm hr := by
    rcases List.mem_cons.mp hm with rfl | hold
    · obtain ⟨hk, -, hme⟩ := hr
      have hn := hcl hk hme
      have hen : entry ∈ state.cache key := hen
      rw [hn] at hen
      cases hen
    · exact h.cleared entry hen answer hold hr
  young := h.young
  sound := {
    current := by
      intro answer hm hk hra
      rcases List.mem_cons.mp hm with rfl | hold
      · exact hc hk hra
      · exact h.sound.current answer hold hk hra
    refused := by
      intro refusal hre hr answer hm had ha
      rcases List.mem_cons.mp hm with rfl | hold
      · rcases List.mem_cons.mp hre with rfl | holder
        · exact absurd (had.2.2.symm.trans hr.2.2) (by simp)
        · exact hrf had.1 had.2.1 had.2.2 refusal holder hr ha
      · rcases List.mem_cons.mp hre with rfl | holder
        · have hp := h.past answer hold
          have ha : state.steps < answer.began := ha
          omega
        · exact h.sound.refused refusal holder hr answer hold had ha
    lifetime := by
      intro answer hm had
      rcases List.mem_cons.mp hm with rfl | hold
      · exact hl had.1 had.2.1 had.2.2
      · exact h.sound.lifetime answer hold had }

theorem Inv.tick {ms : Nat} (h : Inv ttl key state) (hok : Regular ttl key state (.tick ms)) :
    Inv ttl key { state with now := state.now + ms } where
  phases := h.phases
  past := h.past
  cleared := h.cleared
  young := hok
  sound := h.sound

theorem cached_eq_some {entry : Entry} (h : cached ttl state other read = some entry) :
    read = .recent ∧ entry ∈ state.cache other ∧ entry.isLive ttl state.now = true := by
  cases read with
  | current => exact absurd h (by simp [cached])
  | recent =>
    obtain ⟨hen, hl⟩ := Option.filter_eq_some_iff.mp h
    exact ⟨rfl, hen, hl⟩

theorem consult_inv
    {entry : Entry} (h : Inv ttl key state) (hp : state.phase call = .begun other read began)
    (hca : cached ttl state other read = some entry) :
    Inv ttl key { (state.respond other read began entry.lookup true).goTo call .idle with
      steps := state.steps + 1 } := by
  obtain ⟨hra, hen, hl⟩ := cached_eq_some hca
  have hb : began < state.steps := by
    have ho := h.phases call
    rwa [hp] at ho
  refine (h.respond hb ?_ ?_ ?_ ?_).goTo trivial
  · intro _ hc
    exact absurd (hra.symm.trans hc) (by simp)
  · rintro rfl - - refusal hr hre -
    have hcl := h.cleared entry hen refusal hr hre
    omega
  · rintro rfl - -
    rcases h.young entry hen with hy | hde
    · exact hy
    · exact absurd (hl.symm.trans hde) (by simp)
  · intro _ hm
    cases hm

theorem write_inv
    {member : Bool} (h : Inv ttl key state)
    (hp : state.phase call = .found other read began lookup member)
    (hok : Regular ttl key state (.write call)) :
    Inv ttl key { ((state.remember other lookup member).respond other read began lookup
      member).goTo call .idle with steps := state.steps + 1 } := by
  have ho : began < lookup.step ∧ lookup.step < state.steps := by
    have ho := h.phases call
    rwa [hp] at ho
  have hbe : began < state.steps := ho.1.trans ho.2
  have hr : ∀ refusal ∈ state.answers, refusal.refuses key → refusal.step < began →
      ¬ lookup.step < refusal.step := by
    intro refusal _ _ hb
    omega
  simp only [Regular, hp, Phase.MayWrite] at hok
  cases member with
  | true =>
    refine ((h.insert hok).respond hbe (fun _ _ => ho.1) ?_ ?_ ?_).goTo trivial
    · intro _ _ _
      exact hr
    · intro hk _ _
      exact (hok hk).2
    · intro _ hm
      cases hm
  | false =>
    refine (h.forget.respond hbe (fun _ _ => ho.1) ?_ ?_ ?_).goTo trivial
    · intro _ _ _
      exact hr
    · intro _ _ hm
      cases hm
    · rintro rfl -
      exact Function.update_self ..

theorem step_inv {action : Action} (h : Inv ttl key state) (hok : Regular ttl key state action)
    (hs : step ttl state action = some next) : Inv ttl key next := by
  obtain ⟨acted, ha, rfl⟩ := Option.map_eq_some_iff.mp hs
  cases action with
  | tick ms =>
    cases ha
    exact (h.tick hok).count
  | change other member =>
    cases ha
    exact ⟨h.count.phases, h.count.past, h.cleared, h.young, h.sound⟩
  | evict other =>
    cases ha
    exact h.forget.count
  | begin call other read =>
    simp only [act] at ha
    split at ha
    · cases ha
      exact h.count.goTo (Nat.lt_succ_self _)
    · cases ha
  | consult call =>
    simp only [act] at ha
    split at ha
    · rename_i other read began hp
      split at ha
      · rename_i entry hc
        cases ha
        exact consult_inv h hp hc
      · cases ha
        have ho := h.count.phases call
        simp only [hp] at ho
        exact h.count.goTo ho
    · cases ha
  | lookUp call =>
    simp only [act] at ha
    split at ha
    · rename_i other read began hp
      cases ha
      have ho := h.phases call
      rw [hp] at ho
      exact h.count.goTo ⟨ho, Nat.lt_succ_self _⟩
    · cases ha
  | answer call fault =>
    simp only [act] at ha
    split at ha
    · rename_i other read began lookup hp
      have ho := h.count.phases call
      simp only [hp] at ho
      split at ha
      · cases ha
        exact h.count.goTo ho
      · cases ha
        exact h.count.goTo trivial
    · cases ha
  | write call =>
    simp only [act] at ha
    split at ha
    · rename_i other read began lookup member hp
      cases ha
      exact write_inv h hp hok
    · cases ha
  | quit call =>
    cases ha
    exact h.count.goTo trivial

end Steps

theorem membership_is_current {actions : List Action}
    (hrun : Run (step ttl) (Regular ttl key) {} actions state) :
    Trustworthy ttl key state.answers := by
  have hinv : Inv ttl key state :=
    hrun.preserves (Inv ttl key) (fun _ _ _ h hok hstep => step_inv h hok hstep) inv_initial
  exact hinv.sound

def alice : Key := ⟨"t", "g", "alice"⟩

-- All steps of a call that asks the conversation service.
def asked (call : Nat) (read : MembershipRead) : List Action :=
  [.begin call alice read, .consult call, .lookUp call, .answer call none, .write call]

-- Alice reacts twice, is removed, is refused an edit and then a reaction.
def removedMember : List Action :=
  [.change alice true] ++ asked 0 .recent ++ [.tick 29999, .begin 1 alice .recent, .consult 1,
    .change alice false] ++ asked 2 .current ++ asked 3 .recent

theorem removed_member_is_refused :
    ∃ state, Run (step MEMBER_CACHE_TTL) (Regular MEMBER_CACHE_TTL alice) {} removedMember state ∧
      Trustworthy MEMBER_CACHE_TTL alice state.answers ∧
        state.answers.map (·.member) = [false, false, true, true] := by
  have hexecute : (execute (step MEMBER_CACHE_TTL) (Regular MEMBER_CACHE_TTL alice) {}
      removedMember).map (·.answers.map (·.member)) = some [false, false, true, true] := by
    decide +kernel
  obtain ⟨last, hlast, hanswers⟩ := Option.map_eq_some_iff.mp hexecute
  have hrun := run_of_execute hlast
  exact ⟨last, hrun, membership_is_current hrun, hanswers⟩

-- The lookup of a reaction finds Alice a member, and is slow to be written. Meanwhile she is
-- removed and refused an edit.
def slowLookup : List Action :=
  [.change alice true, .begin 0 alice .recent, .consult 0, .lookUp 0, .answer 0 none,
    .change alice false] ++ asked 1 .current ++ [.write 0, .begin 2 alice .recent, .consult 2]

-- A lookup of three seconds is good for its lifetime after them.
def lateLookup : List Action :=
  [.change alice true, .begin 0 alice .recent, .consult 0, .lookUp 0, .answer 0 none, .tick 3000,
    .write 0, .tick 29999, .begin 1 alice .recent, .consult 1]

-- Alice's next reaction is answered from the lookup before her removal. And one is answered from a
-- lookup that started more than a lifetime ago.
theorem slow_lookup_readmits :
    (∃ state, Run (step MEMBER_CACHE_TTL) anyStep {} slowLookup state ∧
      ∃ refusal ∈ state.answers, refusal.refuses alice ∧ ∃ answer ∈ state.answers,
        answer.admits alice ∧ refusal.step < answer.began ∧
          answer.lookup.step < refusal.step) ∧
      ∃ state, Run (step MEMBER_CACHE_TTL) anyStep {} lateLookup state ∧
        ∃ answer ∈ state.answers, answer.admits alice ∧
          answer.lookup.startedMs + MEMBER_CACHE_TTL < answer.nowMs := by
  constructor
  · have hexecute : (execute (step MEMBER_CACHE_TTL) anyStep {} slowLookup).isSome := by
      decide +kernel
    refine ⟨_, run_of_isSome hexecute, ?_⟩
    decide +kernel +revert
  · have hexecute : (execute (step MEMBER_CACHE_TTL) anyStep {} lateLookup).isSome := by
      decide +kernel
    refine ⟨_, run_of_isSome hexecute, ?_⟩
    decide +kernel +revert

end FlareIm.MembershipCache
