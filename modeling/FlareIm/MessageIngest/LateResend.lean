import FlareIm.MessageIngest.Theorems

namespace FlareIm.MessageIngest

open Text Context Proto MessageProfile IdempotencySlot Transition
open OperationPolicy (FlareError)

variable {executed : Bool} {reply : Reply}

section Lookback

-- Durations are in milliseconds, as are the clocks.
def CLIENT_CLOCK_MARGIN : Nat := 5 * 60 * 1000

def I64_MAX : Int := 2 ^ 63 - 1

def I64_MIN : Int := -2 ^ 63

inductive LookbackReason where
  | staleClientTime

structure LedgerLookbackPolicy where
  redisResultTtl : Nat

def LedgerLookbackPolicy.windowMs (policy : LedgerLookbackPolicy) : Int :=
  let window := policy.redisResultTtl - CLIENT_CLOCK_MARGIN
  if (window : Int) ≤ I64_MAX then window else I64_MAX

-- A creation time of zero or below is none: nothing shows that the send is an old one.
def LedgerLookbackPolicy.reason (policy : LedgerLookbackPolicy) (clientCreatedAtMs nowMs : Int) :
    Option LookbackReason :=
  if clientCreatedAtMs ≤ 0 then none
  else if clientCreatedAtMs < max I64_MIN (min I64_MAX (nowMs - policy.windowMs)) then
    some .staleClientTime
  else none

theorem LedgerLookbackPolicy.windowMs_eq (policy : LedgerLookbackPolicy) :
    policy.windowMs = min ((policy.redisResultTtl - CLIENT_CLOCK_MARGIN : Nat) : Int) I64_MAX := by
  rw [windowMs, min_def]

theorem LedgerLookbackPolicy.reason_isSome {policy : LedgerLookbackPolicy}
    {clientCreatedAtMs nowMs : Int} : (policy.reason clientCreatedAtMs nowMs).isSome ↔
      0 < clientCreatedAtMs ∧
        clientCreatedAtMs < max I64_MIN (min I64_MAX (nowMs - policy.windowMs)) := by
  unfold reason
  split
  · simp
    omega
  · split <;> simp_all

-- `find` reads a row by tenant, sender and client id. It fails when the database does, or when it
-- takes too long.
structure IdempotencyLedger where
  find : String → String → String → Except FlareError (Option LedgerRecord)
  policy : LedgerLookbackPolicy

-- What the handler learns from the ledger. A send that is not an old one does not read it.
def consult (ledger : Option IdempotencyLedger) (tenantId : String) (message : Message)
    (now : Int) : Except FlareError (Option LedgerRecord) :=
  match ledger with
  | none => .ok none
  | some ledger =>
    match ledger.policy.reason message.createdAt now with
    | none => .ok none
    | some _ => ledger.find (normalizeTenantId tenantId) message.senderId message.clientMsgId

end Lookback

section Lifetime

-- A value of Redis is there until its clock has passed the deadline.
structure Expiring where
  text : String
  deadline : Int

def Expiring.read (value : Expiring) (now : Int) : Option String :=
  if now ≤ value.deadline then some value.text else none

-- The least lifetime is a second, for the results in Redis and for the policy of the ledger.
def resultTtlSecs (configured : Nat) : Nat := max configured 1

def commit (numbering : Numbering) (configured : Nat) (record : IdempotentRecord) (now : Int) :
    Expiring where
  text := encode numbering record
  deadline := now + resultTtlSecs configured * 1000

theorem Expiring.read_eq_none {value : Expiring} {now : Int} :
    value.read now = none ↔ value.deadline < now := by
  unfold Expiring.read
  split <;> simp <;> omega

end Lifetime

-- A send, and the same message again after the result of the first had lapsed. The clock of the
-- servers shows `firstAt` when the send comes in, `committedAt` when its result goes to Redis,
-- `beganAt` when the resend looks for it, and `lookedUpAt` when it may turn to the ledger.
structure LateResend where
  numbering : Numbering
  configured : Nat
  find : String → String → String → Except FlareError (Option LedgerRecord)
  request : Request
  tenantId : String
  first : IdempotentRecord
  record : LedgerRecord
  firstAt : Int
  committedAt : Int
  beganAt : Int
  lookedUpAt : Int
  tenant : request.tenant = some tenantId
  created : 0 < request.message.createdAt
  -- a card post with a creation time is refused before it gets here
  card : request.fingerprint ≠ none → request.message.createdAt = 0
  -- the client's clock is ahead by the margin at most
  skew : request.message.createdAt ≤ firstAt + CLIENT_CLOCK_MARGIN
  commits : firstAt ≤ committedAt
  lapsed : (commit numbering configured first committedAt).read beganAt = none
  looks : beganAt ≤ lookedUpAt
  clock : lookedUpAt ≤ I64_MAX
  holds : find (normalizeTenantId tenantId) request.message.senderId request.message.clientMsgId =
    .ok (some record)
  same : (record.serverId, record.conversationSeq) = recordIdentity first
  conversation : record.conversationId = request.message.conversationId
  -- the writer makes no row for a message without a client id
  named : trim request.message.clientMsgId ≠ ""

namespace LateResend

variable (late : LateResend)

def ledger : IdempotencyLedger where
  find := late.find
  policy := ⟨resultTtlSecs late.configured * 1000⟩

def consulted : Prop :=
  (late.ledger.policy.reason late.request.message.createdAt late.lookedUpAt).isSome

def found : Except FlareError (Option LedgerRecord) :=
  consult (some late.ledger) late.tenantId late.request.message late.lookedUpAt

def outcome : SendMessageOutcome :=
  ⟨late.record.serverId, late.record.conversationSeq, late.record.durability⟩

-- The resend is still to begin, and Redis holds what is left of the first result.
structure Arrives (requests : Nat → Request) (call : Nat) (state : State) : Prop where
  request : requests call = late.request
  waiting : state.phase call = .waiting
  fresh : state.submissions call = none
  slot : ∀ key, late.request.key = some key →
    (state.slots key).map Slot.text =
      (commit late.numbering late.configured late.first late.committedAt).read late.beganAt

-- The lookup of the resend gets what the handler learns, or the ledger that it reads fails it.
def Answers (call : Nat) (_ : State) (action : Action) : Prop :=
  ∀ found, action = .lookup call found →
    found = late.found ∨ late.consulted ∧ ∃ error, found = .error error

-- The ledger is consulted, the resend can be answered out of it, and whatever else happens it gets
-- no other answer and never prepares a message with a number of its own.
def Finds : Prop :=
  late.consulted ∧ ∀ requests call state, late.Arrives requests call state →
    (∃ final, Run (step late.numbering requests) (late.Answers call) state
        [.begin_ call true .ok, .lookup call late.found, .settle call true .ok] final ∧
      final.phase call = .answered (.ok late.outcome)) ∧
    ∀ rest final, Run (step late.numbering requests) (late.Answers call) state
        (.begin_ call true .ok :: rest) final →
      final.submissions call = none ∧ ∀ outcome, final.phase call = .answered (.ok outcome) →
        outcome.identity = recordIdentity late.first

theorem consulted_iff : late.consulted ↔
    CLIENT_CLOCK_MARGIN ≤ resultTtlSecs late.configured * 1000 ∨
      late.request.message.createdAt < late.lookedUpAt := by
  have hl := Expiring.read_eq_none.mp late.lapsed
  have hc := late.created
  have hs := late.skew
  have hco := late.commits
  have hlo := late.looks
  have hcl := late.clock
  have hw := late.ledger.policy.windowMs_eq
  rw [consulted, LedgerLookbackPolicy.reason_isSome]
  dsimp only [commit, ledger] at hl hw ⊢
  unfold I64_MAX at hcl hw ⊢
  unfold I64_MIN
  -- a window that does not fit would not have lapsed before the clock's own end
  constructor
  · rintro ⟨-, hb⟩
    omega
  · intro hcn
    refine ⟨hc, ?_⟩
    omega

end LateResend

section Frame

variable {numbering : Numbering} {requests : Nat → Request} {state next : State} {call : Nat}

-- What a step of a call leaves alone.
structure Frame (call : Nat) (state next : State) : Prop where
  phase : ∀ other, other ≠ call → next.phase other = state.phase other
  submissions : ∀ other, other ≠ call → next.submissions other = state.submissions other

theorem Frame.refl : Frame call state state := ⟨fun _ _ => rfl, fun _ _ => rfl⟩

theorem Frame.goTo {middle : State} (phase : Phase) (h : Frame call state middle) :
    Frame call state (middle.goTo call phase) where
  phase other hne := (goTo_phase_of_ne hne).trans (h.phase other hne)
  submissions other hne := h.submissions other hne

theorem Frame.setSlot {middle : State} (key : Option String) (slot : Option Slot)
    (h : Frame call state middle) : Frame call state (middle.setSlot key slot) where
  phase other hne := by rw [setSlot_phase, h.phase other hne]
  submissions other hne := by rw [setSlot_submissions, h.submissions other hne]

theorem beginStep_frame (hs : beginStep numbering requests state call executed reply = some next) :
    Frame call state next := by
  have hr (reserves : Prop) [Decidable reserves] (key : Option String) (slot : Option Slot) :
      Frame call state (if reserves then state.setSlot key slot else state) := by
    split
    · exact Frame.refl.setSlot key slot
    · exact .refl
  unfold beginStep at hs
  dsimp only at hs
  split at hs
  · cases hs
    exact Frame.refl.goTo _
  · split at hs
    · cases hs
    · split at hs
      · cases hs
        exact (Frame.refl.setSlot _ _).goTo _
      · cases hs
        exact Frame.refl.goTo _
  · cases hs
    exact (hr _ _ _).goTo _
  · cases hs
    exact (hr _ _ _).goTo _

theorem allocateStep_frame {draft : Option Draft} {stamp : Stamp} {floor : Option Nat}
    (hs : allocateStep requests state call draft stamp floor = some next) :
    Frame call state next := by
  unfold allocateStep at hs
  split at hs
  · cases hs
  · split at hs
    · cases hs
      exact Frame.refl.goTo _
    · dsimp only at hs
      split at hs
      · cases hs
      · cases hs
        refine Frame.goTo _ ⟨fun _ _ => rfl, fun other hne => ?_⟩
        exact Function.update_of_ne hne _ _

theorem writeWalStep_frame {message : Message}
    (hs : writeWalStep state call message executed reply = some next) : Frame call state next := by
  have ha : Frame call state
      (if executed then { state with written := (call, message) :: state.written } else state) := by
    split <;> exact ⟨fun _ _ => rfl, fun _ _ => rfl⟩
  unfold writeWalStep at hs
  dsimp only at hs
  split at hs
  · split at hs
    · cases hs
      exact Frame.goTo _ ⟨fun _ _ => rfl, fun _ _ => rfl⟩
    · cases hs
  · cases hs
    exact ha.goTo _
  · cases hs
    exact ha.goTo _

theorem publishStep_frame {message : Message}
    (hs : publishStep requests state call message executed reply = some next) :
    Frame call state next := by
  have ha : Frame call state (if executed then
      { state with published := (call, message) :: state.published } else state) := by
    split <;> exact ⟨fun _ _ => rfl, fun _ _ => rfl⟩
  unfold publishStep at hs
  dsimp only at hs
  split at hs
  · split at hs
    · cases hs
      exact Frame.goTo _ ⟨fun _ _ => rfl, fun _ _ => rfl⟩
    · cases hs
  all_goals
    split at hs
    all_goals
      cases hs
      exact ha.goTo _

theorem settleStep_frame {result : Except FlareError SendMessageOutcome}
    (hs : settleStep numbering requests state call result executed reply = some next) :
    Frame call state next := by
  unfold settleStep at hs
  dsimp only at hs
  split at hs
  · cases hs
  · have ha (key : Option String) (slot : Option Slot) :
        Frame call state (if executed then state.setSlot key slot else state) := by
      split
      · exact Frame.refl.setSlot key slot
      · exact .refl
    split at hs
    all_goals
      cases hs
      exact (ha _ _).goTo _

def Action.caller : Action → Option Nat
  | .refuse call _ | .begin_ call _ _ | .lookup call _ | .limit call _ | .fail call _
  | .allocate call _ _ _ | .writeWal call _ _ | .publish call _ _ | .finish call
  | .settle call _ _ | .cancel call | .cleanup call _ => some call
  | .replay _ _ | .expire _ | .loseCounter _ _ => none

theorem step_frame {action : Action}
    (hs : step numbering requests state action = some next) (ho : action.caller ≠ some call) :
    next.phase call = state.phase call ∧ next.submissions call = state.submissions call := by
  have hof {caller : Nat} (hne : some caller ≠ some call) (hf : Frame caller state next) :
      next.phase call = state.phase call ∧ next.submissions call = state.submissions call := by
    have hc : call ≠ caller := fun heq => hne (congrArg some heq.symm)
    exact ⟨hf.phase call hc, hf.submissions call hc⟩
  cases action with
  | refuse caller unreadable | limit caller error | fail caller error | finish caller =>
    simp only [step] at hs
    split at hs
    · cases hs
      exact hof ho (Frame.refl.goTo _)
    · cases hs
  | begin_ caller executed reply =>
    simp only [step] at hs
    split at hs
    · cases hs
      exact hof ho (Frame.refl.goTo _)
    · exact hof ho (beginStep_frame hs)
    · cases hs
  | lookup caller found =>
    simp only [step] at hs
    split at hs
    · split at hs
      · cases hs
        exact hof ho (Frame.refl.goTo _)
      · split at hs
        all_goals
          cases hs
          exact hof ho (Frame.refl.goTo _)
    · cases hs
  | allocate caller draft stamp floor =>
    simp only [step] at hs
    split at hs
    · exact hof ho (allocateStep_frame hs)
    · cases hs
  | writeWal caller executed reply =>
    simp only [step] at hs
    split at hs
    · split at hs
      · exact hof ho (writeWalStep_frame hs)
      · cases hs
    · cases hs
  | publish caller executed reply =>
    simp only [step] at hs
    split at hs
    · split at hs
      · cases hs
      · exact hof ho (publishStep_frame hs)
    · exact hof ho (publishStep_frame hs)
    · cases hs
  | settle caller executed reply =>
    simp only [step] at hs
    split at hs
    · exact hof ho (settleStep_frame hs)
    · cases hs
  | cancel caller =>
    simp only [step, Option.map_eq_some_iff] at hs
    obtain ⟨guard, -, rfl⟩ := hs
    exact hof ho (Frame.refl.goTo _)
  | cleanup caller executed =>
    simp only [step] at hs
    split at hs
    · cases hs
      refine hof ho (Frame.goTo _ ?_)
      split
      · exact Frame.refl.setSlot _ _
      · exact .refl
    · cases hs
  | replay caller message =>
    simp only [step] at hs
    split at hs
    · cases hs
      exact ⟨rfl, rfl⟩
    · cases hs
  | expire key =>
    cases hs
    rw [setSlot_phase, setSlot_submissions]
    exact ⟨rfl, rfl⟩
  | loseCounter tenantId conversationId =>
    cases hs
    exact ⟨rfl, rfl⟩

end Frame

-- A phase that has no number of its own, and no result but the identity.
def Phase.Repeats (identity : String × Nat) : Phase → Prop
  | .reserved | .dropped _ | .abandoned _ => True
  | .settling result | .answered result =>
    ∀ outcome, result = .ok outcome → outcome.identity = identity
  | _ => False

namespace LateResend

variable {late : LateResend} {requests : Nat → Request} {state next final : State} {call : Nat}

theorem fingerprint_eq (late : LateResend) : late.request.fingerprint = none := by
  by_contra hc
  exact absurd (late.card hc) (Int.ne_of_gt late.created)

theorem digest_eq (late : LateResend) : late.request.digest = "" := by
  rw [Request.digest, late.fingerprint_eq, Option.getD_none]

theorem exists_key (late : LateResend) : ∃ key, late.request.key = some key := by
  simp only [Request.key, late.tenant, Option.bind_some, late.fingerprint_eq, idempotencyKey,
    if_neg late.named]
  split <;> exact ⟨_, rfl⟩

theorem found_eq (h : late.consulted) : late.found = .ok (some late.record) := by
  obtain ⟨reason, hr⟩ := Option.isSome_iff_exists.mp h
  rw [found, consult]
  simp only [hr]
  exact late.holds

theorem replay_eq (h : late.consulted) :
    replayFromLedger late.request.message late.found = .ok (some late.outcome) := by
  rw [found_eq h, replayFromLedger, if_pos late.conversation]
  rfl

theorem identity_outcome (late : LateResend) :
    late.outcome.identity = recordIdentity late.first := late.same

-- The first result has lapsed, so that the resend gets a reservation.
theorem Arrives.begins (h : late.Arrives requests call state) :
    ∃ next, step late.numbering requests state (.begin_ call true .ok) = some next ∧
      next.phase call = .reserved ∧ next.submissions call = none := by
  obtain ⟨key, hk⟩ := late.exists_key
  have hf : state.slots key = none := by
    have hs := h.slot key hk
    rw [late.lapsed] at hs
    simpa using hs
  simp only [step, h.waiting, h.request, late.tenant, beginStep, hk, Bool.not_true,
    Bool.false_eq_true, if_false, hf]
  refine ⟨_, rfl, goTo_phase_self _ _, ?_⟩
  rw [goTo_submissions, setSlot_submissions]
  exact h.fresh

theorem lookup_settles (hc : requests call = late.request) (hco : late.consulted)
    (hp : state.phase call = .reserved) :
    step late.numbering requests state (.lookup call late.found) =
      some (state.goTo call (.settling (.ok late.outcome))) := by
  simp [step, hp, hc, late.digest_eq, replay_eq hco]

structure Repeats (late : LateResend) (call : Nat) (state : State) : Prop where
  fresh : state.submissions call = none
  phase : (state.phase call).Repeats (recordIdentity late.first)

theorem Repeats.goTo {phase : Phase} (h : late.Repeats call state)
    (hp : phase.Repeats (recordIdentity late.first)) :
    late.Repeats call (state.goTo call phase) :=
  ⟨h.fresh, by rwa [goTo_phase_self]⟩

theorem Repeats.setSlot (key : Option String) (slot : Option Slot) (h : late.Repeats call state) :
    late.Repeats call (state.setSlot key slot) :=
  ⟨by rw [setSlot_submissions, h.fresh], by rw [setSlot_phase]; exact h.phase⟩

theorem Repeats.lookup {found : Except FlareError (Option LedgerRecord)}
    (h : late.Repeats call state) (hc : requests call = late.request) (hco : late.consulted)
    (hf : found = late.found ∨ late.consulted ∧ ∃ error, found = .error error)
    (hp : state.phase call = .reserved)
    (hs : step late.numbering requests state (.lookup call found) = some next) :
    late.Repeats call next := by
  rcases hf with rfl | ⟨-, error, rfl⟩
  · rw [lookup_settles hc hco hp] at hs
    cases hs
    refine h.goTo ?_
    rintro outcome ⟨⟩
    exact late.identity_outcome
  · simp only [step, hp, hc, late.digest_eq, ne_eq, not_true_eq_false, if_false,
      replayFromLedger, Option.some.injEq] at hs
    rw [← hs]
    exact h.goTo fun outcome heq => absurd heq (by simp)

theorem Repeats.settle {result : Except FlareError SendMessageOutcome}
    (h : late.Repeats call state) (hp : state.phase call = .settling result)
    (hs : settleStep late.numbering requests state call result executed reply = some next) :
    late.Repeats call next := by
  have hr : (Phase.settling result).Repeats (recordIdentity late.first) := hp ▸ h.phase
  unfold settleStep at hs
  dsimp only at hs
  split at hs
  · cases hs
  · have ha (key : Option String) (slot : Option Slot) :
        late.Repeats call (if executed then state.setSlot key slot else state) := by
      split
      · exact h.setSlot key slot
      · exact h
    split at hs
    · cases hs
      exact (ha _ _).goTo trivial
    · cases hs
      exact (ha _ _).goTo hr

theorem Repeats.step {action : Action} (h : late.Repeats call state)
    (hc : requests call = late.request) (hco : late.consulted) (ha : late.Answers call state action)
    (hs : step late.numbering requests state action = some next) : late.Repeats call next := by
  by_cases ho : action.caller = some call
  swap
  · obtain ⟨hp, hsu⟩ := step_frame hs ho
    exact ⟨hsu.trans h.fresh, hp ▸ h.phase⟩
  have hr := h.phase
  cases action with
  | lookup caller found =>
    obtain rfl : caller = call := Option.some.inj ho
    have hp : state.phase caller = .reserved := by
      rw [MessageIngest.step] at hs
      split at hs
      · assumption
      · cases hs
    exact h.lookup hc hco (ha found rfl) hp hs
  | settle caller executed reply =>
    obtain rfl : caller = call := Option.some.inj ho
    rw [MessageIngest.step] at hs
    split at hs
    · exact h.settle ‹_› hs
    · cases hs
  | cancel caller =>
    obtain rfl : caller = call := Option.some.inj ho
    rw [MessageIngest.step, Option.map_eq_some_iff] at hs
    obtain ⟨guard, -, rfl⟩ := hs
    exact h.goTo trivial
  | cleanup caller executed =>
    obtain rfl : caller = call := Option.some.inj ho
    rw [MessageIngest.step] at hs
    split at hs
    · cases hs
      refine Repeats.goTo ?_ trivial
      split
      · exact h.setSlot _ _
      · exact h
    · cases hs
  | replay | expire | loseCounter => exact absurd ho (by simp [Action.caller])
  -- the phases of the other steps are behind a number, or before the reservation
  | _ =>
    cases ho
    rw [MessageIngest.step] at hs
    split at hs
    all_goals first
      | (rename_i hp; rw [hp] at hr; exact hr.elim)
      | (rename_i hp _; rw [hp] at hr; exact hr.elim)
      | cases hs

theorem Repeats.run {actions : List Action} (hc : requests call = late.request)
    (hco : late.consulted)
    (hru : Run (MessageIngest.step late.numbering requests) (late.Answers call) state actions final)
    (h : late.Repeats call state) : late.Repeats call final :=
  hru.preserves (late.Repeats call) (fun _ _ _ hr ha hs => hr.step hc hco ha hs) h

theorem Arrives.replays (h : late.Arrives requests call state) (hc : late.consulted) :
    ∃ final, Run (MessageIngest.step late.numbering requests) (late.Answers call) state
      [.begin_ call true .ok, .lookup call late.found, .settle call true .ok] final ∧
      final.phase call = .answered (.ok late.outcome) := by
  obtain ⟨reserved, hb, hp, -⟩ := h.begins
  have hl := lookup_settles h.request hc hp
  have hs : ∃ final, MessageIngest.step late.numbering requests
      (reserved.goTo call (.settling (.ok late.outcome))) (.settle call true .ok) = some final ∧
      final.phase call = .answered (.ok late.outcome) := by
    simp only [MessageIngest.step, goTo_phase_self, settleStep, Phase.guard]
    exact ⟨_, rfl, goTo_phase_self _ _⟩
  obtain ⟨final, hs, ha⟩ := hs
  refine ⟨final, .cons ?_ hb (.cons ?_ hl (.cons ?_ hs (.nil final))), ha⟩
  · intro _ heq
    cases heq
  · intro found heq
    obtain rfl : late.found = found := by simpa using heq
    exact .inl rfl
  · intro _ heq
    cases heq

theorem Arrives.repeats {rest : List Action} (h : late.Arrives requests call state)
    (hc : late.consulted)
    (hru : Run (MessageIngest.step late.numbering requests) (late.Answers call) state
      (.begin_ call true .ok :: rest) final) : late.Repeats call final := by
  cases hru with
  | @cons _ middle _ _ _ _ hs hre =>
    obtain ⟨reserved, hb, hp, hf⟩ := h.begins
    obtain rfl : reserved = middle := Option.some.inj (hb.symm.trans hs)
    have hr : late.Repeats call reserved := ⟨hf, hp ▸ trivial⟩
    exact hr.run h.request hc hre

theorem finds_iff_consulted (late : LateResend) : late.Finds ↔ late.consulted := by
  refine ⟨And.left, fun hc => ⟨hc, fun requests call state ha => ?_⟩⟩
  refine ⟨ha.replays hc, fun rest final hru => ?_⟩
  have hr := ha.repeats hc hru
  refine ⟨hr.fresh, fun outcome han => ?_⟩
  have hp := hr.phase
  rw [han] at hp
  exact hp outcome rfl

end LateResend

section Lapsed

-- A late resend finds its first outcome exactly when results live at least as long as the margin,
-- or the client's clock was not so far ahead that its creation time is still to come.
theorem late_resend_found_iff (late : LateResend) : late.Finds ↔
    CLIENT_CLOCK_MARGIN ≤ resultTtlSecs late.configured * 1000 ∨
      late.request.message.createdAt < late.lookedUpAt :=
  late.finds_iff_consulted.trans late.consulted_iff

-- Results live for a minute, and the client's clock is five minutes ahead.
def fastClockResend : LateResend where
  numbering := sampleNumbering
  configured := 60
  find _ _ _ := .ok (some ⟨"2-team", "s1", 7, .persisted, s1_ne, s1_plain, by decide⟩)
  request := {
    tenantId := some "acme"
    message := {
      senderId := "alice", conversationId := "2-team", clientMsgId := "k1", createdAt := 400000 }
    fingerprint_plain := no_fingerprint_plain }
  tenantId := "acme"
  first := ⟨"s1", 7, .persisted, ""⟩
  record := ⟨"2-team", "s1", 7, .persisted, s1_ne, s1_plain, by decide⟩
  firstAt := 100000
  committedAt := 100000
  beganAt := 160001
  lookedUpAt := 160001
  tenant := by decide
  created := by decide
  card := by decide
  skew := by decide
  commits := by decide
  lapsed := by decide
  looks := by decide
  clock := by decide
  holds := rfl
  same := rfl
  conversation := rfl
  named := by decide

-- The ledger has the row, but the resend does not read it and is sent as a new message.
theorem fast_clock_resend_is_new :
    fastClockResend.found = .ok none ∧ ¬ fastClockResend.Finds := by
  have hfound : fastClockResend.found = .ok none := by decide
  refine ⟨hfound, fun hfinds => ?_⟩
  have hrow := LateResend.found_eq hfinds.1
  rw [hfound] at hrow
  exact nomatch hrow

end Lapsed

end FlareIm.MessageIngest
