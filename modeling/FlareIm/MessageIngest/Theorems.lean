import FlareIm.MessageIngest

namespace FlareIm.MessageIngest

open Text Context Proto Fallible MessageProfile IdempotencySlot Transition
open OperationPolicy (FlareError)

variable {message : Message} {key : String} {slot : Option Slot} {guard : ReservationState}
  {stamp : Stamp} {executed : Bool} {reply : Reply}

-- What a send is known by to the client: the id and the number of its message.
def SendMessageOutcome.identity (outcome : SendMessageOutcome) : String × Nat :=
  (outcome.messageId, outcome.conversationSeq)

def recordIdentity (record : IdempotentRecord) : String × Nat :=
  (record.serverId, record.conversationSeq)

def messageIdentity (message : Message) : String × Nat :=
  (message.serverId, message.conversationSeq)

-- The identity a call has settled on, whether or not the client got to know it.
def Phase.decided : Phase → Option (String × Nat)
  | .walWritten message | .published message => some (messageIdentity message)
  | .settling (.ok outcome) | .answered (.ok outcome) => some outcome.identity
  | .dropped (.accepted record) | .abandoned (.accepted record) => some (recordIdentity record)
  | _ => none

-- The call holds a guard, or the cleanup of its guard is under way.
def Phase.live : Phase → Bool
  | .waiting | .answered _ | .abandoned _ => false
  | _ => true

-- The message a call is carrying.
def Phase.carries : Phase → Option Message
  | .allocated message | .walWritten message | .published message => some message
  | _ => none

def PlainIdentity (identity : String × Nat) : Prop :=
  identity.1 ≠ "" ∧ '|' ∉ identity.1.toList ∧ identity.2 < 2 ^ 64

-- The identities a phase holds can be written to a slot and read back.
structure Phase.Sound (phase : Phase) : Prop where
  decided : ∀ identity, phase.decided = some identity → PlainIdentity identity
  carries : ∀ message, phase.carries = some message → PlainIdentity (messageIdentity message)
  dropped : ∀ record, phase = .dropped (.accepted record) → Plain record
  durable : ∀ message, phase = .walWritten message → durability message ≠ .transientAccepted

section Orderly

variable (requests : Nat → Request)

-- A step that leaves a key to the call that owns it: a statement that put the message out is
-- answered, a rollback that was executed is not cancelled any more, and a key does not expire
-- while its call is under way or after it has settled on a result.
def Orderly (state : State) : Action → Prop
  | .writeWal call executed reply =>
    (requests call).key ≠ none → executed = true → reply = .ok
  | .publish call executed reply =>
    match state.phase call with
    | .allocated _ => (requests call).key ≠ none → executed = true → reply = .ok
    | _ => True
  | .settle call executed reply =>
    match state.phase call with
    | .settling (.error _) => (requests call).key ≠ none → executed = true → reply ≠ .cancelled
    | _ => True
  | .expire key =>
    match state.slots key with
    | some slot =>
      (state.phase slot.owner).live = false ∧ (state.phase slot.owner).decided = none
    | none => True
  | _ => True

end Orderly

-- The slot is a reservation, or it holds the result its call has settled on.
def SlotFits (numbering : Numbering) (state : State) (slot : Slot) : Prop :=
  slot.text = PENDING_MARKER ∨ ∃ record, Plain record ∧ slot.text = encode numbering record ∧
    (state.phase slot.owner).decided = some (recordIdentity record)

def Logged (state : State) (call : Nat) (message : Message) : Prop :=
  (call, message) ∈ state.written ∨ (call, message) ∈ state.published

-- A key belongs to one call: to the one that is under way, or to the one whose result every
-- answer of the key repeats. Only that call has put out a message.
structure Inv (numbering : Numbering) (requests : Nat → Request) (state : State) : Prop where
  held : ∀ call key, (requests call).key = some key → (state.phase call).live = true →
    ∃ slot, state.slots key = some slot ∧ slot.owner = call
  valid : ∀ key slot, state.slots key = some slot →
    (requests slot.owner).key = some key ∧ SlotFits numbering state slot
  agreed : ∀ call key identity, (requests call).key = some key →
    (state.phase call).decided = some identity →
    ∃ slot, state.slots key = some slot ∧ (state.phase slot.owner).decided = some identity
  logged : ∀ call key message, (requests call).key = some key → Logged state call message →
    state.submissions call = some message ∧
    (state.phase call).decided = some (messageIdentity message) ∧
    ∃ slot, state.slots key = some slot ∧ slot.owner = call
  carried : ∀ call message, (state.phase call).carries = some message →
    state.submissions call = some message
  sound : ∀ call, (state.phase call).Sound

section Invariant

variable {numbering : Numbering} {requests : Nat → Request} {state next : State}

@[simp] theorem goTo_phase_self (call : Nat) (phase : Phase) :
    (state.goTo call phase).phase call = phase := by
  simp [State.goTo]

theorem goTo_phase_of_ne {call other : Nat} {phase : Phase} (h : other ≠ call) :
    (state.goTo call phase).phase other = state.phase other := by
  simp [State.goTo, h]

@[simp] theorem goTo_slots (call : Nat) (phase : Phase) :
    (state.goTo call phase).slots = state.slots := rfl

@[simp] theorem goTo_submissions (call : Nat) (phase : Phase) :
    (state.goTo call phase).submissions = state.submissions := rfl

theorem setSlot_goTo (key : Option String) (slot : Option Slot) (call : Nat) (phase : Phase) :
    (state.setSlot key slot).goTo call phase = (state.goTo call phase).setSlot key slot := by
  cases key <;> rfl

theorem inv_initial : Inv numbering requests {} where
  held _ _ _ h := absurd h (by simp [Phase.live])
  valid _ _ h := absurd h (by simp)
  agreed _ _ _ _ h := absurd h (by simp [Phase.decided])
  logged _ _ _ _ h := absurd h (by simp [Logged])
  carried _ _ h := absurd h (by simp [Phase.carries])
  sound _ := ⟨fun _ h => absurd h (by simp [Phase.decided]),
    fun _ h => absurd h (by simp [Phase.carries]), fun _ h => absurd h (by simp),
    fun _ h => absurd h (by simp)⟩

-- A move of one call that gives up no decision, and decides only on a key of its own or on what
-- the owner of the key has decided.
structure Moves (requests : Nat → Request) (state : State) (call : Nat) (phase : Phase) :
    Prop where
  live : ∀ key, (requests call).key = some key → phase.live = true →
    ∃ slot, state.slots key = some slot ∧ slot.owner = call
  keeps : ∀ identity, (state.phase call).decided = some identity → phase.decided = some identity
  owned : ∀ key identity, (requests call).key = some key → phase.decided = some identity →
    ∃ slot, state.slots key = some slot ∧
      (slot.owner = call ∨ (state.phase slot.owner).decided = some identity)
  carried : ∀ message, phase.carries = some message → state.submissions call = some message
  sound : phase.Sound

theorem decided_goTo {call other : Nat} {phase : Phase} {identity : String × Nat}
    (hm : Moves requests state call phase) (h : (state.phase other).decided = some identity) :
    ((state.goTo call phase).phase other).decided = some identity := by
  by_cases heq : other = call
  · subst heq
    rw [goTo_phase_self]
    exact hm.keeps identity h
  · rwa [goTo_phase_of_ne heq]

theorem Inv.goTo {call : Nat} {phase : Phase} (h : Inv numbering requests state)
    (hm : Moves requests state call phase) : Inv numbering requests (state.goTo call phase) where
  held other key hk hl := by
    by_cases heq : other = call
    · subst heq
      rw [goTo_phase_self] at hl
      exact hm.live key hk hl
    · rw [goTo_phase_of_ne heq] at hl
      exact h.held other key hk hl
  valid key slot hs := by
    obtain ⟨hon, hf⟩ := h.valid key slot hs
    refine ⟨hon, ?_⟩
    rcases hf with hp | ⟨record, hpl, ht, hde⟩
    · exact .inl hp
    · exact .inr ⟨record, hpl, ht, decided_goTo hm hde⟩
  agreed other key identity hk hde := by
    by_cases heq : other = call
    · subst heq
      rw [goTo_phase_self] at hde
      obtain ⟨slot, hs, hon⟩ := hm.owned key identity hk hde
      refine ⟨slot, hs, ?_⟩
      rcases hon with rfl | ho
      · rw [goTo_phase_self]
        exact hde
      · exact decided_goTo hm ho
    · rw [goTo_phase_of_ne heq] at hde
      obtain ⟨slot, hs, hon⟩ := h.agreed other key identity hk hde
      exact ⟨slot, hs, decided_goTo hm hon⟩
  logged other key message hk hlo := by
    obtain ⟨hsu, hde, hoe⟩ := h.logged other key message hk hlo
    exact ⟨hsu, decided_goTo hm hde, hoe⟩
  carried other message hc := by
    by_cases heq : other = call
    · subst heq
      rw [goTo_phase_self] at hc
      exact hm.carried message hc
    · rw [goTo_phase_of_ne heq] at hc
      exact h.carried other message hc
  sound other := by
    by_cases heq : other = call
    · subst heq
      rw [goTo_phase_self]
      exact hm.sound
    · rw [goTo_phase_of_ne heq]
      exact h.sound other

theorem Inv.log {call : Nat} (h : Inv numbering requests state)
    (hsl : next.slots = state.slots) (hp : next.phase = state.phase)
    (hs : next.submissions = state.submissions)
    (hl : ∀ other sent, Logged next other sent →
      Logged state other sent ∨ (other = call ∧ sent = message))
    (hsu : state.submissions call = some message)
    (hde : (requests call).key ≠ none → (state.phase call).decided = some (messageIdentity message))
    (ho : ∀ key, (requests call).key = some key →
      ∃ slot, state.slots key = some slot ∧ slot.owner = call) : Inv numbering requests next where
  held := by
    rw [hsl, hp]
    exact h.held
  valid := by
    rw [hsl]
    intro key slot hso
    obtain ⟨hon, hf⟩ := h.valid key slot hso
    exact ⟨hon, by rwa [SlotFits, hp]⟩
  agreed := by
    rw [hsl, hp]
    exact h.agreed
  logged other key sent hk hse := by
    rw [hsl, hp, hs]
    rcases hl other sent hse with hold | ⟨rfl, rfl⟩
    · exact h.logged other key sent hk hold
    · exact ⟨hsu, hde (by simp [hk]), ho key hk⟩
  carried := by
    rw [hp, hs]
    exact h.carried
  sound := by
    rw [hp]
    exact h.sound

@[simp] theorem setSlot_phase (key : Option String) (slot : Option Slot) :
    (state.setSlot key slot).phase = state.phase := by
  cases key <;> rfl

@[simp] theorem setSlot_submissions (key : Option String) (slot : Option Slot) :
    (state.setSlot key slot).submissions = state.submissions := by
  cases key <;> rfl

theorem setSlot_slots_of_ne {other : String} (h : other ≠ key) :
    (state.setSlot (some key) slot).slots other = state.slots other := by
  simp [State.setSlot, h]

@[simp] theorem setSlot_slots_self (key : String) (slot : Option Slot) :
    (state.setSlot (some key) slot).slots key = slot := by
  simp [State.setSlot]

theorem logged_setSlot {key : Option String} {call : Nat}
    (h : Logged (state.setSlot key slot) call message) : Logged state call message := by
  cases key <;> exact h

theorem Inv.write {slot : Slot} (h : Inv numbering requests state)
    (ho : (requests slot.owner).key = some key) (hf : SlotFits numbering state slot)
    (hsm : ∀ old, state.slots key = some old → old.owner = slot.owner) :
    Inv numbering requests (state.setSlot (some key) (some slot)) := by
  -- whoever was known to have the key still has it
  have hke (old : Slot) (other : String) (hold : state.slots other = some old) :
      ∃ new, (state.setSlot (some key) (some slot)).slots other = some new ∧
        new.owner = old.owner := by
    by_cases heq : other = key
    · subst heq
      exact ⟨slot, setSlot_slots_self other _, (hsm old hold).symm⟩
    · exact ⟨old, (setSlot_slots_of_ne heq).trans hold, rfl⟩
  refine ⟨?_, ?_, ?_, ?_, ?_, ?_⟩
  · intro call other hk hl
    rw [setSlot_phase] at hl
    obtain ⟨old, hold, rfl⟩ := h.held call other hk hl
    exact hke old other hold
  · intro other stored hs
    by_cases heq : other = key
    · subst heq
      rw [setSlot_slots_self] at hs
      cases hs
      exact ⟨ho, by rwa [SlotFits, setSlot_phase]⟩
    · rw [setSlot_slots_of_ne heq] at hs
      obtain ⟨hk, hold⟩ := h.valid other stored hs
      exact ⟨hk, by rwa [SlotFits, setSlot_phase]⟩
  · intro call other identity hk hde
    rw [setSlot_phase] at hde ⊢
    obtain ⟨old, hold, hdc⟩ := h.agreed call other identity hk hde
    obtain ⟨new, hn, hsa⟩ := hke old other hold
    exact ⟨new, hn, hsa ▸ hdc⟩
  · intro call other message hk hlo
    obtain ⟨hsu, hde, old, hold, rfl⟩ :=
      h.logged call other message hk (logged_setSlot hlo)
    rw [setSlot_phase, setSlot_submissions]
    exact ⟨hsu, hde, hke old other hold⟩
  · intro call message
    rw [setSlot_phase, setSlot_submissions]
    exact h.carried call message
  · intro call
    rw [setSlot_phase]
    exact h.sound call

-- A key is given up whose call is done and has decided nothing.
theorem Inv.release (h : Inv numbering requests state)
    (hdo : ∀ slot, state.slots key = some slot →
      (state.phase slot.owner).live = false ∧ (state.phase slot.owner).decided = none) :
    Inv numbering requests (state.setSlot (some key) none) := by
  refine ⟨?_, ?_, ?_, ?_, ?_, ?_⟩
  · intro call other hk hl
    rw [setSlot_phase] at hl
    obtain ⟨old, hold, rfl⟩ := h.held call other hk hl
    by_cases heq : other = key
    · subst heq
      exact absurd hl (by simp [(hdo old hold).1])
    · exact ⟨old, (setSlot_slots_of_ne heq).trans hold, rfl⟩
  · intro other stored hs
    by_cases heq : other = key
    · subst heq
      exact absurd hs (by simp)
    · rw [setSlot_slots_of_ne heq] at hs
      obtain ⟨hk, hold⟩ := h.valid other stored hs
      exact ⟨hk, by rwa [SlotFits, setSlot_phase]⟩
  · intro call other identity hk hde
    rw [setSlot_phase] at hde ⊢
    obtain ⟨old, hold, hdc⟩ := h.agreed call other identity hk hde
    by_cases heq : other = key
    · subst heq
      exact absurd hdc (by simp [(hdo old hold).2])
    · exact ⟨old, (setSlot_slots_of_ne heq).trans hold, hdc⟩
  · intro call other message hk hlo
    obtain ⟨hsu, hde, old, hold, rfl⟩ :=
      h.logged call other message hk (logged_setSlot hlo)
    rw [setSlot_phase, setSlot_submissions]
    refine ⟨hsu, hde, ?_⟩
    by_cases heq : other = key
    · subst heq
      exact absurd hde (by simp [(hdo old hold).2])
    · exact ⟨old, (setSlot_slots_of_ne heq).trans hold, rfl⟩
  · intro call message
    rw [setSlot_phase, setSlot_submissions]
    exact h.carried call message
  · intro call
    rw [setSlot_phase]
    exact h.sound call

end Invariant

section Guard

theorem plain_recordOf {outcome : SendMessageOutcome} {digest : String}
    (h : PlainIdentity outcome.identity) (hdi : '|' ∉ digest.toList) :
    Plain (recordOf outcome digest) where
  server_id_ne := h.1
  server_id := h.2.1
  fingerprint := hdi
  seq_lt := h.2.2

theorem recoverable_of_durable (h : durability message ≠ .transientAccepted) :
    recoverablePublishFailureOutcome message =
      some { acceptedOutcome message with durability := .walAccepted } :=
  if_neg h

theorem recoverable_of_transient (h : durability message = .transientAccepted) :
    recoverablePublishFailureOutcome message = none :=
  if_pos h

theorem Phase.Sound.of_bare {phase : Phase} (hde : phase.decided = none)
    (hc : phase.carries = none) : phase.Sound where
  decided _ h := absurd h (by simp [hde])
  carries _ h := absurd h (by simp [hc])
  dropped _ h := absurd hde (by simp [h, Phase.decided])
  durable _ h := absurd hde (by simp [h, Phase.decided])

theorem Phase.Sound.of_result {result : Except FlareError SendMessageOutcome}
    (h : ∀ outcome, result = .ok outcome → PlainIdentity outcome.identity) :
    (Phase.settling result).Sound ∧ (Phase.answered result).Sound := by
  cases result with
  | error error => exact ⟨.of_bare rfl rfl, .of_bare rfl rfl⟩
  | ok outcome =>
    have hp := h outcome rfl
    constructor
    all_goals
      exact ⟨fun identity hie => Option.some.inj hie ▸ hp,
        fun _ hc => absurd hc (by simp [Phase.carries]),
        fun _ hdr => absurd hdr (by simp), fun _ hw => absurd hw (by simp)⟩

theorem Phase.Sound.of_record {record : IdempotentRecord} (h : Plain record) :
    (Phase.dropped (.accepted record)).Sound ∧ (Phase.abandoned (.accepted record)).Sound := by
  have hp : PlainIdentity (recordIdentity record) :=
    ⟨h.server_id_ne, h.server_id, h.seq_lt⟩
  constructor
  · exact ⟨fun identity hie => Option.some.inj hie ▸ hp,
      fun _ hc => absurd hc (by simp [Phase.carries]),
      fun _ hdr => by
        obtain rfl : record = _ := by simpa using hdr
        exact h,
      fun _ hw => absurd hw (by simp)⟩
  · exact ⟨fun identity hie => Option.some.inj hie ▸ hp,
      fun _ hc => absurd hc (by simp [Phase.carries]),
      fun _ hdr => absurd hdr (by simp), fun _ hw => absurd hw (by simp)⟩

theorem guard_spec {phase : Phase} {digest : String}
    (h : phase.guard digest = some guard) (hs : phase.Sound) (hdi : '|' ∉ digest.toList) :
    phase.live = true ∧ (Phase.dropped guard).decided = phase.decided ∧
      (Phase.dropped guard).Sound := by
  have hb : (Phase.dropped .reserved).Sound := .of_bare rfl rfl
  cases phase with
  | waiting | dropped guard | answered result
  | abandoned guard => exact absurd h (by simp [Phase.guard])
  | reserved | admitted | allocated message =>
    cases h
    exact ⟨rfl, rfl, hb⟩
  | walWritten message =>
    rw [Phase.guard, recoverable_of_durable (hs.durable message rfl)] at h
    cases h
    have hp : Plain (recordOf
        { acceptedOutcome message with durability := .walAccepted } digest) :=
      plain_recordOf (hs.carries message rfl) hdi
    exact ⟨rfl, rfl, (Phase.Sound.of_record hp).1⟩
  | published message =>
    cases h
    have hp : Plain (recordOf (acceptedOutcome message) digest) :=
      plain_recordOf (hs.carries message rfl) hdi
    exact ⟨rfl, rfl, (Phase.Sound.of_record hp).1⟩
  | settling result =>
    cases result with
    | error error =>
      cases h
      exact ⟨rfl, rfl, hb⟩
    | ok outcome =>
      cases h
      exact ⟨rfl, rfl, (Phase.Sound.of_record (plain_recordOf (hs.decided _ rfl) hdi)).1⟩

theorem decided_abandoned (guard : ReservationState) :
    (Phase.abandoned guard).decided = (Phase.dropped guard).decided := by
  cases guard <;> rfl

theorem sound_abandoned (h : (Phase.dropped guard).Sound) : (Phase.abandoned guard).Sound := by
  cases guard with
  | reserved => exact .of_bare rfl rfl
  | accepted record => exact (Phase.Sound.of_record (h.dropped record rfl)).2

end Guard

section Moves

variable {numbering : Numbering} {requests : Nat → Request} {state : State} {call : Nat}
  {phase : Phase}

-- A call that is under way owns its key, whatever it decides.
theorem Moves.of_live (h : Inv numbering requests state) (hl : (state.phase call).live = true)
    (hke : ∀ identity, (state.phase call).decided = some identity → phase.decided = some identity)
    (hc : ∀ message, phase.carries = some message → state.submissions call = some message)
    (hs : phase.Sound) : Moves requests state call phase where
  live key hk _ := h.held call key hk hl
  keeps := hke
  owned key identity hk _ := by
    obtain ⟨slot, hsl, ho⟩ := h.held call key hk hl
    exact ⟨slot, hsl, .inl ho⟩
  carried := hc
  sound := hs

theorem Moves.of_done (hu : (state.phase call).decided = none)
    (hl : phase.live = false) (hde : phase.decided = none)
    (hc : phase.carries = none) : Moves requests state call phase where
  live _ _ h := absurd h (by simp [hl])
  keeps _ h := absurd h (by simp [hu])
  owned _ _ _ h := absurd h (by simp [hde])
  carried _ h := absurd h (by simp [hc])
  sound := .of_bare hde hc

theorem Moves.of_keeping (h : Inv numbering requests state)
    (hl : (state.phase call).live = true) (hk : phase.decided = (state.phase call).decided)
    (hc : phase.carries = none) (hs : phase.Sound) :
    Moves requests state call phase :=
  .of_live h hl (fun _ hde => hk.trans hde) (fun _ hca => absurd hca (by simp [hc])) hs

end Moves

section Submission

theorem prepare_serverId {prepared : Message}
    (h : prepare message stamp = .ok prepared) : prepared.serverId = stamp.serverId := by
  unfold prepare at h
  split at h
  · cases h
  · split at h
    · cases h
    · rw [← Except.ok.inj h]

theorem submission_serverId {request : Request} {tenantId : String} {draft : Option Draft}
    {prepared : Message} (h : submission request tenantId draft stamp = .ok prepared) :
    prepared.serverId = stamp.serverId := by
  obtain ⟨message, -, hb⟩ := bind_eq_ok.mp h
  obtain ⟨ho, -, hc⟩ := bind_eq_ok.mp hb
  obtain ⟨-, -, hp⟩ := bind_eq_ok.mp hc
  exact prepare_serverId hp

theorem allocateSeq_lt {counter seq : Nat} (h : SequenceFloor.allocateSeq counter = some seq) :
    seq < 2 ^ 64 := by
  unfold SequenceFloor.allocateSeq at h
  split at h
  · cases h
    omega
  · cases h

theorem allocateSeqWithFloor_lt {counter floor seq : Nat}
    (h : SequenceFloor.allocateSeqWithFloor counter floor = some seq) : seq < 2 ^ 64 := by
  unfold SequenceFloor.allocateSeqWithFloor at h
  split at h
  · exact allocateSeq_lt h
  · unfold LuaNumber.reply at h
    split at h
    · rename_i hlt
      rw [← Option.some.inj h]
      omega
    · cases h

end Submission

section Steps

variable {numbering : Numbering} {requests : Nat → Request} {state next : State} {call : Nat}

theorem beginStep_inv (h : Inv numbering requests state) (hp : state.phase call = .waiting)
    (hs : beginStep numbering requests state call executed reply = some next) :
    Inv numbering requests next := by
  have hu : (state.phase call).decided = none := by rw [hp]; rfl
  have hr (key : String) (hk : (requests call).key = some key) (hf : state.slots key = none) :
      Inv numbering requests (state.setSlot (some key) (some ⟨call, PENDING_MARKER⟩)) :=
    h.write hk (.inl rfl) fun old hold => absurd hold (by simp [hf])
  -- without an answer the reservation may stand, but nobody is going to use it
  have hor (key : String) (hk : (requests call).key = some key) (phase : Phase)
      (hl : phase.live = false) (hde : phase.decided = none) (hc : phase.carries = none) :
      Inv numbering requests ((if executed = true ∧ state.slots key = none then
        state.setSlot (some key) (some ⟨call, PENDING_MARKER⟩) else state).goTo call phase) := by
    split
    · rename_i hf
      exact (hr key hk hf.2).goTo (.of_done (by rwa [setSlot_phase]) hl hde hc)
    · exact h.goTo (.of_done hu hl hde hc)
  unfold beginStep at hs
  dsimp only at hs
  split at hs
  · rename_i hk
    cases hs
    refine h.goTo ⟨?_, ?_, ?_, ?_, .of_bare rfl rfl⟩
    · exact fun key hso => absurd hso (by simp [hk])
    · exact fun _ hde => absurd hde (by simp [hu])
    · exact fun key _ hso => absurd hso (by simp [hk])
    · exact fun _ hc => absurd hc (by simp [Phase.carries])
  · rename_i key hk
    split at hs
    · cases hs
    · split at hs
      · rename_i hf
        cases hs
        refine (hr key hk hf).goTo ⟨?_, ?_, ?_, ?_, .of_bare rfl rfl⟩
        · intro other ho _
          obtain rfl : key = other := Option.some.inj (hk.symm.trans ho)
          exact ⟨_, setSlot_slots_self key _, rfl⟩
        · exact fun _ hde => absurd hde (by simp [hu])
        · exact fun _ _ _ hde => absurd hde (by simp [Phase.decided])
        · exact fun _ hc => absurd hc (by simp [Phase.carries])
      · rename_i slot hsl
        cases hs
        obtain ⟨-, hfi⟩ := h.valid key slot hsl
        rcases hfi with hpe | ⟨record, hpl, ht, hde⟩
        · have heo : replayed (requests call).digest (readSlot numbering (some slot.text)) =
              .error ⟨.serviceUnavailable, "duplicate send in progress; retry shortly", ""⟩ := by
            rw [readSlot, if_pos hpe]
            rfl
          rw [heo]
          exact h.goTo (.of_done hu rfl rfl rfl)
        · rw [ht, readSlot_encode hpl]
          by_cases hdi : record.fingerprint = (requests call).digest
          · -- the result that the owner of the key has settled on
            have hok : replayed (requests call).digest (.replay record) =
                .ok (outcomeOf record) := if_neg (not_not.mpr hdi)
            rw [hok]
            refine h.goTo ⟨?_, ?_, ?_, ?_, ?_⟩
            · exact fun _ _ hl => absurd hl (by simp [Phase.live])
            · exact fun _ hb => absurd hb (by simp [hu])
            · intro other identity ho hie
              obtain rfl : key = other := Option.some.inj (hk.symm.trans ho)
              exact ⟨slot, hsl, .inr (hde.trans hie)⟩
            · exact fun _ hc => absurd hc (by simp [Phase.carries])
            · refine (Phase.Sound.of_result ?_).2
              intro outcome hou
              rw [← Except.ok.inj hou]
              exact ⟨hpl.server_id_ne, hpl.server_id, hpl.seq_lt⟩
          · have hco : replayed (requests call).digest (.replay record) =
                .error ⟨.permissionDenied, "client message id already used by another send", ""⟩ :=
              if_pos hdi
            rw [hco]
            exact h.goTo (.of_done hu rfl rfl rfl)
  · rename_i key error hk
    cases hs
    exact hor key hk _ rfl rfl rfl
  · rename_i key hk
    cases hs
    exact hor key hk _ rfl rfl rfl

-- The call prepares its message. It has put nothing out so far.
theorem Inv.submit (h : Inv numbering requests state) (hp : state.phase call = .admitted)
    (message : Message) (counters : String × String → Nat) :
    Inv numbering requests { state with
      counters, submissions := Function.update state.submissions call (some message) } where
  held := h.held
  valid := h.valid
  agreed := h.agreed
  logged other key sent hk hl := by
    obtain ⟨hs, hde, ho⟩ := h.logged other key sent hk hl
    have hne : other ≠ call := by
      rintro rfl
      rw [hp] at hde
      exact absurd hde (by simp [Phase.decided])
    exact ⟨(Function.update_of_ne hne _ _).trans hs, hde, ho⟩
  carried other sent hc := by
    have hne : other ≠ call := by
      rintro rfl
      simp only [hp] at hc
      exact absurd hc (by simp [Phase.carries])
    exact (Function.update_of_ne hne _ _).trans (h.carried other sent hc)
  sound := h.sound

theorem allocateStep_inv {draft : Option Draft} {floor : Option Nat}
    (h : Inv numbering requests state) (hp : state.phase call = .admitted)
    (hs : allocateStep requests state call draft stamp floor = some next) :
    Inv numbering requests next := by
  have hl : (state.phase call).live = true := by rw [hp]; rfl
  unfold allocateStep at hs
  split at hs
  · cases hs
  · rename_i tenantId ht
    split at hs
    · cases hs
      exact h.goTo (.of_keeping h hl (by rw [hp]; rfl) rfl (.of_bare rfl rfl))
    · rename_i prepared hpr
      dsimp only at hs
      split at hs
      · cases hs
      · rename_i seq hse
        cases hs
        have hlt : seq < 2 ^ 64 := by
          split at hse
          · exact allocateSeq_lt hse
          · exact allocateSeqWithFloor_lt hse
        have hsu := h.submit hp { prepared with conversationSeq := seq }
          (Function.update state.counters (tenantId, prepared.conversationId) seq)
        refine hsu.goTo (.of_live hsu hl ?_ ?_ ?_)
        · exact fun _ hde => absurd hde (by simp [hp, Phase.decided])
        · intro message hc
          rw [← hc]
          exact Function.update_self _ _ _
        · refine ⟨fun _ hde => absurd hde (by simp [Phase.decided]), ?_,
            fun _ hdr => absurd hdr (by simp), fun _ hw => absurd hw (by simp)⟩
          intro message hc
          cases hc
          have hid := submission_serverId hpr
          exact ⟨hid ▸ stamp.server_id_ne, hid ▸ stamp.server_id_plain, hlt⟩

theorem Inv.putOut {out : State} {phase : Phase}
    (h : Inv numbering requests state) (hli : (state.phase call).live = true)
    (hm : Moves requests state call phase)
    (hsl : out.slots = state.slots) (hp : out.phase = state.phase)
    (hs : out.submissions = state.submissions)
    (hl : ∀ other sent, Logged out other sent →
      Logged state other sent ∨ (other = call ∧ sent = message))
    (hc : (state.phase call).carries = some message)
    (hde : (requests call).key ≠ none → phase.decided = some (messageIdentity message)) :
    Inv numbering requests (out.goTo call phase) := by
  refine (h.goTo hm).log hsl ?_ hs hl (h.carried call message hc) ?_
    fun key hk => h.held call key hk hli
  · show Function.update out.phase call phase = Function.update state.phase call phase
    rw [hp]
  · rw [goTo_phase_self]
    exact hde

theorem Inv.send {phase : Phase} {out : State}
    (h : Inv numbering requests state) (hli : (state.phase call).live = true)
    (hm : Moves requests state call phase)
    (hsl : out.slots = state.slots) (hp : out.phase = state.phase)
    (hs : out.submissions = state.submissions)
    (hl : ∀ other sent, Logged out other sent →
      Logged state other sent ∨ (other = call ∧ sent = message))
    (hc : (state.phase call).carries = some message)
    (hde : executed = true → (requests call).key ≠ none →
      phase.decided = some (messageIdentity message)) :
    Inv numbering requests ((if executed = true then out else state).goTo call phase) := by
  split
  · rename_i hee
    exact h.putOut hli hm hsl hp hs hl hc (hde hee)
  · exact h.goTo hm

theorem logged_written (other : Nat) (sent : Message)
    (h : Logged { state with written := (call, message) :: state.written } other sent) :
    Logged state other sent ∨ (other = call ∧ sent = message) := by
  rcases h with hw | hp
  · rcases List.mem_cons.mp hw with hn | hold
    · exact .inr (Prod.mk.inj hn)
    · exact .inl (.inl hold)
  · exact .inl (.inr hp)

theorem logged_published (other : Nat) (sent : Message)
    (h : Logged { state with published := (call, message) :: state.published } other sent) :
    Logged state other sent ∨ (other = call ∧ sent = message) := by
  rcases h with hw | hp
  · exact .inl (.inl hw)
  · rcases List.mem_cons.mp hp with hn | hold
    · exact .inr (Prod.mk.inj hn)
    · exact .inl (.inr hold)

theorem writeWalStep_inv
    (h : Inv numbering requests state) (hp : state.phase call = .allocated message)
    (hdu : durability message ≠ .transientAccepted)
    (ha : (requests call).key ≠ none → executed = true → reply = .ok)
    (hs : writeWalStep state call message executed reply = some next) :
    Inv numbering requests next := by
  have hl : (state.phase call).live = true := by rw [hp]; rfl
  have hc : (state.phase call).carries = some message := by rw [hp]; rfl
  have hun : (state.phase call).decided = none := by rw [hp]; rfl
  have hpl := (h.sound call).carries message hc
  -- an answer that is no success leaves nothing in the WAL
  have hu (phase : Phase) (hde : phase.decided = none)
      (hn : phase.carries = none) (hno : reply ≠ .ok) :
      Inv numbering requests ((if executed = true then
        { state with written := (call, message) :: state.written } else state).goTo call phase) :=
    h.send hl (.of_keeping h hl (hde.trans hun.symm) hn
        (.of_bare hde hn)) rfl rfl rfl logged_written hc fun hee hk => absurd (ha hk hee) hno
  unfold writeWalStep at hs
  dsimp only at hs
  split at hs
  · split at hs
    · cases hs
      refine h.putOut hl (.of_live h hl ?_ ?_ ?_) rfl rfl rfl logged_written hc fun _ => rfl
      · exact fun _ hde => absurd hde (by simp [hun])
      · intro sent hse
        cases hse
        exact h.carried call message hc
      · refine ⟨?_, ?_, fun _ hdr => absurd hdr (by simp), ?_⟩
        · exact fun identity hie => Option.some.inj hie ▸ hpl
        · exact fun sent hse => Option.some.inj hse ▸ hpl
        · intro sent hse
          obtain rfl : message = sent := by simpa using hse
          exact hdu
    · cases hs
  · cases hs
    exact hu _ rfl rfl (by simp)
  · cases hs
    exact hu _ rfl rfl (by simp)

-- The phases in which a call turns to the broker.
structure Publishes (requests : Nat → Request) (state : State) (call : Nat) (message : Message)
    (executed : Bool) (reply : Reply) : Prop where
  live : (state.phase call).live = true
  carries : (state.phase call).carries = some message
  decided : ∀ identity, (state.phase call).decided = some identity →
    identity = messageIdentity message ∧ durability message ≠ .transientAccepted
  answered : durability message = .transientAccepted → (requests call).key ≠ none →
    executed = true → reply = .ok

theorem publishStep_inv (h : Inv numbering requests state)
    (hpb : Publishes requests state call message executed reply)
    (hs : publishStep requests state call message executed reply = some next) :
    Inv numbering requests next := by
  obtain ⟨hl, hc, hde, ha⟩ := hpb
  have hpl := (h.sound call).carries message hc
  -- a message that is in the WAL is decided on, whatever the broker does
  have hr (phase : Phase) (hp : phase.decided = some (messageIdentity message))
      (hn : phase.carries = none) (hso : phase.Sound) :
      Inv numbering requests ((if executed = true then
        { state with published := (call, message) :: state.published } else state).goTo
          call phase) := by
    refine h.send hl (.of_live h hl ?_ ?_ hso) rfl rfl rfl logged_published hc fun _ _ => hp
    · intro identity hb
      rw [hp, (hde identity hb).1]
    · exact fun _ hse => absurd hse (by simp [hn])
  have hlo (phase : Phase) (hp : phase.decided = none) (hn : phase.carries = none)
      (ht : durability message = .transientAccepted) (hno : reply ≠ .ok) :
      Inv numbering requests ((if executed = true then
        { state with published := (call, message) :: state.published } else state).goTo
          call phase) := by
    refine h.send hl (.of_live h hl ?_ ?_ (.of_bare hp hn)) rfl rfl rfl
      logged_published hc fun hee hk =>
        absurd (ha ht hk hee) hno
    · exact fun identity hb => absurd ht (hde identity hb).2
    · exact fun _ hse => absurd hse (by simp [hn])
  have hpu : Inv numbering requests
      ({ state with published := (call, message) :: state.published }.goTo call
        (.published message)) := by
    refine h.putOut hl (.of_live h hl ?_ ?_ ?_) rfl rfl rfl logged_published hc fun _ => rfl
    · exact fun identity hb => by rw [(hde identity hb).1]; rfl
    · exact fun sent hse => hse ▸ h.carried call message hc
    · exact ⟨fun identity hie => Option.some.inj hie ▸ hpl,
        fun sent hse => Option.some.inj hse ▸ hpl,
        fun _ hdr => absurd hdr (by simp), fun _ hw => absurd hw (by simp)⟩
  unfold publishStep at hs
  dsimp only at hs
  by_cases ht : durability message = .transientAccepted
  · rw [recoverable_of_transient ht] at hs
    split at hs
    · split at hs
      · exact Option.some.inj hs ▸ hpu
      · cases hs
    · exact Option.some.inj hs ▸ hlo _ rfl rfl ht (by simp)
    · exact Option.some.inj hs ▸ hlo _ rfl rfl ht (by simp)
  · rw [recoverable_of_durable ht] at hs
    have hre : Plain (recordOf { acceptedOutcome message with durability := .walAccepted }
        (requests call).digest) :=
      plain_recordOf hpl (requests call).digest_plain
    split at hs
    · split at hs
      · exact Option.some.inj hs ▸ hpu
      · cases hs
    · rw [← Option.some.inj hs]
      refine hr _ rfl rfl (Phase.Sound.of_result ?_).1
      intro outcome ho
      rw [← Except.ok.inj ho]
      exact hpl
    · exact Option.some.inj hs ▸ hr _ rfl rfl (Phase.Sound.of_record hre).1

-- A guard settles its slot: by the call itself or by the cleanup after it was dropped.
theorem Inv.settle {phase : Phase}
    (h : Inv numbering requests state) (hl : (state.phase call).live = true)
    (hg : (Phase.dropped guard).decided = (state.phase call).decided)
    (hso : (Phase.dropped guard).Sound)
    (hke : phase.decided = (state.phase call).decided) (hc : phase.carries = none)
    (hp : phase.Sound)
    (hdo : guard = .reserved → executed = true → (requests call).key ≠ none → phase.live = false) :
    Inv numbering requests ((if executed = true then
      state.setSlot (requests call).key (settleSlot numbering call guard) else state).goTo
        call phase) := by
  have hm := h.goTo (.of_keeping h hl hke hc hp)
  split
  · rename_i hee
    rw [setSlot_goTo]
    cases hk : (requests call).key with
    | none => exact hm
    | some key =>
      obtain ⟨slot, hs, ho⟩ := h.held call key hk hl
      cases guard with
      | accepted record =>
        refine hm.write hk (.inr ⟨record, hso.dropped record rfl, rfl, ?_⟩) ?_
        · rw [goTo_phase_self, hke, ← hg]
          rfl
        · intro old hold
          cases (hs.symm.trans hold)
          exact ho
      | reserved =>
        refine hm.release ?_
        intro old hold
        cases (hs.symm.trans hold)
        rw [ho, goTo_phase_self]
        exact ⟨hdo rfl hee (by simp [hk]), hke.trans hg.symm⟩
  · exact hm

theorem settleStep_inv {result : Except FlareError SendMessageOutcome}
    (h : Inv numbering requests state) (hp : state.phase call = .settling result)
    (hor : ∀ error, result = .error error → (requests call).key ≠ none → executed = true →
      reply ≠ .cancelled)
    (hs : settleStep numbering requests state call result executed reply = some next) :
    Inv numbering requests next := by
  have hso := hp ▸ h.sound call
  unfold settleStep at hs
  dsimp only at hs
  split at hs
  · cases hs
  · rename_i guard hg
    obtain ⟨hl, hde, hdr⟩ := guard_spec hg hso (requests call).digest_plain
    have ha : (Phase.answered result).decided = (state.phase call).decided ∧
        (Phase.answered result).Sound := by
      rw [hp]
      cases result with
      | error error => exact ⟨rfl, .of_bare rfl rfl⟩
      | ok outcome =>
        refine ⟨rfl, (Phase.Sound.of_result ?_).2⟩
        exact fun other ho => hso.decided _ (by rw [← Except.ok.inj ho]; rfl)
    rw [← hp] at hl hde
    split at hs
    · rename_i hr
      rw [← Option.some.inj hs]
      refine h.settle hl hde hdr hde rfl hdr ?_
      -- a rollback that was executed is not cancelled
      rintro rfl hee hk
      obtain ⟨error, heo⟩ : ∃ error, result = .error error := by
        cases result with
        | error error => exact ⟨error, rfl⟩
        | ok outcome => exact absurd hg (by simp [Phase.guard])
      exact absurd rfl (hor error heo hk hee)
    · rw [← Option.some.inj hs]
      exact h.settle hl hde hdr ha.1 rfl ha.2 fun _ _ _ => rfl

theorem cleanupStep_inv
    (h : Inv numbering requests state) (hp : state.phase call = .dropped guard) :
    Inv numbering requests ((if executed = true then
      state.setSlot (requests call).key (settleSlot numbering call guard) else state).goTo call
        (.abandoned guard)) := by
  have hs := hp ▸ h.sound call
  refine h.settle (by rw [hp]; rfl) (by rw [hp]) hs ?_ rfl (sound_abandoned hs) fun _ _ _ => rfl
  rw [hp, decided_abandoned]

theorem lookupStep_sound {found : Except FlareError (Option LedgerRecord)}
    {outcome : SendMessageOutcome} (h : replayFromLedger message found = .ok (some outcome)) :
    PlainIdentity outcome.identity := by
  unfold replayFromLedger at h
  split at h
  · cases h
  · rename_i record
    split at h
    · cases (Except.ok.inj h)
      exact ⟨record.server_id_ne, record.server_id_plain, record.seq_lt⟩
    · cases h
  · cases h

theorem step_inv {action : Action} (h : Inv numbering requests state)
    (hor : Orderly requests state action) (hs : step numbering requests state action = some next) :
    Inv numbering requests next := by
  cases action with
  | refuse call unreadable =>
    simp only [step] at hs
    split at hs
    · rename_i hp
      exact Option.some.inj hs ▸ h.goTo (.of_done (by rw [hp]; rfl) rfl rfl rfl)
    · cases hs
  | begin_ call executed reply =>
    simp only [step] at hs
    split at hs
    · rename_i hp _
      exact Option.some.inj hs ▸ h.goTo (.of_done (by rw [hp]; rfl) rfl rfl rfl)
    · rename_i hp _
      exact beginStep_inv h hp hs
    · cases hs
  | lookup call found =>
    simp only [step] at hs
    split at hs
    · rename_i hp
      have hl : (state.phase call).live = true := by rw [hp]; rfl
      have hu : (state.phase call).decided = none := by rw [hp]; rfl
      have ha : Inv numbering requests (state.goTo call .admitted) :=
        h.goTo (.of_keeping h hl hu.symm rfl (.of_bare rfl rfl))
      split at hs
      · exact Option.some.inj hs ▸ ha
      · split at hs
        · exact Option.some.inj hs ▸ ha
        · rename_i outcome hou
          rw [← Option.some.inj hs]
          refine h.goTo (.of_live h hl ?_ ?_ (Phase.Sound.of_result ?_).1)
          · exact fun _ hde => absurd hde (by simp [hu])
          · exact fun _ hc => absurd hc (by simp [Phase.carries])
          · intro other ho
            rw [← Except.ok.inj ho]
            exact lookupStep_sound hou
        · exact Option.some.inj hs ▸ h.goTo (.of_keeping h hl hu.symm rfl (.of_bare rfl rfl))
    · cases hs
  | limit call error =>
    simp only [step] at hs
    split at hs
    · rename_i hp
      rw [← Option.some.inj hs]
      split
      · exact h.goTo (.of_done (by rw [hp]; rfl) rfl rfl rfl)
      · exact h.goTo (.of_keeping h (by rw [hp]; rfl) (by rw [hp]; rfl) rfl (.of_bare rfl rfl))
    · cases hs
  | fail call error =>
    simp only [step] at hs
    split at hs
    · rename_i hp
      exact Option.some.inj hs ▸ h.goTo (.of_keeping h (by rw [hp]; rfl)
        (by rw [hp]; rfl) rfl (.of_bare rfl rfl))
    · cases hs
  | allocate call draft stamp floor =>
    simp only [step] at hs
    split at hs
    · rename_i hp
      exact allocateStep_inv h hp hs
    · cases hs
  | writeWal call executed reply =>
    simp only [step] at hs
    split at hs
    · rename_i message hp
      split at hs
      · rename_i hwa
        exact writeWalStep_inv h hp ((shouldWriteWal_iff message _).mp hwa) hor hs
      · cases hs
    · cases hs
  | publish call executed reply =>
    simp only [step] at hs
    split at hs
    · rename_i message hp
      split at hs
      · cases hs
      · simp only [Orderly, hp] at hor
        refine publishStep_inv h ⟨?_, ?_, ?_, fun _ => hor⟩ hs
        · rw [hp]; rfl
        · rw [hp]; rfl
        · exact fun _ hde => absurd hde (by simp [hp, Phase.decided])
    · rename_i message hp
      have hdu := (h.sound call).durable message hp
      refine publishStep_inv h ⟨?_, ?_, ?_, fun ht => absurd ht hdu⟩ hs
      · rw [hp]; rfl
      · rw [hp]; rfl
      · intro identity hde
        rw [hp] at hde
        exact ⟨(Option.some.inj hde).symm, hdu⟩
    · cases hs
  | finish call =>
    simp only [step] at hs
    split at hs
    · rename_i message hp
      rw [← Option.some.inj hs]
      have hpl := (h.sound call).decided (messageIdentity message) (by rw [hp]; rfl)
      refine h.goTo (.of_keeping h (by rw [hp]; rfl) (by rw [hp]; rfl) rfl
        (Phase.Sound.of_result ?_).1)
      intro outcome hou
      rw [← Except.ok.inj hou]
      exact hpl
    · cases hs
  | settle call executed reply =>
    simp only [step] at hs
    split at hs
    · rename_i result hp
      refine settleStep_inv h hp ?_ hs
      rintro error rfl
      simpa only [Orderly, hp] using hor
    · cases hs
  | cancel call =>
    simp only [step] at hs
    obtain ⟨guard, hg, rfl⟩ := Option.map_eq_some_iff.mp hs
    obtain ⟨hl, hde, hso⟩ :=
      guard_spec hg (h.sound call) (requests call).digest_plain
    exact h.goTo (.of_keeping h hl hde rfl hso)
  | cleanup call executed =>
    simp only [step] at hs
    split at hs
    · rename_i guard hp
      exact Option.some.inj hs ▸ cleanupStep_inv h hp
    · cases hs
  | replay call message =>
    simp only [step] at hs
    split at hs
    · rename_i hw
      rw [← Option.some.inj hs]
      -- what is replayed went out before
      have hlo (other : Nat) (sent : Message)
          (hn : Logged { state with published := (call, message) :: state.published }
            other sent) : Logged state other sent := by
        rcases logged_published other sent hn with hold | ⟨rfl, rfl⟩
        · exact hold
        · exact .inl hw
      exact ⟨h.held, h.valid, h.agreed,
        fun other key sent hk hn => h.logged other key sent hk (hlo other sent hn),
        h.carried, h.sound⟩
    · cases hs
  | expire key =>
    cases hs
    refine h.release ?_
    intro slot hsl
    simpa only [Orderly, hsl] using hor
  | loseCounter tenantId conversationId =>
    cases hs
    exact ⟨h.held, h.valid, h.agreed, h.logged, h.carried, h.sound⟩

end Steps

section Runs

variable {numbering : Numbering} {requests : Nat → Request} {state next : State}

-- The calls of one key that were answered with Ok got one answer, and the messages that went out
-- for the key are one message.
structure SentOnce (requests : Nat → Request) (state : State) : Prop where
  one_answer : ∀ a b key outcome outcome', (requests a).key = some key →
    (requests b).key = some key → state.phase a = .answered (.ok outcome) →
    state.phase b = .answered (.ok outcome') → outcome.identity = outcome'.identity
  one_message : ∀ a b key message message', (requests a).key = some key →
    (requests b).key = some key → Logged state a message → Logged state b message' →
    message = message'

-- Settling and cleaning up leave alone what another call has reserved or committed.
def LeavesOthers (state next : State) : Action → Prop
  | .settle call _ _ | .cleanup call _ =>
    ∀ key slot, state.slots key = some slot → slot.owner ≠ call → next.slots key = some slot
  | _ => True

-- In every state that a run of any number of calls reaches, each key was sent once, and whichever
-- call goes on leaves the keys of the others alone.
def Idempotent (numbering : Numbering) (requests : Nat → Request)
    (ok : State → Action → Prop) : Prop :=
  ∀ actions last, Run (step numbering requests) ok {} actions last →
    SentOnce requests last ∧ ∀ action next, ok last action →
      step numbering requests last action = some next → LeavesOthers last next action

theorem Inv.sentOnce (h : Inv numbering requests state) : SentOnce requests state where
  one_answer a b key outcome outcome' ha hb han han' := by
    obtain ⟨slot, hs, hde⟩ := h.agreed a key outcome.identity ha (by rw [han]; rfl)
    obtain ⟨slot', hs', hde'⟩ := h.agreed b key outcome'.identity hb (by rw [han']; rfl)
    cases (hs.symm.trans hs')
    exact Option.some.inj (hde.symm.trans hde')
  one_message a b key message message' ha hb hl hl' := by
    obtain ⟨hsu, -, slot, hs, ho⟩ := h.logged a key message ha hl
    obtain ⟨hsu', -, slot', hs', ho'⟩ := h.logged b key message' hb hl'
    cases (hs.symm.trans hs')
    obtain rfl : a = b := ho.symm.trans ho'
    exact Option.some.inj (hsu.symm.trans hsu')

theorem Inv.leaves {call : Nat} {phase : Phase}
    (h : Inv numbering requests state) (hl : (state.phase call).live = true)
    (key : String) (held : Slot) (hh : state.slots key = some held) (ho : held.owner ≠ call) :
    ((if executed = true then state.setSlot (requests call).key slot else state).goTo
      call phase).slots key = some held := by
  rw [goTo_slots]
  split
  · cases hk : (requests call).key with
    | none => exact hh
    | some own =>
      have hne : key ≠ own := by
        rintro rfl
        obtain ⟨mine, hm, hon⟩ := h.held call key hk hl
        cases (hm.symm.trans hh)
        exact ho hon
      rw [setSlot_slots_of_ne hne]
      exact hh
  · exact hh

theorem Inv.leavesOthers {action : Action} (h : Inv numbering requests state)
    (hs : step numbering requests state action = some next) : LeavesOthers state next action := by
  cases action with
  | settle call executed reply =>
    intro key slot hsl ho
    simp only [step] at hs
    split at hs
    · rename_i result hp
      have hl : (state.phase call).live = true := by rw [hp]; rfl
      unfold settleStep at hs
      dsimp only at hs
      split at hs
      · cases hs
      · split at hs <;> exact Option.some.inj hs ▸ h.leaves hl key slot hsl ho
    · cases hs
  | cleanup call executed =>
    intro key slot hsl ho
    simp only [step] at hs
    split at hs
    · rename_i guard hp
      exact Option.some.inj hs ▸ h.leaves (by rw [hp]; rfl) key slot hsl ho
    · cases hs
  | _ => trivial

theorem idempotent_orderly (numbering : Numbering) (requests : Nat → Request) :
    Idempotent numbering requests (Orderly requests) := by
  intro actions last hrun
  have hinv : Inv numbering requests last := hrun.preserves _
    (fun state action next hinv horderly hstep => step_inv hinv horderly hstep) inv_initial
  exact ⟨hinv.sentOnce, fun action next _ hstep => hinv.leavesOthers hstep⟩

end Runs

section Sample

def sampleNumbering : Numbering where
  number
    | .unspecified => 0
    | .transientAccepted => 1
    | .walAccepted => 2
    | .brokerAccepted => 3
    | .persisted => 4
  ofNumber n :=
    if n = 0 then some .unspecified
    else if n = 1 then some .transientAccepted
    else if n = 2 then some .walAccepted
    else if n = 3 then some .brokerAccepted
    else if n = 4 then some .persisted
    else none
  ofNumber_number durability := by cases durability <;> decide
  number_lt durability := by cases durability <;> decide

-- Every call is a retry of one send.
def retries (_ : Nat) : Request where
  tenantId := some "acme"
  deviceId := some "phone"
  message := {
    clientMsgId := "k1"
    conversationId := "c1"
    senderId := "alice"
    content := some ⟨some (.text "hello")⟩ }

def hookUnavailable : FlareError := ⟨.serviceUnavailable, "hook", ""⟩

-- The steps of a call that finds its key free.
def reserve (call : Nat) : List Action := [.begin_ call true .ok, .lookup call (.ok none)]

def deliver (call : Nat) (stamp : Stamp) : List Action :=
  [.allocate call none stamp none, .writeWal call true .ok, .publish call true .ok, .finish call,
    .settle call true .ok]

-- The rollback of the first call is executed, and the call is cancelled before the answer. Its
-- cleanup deletes the key once more, which by then is that of the second call.
def lateCleanup : List Action :=
  reserve 0 ++ [.fail 0 hookUnavailable, .settle 0 true .cancelled] ++ reserve 1 ++
    [.cleanup 0 true] ++ reserve 2 ++ deliver 2 { serverId := "s2" } ++
    deliver 1 { serverId := "s1" }

def Action.expires : Action → Option String
  | .expire key => some key
  | _ => none

-- No committed result expires.
def ResultsStay (state : State) (action : Action) : Prop :=
  ∀ key ∈ action.expires, ∀ slot ∈ state.slots key, slot.text = PENDING_MARKER

instance (state : State) (action : Action) : Decidable (ResultsStay state action) :=
  inferInstanceAs (Decidable (∀ key ∈ action.expires, ∀ slot ∈ state.slots key,
    slot.text = PENDING_MARKER))

theorem late_cleanup_sends_twice : ¬ Idempotent sampleNumbering retries ResultsStay := by
  intro hidempotent
  have hrun : (execute (step sampleNumbering retries) ResultsStay {} lateCleanup).map
      (fun last => (last.phase 1, last.phase 2)) =
      some (.answered (.ok ⟨"s1", 2, .persisted⟩), .answered (.ok ⟨"s2", 1, .persisted⟩)) := by
    decide
  obtain ⟨last, hexecute, hphases⟩ := Option.map_eq_some_iff.mp hrun
  obtain ⟨hfirst, hsecond⟩ := Prod.mk.inj hphases
  obtain ⟨honce, -⟩ := hidempotent _ last (run_of_execute hexecute)
  have hsame := honce.one_answer 1 2 _ _ _ rfl rfl hfirst hsecond
  exact absurd hsame (by decide)

end Sample

end FlareIm.MessageIngest
