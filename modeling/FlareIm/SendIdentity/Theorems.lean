import FlareIm.MessageIngest.Theorems
import FlareIm.MessagePersistence.Theorems
import FlareIm.SendIdentity

namespace FlareIm.SendIdentity

open Text Context Proto MessageProfile IdempotencySlot MessageArchive Transition Fallible
open MessageIngest (Request LedgerRecord SendMessageOutcome ReservationState Phase Slot
  acceptedOutcome recoverablePublishFailureOutcome outcomeOf recordOf recordIdentity PlainIdentity
  Logged goTo_phase_self goTo_phase_of_ne goTo_slots setSlot_phase setSlot_slots_self
  setSlot_slots_of_ne guard_spec sound_abandoned recoverable_of_durable recoverable_of_transient)
open MessagePersistence (Writer Delivered PreparedMessage keysOf serverKey clientKey scopedId
  scopedKey storageKey Sends Stored StandsFor Safe Careful ReadsBack SameSend Settled
  ExpireAnswered LoopLeavesNothing withoutEnvelope pinMessageTenant markSent)

variable {message : Message} {draft : Option MessageIngest.Draft} {stamp : MessageIngest.Stamp}
  {prepared : PreparedMessage} {executed : Bool} {reply : MessageIngest.Reply}
  {entry : Nat × Message}

section Outcomes

-- The outcome a call has come to, whether or not the client got to know it.
def outcome : Phase → Option SendMessageOutcome
  | .walWritten message => recoverablePublishFailureOutcome message
  | .published message => some (acceptedOutcome message)
  | .settling (.ok outcome) | .answered (.ok outcome) => some outcome
  | .dropped (.accepted record) | .abandoned (.accepted record) => some (outcomeOf record)
  | _ => none

theorem outcome_of_guard {phase : Phase} {digest : String} {record : IdempotentRecord}
    (h : phase.guard digest = some (.accepted record)) :
    outcome phase = some (outcomeOf record) := by
  cases phase with
  | walWritten message =>
    simp only [Phase.guard, Option.some.injEq] at h
    cases hr : recoverablePublishFailureOutcome message with
    | none => exact absurd h (by simp [hr])
    | some recovered =>
      rw [hr] at h
      obtain rfl : recordOf recovered digest = record := by simpa using h
      exact hr
  | published message =>
    obtain rfl : recordOf (acceptedOutcome message) digest = record := by
      simpa [Phase.guard] using h
    rfl
  | settling result =>
    cases result with
    | error error => exact absurd h (by simp [Phase.guard])
    | ok settled =>
      obtain rfl : recordOf settled digest = record := by simpa [Phase.guard] using h
      rfl
  | _ => exact absurd h (by simp [Phase.guard])

end Outcomes

section Sources

-- The slot is a reservation, or holds a result that, unless it is a transient one, is backed.
def SlotBacked (numbering : Numbering) (backs : String × Nat → Prop) (slot : Slot) : Prop :=
  slot.text = PENDING_MARKER ∨ ∃ record, Plain record ∧ slot.text = encode numbering record ∧
    (record.durability ≠ .transientAccepted → backs (recordIdentity record))

def OutcomeBacked (backs : String × Nat → Prop) (phase : Phase) : Prop :=
  ∀ come, outcome phase = some come → come.durability ≠ .transientAccepted → backs come.identity

-- No identity comes from nowhere: what a send is answered is backed, and what the broker took to
-- be stored was written to the WAL before.
structure Sourced (numbering : Numbering) (backs : String × Nat → Prop)
    (state : MessageIngest.State) : Prop where
  slots : ∀ key slot, state.slots key = some slot → SlotBacked numbering backs slot
  outcomes : ∀ call, OutcomeBacked backs (state.phase call)
  sound : ∀ call, (state.phase call).Sound
  carried : ∀ call message, (state.phase call).carries = some message →
    message.conversationId ≠ ""
  walWritten : ∀ call message, state.phase call = .walWritten message →
    (call, message) ∈ state.written
  written : ∀ entry ∈ state.written,
    entry.2.conversationId ≠ "" ∧ durability entry.2 ≠ .transientAccepted
  published : ∀ entry ∈ state.published, durability entry.2 ≠ .transientAccepted →
    entry ∈ state.written

variable {numbering : Numbering} {backs backs' : String × Nat → Prop}
  {state next : MessageIngest.State} {call : Nat} {phase : Phase} {requests : Nat → Request}

theorem sourced_initial : Sourced numbering backs {} where
  slots _ _ h := absurd h (by simp)
  outcomes _ _ h := absurd h (by simp [outcome])
  sound _ := .of_bare rfl rfl
  carried _ _ h := absurd h (by simp [Phase.carries])
  walWritten _ _ h := absurd h (by simp)
  written _ h := absurd h List.not_mem_nil
  published _ h := absurd h List.not_mem_nil

theorem Sourced.mono (h : Sourced numbering backs state)
    (hm : ∀ identity, backs identity → backs' identity) : Sourced numbering backs' state :=
  { h with
    slots := by
      intro key slot hs
      rcases h.slots key slot hs with hp | ⟨record, hpl, ht, hb⟩
      · exact .inl hp
      · exact .inr ⟨record, hpl, ht, fun hdu => hm _ (hb hdu)⟩
    outcomes := fun call come hc hdu => hm _ (h.outcomes call come hc hdu) }

theorem Sourced.goTo (h : Sourced numbering backs state) (ho : OutcomeBacked backs phase)
    (hs : phase.Sound) (hc : ∀ message, phase.carries = some message → message.conversationId ≠ "")
    (hw : ∀ message, phase = .walWritten message → (call, message) ∈ state.written) :
    Sourced numbering backs (state.goTo call phase) where
  slots := h.slots
  outcomes other := by
    by_cases heq : other = call
    · rw [heq, goTo_phase_self]
      exact ho
    · rw [goTo_phase_of_ne heq]
      exact h.outcomes other
  sound other := by
    by_cases heq : other = call
    · rw [heq, goTo_phase_self]
      exact hs
    · rw [goTo_phase_of_ne heq]
      exact h.sound other
  carried other := by
    by_cases heq : other = call
    · rw [heq, goTo_phase_self]
      exact hc
    · rw [goTo_phase_of_ne heq]
      exact h.carried other
  walWritten other := by
    by_cases heq : other = call
    · rw [heq, goTo_phase_self]
      exact hw
    · rw [goTo_phase_of_ne heq]
      exact h.walWritten other
  written := h.written
  published := h.published

-- A phase without a message, and whose outcome is that of the call before, if it has one.
theorem Sourced.goTo_plain (h : Sourced numbering backs state)
    (ho : OutcomeBacked backs phase) (hs : phase.Sound)
    (hc : phase.carries = none) : Sourced numbering backs (state.goTo call phase) := by
  refine h.goTo ho hs ?_ ?_
  · exact fun _ hso => absurd hso (by simp [hc])
  · rintro message rfl
    exact absurd hc (by simp [Phase.carries])

theorem Sourced.goTo_bare (h : Sourced numbering backs state) (ho : outcome phase = none)
    (hde : phase.decided = none) (hc : phase.carries = none) :
    Sourced numbering backs (state.goTo call phase) :=
  h.goTo_plain (fun _ hco => absurd hco (by simp [ho])) (.of_bare hde hc) hc

theorem Sourced.setSlot (h : Sourced numbering backs state) (key : Option String)
    (slot : Option Slot) (hsl : ∀ new, slot = some new → SlotBacked numbering backs new) :
    Sourced numbering backs (state.setSlot key slot) := by
  cases key with
  | none => exact h
  | some key =>
    refine { h with slots := ?_ }
    intro other stored hs
    by_cases heq : other = key
    · subst heq
      exact hsl stored ((setSlot_slots_self other slot).symm.trans hs)
    · exact h.slots other stored ((setSlot_slots_of_ne heq).symm.trans hs)

theorem Sourced.append (h : Sourced numbering backs state) (hc : message.conversationId ≠ "")
    (hdu : durability message ≠ .transientAccepted) :
    Sourced numbering backs { state with written := (call, message) :: state.written } :=
  { h with
    walWritten := fun other sent hp => List.mem_cons_of_mem _ (h.walWritten other sent hp)
    written := List.forall_mem_cons.mpr ⟨⟨hc, hdu⟩, h.written⟩
    published := fun entry hm hen =>
      List.mem_cons_of_mem _ (h.published entry hm hen) }

theorem Sourced.publish (h : Sourced numbering backs state)
    (hw : durability message ≠ .transientAccepted → (call, message) ∈ state.written) :
    Sourced numbering backs { state with published := (call, message) :: state.published } :=
  { h with published := List.forall_mem_cons.mpr ⟨hw, h.published⟩ }

end Sources

section Ingest

variable {numbering : Numbering} {backs : String × Nat → Prop}
  {state next : MessageIngest.State} {call : Nat} {phase : Phase} {requests : Nat → Request}

theorem submission_conversationId {request : Request} {tenantId : String}
    {prepared : Message}
    (h : MessageIngest.submission request tenantId draft stamp = .ok prepared) :
    prepared.conversationId ≠ "" := by
  obtain ⟨message, -, hb⟩ := bind_eq_ok.mp h
  obtain ⟨ho, -, hch⟩ := bind_eq_ok.mp hb
  obtain ⟨-, -, hp⟩ := bind_eq_ok.mp hch
  unfold MessageIngest.prepare at hp
  split at hp
  · cases hp
  · rename_i hc
    split at hp
    · cases hp
    · rw [← Except.ok.inj hp]
      exact hc

theorem beginStep_sourced (h : Sourced numbering backs state)
    (hs : MessageIngest.beginStep numbering requests state call executed reply = some next) :
    Sourced numbering backs next := by
  have hr (key : String) : Sourced numbering backs
      (state.setSlot (some key) (some ⟨call, PENDING_MARKER⟩)) :=
    h.setSlot (some key) _ fun new hn => .inl (by rw [← Option.some.inj hn])
  have ho (key : String) : Sourced numbering backs
      (if executed = true ∧ state.slots key = none then
        state.setSlot (some key) (some ⟨call, PENDING_MARKER⟩) else state) := by
    split
    · exact hr key
    · exact h
  unfold MessageIngest.beginStep at hs
  dsimp only at hs
  split at hs
  · exact Option.some.inj hs ▸ h.goTo_bare rfl rfl rfl
  · rename_i key hk
    split at hs
    · cases hs
    · split at hs
      · exact Option.some.inj hs ▸ (hr key).goTo_bare rfl rfl rfl
      · rename_i slot hsl
        rw [← Option.some.inj hs]
        rcases h.slots key slot hsl with hpe | ⟨record, hp, ht, hb⟩
        · have heo : MessageIngest.replayed (requests call).digest
              (readSlot numbering (some slot.text)) =
              .error ⟨.serviceUnavailable, "duplicate send in progress; retry shortly", ""⟩ := by
            rw [readSlot, if_pos hpe]
            rfl
          rw [heo]
          exact h.goTo_bare rfl rfl rfl
        · rw [ht, readSlot_encode hp]
          unfold MessageIngest.replayed
          dsimp only
          split
          · exact h.goTo_bare rfl rfl rfl
          · refine h.goTo_plain ?_ (Phase.Sound.of_result ?_).2 rfl
            · intro come hc hdu
              cases hc
              exact hb hdu
            · intro come hc
              rw [← Except.ok.inj hc]
              exact ⟨hp.server_id_ne, hp.server_id, hp.seq_lt⟩
  · rename_i key _ _
    exact Option.some.inj hs ▸ (ho key).goTo_bare rfl rfl rfl
  · rename_i key _
    exact Option.some.inj hs ▸ (ho key).goTo_bare rfl rfl rfl

theorem allocateStep_sourced
    {floor : Option Nat} (h : Sourced numbering backs state)
    (hs : MessageIngest.allocateStep requests state call draft stamp floor = some next) :
    Sourced numbering backs next := by
  unfold MessageIngest.allocateStep at hs
  split at hs
  · cases hs
  · split at hs
    · exact Option.some.inj hs ▸ h.goTo_bare rfl rfl rfl
    · rename_i prepared hp
      dsimp only at hs
      split at hs
      · cases hs
      · rename_i seq hse
        rw [← Option.some.inj hs]
        have hlt : seq < 2 ^ 64 := by
          split at hse
          · exact MessageIngest.allocateSeq_lt hse
          · exact MessageIngest.allocateSeqWithFloor_lt hse
        have hid := MessageIngest.submission_serverId hp
        have hco := submission_conversationId hp
        refine Sourced.goTo ⟨h.slots, h.outcomes, h.sound, h.carried, h.walWritten, h.written,
          h.published⟩ (fun _ hcm => absurd hcm (by simp [outcome])) ?_ ?_
          (fun _ hw => absurd hw (by simp))
        · refine ⟨fun _ hde => absurd hde (by simp [Phase.decided]), ?_,
            fun _ hdr => absurd hdr (by simp), fun _ hw => absurd hw (by simp)⟩
          intro message hc
          cases hc
          exact ⟨hid ▸ stamp.server_id_ne, hid ▸ stamp.server_id_plain, hlt⟩
        · intro message hc
          cases hc
          exact hco

theorem sound_walWritten (h : PlainIdentity (MessageIngest.messageIdentity message))
    (hdu : durability message ≠ .transientAccepted) : (Phase.walWritten message).Sound where
  decided _ hie := Option.some.inj hie ▸ h
  carries _ hs := Option.some.inj hs ▸ h
  dropped _ hdr := absurd hdr (by simp)
  durable sent hs := by
    obtain rfl : message = sent := by simpa using hs
    exact hdu

theorem sound_published (h : PlainIdentity (MessageIngest.messageIdentity message)) :
    (Phase.published message).Sound where
  decided _ hie := Option.some.inj hie ▸ h
  carries _ hs := Option.some.inj hs ▸ h
  dropped _ hdr := absurd hdr (by simp)
  durable _ hw := absurd hw (by simp)

theorem writeWalStep_sourced
    (h : Sourced numbering backs state) (hp : state.phase call = .allocated message)
    (hdu : durability message ≠ .transientAccepted)
    (hb : ∀ entry ∈ next.written, backs (MessageIngest.messageIdentity entry.2))
    (hs : MessageIngest.writeWalStep state call message executed reply = some next) :
    Sourced numbering backs next := by
  have hc : (state.phase call).carries = some message := by rw [hp]; rfl
  have hap : Sourced numbering backs
      { state with written := (call, message) :: state.written } :=
    h.append (h.carried call message hc) hdu
  have ha : Sourced numbering backs (if executed = true then
      { state with written := (call, message) :: state.written } else state) := by
    split
    · exact hap
    · exact h
  unfold MessageIngest.writeWalStep at hs
  dsimp only at hs
  split at hs
  · split at hs
    · rw [← Option.some.inj hs] at hb ⊢
      refine hap.goTo ?_ (sound_walWritten ((h.sound call).carries message hc) hdu) ?_ ?_
      · intro come hco _
        rw [outcome, recoverable_of_durable hdu] at hco
        cases hco
        exact hb (call, message) List.mem_cons_self
      · intro sent hse
        cases hse
        exact h.carried call message hc
      · intro sent hse
        obtain rfl : message = sent := by simpa using hse
        exact List.mem_cons_self
    · cases hs
  · exact Option.some.inj hs ▸ ha.goTo_bare rfl rfl rfl
  · exact Option.some.inj hs ▸ ha.goTo_bare rfl rfl rfl

theorem publishStep_written
    (h : MessageIngest.publishStep requests state call message executed reply = some next) :
    next.written = state.written := by
  have ha (phase : Phase) : ((if executed = true then
      { state with published := (call, message) :: state.published } else state).goTo
        call phase).written = state.written := by
    cases executed <;> rfl
  unfold MessageIngest.publishStep at h
  dsimp only at h
  split at h
  · split at h
    · rw [← Option.some.inj h]
      rfl
    · cases h
  · split at h <;> exact Option.some.inj h ▸ ha _
  · split at h <;> exact Option.some.inj h ▸ ha _

theorem publishStep_sourced
    (h : Sourced numbering backs state) (hca : (state.phase call).carries = some message)
    (hw : durability message ≠ .transientAccepted → (call, message) ∈ state.written)
    (hba : ∀ entry ∈ state.written, backs (MessageIngest.messageIdentity entry.2))
    (hs : MessageIngest.publishStep requests state call message executed reply = some next) :
    Sourced numbering backs next := by
  have hpl := (h.sound call).carries message hca
  have hp : Sourced numbering backs
      { state with published := (call, message) :: state.published } := h.publish hw
  have ha : Sourced numbering backs (if executed = true then
      { state with published := (call, message) :: state.published } else state) := by
    split
    · exact hp
    · exact h
  have hb (come : SendMessageOutcome) (hc : recoverablePublishFailureOutcome message = some come) :
      backs come.identity ∧ PlainIdentity come.identity := by
    unfold recoverablePublishFailureOutcome at hc
    split at hc
    · cases hc
    · rename_i hdu
      rw [← Option.some.inj hc]
      exact ⟨hba (call, message) (hw hdu), hpl⟩
  unfold MessageIngest.publishStep at hs
  dsimp only at hs
  split at hs
  · split at hs
    · rw [← Option.some.inj hs]
      refine hp.goTo ?_ (sound_published hpl) ?_ (fun _ hse => absurd hse (by simp))
      · intro come hc hdu
        cases hc
        exact hba (call, message) (hw hdu)
      · intro sent hse
        cases hse
        exact h.carried call message hca
    · cases hs
  · split at hs
    · rename_i come hc
      rw [← Option.some.inj hs]
      obtain ⟨hso, hie⟩ := hb come hc
      refine ha.goTo_plain ?_ (Phase.Sound.of_result ?_).1 rfl
      · exact fun _ ho _ => Option.some.inj ho ▸ hso
      · exact fun _ ho => Except.ok.inj ho ▸ hie
    · exact Option.some.inj hs ▸ ha.goTo_bare rfl rfl rfl
  · split at hs
    · rename_i come hc
      rw [← Option.some.inj hs]
      obtain ⟨hso, hie⟩ := hb come hc
      refine ha.goTo_plain ?_ (Phase.Sound.of_record
        (MessageIngest.plain_recordOf hie (requests call).digest_plain)).1 rfl
      exact fun _ ho _ => Option.some.inj ho ▸ hso
    · exact Option.some.inj hs ▸ ha.goTo_bare rfl rfl rfl

theorem Sourced.settle {guard : ReservationState} (h : Sourced numbering backs state)
    (hg : ∀ record, guard = .accepted record → Plain record ∧
      (record.durability ≠ .transientAccepted → backs (recordIdentity record))) :
    Sourced numbering backs (if executed = true then
      state.setSlot (requests call).key (MessageIngest.settleSlot numbering call guard)
      else state) := by
  split
  · refine h.setSlot _ _ ?_
    intro new hn
    cases guard with
    | reserved => exact absurd hn (by simp [MessageIngest.settleSlot])
    | accepted record =>
      obtain ⟨hp, hb⟩ := hg record rfl
      rw [← Option.some.inj hn]
      exact .inr ⟨record, hp, rfl, hb⟩
  · exact h

theorem settleStep_sourced {result : Except OperationPolicy.FlareError SendMessageOutcome}
    (h : Sourced numbering backs state) (hp : state.phase call = .settling result)
    (hs : MessageIngest.settleStep numbering requests state call result executed reply =
      some next) : Sourced numbering backs next := by
  have hso := hp ▸ h.sound call
  have hc := hp ▸ h.outcomes call
  unfold MessageIngest.settleStep at hs
  dsimp only at hs
  split at hs
  · cases hs
  · rename_i guard hg
    obtain ⟨-, -, hdr⟩ := guard_spec hg hso (requests call).digest_plain
    have hb : ∀ record, guard = .accepted record →
        record.durability ≠ .transientAccepted → backs (recordIdentity record) := by
      rintro record rfl hdu
      exact hc _ (outcome_of_guard hg) hdu
    have ha : Sourced numbering backs (if executed = true then
        state.setSlot (requests call).key (MessageIngest.settleSlot numbering call guard)
        else state) :=
      h.settle fun record hr =>
        ⟨hdr.dropped record (hr ▸ rfl), hb record hr⟩
    split at hs
    · rw [← Option.some.inj hs]
      refine ha.goTo_plain ?_ hdr rfl
      intro come ho hdu
      cases guard with
      | reserved => exact absurd ho (by simp [outcome])
      | accepted record =>
        cases ho
        exact hb record rfl hdu
    · rw [← Option.some.inj hs]
      cases result with
      | error error => exact ha.goTo_bare rfl rfl rfl
      | ok come =>
        refine ha.goTo_plain ?_ (Phase.Sound.of_result ?_).2 rfl
        · exact fun other ho => hc other ho
        · exact fun other ho => Except.ok.inj ho ▸ hso.decided _ rfl

theorem cleanupStep_sourced {guard : ReservationState}
    (h : Sourced numbering backs state) (hp : state.phase call = .dropped guard) :
    Sourced numbering backs ((if executed = true then
      state.setSlot (requests call).key (MessageIngest.settleSlot numbering call guard)
      else state).goTo call (.abandoned guard)) := by
  have hs := hp ▸ h.sound call
  have hc := hp ▸ h.outcomes call
  refine (h.settle ?_).goTo_plain ?_ (sound_abandoned hs) rfl
  · rintro record rfl
    exact ⟨hs.dropped record rfl, hc _ rfl⟩
  · cases guard with
    | reserved => exact fun _ ho => absurd ho (by simp [outcome])
    | accepted record => exact hc

-- Whatever a step of the ingest does, the outcomes stay backed: by what is written to the WAL in
-- the end, and by what a lookup found.
theorem step_sourced {action : MessageIngest.Action} (h : Sourced numbering backs state)
    (hb : ∀ entry ∈ next.written, backs (MessageIngest.messageIdentity entry.2))
    (hf : ∀ read ∈ found action, backs (read.2.serverId, read.2.conversationSeq))
    (hs : MessageIngest.step numbering requests state action = some next) :
    Sourced numbering backs next := by
  cases action with
  | refuse call unreadable | fail call error =>
    simp only [MessageIngest.step] at hs
    split at hs
    · exact Option.some.inj hs ▸ h.goTo_bare rfl rfl rfl
    · cases hs
  | begin_ call executed reply =>
    simp only [MessageIngest.step] at hs
    split at hs
    · exact Option.some.inj hs ▸ h.goTo_bare rfl rfl rfl
    · exact beginStep_sourced h hs
    · cases hs
  | lookup call read =>
    simp only [MessageIngest.step] at hs
    split at hs
    · split at hs
      · exact Option.some.inj hs ▸ h.goTo_bare rfl rfl rfl
      · split at hs
        · exact Option.some.inj hs ▸ h.goTo_bare rfl rfl rfl
        · rename_i come hc
          rw [← Option.some.inj hs]
          have hpl := MessageIngest.lookupStep_sound hc
          refine h.goTo_plain ?_ (Phase.Sound.of_result ?_).1 rfl
          · intro other ho _
            cases ho
            unfold MessageIngest.replayFromLedger at hc
            split at hc
            · cases hc
            · rename_i record
              split at hc
              · rw [← Option.some.inj (Except.ok.inj hc)]
                exact hf (call, record) rfl
              · cases hc
            · cases hc
          · exact fun other ho => Except.ok.inj ho ▸ hpl
        · exact Option.some.inj hs ▸ h.goTo_bare rfl rfl rfl
    · cases hs
  | limit call error =>
    simp only [MessageIngest.step] at hs
    split at hs
    · rw [← Option.some.inj hs]
      split <;> exact h.goTo_bare rfl rfl rfl
    · cases hs
  | allocate call draft stamp floor =>
    simp only [MessageIngest.step] at hs
    split at hs
    · exact allocateStep_sourced h hs
    · cases hs
  | writeWal call executed reply =>
    simp only [MessageIngest.step] at hs
    split at hs
    · rename_i message hp
      split at hs
      · rename_i hw
        exact writeWalStep_sourced h hp ((shouldWriteWal_iff message _).mp hw) hb hs
      · cases hs
    · cases hs
  | publish call executed reply =>
    simp only [MessageIngest.step] at hs
    split at hs
    · rename_i message hp
      split at hs
      · cases hs
      · rename_i hw
        refine publishStep_sourced h (by rw [hp]; rfl) ?_ (publishStep_written hs ▸ hb) hs
        exact fun hdu => absurd ((shouldWriteWal_iff message _).mpr hdu) hw
    · rename_i message hp
      exact publishStep_sourced h (by rw [hp]; rfl)
        (fun _ => h.walWritten call message hp) (publishStep_written hs ▸ hb) hs
    · cases hs
  | finish call =>
    simp only [MessageIngest.step] at hs
    split at hs
    · rename_i message hp
      rw [← Option.some.inj hs]
      have hpl := (h.sound call).decided (MessageIngest.messageIdentity message) (by rw [hp]; rfl)
      have hc := hp ▸ h.outcomes call
      refine h.goTo_plain (fun other ho => hc other ho) (Phase.Sound.of_result ?_).1 rfl
      intro other ho
      rw [← Except.ok.inj ho]
      exact hpl
    · cases hs
  | settle call executed reply =>
    simp only [MessageIngest.step] at hs
    split at hs
    · rename_i result hp
      exact settleStep_sourced h hp hs
    · cases hs
  | cancel call =>
    simp only [MessageIngest.step] at hs
    obtain ⟨guard, hg, rfl⟩ := Option.map_eq_some_iff.mp hs
    obtain ⟨-, -, hso⟩ := guard_spec hg (h.sound call) (requests call).digest_plain
    refine h.goTo_plain ?_ hso rfl
    intro come ho
    cases guard with
    | reserved => exact absurd ho (by simp [outcome])
    | accepted record =>
      cases ho
      exact h.outcomes call _ (outcome_of_guard hg)
  | cleanup call executed =>
    simp only [MessageIngest.step] at hs
    split at hs
    · rename_i guard hp
      exact Option.some.inj hs ▸ cleanupStep_sourced h hp
    · cases hs
  | replay call message =>
    simp only [MessageIngest.step] at hs
    split at hs
    · rename_i hwr
      exact Option.some.inj hs ▸ h.publish fun _ => hwr
    · cases hs
  | expire key =>
    exact Option.some.inj hs ▸ h.setSlot (some key) none fun _ hn => absurd hn (by simp)
  | loseCounter tenantId conversationId =>
    exact Option.some.inj hs ▸
      ⟨h.slots, h.outcomes, h.sound, h.carried, h.walWritten, h.written, h.published⟩

theorem setSlot_written (key : Option String) (slot : Option Slot) :
    (state.setSlot key slot).written = state.written := by
  cases key <;> rfl

theorem settled_written (key : Option String) (slot : Option Slot) :
    ((if executed = true then state.setSlot key slot else state).goTo call phase).written =
      state.written := by
  show (if executed = true then state.setSlot key slot else state).written = state.written
  split
  · exact setSlot_written key slot
  · rfl

theorem beginStep_written
    (h : MessageIngest.beginStep numbering requests state call executed reply = some next) :
    next.written = state.written := by
  have ho (key : String) (slot : Option Slot) (phase : Phase) :
      ((if executed = true ∧ state.slots key = none then state.setSlot (some key) slot
        else state).goTo call phase).written = state.written := by
    show (if executed = true ∧ state.slots key = none then state.setSlot (some key) slot
      else state).written = state.written
    split <;> rfl
  unfold MessageIngest.beginStep at h
  dsimp only at h
  split at h
  · exact Option.some.inj h ▸ rfl
  · split at h
    · cases h
    · split at h <;> exact Option.some.inj h ▸ rfl
  · exact Option.some.inj h ▸ ho _ _ _
  · exact Option.some.inj h ▸ ho _ _ _

theorem allocateStep_written
    {floor : Option Nat}
    (h : MessageIngest.allocateStep requests state call draft stamp floor = some next) :
    next.written = state.written := by
  unfold MessageIngest.allocateStep at h
  split at h
  · cases h
  · split at h
    · exact Option.some.inj h ▸ rfl
    · dsimp only at h
      split at h
      · cases h
      · exact Option.some.inj h ▸ rfl

theorem settleStep_written {result : Except OperationPolicy.FlareError SendMessageOutcome}
    (h : MessageIngest.settleStep numbering requests state call result executed reply =
      some next) : next.written = state.written := by
  unfold MessageIngest.settleStep at h
  dsimp only at h
  split at h
  · cases h
  · split at h <;> exact Option.some.inj h ▸ settled_written _ _

-- The message a step writes to the WAL, if it is such a step.
inductive Writes (requests : Nat → Request) (state next : MessageIngest.State) :
    MessageIngest.Action → Prop where
  | nothing {action : MessageIngest.Action} (h : next.written = state.written) :
      Writes requests state next action
  | message (call : Nat) (reply : MessageIngest.Reply) (message : Message)
      (hphase : state.phase call = .allocated message)
      (h : next.written = (call, message) :: state.written) :
      Writes requests state next (.writeWal call true reply)

theorem writeWalStep_writes (hp : state.phase call = .allocated message)
    (h : MessageIngest.writeWalStep state call message executed reply = some next) :
    Writes requests state next (.writeWal call executed reply) := by
  have ha : next.written = (if executed = true then
      { state with written := (call, message) :: state.written } else state).written := by
    unfold MessageIngest.writeWalStep at h
    dsimp only at h
    split at h
    · split at h
      · rename_i hee
        rw [← Option.some.inj h, if_pos hee]
        rfl
      · cases h
    · rw [← Option.some.inj h]
      rfl
    · rw [← Option.some.inj h]
      rfl
  cases executed with
  | false => exact .nothing ha
  | true => exact .message call reply message hp ha

theorem step_writes {action : MessageIngest.Action}
    (hs : MessageIngest.step numbering requests state action = some next) :
    Writes requests state next action := by
  cases action with
  | refuse call unreadable | limit call error | fail call error | finish call
  | replay call message =>
    simp only [MessageIngest.step] at hs
    split at hs
    · exact .nothing (Option.some.inj hs ▸ rfl)
    · cases hs
  | begin_ call executed reply =>
    simp only [MessageIngest.step] at hs
    split at hs
    · exact .nothing (Option.some.inj hs ▸ rfl)
    · exact .nothing (beginStep_written hs)
    · cases hs
  | lookup call read =>
    simp only [MessageIngest.step] at hs
    split at hs
    · split at hs
      · exact .nothing (Option.some.inj hs ▸ rfl)
      · split at hs
        all_goals exact .nothing (Option.some.inj hs ▸ rfl)
    · cases hs
  | allocate call draft stamp floor =>
    simp only [MessageIngest.step] at hs
    split at hs
    · exact .nothing (allocateStep_written hs)
    · cases hs
  | writeWal call executed reply =>
    simp only [MessageIngest.step] at hs
    split at hs
    · rename_i message hp
      split at hs
      · exact writeWalStep_writes hp hs
      · cases hs
    · cases hs
  | publish call executed reply =>
    simp only [MessageIngest.step] at hs
    split at hs
    · split at hs
      · cases hs
      · exact .nothing (publishStep_written hs)
    · exact .nothing (publishStep_written hs)
    · cases hs
  | settle call executed reply =>
    simp only [MessageIngest.step] at hs
    split at hs
    · exact .nothing (settleStep_written hs)
    · cases hs
  | cancel call =>
    simp only [MessageIngest.step] at hs
    obtain ⟨guard, -, rfl⟩ := Option.map_eq_some_iff.mp hs
    exact .nothing rfl
  | cleanup call executed =>
    simp only [MessageIngest.step] at hs
    split at hs
    · exact .nothing (Option.some.inj hs ▸ settled_written _ _)
    · cases hs
  | expire key | loseCounter tenantId conversationId => exact .nothing (Option.some.inj hs ▸ rfl)

end Ingest

section Writer

variable {requests : Nat → Request} {written : List (Nat × Message)} {writer : Writer}

-- What the writer makes of a message that the ingest wrote to the WAL.
def Prepares (requests : Nat → Request) (entry : Nat × Message) (prepared : PreparedMessage) :
    Prop :=
  normalizeOptionalTenantId (requests entry.1).tenantId = some prepared.tenantId ∧
    prepared.message = markSent (pinMessageTenant (withoutEnvelope entry.2) prepared.tenantId)

instance (entry : Nat × Message) (prepared : PreparedMessage) :
    Decidable (Prepares requests entry prepared) :=
  inferInstanceAs (Decidable (_ ∧ _))

-- The keys the writer knows a message by: that of its server id and that of its send.
def writerKeys (requests : Nat → Request) (entry : Nat × Message) : List String :=
  match normalizeOptionalTenantId (requests entry.1).tenantId with
  | none => []
  | some tenantId =>
    let message := entry.2
    storageKey tenantId message.serverId ::
      if message.clientMsgId = "" then []
      else [storageKey tenantId (scopedKey tenantId message.clientMsgId (some message.senderId)
        (some message.conversationId))]

theorem keysOf_prepares
    (h : Prepares requests entry prepared) : keysOf prepared = writerKeys requests entry := by
  obtain ⟨ht, hm⟩ := h
  have hcl : prepared.message.clientMsgId = entry.2.clientMsgId := by rw [hm]; rfl
  have hs : prepared.message.serverId = entry.2.serverId := by rw [hm]; rfl
  have hse : prepared.message.senderId = entry.2.senderId := by rw [hm]; rfl
  have hc : prepared.message.conversationId = entry.2.conversationId := by
    rw [hm]; rfl
  simp only [keysOf, writerKeys, ht, serverKey, clientKey, scopedId,
    PreparedMessage.messageId, PreparedMessage.conversationId, hcl, hs, hse, hc]
  split <;> rfl

-- No two messages of the WAL share a key of the writer.
structure Apart (requests : Nat → Request) (written : List (Nat × Message)) : Prop where
  one_entry : ∀ a ∈ written, ∀ b ∈ written, ∀ key ∈ writerKeys requests a,
    key ∈ writerKeys requests b → a = b
  in_conversation : ∀ entry ∈ written, entry.2.conversationId ≠ ""

theorem Apart.cons (h : Apart requests written) (hc : entry.2.conversationId ≠ "")
    (hn : ∀ other ∈ written, ∀ key ∈ writerKeys requests other,
      key ∉ writerKeys requests entry) : Apart requests (entry :: written) where
  one_entry := by
    intro a ha b hb key hk hk'
    rcases List.mem_cons.mp ha with han | hao <;> rcases List.mem_cons.mp hb with hbn | hbo
    · rw [han, hbn]
    · exact absurd (han ▸ hk) (hn b hbo key hk')
    · exact absurd (hbn ▸ hk') (hn a hao key hk)
    · exact h.one_entry a hao b hbo key hk hk'
  in_conversation := List.forall_mem_cons.mpr ⟨hc, h.in_conversation⟩

theorem prepares_unique {a b : PreparedMessage}
    (ha : Prepares requests entry a) (hb : Prepares requests entry b) :
    a.tenantId = b.tenantId ∧ a.message = b.message := by
  have ht : a.tenantId = b.tenantId := Option.some.inj (ha.1.symm.trans hb.1)
  exact ⟨ht, by rw [ha.2, hb.2, ht]⟩

theorem Apart.same (h : Apart requests written) {entry' : Nat × Message}
    {a b : PreparedMessage} (hen : entry ∈ written) (hen' : entry' ∈ written)
    (ha : Prepares requests entry a) (hb : Prepares requests entry' b) {key : String}
    (hk : key ∈ keysOf a) (hk' : key ∈ keysOf b) :
    a.tenantId = b.tenantId ∧ a.message = b.message := by
  rw [keysOf_prepares ha] at hk
  rw [keysOf_prepares hb] at hk'
  obtain rfl := h.one_entry entry hen entry' hen' key hk hk'
  exact prepares_unique ha hb

theorem serverKey_mem (prepared : PreparedMessage) : serverKey prepared ∈ keysOf prepared := by
  unfold keysOf
  split <;> exact List.mem_cons_self

theorem clientKey_mem (h : prepared.message.clientMsgId ≠ "") :
    clientKey prepared ∈ keysOf prepared := by
  rw [keysOf, if_neg h]
  exact List.mem_cons_of_mem _ List.mem_cons_self

-- The messages that the writer may be given, of which it knows each by keys of its own.
def sendsOf (h : Apart requests written) : Sends where
  sent prepared := ∃ entry ∈ written, Prepares requests entry prepared
  in_conversation := by
    rintro prepared ⟨entry, hentry, hprepares⟩
    rw [PreparedMessage.conversationId, hprepares.2]
    exact h.in_conversation entry hentry
  one_message := by
    rintro a b ⟨entry, hentry, ha⟩ ⟨entry', hentry', hb⟩ htenant hserver
    have hkey : serverKey a = serverKey b := by rw [serverKey, serverKey, htenant, hserver]
    exact (h.same hentry hentry' ha hb (serverKey_mem a) (hkey ▸ serverKey_mem b)).2
  one_send := by
    rintro a b ⟨entry, hentry, ha⟩ ⟨entry', hentry', hb⟩ key hkey hkey'
    obtain ⟨htenant, hmessage⟩ := h.same hentry hentry' ha hb hkey hkey'
    exact ⟨htenant, .inl hmessage⟩

theorem Safe.mono {sends sends' : Sends} {state : MessagePersistence.State}
    (h : Safe writer sends state) (hmo : ∀ prepared, sends.sent prepared → sends'.sent prepared) :
    Safe writer sends' state where
  backed :=
    { sound :=
        { consistent :=
            { h.backed.sound.consistent with
              issued := by
                intro row hr
                obtain ⟨prepared, hs, hie⟩ := h.backed.sound.consistent.issued row hr
                exact ⟨prepared, hmo prepared hs, hie⟩ }
          events := h.backed.sound.events }
      keys := by
        intro key hk
        obtain ⟨prepared, hs, hm, hst⟩ := h.backed.keys key hk
        exact ⟨prepared, hmo prepared hs, hm, hst⟩ }
  accepted := h.accepted

theorem Safe.forget {sends : Sends} {state : MessagePersistence.State}
    (h : Safe writer sends state) {keys : List String}
    (hke : ∀ key ∈ keys, key ∈ state.store.keys) :
    Safe writer sends { state with store := { state.store with keys } } where
  backed := { sound := h.backed.sound, keys := fun key hk => h.backed.keys key (hke key hk) }
  accepted := h.accepted

theorem prepareMessage_prepares {tenantId : Option String}
    (h : MessagePersistence.prepareMessage tenantId message = .ok prepared) :
    normalizeOptionalTenantId tenantId = some prepared.tenantId ∧
      prepared.message = markSent (pinMessageTenant (withoutEnvelope message) prepared.tenantId) := by
  unfold MessagePersistence.prepareMessage at h
  split at h
  · cases h
  · rename_i tenant ht
    split at h
    · cases h
    · split at h
      · cases h
      · rw [← Except.ok.inj h]
        exact ⟨ht, rfl⟩

theorem members_prepared {action : MessagePersistence.Action}
    {members : List MessagePersistence.Member} (h : action.members = .ok members) :
    ∀ member ∈ members, ∃ one ∈ delivered action,
      MessagePersistence.prepareMessage action.ctx.tenantId one.message = .ok member.prepared := by
  have hme {ctx : Ctx} {many : List Delivered}
      (h : Fallible.traverse (MessagePersistence.prepareMember ctx) many = .ok members) :
      ∀ member ∈ members, ∃ one ∈ many,
        MessagePersistence.prepareMessage ctx.tenantId one.message = .ok member.prepared := by
    intro member hm
    obtain ⟨one, ho, hp⟩ := Listing.exists_left_of_mem (traverse_eq_ok h) hm
    refine ⟨one, ho, ?_⟩
    unfold MessagePersistence.prepareMember at hp
    split at hp
    · cases hp
    · rename_i prepared hpr
      rw [← Except.ok.inj hp]
      exact hpr
  cases action with
  | single ctx database one | batch ctx database many => exact hme h

end Writer

section Runs

variable {numbering : Numbering} {requests : Nat → Request} {writer : Writer}
  {state next : State} {action : Action}

-- The identity is that of a message of the WAL or of an archived row.
def Backs (state : State) (identity : String × Nat) : Prop :=
  (∃ entry ∈ state.ingest.written, MessageIngest.messageIdentity entry.2 = identity) ∨
    ∃ row ∈ state.writer.store.tables.messages,
      row.serverId = identity.1 ∧ row.seq = (identity.2 : Int)

structure Inv (numbering : Numbering) (requests : Nat → Request) (writer : Writer)
    (state : State) : Prop where
  sourced : Sourced numbering (Backs state) state.ingest
  apart : Apart requests state.ingest.written
  readsBack : ReadsBack writer.codec (sendsOf apart)
  safe : Safe writer (sendsOf apart) state.writer

-- A delivery under which the writer loses no message, whatever messages there are.
structure CarefulDelivery (writer : Writer) (state : MessagePersistence.State)
    (action : MessagePersistence.Action) : Prop where
  expires : ∀ members, action.members = .ok members → ∀ member ∈ members,
    ExpireAnswered writer member
  settled : ∀ members, action.members = .ok members → ∀ member ∈ members,
    Settled writer.codec state.store.tables member.prepared
  leaves : ∀ members, action.members = .ok members →
    LoopLeavesNothing state.store.keys members

-- The message shares no key of the writer with one that is in the WAL, and the codec reads it
-- back.
structure Separate (requests : Nat → Request) (writer : Writer)
    (written : List (Nat × Message)) (entry : Nat × Message) : Prop where
  keys : ∀ other ∈ written, ∀ key ∈ writerKeys requests other, key ∉ writerKeys requests entry
  reads : ∀ prepared, Prepares requests entry prepared →
    writer.codec.message.decode (writer.codec.message.encode prepared.message) =
      some prepared.message

-- A step that gives one send one message, and that the writer takes with care.
def Single (requests : Nat → Request) (writer : Writer) (state : State) : Action → Prop
  | .ingest (.writeWal call true _) => ∀ message, state.ingest.phase call = .allocated message →
      Separate requests writer state.ingest.written (call, message)
  | .deliver action => CarefulDelivery writer state.writer action
  | _ => True

theorem inv_initial : Inv numbering requests writer {} where
  sourced := sourced_initial
  apart := ⟨fun _ h => absurd h List.not_mem_nil, fun _ h => absurd h List.not_mem_nil⟩
  readsBack _ h := by
    obtain ⟨entry, hen, -⟩ := h
    exact absurd hen List.not_mem_nil
  safe := MessagePersistence.safe_initial

theorem Inv.backs_claim (h : Inv numbering requests writer state) {claim : LedgerClaim}
    (hc : claim ∈ state.writer.store.tables.ledger) :
    ∃ row ∈ state.writer.store.tables.messages, LedgerClaim.of row = some claim :=
  h.safe.backed.sound.consistent.claimed claim hc

theorem ingestStep_inv {action : MessageIngest.Action} {ingest : MessageIngest.State}
    (h : Inv numbering requests writer state)
    (hco : Consults requests state.writer.store.tables.ledger action)
    (hsi : Single requests writer state (.ingest action))
    (hs : MessageIngest.step numbering requests state.ingest action = some ingest) :
    Inv numbering requests writer { state with ingest } := by
  have hw := step_writes hs
  have hg : ∀ entry ∈ state.ingest.written, entry ∈ ingest.written := by
    intro entry hen
    cases hw with
    | nothing hsa => exact hsa ▸ hen
    | message call reply message hp hn => exact hn ▸ List.mem_cons_of_mem _ hen
  have hm : ∀ identity, Backs state identity → Backs { state with ingest } identity := by
    rintro identity (⟨entry, hen, hie⟩ | hr)
    · exact .inl ⟨entry, hg entry hen, hie⟩
    · exact .inr hr
  have hso : Sourced numbering (Backs { state with ingest }) ingest := by
    refine step_sourced (h.sourced.mono hm) ?_ ?_ hs
    · exact fun entry hen => .inl ⟨entry, hen, rfl⟩
    · intro read hra
      obtain ⟨claim, hcl, -, -, hse, hsq, -⟩ := hco read hra
      obtain ⟨row, hr, hof⟩ := h.backs_claim hcl
      obtain ⟨hro, hrw⟩ : row.serverId = claim.serverId ∧ row.seq = claim.seq := by
        have hie := LedgerClaim.identity_of hof
        exact ⟨congrArg RowIdentity.serverId hie, congrArg RowIdentity.seq hie⟩
      exact .inr ⟨row, hr, hro.trans hse, hrw.trans hsq⟩
  obtain ⟨ha, hre⟩ : ∃ ha : Apart requests ingest.written, ReadsBack writer.codec (sendsOf ha) := by
    cases hw with
    | nothing hsa =>
      refine ⟨hsa ▸ h.apart, ?_⟩
      rintro prepared ⟨entry, hen, hpr⟩
      exact h.readsBack prepared ⟨entry, hsa ▸ hen, hpr⟩
    | message call reply message hp hn =>
      obtain ⟨hk, hcd⟩ := hsi message hp
      have hc : message.conversationId ≠ "" :=
        h.sourced.carried call message (by rw [hp]; rfl)
      refine ⟨hn ▸ h.apart.cons hc hk, ?_⟩
      rintro prepared ⟨entry, hen, hpr⟩
      rw [hn] at hen
      rcases List.mem_cons.mp hen with rfl | hold
      · exact hcd prepared hpr
      · exact h.readsBack prepared ⟨entry, hold, hpr⟩
  refine ⟨hso, ha, hre, Safe.mono h.safe ?_⟩
  rintro prepared ⟨entry, hen, hpr⟩
  exact ⟨entry, hg entry hen, hpr⟩

theorem deliverStep_inv {action : MessagePersistence.Action} {stored : MessagePersistence.State}
    (h : Inv numbering requests writer state)
    (hq : ∀ one ∈ delivered action,
      Queued requests state.ingest.published action.ctx.tenantId one.message)
    (hsi : CarefulDelivery writer state.writer action)
    (hs : MessagePersistence.step writer state.writer action = some stored) :
    Inv numbering requests writer { state with writer := stored } := by
  -- whatever the queue delivers was written to the WAL
  have hse : ∀ members, action.members = .ok members → ∀ member ∈ members,
      (sendsOf h.apart).sent member.prepared := by
    intro members hme member hm
    obtain ⟨one, ho, hp⟩ := members_prepared hme member hm
    obtain ⟨ht, hms⟩ := prepareMessage_prepares hp
    obtain ⟨hdu, entry, het, hsa, hh⟩ := hq one ho
    refine ⟨entry, h.sourced.published entry het (hsa ▸ hdu), ?_, ?_⟩
    · exact hh.trans ht
    · rw [hsa]
      exact hms
  have hc : Careful writer (sendsOf h.apart) state.writer action :=
    ⟨hse, hsi.expires, hsi.settled, hsi.leaves⟩
  obtain ⟨messages, succeeded, hen, -⟩ :=
    MessagePersistence.step_ensured h.readsBack h.safe hc hs
  refine ⟨h.sourced.mono ?_, h.apart, h.readsBack,
    MessagePersistence.step_safe h.readsBack h.safe hc hs⟩
  rintro identity (hw | ⟨row, hr, hie⟩)
  · exact .inl hw
  · exact .inr ⟨row, hen.rows row hr, hie⟩

theorem step_inv (h : Inv numbering requests writer state)
    (hsi : Single requests writer state action)
    (hs : step numbering requests writer state action = some next) :
    Inv numbering requests writer next := by
  cases action with
  | ingest action =>
    simp only [step] at hs
    split at hs
    · rename_i hc
      obtain ⟨ingest, hin, rfl⟩ := Option.map_eq_some_iff.mp hs
      exact ingestStep_inv h hc hsi hin
    · cases hs
  | deliver action =>
    simp only [step] at hs
    split at hs
    · rename_i hq
      obtain ⟨stored, hst, rfl⟩ := Option.map_eq_some_iff.mp hs
      exact deliverStep_inv h hq hsi hst
    · cases hs
  | forget key =>
    rw [← Option.some.inj hs]
    exact ⟨h.sourced, h.apart, h.readsBack,
      Safe.forget h.safe fun other ho => (List.mem_filter.mp ho).1⟩

-- Everything that went out to be stored has been taken by the writer.
def Drained (requests : Nat → Request) (state : State) : Prop :=
  ∀ entry ∈ state.ingest.written ++ state.ingest.published,
    durability entry.2 ≠ .transientAccepted →
    ∃ prepared ∈ state.writer.accepted, Prepares requests entry prepared

instance (state : State) : Decidable (Drained requests state) :=
  inferInstanceAs (Decidable (∀ entry ∈ state.ingest.written ++ state.ingest.published, _ → _))

-- The ledger has another message for the send of this one, so that this one is not stored.
def Discards (ledger : List LedgerClaim) (prepared : PreparedMessage) : Prop :=
  ∃ entry ∈ ledger, entry.key = (prepared.tenantId, prepared.message.senderId,
      prepared.message.clientMsgId) ∧
    entry.conversationId = prepared.conversationId ∧ entry.serverId ≠ prepared.messageId

-- Each durable outcome that a client was answered is archived under its id and its number once
-- the writer has taken everything, and is at no time that of a message the ledger discards.
structure Kept (requests : Nat → Request) (state : State) : Prop where
  archived : ∀ call outcome, state.ingest.phase call = .answered (.ok outcome) →
    outcome.durability ≠ .transientAccepted → Drained requests state →
    ∃ row ∈ state.writer.store.tables.messages,
      row.serverId = outcome.messageId ∧ row.seq = (outcome.conversationSeq : Int)
  not_discarded : ∀ call outcome, state.ingest.phase call = .answered (.ok outcome) →
    outcome.durability ≠ .transientAccepted →
    ∀ entry ∈ state.ingest.written, ∀ prepared, Prepares requests entry prepared →
      prepared.messageId = outcome.messageId →
      ¬ Discards state.writer.store.tables.ledger prepared

def IdentityKept (numbering : Numbering) (requests : Nat → Request) (writer : Writer)
    (ok : State → Action → Prop) : Prop :=
  ∀ actions last, Run (step numbering requests writer) ok {} actions last → Kept requests last

theorem Inv.row_of_stands (h : Inv numbering requests writer state) {row : ArchiveRow}
    (hr : row ∈ state.writer.store.tables.messages) (hen : entry ∈ state.ingest.written)
    (hp : Prepares requests entry prepared) (hst : StandsFor row.identity prepared) :
    row.serverId = prepared.messageId ∧ row.seq = (prepared.message.conversationSeq : Int) := by
  obtain ⟨other, ⟨entry', hen', ho⟩, hie⟩ :=
    h.safe.backed.sound.consistent.issued row hr
  rw [hie] at hst
  obtain ⟨ht, hb⟩ := hst
  have hsa : other.message = prepared.message := by
    have ht' : other.tenantId = prepared.tenantId := ht
    split at hb
    · have hk : serverKey other = serverKey prepared := by
        rw [serverKey, serverKey, ht', show other.messageId = prepared.messageId from hb]
      exact (h.apart.same hen' hen ho hp (serverKey_mem other) (hk ▸ serverKey_mem prepared)).2
    · rename_i hci
      obtain ⟨hse, hc, hcl⟩ := hb
      have hs : other.message.clientMsgId ≠ "" ∧
          other.message.clientMsgId = prepared.message.clientMsgId :=
        MessagePersistence.nonEmpty_eq_some hcl
      have hk : clientKey other = clientKey prepared := by
        rw [clientKey, clientKey, scopedId, scopedId, ht', hs.2,
          show other.message.senderId = prepared.message.senderId from hse,
          show other.conversationId = prepared.conversationId from hc]
      exact (h.apart.same hen' hen ho hp (clientKey_mem hs.1) (hk ▸ clientKey_mem hci)).2
  constructor
  · rw [show row.serverId = other.messageId from congrArg RowIdentity.serverId hie,
      PreparedMessage.messageId, hsa]
    rfl
  · rw [show row.seq = (other.message.conversationSeq : Int) from
      congrArg RowIdentity.seq hie, hsa]

theorem Inv.archived (h : Inv numbering requests writer state) (hdr : Drained requests state)
    {identity : String × Nat} (hb : Backs state identity) :
    ∃ row ∈ state.writer.store.tables.messages,
      row.serverId = identity.1 ∧ row.seq = (identity.2 : Int) := by
  rcases hb with ⟨entry, hen, rfl⟩ | hr
  · obtain ⟨prepared, ha, hp⟩ := hdr entry
      (List.mem_append_left _ hen) (h.sourced.written entry hen).2
    obtain ⟨row, hr, hs, -⟩ := h.safe.accepted prepared ha
    obtain ⟨hse, hsq⟩ := h.row_of_stands hr hen hp hs
    refine ⟨row, hr, hse.trans ?_, hsq.trans ?_⟩
    · rw [PreparedMessage.messageId, hp.2]
      rfl
    · rw [hp.2]
      rfl
  · exact hr

theorem Inv.not_discards (h : Inv numbering requests writer state)
    (hen : entry ∈ state.ingest.written) (hp : Prepares requests entry prepared) :
    ¬ Discards state.writer.store.tables.ledger prepared := by
  rintro ⟨claim, hca, hk, hc, hs⟩
  obtain ⟨row, hr, hof⟩ := h.backs_claim hca
  have hie := LedgerClaim.identity_of hof
  obtain ⟨ht, hse, hcl⟩ : claim.tenantId = prepared.tenantId ∧
      claim.senderId = prepared.message.senderId ∧
      claim.clientMsgId = prepared.message.clientMsgId := by
    simpa [LedgerClaim.key] using hk
  have hn : prepared.message.clientMsgId ≠ "" := by
    rw [← hcl]
    exact LedgerClaim.clientMsgId_ne hof
  have hst : StandsFor row.identity prepared := by
    rw [hie]
    refine ⟨ht, ?_⟩
    rw [if_neg hn]
    exact ⟨hse, hc, by rw [← hcl]; rfl⟩
  have hro := (h.row_of_stands hr hen hp hst).1
  exact hs ((LedgerClaim.serverId_of hof).trans hro)

theorem identity_kept_single (numbering : Numbering) (requests : Nat → Request)
    (writer : Writer) : IdentityKept numbering requests writer (Single requests writer) := by
  intro actions last hrun
  have hinv : Inv numbering requests writer last := hrun.preserves _
    (fun state action next hinv hsingle hstep => step_inv hinv hsingle hstep) inv_initial
  refine ⟨?_, ?_⟩
  · intro call come hanswered hdurable hdrained
    have hbacks : Backs last come.identity :=
      hinv.sourced.outcomes call come (by rw [hanswered]; rfl) hdurable
    exact hinv.archived hdrained hbacks
  · intro call come _ _ entry hentry prepared hprepares _
    exact hinv.not_discards hentry hprepares

end Runs

section Sample

-- One client id, sent from two devices.
def devices (call : Nat) : Request where
  tenantId := some "acme"
  deviceId := some (if call = 0 then "phone" else "tablet")
  message := {
    clientMsgId := "k1"
    conversationId := "c1"
    senderId := "alice"
    content := some ⟨some (.text "hello")⟩ }
  fingerprint_plain := MessageIngest.no_fingerprint_plain

def sent (serverId : String) (seq : Nat) : Message :=
  { (devices 0).message with serverId, conversationSeq := seq, status := .other 1 }

def sends (call : Nat) (stamp : MessageIngest.Stamp) : List Action :=
  (MessageIngest.reserve call ++ MessageIngest.deliver call stamp).map .ingest

def stores (message : Message) : Action :=
  .deliver (.single MessagePersistence.acme MessagePersistence.healthyDatabase { message })

def twoDevices : List Action :=
  sends 0 ⟨"s1", 0, 0, MessageIngest.s1_ne, MessageIngest.s1_plain⟩ ++
    sends 1 ⟨"s2", 0, 0, MessageIngest.s2_ne, MessageIngest.s2_plain⟩ ++
    [stores (sent "s1" 1), stores (sent "s2" 2)]

-- Both sends are answered with Ok, and the writer takes the second message for a resend of the
-- first.
theorem second_device_is_discarded :
    ¬ IdentityKept MessageIngest.sampleNumbering devices MessagePersistence.smallWriter anyStep := by
  intro hkept
  have hrun : (execute (step MessageIngest.sampleNumbering devices MessagePersistence.smallWriter)
      anyStep {} twoDevices).map (fun last => (decide (Drained devices last),
        last.ingest.phase 1, last.writer.store.tables.messages.map (·.serverId))) =
      some (true, .answered (.ok ⟨"s2", 2, .persisted⟩), ["s1"]) := by
    decide
  obtain ⟨last, hexecute, hlast⟩ := Option.map_eq_some_iff.mp hrun
  obtain ⟨hdrained, hrest⟩ := Prod.mk.inj hlast
  obtain ⟨hanswered, hrows⟩ := Prod.mk.inj hrest
  obtain ⟨row, hrow, hserver, -⟩ := (hkept _ last (run_of_execute hexecute)).archived 1 _ hanswered
    (by decide) (of_decide_eq_true hdrained)
  have hmem : row.serverId ∈ last.writer.store.tables.messages.map (·.serverId) :=
    List.mem_map_of_mem hrow
  rw [hrows, hserver] at hmem
  exact absurd hmem (by decide)

end Sample

end FlareIm.SendIdentity
