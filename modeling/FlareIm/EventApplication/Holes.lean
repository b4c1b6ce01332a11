import FlareIm.EventApplication.Deliveries
import FlareIm.EventApplication.Theorems

namespace FlareIm.EventApplication

open Text Context Proto EventRow Fallible RoundTrip Transition

variable {row : EventStreamInsertRow} {position : Position}

section Contract

-- Every event whose delivery returned Ok has its position taken, so a replay of numbers whose events
-- all were has no gap.
structure NoHole (setup : Setup) (state : State) : Prop where
  stored : ∀ index ∈ state.acked, (state.rows (setup.position index)).isSome
  gapless : ∀ tenantId conversationId (afterSeq lastSeq : Nat),
    (∀ seq, afterSeq < seq → seq ≤ lastSeq →
      ∃ index ∈ state.acked, setup.position index = ⟨tenantId, conversationId, seq⟩) →
    detectEventReplayGap afterSeq (storedSeqs state tenantId conversationId afterSeq lastSeq) = none

def LeavesNoHole (setup : Setup) (ok : State → Action → Prop) : Prop :=
  ∀ actions state, Run (step setup) ok emptyState actions state → NoHole setup state

-- The payloads whose handler goes on to the append.
def appends : EventPayload → Bool
  | .recall «recall» => !isBlank recall.serverMsgId
  | .delete delete => !isBlank delete.serverMsgId
  | .message _ | .custom _ | .other => false
  | _ => true

-- An event that finds its position free names a conversation and has a payload that is appended; the
-- update of a retention event changes its message.
def Handled (setup : Setup) (state : State) (index : Nat) (answers : Answers) : Prop :=
  (setup.event index).conversationId ≠ "" ∧
    ∃ payload, (setup.event index).payload = some payload ∧ appends payload = true ∧
      (isBurn payload = true → answers.updated = .answered →
        (burnUpdate setup state index payload).isSome)

def InOrder (setup : Setup) (state : State) : Action → Prop
  | .deliver index answers =>
    (setup.event index).tenantId ≠ "" →
      (setup.event index).conversationId = "" ∨ answers.checked = true →
        state.rows (setup.position index) = none → Handled setup state index answers
  | _ => True

end Contract

section Handlers

variable {codec : Codec} {clock : Clock} {archive : Archive} {stream : Stream}
  {event : EventRow.Event} {payload : EventPayload} {result : Option EventStreamInsertRow}

theorem append_of_appendEventAndStream
    (h : appendEventAndStream codec clock archive stream event payload = .ok result) :
    appendEventToStream codec clock stream event = .ok result := by
  simp only [appendEventAndStream, bind_eq_ok] at h
  obtain ⟨-, -, ha⟩ := h
  exact mapError_eq_ok.mp ha

theorem append_of_updateAndAppend
    (h : updateAndAppend codec clock archive stream event payload = .ok result) :
    appendEventToStream codec clock stream event = .ok result := by
  simp only [updateAndAppend, bind_eq_ok] at h
  obtain ⟨-, -, ha⟩ := h
  exact append_of_appendEventAndStream ha

theorem append_of_applyBurn (hc : ∀ changed, archive.update payload = .ok changed →
      changed = true) (h : applyBurn codec clock archive stream event payload = .ok result) :
    appendEventToStream codec clock stream event = .ok result := by
  simp only [applyBurn, bind_eq_ok] at h
  obtain ⟨changed, hu, ha⟩ := h
  rw [hc changed hu, if_pos rfl] at ha
  exact append_of_appendEventAndStream ha

theorem append_of_dispatch (hp : event.payload = some payload) (ha : appends payload = true)
    (hc : isBurn payload = true → ∀ changed, archive.update payload = .ok changed → changed = true)
    (h : dispatch codec clock archive stream event = .ok result) :
    appendEventToStream codec clock stream event = .ok result := by
  unfold dispatch at h
  rw [hp] at h
  cases payload with
  | «recall» «recall» =>
    have hid : isBlank recall.serverMsgId = false := by simpa [appends] using ha
    simp only [hid, Bool.false_eq_true, if_false] at h
    exact append_of_updateAndAppend h
  | delete delete =>
    have hid : isBlank delete.serverMsgId = false := by simpa [appends] using ha
    simp only [hid, Bool.false_eq_true, if_false] at h
    exact append_of_updateAndAppend h
  | mark mark =>
    dsimp only at h
    split at h
    · exact append_of_updateAndAppend h
    · cases h
  | unmark unmark =>
    dsimp only at h
    split at h
    · exact append_of_updateAndAppend h
    · exact append_of_appendEventAndStream h
  | pluginState state =>
    dsimp only at h
    split at h
    · cases h
    · exact append_of_updateAndAppend h
  | burnScheduled _ | burned _ | hardDeleted _ => exact append_of_applyBurn (hc rfl) h
  | edit _ | read _ | reaction _ | pin _ | unpin _ => exact append_of_updateAndAppend h
  | message _ | custom _ | other => exact absurd ha (by simp [appends])

theorem insert_of_append (hr : eventToInsertRow codec clock event = some row)
    (h : appendEventToStream codec clock stream event = .ok result) :
    result = some row ∧ ∃ existing, stream.insert row = .ok existing := by
  unfold appendEventToStream at h
  rw [hr] at h
  dsimp only at h
  split at h
  · cases h
  · rename_i hin
    simp only [Except.ok.injEq] at h
    exact ⟨h.symm, none, hin⟩
  · rename_i existing hin
    split at h
    · cases h
    · simp only [Except.ok.injEq] at h
      exact ⟨h.symm, some existing, hin⟩

end Handlers

section Deliveries

variable {setup : Setup} {state : State} {index : Nat} {answers : Answers}

theorem rowPosition_of_row
    (h : eventToInsertRow setup.codec setup.clock (setup.event index) = some row) :
    rowPosition row = setup.position index := by
  unfold eventToInsertRow at h
  dsimp only at h
  split at h
  · cases h
  · cases h
    rfl

theorem exists_row (hc : (setup.event index).conversationId ≠ "") :
    ∃ row, eventToInsertRow setup.codec setup.clock (setup.event index) = some row := by
  cases hr : eventToInsertRow setup.codec setup.clock (setup.event index) with
  | some row => exact ⟨row, rfl⟩
  | none =>
    unfold eventToInsertRow at hr
    dsimp only [eventToProto] at hr
    rw [if_neg hc] at hr
    cases hr

theorem putRow_isSome {rows : Position → Existing} {other : Position} {stored : Existing}
    (h : (rows other).isSome) : (putRow rows position stored other).isSome := by
  unfold putRow
  split
  · exact h
  · rename_i hf
    by_cases heq : other = position
    · subst heq
      exact absurd h hf
    · rw [Function.update_of_ne heq]
      exact h

theorem putRow_self {rows : Position → Existing}
    {stored : TypeNumber × List UInt8} : (putRow rows position (some stored) position).isSome := by
  unfold putRow
  split
  · rename_i ht
    exact ht
  · rw [Function.update_self]
    rfl

-- Rows are never taken away.
theorem rowsAfter_isSome (h : (state.rows position).isSome) :
    (rowsAfter setup state index answers position).isSome := by
  unfold rowsAfter
  generalize processEvent _ _ _ = result
  rcases result with error | (_ | row)
  · exact putRow_isSome h
  · exact putRow_isSome h
  · dsimp only
    split
    · exact putRow_isSome (putRow_isSome h)
    · exact putRow_isSome h

theorem matchStoredEvent_cases {stream : Stream} {clock : Clock} {codec : Codec}
    {event : EventRow.Event}
    (hr : eventToInsertRow codec clock event = some row) {found : StoredEventMatch}
    (h : matchStoredEvent codec clock stream event = .ok found) :
    (stream.loadExisting row = .ok none ∧ found = .absent) ∨
      ∃ existing, stream.loadExisting row = .ok (some existing) ∧ found ≠ .absent := by
  unfold matchStoredEvent at h
  rw [hr] at h
  dsimp only at h
  split at h
  · cases h
  · rename_i hl
    simp only [Except.ok.injEq] at h
    exact Or.inl ⟨hl, h.symm⟩
  · rename_i existing hl
    refine Or.inr ⟨existing, hl, ?_⟩
    rintro rfl
    split at h <;> cases h

theorem loadExisting_eq_ok {stream : Stream} {existing : Existing}
    (hs : (writerAt setup state index answers).stream = some stream)
    (h : stream.loadExisting row = .ok existing) :
    answers.checked = true ∧ state.rows (rowPosition row) = existing := by
  cases hs
  dsimp only at h
  split at h
  · rename_i hc
    simp only [Except.ok.injEq] at h
    exact ⟨hc, h⟩
  · cases h

theorem tenant_of_ok {result : Option EventStreamInsertRow}
    (h : processEvent setup.codec (writerAt setup state index answers) (setup.event index) =
      .ok result) : (setup.event index).tenantId ≠ "" := by
  intro hem
  unfold processEvent at h
  simp only [writerAt, hem, if_true] at h
  cases h

theorem dispatched_of_ok {result : Option EventStreamInsertRow}
    (hc : (setup.event index).conversationId ≠ "")
    (h : processEvent setup.codec (writerAt setup state index answers) (setup.event index) =
      .ok result) :
    answers.checked = true ∧
      ((state.rows (setup.position index)).isSome ∨
        ∃ archive stream, (writerAt setup state index answers).archive = some archive ∧
          (writerAt setup state index answers).stream = some stream ∧
          dispatch setup.codec setup.clock archive stream (setup.event index) = .ok result) := by
  obtain ⟨row, hr⟩ := exists_row hc
  unfold processEvent at h
  split at h
  · cases h
  rename_i archive ha
  split at h
  · cases h
  split at h
  · cases h
  rename_i stream hs
  split at h
  · cases h
  · rename_i hm
    rcases matchStoredEvent_cases hr hm with ⟨hl, -⟩ | ⟨existing, -, hn⟩
    · exact ⟨(loadExisting_eq_ok hs hl).1, Or.inr ⟨archive, stream, ha, hs, h⟩⟩
    · exact absurd rfl hn
  · rename_i hm
    rcases matchStoredEvent_cases hr hm with ⟨-, hf⟩ | ⟨existing, hl, -⟩
    · cases hf
    · obtain ⟨hch, hst⟩ := loadExisting_eq_ok hs hl
      rw [rowPosition_of_row hr] at hst
      exact ⟨hch, Or.inl (by rw [hst]; rfl)⟩
  · cases h

theorem stored_of_ok {result : Option EventStreamInsertRow}
    (h : processEvent setup.codec (writerAt setup state index answers) (setup.event index) =
      .ok result) (hf : ¬(state.rows (setup.position index)).isSome)
    (hh : Handled setup state index answers) :
    (rowsAfter setup state index answers (setup.position index)).isSome := by
  obtain ⟨hc, payload, hp, hap, hb⟩ := hh
  obtain ⟨row, hr⟩ := exists_row hc
  obtain ⟨-, ht | ⟨archive, stream, har, hs, hdi⟩⟩ :=
    dispatched_of_ok hc h
  · exact absurd ht hf
  have hch : isBurn payload = true → ∀ changed, archive.update payload = .ok changed →
      changed = true := by
    intro hiB changed hu
    cases har
    dsimp only at hu
    split at hu
    · rename_i ha
      simp only [Except.ok.injEq] at hu
      rw [← hu, hb hiB ha, Bool.or_true]
    · cases hu
  obtain ⟨rfl, existing, hin⟩ :=
    insert_of_append hr (append_of_dispatch hp hap hch hdi)
  have hie : answers.inserted = .answered := by
    cases hs
    dsimp only at hin
    split at hin
    · rename_i ha
      exact ha
    · cases hin
  have hsa : { answers with inserted := .answered } = answers := by
    rw [← hie]
  unfold rowsAfter
  rw [hsa, h]
  dsimp only
  rw [hie, takesEffect_answered, if_pos rfl, rowPosition_of_row hr]
  exact putRow_self

theorem stored_step {action : Action} {next : State}
    (hs : ∀ index ∈ state.acked, (state.rows (setup.position index)).isSome)
    (hok : InOrder setup state action) (h : step setup state action = some next) :
    ∀ index ∈ next.acked, (next.rows (setup.position index)).isSome := by
  cases action with
  | deliver index answers =>
    cases h
    intro other ho
    simp only [deliver] at ho ⊢
    split at ho
    · rename_i result hr
      rcases List.mem_cons.mp ho with rfl | hold
      · by_cases ht : (state.rows (setup.position other)).isSome
        · exact rowsAfter_isSome ht
        · refine stored_of_ok hr ht (hok (tenant_of_ok hr) ?_ ?_)
          · by_cases hc : (setup.event other).conversationId = ""
            · exact Or.inl hc
            · exact Or.inr (dispatched_of_ok hc hr).1
          · exact Option.not_isSome_iff_eq_none.mp ht
      · exact rowsAfter_isSome (hs other hold)
    · exact rowsAfter_isSome (hs other ho)
  | storeRow position stored =>
    cases h
    intro index hin
    exact putRow_isSome (hs index hin)
  | setBurn tenantId messageId row =>
    cases h
    exact hs

end Deliveries

section Replay

theorem detectGapFrom_range' {afterSeq start count : Nat} (h : afterSeq < start) :
    detectGapFrom afterSeq start (List.range' start count) = none := by
  induction count generalizing start with
  | zero => rfl
  | succ count ih =>
    rw [List.range'_succ, detectGapFrom, if_neg (by omega), if_neg (Nat.lt_irrefl _)]
    exact ih (by omega)

theorem NoHole.of_stored {setup : Setup} {state : State}
    (h : ∀ index ∈ state.acked, (state.rows (setup.position index)).isSome) :
    NoHole setup state where
  stored := h
  gapless tenantId conversationId afterSeq lastSeq ha := by
    have hal : storedSeqs state tenantId conversationId afterSeq lastSeq =
        List.range' (afterSeq + 1) (lastSeq - afterSeq) := by
      rw [storedSeqs, List.filter_eq_self]
      intro seq hse
      rw [List.mem_range'_1] at hse
      obtain ⟨index, hin, hp⟩ := ha seq (by omega) (by omega)
      have hs := h index hin
      rwa [hp] at hs
    rw [hal, detectEventReplayGap]
    exact detectGapFrom_range' (Nat.lt_succ_self afterSeq)

-- In order, no event that was processed leaves a hole.
theorem leaves_no_hole_inOrder (setup : Setup) : LeavesNoHole setup (InOrder setup) := by
  intro actions state hrun
  apply NoHole.of_stored
  exact hrun.preserves
    (fun state => ∀ index ∈ state.acked, (state.rows (setup.position index)).isSome)
    (fun _ _ _ hstored hok hstep => stored_step hstored hok hstep)
    (fun _ h => absurd h List.not_mem_nil)

end Replay

section Counterexample

def burnSetup : Setup where
  codec := sampleCodec
  clock := ⟨0, fun _ => true⟩
  sharedStateOk _ := true
  event _ :=
    { tenantId := "acme"
      conversationId := "2-team"
      seq := 1
      payload := some (.burned ⟨"2-team", "m1", none, 5, 5, 5⟩) }

def allAnswered : Answers := ⟨true, .answered, true, none, .answered⟩

-- The first delivery burns the message and fails at the operation history. The redelivery finds
-- the message burned and is done.
def redeliveredBurn : List Action :=
  [.setBurn "acme" "m1" (some ⟨true, BURN_STATUS_BURN_PENDING, none⟩),
    .deliver 0 { allAnswered with recorded := false }, .deliver 0 allAnswered]

theorem a_redelivered_burn_leaves_a_hole : ¬LeavesNoHole burnSetup anyStep := by
  intro h
  have hacked : (execute (step burnSetup) anyStep emptyState redeliveredBurn).map
      (fun state => (state.acked, (state.rows ⟨"acme", "2-team", 1⟩).isSome)) =
        some ([0], false) := by decide
  obtain ⟨state, hexecute, hpair⟩ := Option.map_eq_some_iff.mp hacked
  rw [Prod.mk.injEq] at hpair
  have hstored := (h redeliveredBurn state (run_of_execute hexecute)).stored 0
    (by rw [hpair.1]; exact List.mem_singleton_self 0)
  exact absurd hstored (by rw [show burnSetup.position 0 = ⟨"acme", "2-team", 1⟩ from rfl, hpair.2]; simp)

end Counterexample

end FlareIm.EventApplication
