import FlareIm.JoinFloor
import FlareIm.MessageIngest.Theorems

namespace FlareIm.JoinFloor

open Versions Transition

variable {participant : ConversationParticipant} {userId : String} {action : Action}

section Rows

variable {setup : Setup} {messages : List MessageArchive.ArchiveRow} {statement : Statement}
  {row : Option ParticipantRow} {old new : ParticipantRow}

def Rises (old new : ParticipantRow) : Prop := old.visibleFromSeq ≤ new.visibleFromSeq

theorem Rises.refl (row : ParticipantRow) : Rises row row := Int.le_refl _

theorem Rises.trans {a b c : ParticipantRow} (hab : Rises a b) (hbc : Rises b c) : Rises a c :=
  Int.le_trans hab hbc

theorem apply_rises (h : statement.apply setup messages (some old) = some new) : Rises old new := by
  cases statement with
  | addParticipant participant | insertParticipant earlier participant =>
    cases h
    exact Int.le_max_left ..
  | removeParticipant userId => exact absurd h (by simp [Statement.apply])
  | updateRoles userId roles | softDelete userId =>
    cases h
    exact Rises.refl old

theorem apply_of_inserts (h : statement.inserts = true) :
    ∃ new, statement.apply setup messages row = some new := by
  cases statement with
  | addParticipant participant
  | insertParticipant earlier participant => cases row <;> exact ⟨_, rfl⟩
  | _ => exact absurd h (by simp [Statement.inserts])

theorem apply_of_keeps (h : ∀ userId, statement ≠ .removeParticipant userId) :
    ∃ new, statement.apply setup messages (some old) = some new := by
  cases statement with
  | removeParticipant userId => exact absurd rfl (h userId)
  | _ => exact ⟨_, rfl⟩

theorem apply_addParticipant
    (h : (Statement.addParticipant participant).apply setup messages row = some new) :
    new.visibleFromSeq = match row with
      | none => resolveFloor setup messages participant.visibleFromSeq
      | some old => max old.visibleFromSeq
          (resolveFloor setup messages participant.visibleFromSeq) := by
  cases row with
  | none | some old => exact (Option.some.inj h) ▸ rfl

theorem le_resolveFloor {visibleFromSeq : Int} (hj : visibleFromSeq < 0)
    {archived : MessageArchive.ArchiveRow} (hm : archived ∈ messages)
    (ho : setup.owns archived) :
    archived.seq ≤ resolveFloor setup messages visibleFromSeq := by
  have hin : archived.seq ∈ (messages.filter fun row => setup.owns row).map (·.seq) :=
    List.mem_map_of_mem (List.mem_filter.mpr ⟨hm, decide_eq_true ho⟩)
  unfold resolveFloor maxSeq
  rw [if_pos hj]
  cases hma : ((messages.filter fun row => setup.owns row).map (·.seq)).max? with
  | none => exact absurd (List.max?_eq_none_iff.mp hma ▸ hin) List.not_mem_nil
  | some seq => exact (List.max?_eq_some_iff.mp hma).2 _ hin

end Rows

section Requests

theorem insertChunk_inserts {earlier : List String} {participants : List ConversationParticipant}
    {statement : Statement} (h : statement ∈ insertChunk earlier participants) :
    statement.inserts = true := by
  induction participants generalizing earlier with
  | nil => exact absurd h List.not_mem_nil
  | cons participant rest ih =>
    rcases List.mem_cons.mp h with rfl | hr
    · rfl
    · exact ih hr

theorem statements_ordered (request : Request) :
    request.statements.Pairwise fun a b => a.inserts = false → b.inserts = false := by
  cases request with
  | manageParticipants toAdd toRemove roleUpdates =>
    have hr : ∀ statement ∈ toRemove.map Statement.removeParticipant ++
        roleUpdates.map (fun update => Statement.updateRoles update.1 update.2),
        statement.inserts = false := by
      intro statement hm
      rcases List.mem_append.mp hm with hre | hu
      · obtain ⟨_, -, rfl⟩ := List.mem_map.mp hre
        rfl
      · obtain ⟨_, -, rfl⟩ := List.mem_map.mp hu
        rfl
    simp only [Request.statements, List.append_assoc]
    refine List.pairwise_append.mpr ⟨?_, ?_, ?_⟩
    · refine List.pairwise_of_forall_mem_list fun a ha b _ hf => ?_
      obtain ⟨participant, -, rfl⟩ := List.mem_map.mp ha
      exact absurd hf (by simp [Statement.inserts])
    · exact List.pairwise_of_forall_mem_list fun a _ b hb _ => hr b hb
    · exact fun a _ b hb _ => hr b hb
  | createConversation participants =>
    refine List.pairwise_of_forall_mem_list fun a ha b _ hf => ?_
    obtain ⟨chunk, -, hc⟩ := List.mem_flatMap.mp ha
    exact absurd (insertChunk_inserts hc) (by simp [hf])
  | deleteConversation userId => exact List.pairwise_singleton _ _

theorem addParticipant_mem {toAdd : List ConversationParticipant} {toRemove : List String}
    {roleUpdates : List (String × List String)}
    (h : participant ∈ toAdd) :
    Statement.addParticipant participant ∈
      (Request.manageParticipants toAdd toRemove roleUpdates).statements := by
  simp [Request.statements, h]

theorem removeParticipant_mem {toAdd : List ConversationParticipant} {toRemove : List String}
    {roleUpdates : List (String × List String)}
    (h : Statement.removeParticipant userId ∈
      (Request.manageParticipants toAdd toRemove roleUpdates).statements) :
    userId ∈ toRemove := by
  simpa [Request.statements] using h

end Requests

section Conditions

variable (setup : Setup)

-- The number a send that has returned was accepted with, for good.
def returnedSeq (ingest : MessageIngest.State) (send : Nat) : Option Nat :=
  match ingest.phase send with
  | .answered (.ok outcome) =>
    if (setup.sends send).tenant = some setup.tenantId ∧
        (setup.sends send).message.conversationId = setup.conversationId ∧
        outcome.durability ≠ .transientAccepted then
      some outcome.conversationSeq
    else none
  | _ => none

def Covers (startedIn : MessageIngest.State) (row : ParticipantRow) : Prop :=
  ∀ send, ∀ seq ∈ returnedSeq setup startedIn send, (seq : Int) ≤ row.visibleFromSeq

-- Every send that had returned is archived, or a later message is, unless the member's row is
-- at its number already.
def Reached (startedIn : MessageIngest.State) (messages : List MessageArchive.ArchiveRow)
    (row : Option ParticipantRow) : Prop :=
  ∀ send, ∀ seq ∈ returnedSeq setup startedIn send,
    (∃ archived ∈ messages, setup.owns archived ∧ (seq : Int) ≤ archived.seq) ∨
      ∃ old, row = some old ∧ (seq : Int) ≤ old.visibleFromSeq

-- Where a member is added from now on, the archive has caught up with the sends that had returned
-- when the request came in.
def CaughtUp (state : State) : Action → Prop
  | .execute call _ => ∀ transaction snapshot participant rest,
      state.calls call = .running transaction → transaction.snapshot = some snapshot →
      transaction.todo = .addParticipant participant :: rest → participant.visibleFromSeq < 0 →
      Reached setup transaction.startedIn snapshot.messages
        (state.participants.view call participant.userId)
  | _ => True

-- Every member that was added from now on has a floor at or above the sends that had returned.
def JoinsCovered (state : State) : Prop :=
  ∀ call startedIn rows toAdd toRemove roleUpdates,
    state.calls call = .committed startedIn rows →
    setup.requests call = .manageParticipants toAdd toRemove roleUpdates →
    ∀ participant ∈ toAdd, participant.visibleFromSeq < 0 → participant.userId ∉ toRemove →
      ∃ row, rows participant.userId = some row ∧ Covers setup startedIn row

-- The rows and the archive may hold anything at first, but no request is under way.
def Fresh (state : State) : Prop :=
  (∀ userId, state.participants.uncommitted userId = none) ∧ ∀ call, state.calls call = .idle

-- A step that is taken while the member has a row.
def Present (userId : String) (state : State) (_ : Action) : Prop :=
  state.participants.committed userId ≠ none

end Conditions

section Invariant

variable (setup : Setup) (careful : Prop)

def Joined (participants : Store String ParticipantRow) (call : Nat) (transaction : Transaction) :
    Prop :=
  ∀ participant, .addParticipant participant ∈ transaction.executed →
    participant.visibleFromSeq < 0 →
    .removeParticipant participant.userId ∉ transaction.executed →
    ∃ row, participants.uncommitted participant.userId = some (call, some row) ∧
      Covers setup transaction.startedIn row

-- What holds of a request, and with `careful` what holds when the archive had always caught up.
def Sound (participants : Store String ParticipantRow) (call : Nat) : Call → Prop
  | .running transaction =>
    transaction.executed ++ transaction.todo = (setup.requests call).statements ∧
    (∀ userId, participants.uncommitted userId = some (call, none) →
      ∃ statement ∈ transaction.executed, statement.inserts = false) ∧
    (careful → Joined setup participants call transaction)
  | .committed startedIn rows =>
    careful → ∀ participant, .addParticipant participant ∈ (setup.requests call).statements →
      participant.visibleFromSeq < 0 →
      .removeParticipant participant.userId ∉ (setup.requests call).statements →
      ∃ row, rows participant.userId = some row ∧ Covers setup startedIn row
  | _ => True

structure Inv (state : State) : Prop where
  rises : Respects Rises state.participants
  held : ∀ userId call version, state.participants.uncommitted userId = some (call, version) →
    ∃ transaction, state.calls call = .running transaction
  sound : ∀ call, Sound setup careful state.participants call (state.calls call)

variable {setup careful} {state next : State} {participants : Store String ParticipantRow}
  {call : Nat}

theorem inv_of_fresh (h : Fresh state) : Inv setup careful state where
  rises userId holder old new hh _ := absurd hh (by simp [h.1 userId])
  held userId holder version hh := absurd hh (by simp [h.1 userId])
  sound call := by rw [h.2 call]; trivial

theorem Sound.sameFor {phase : Call} (h : Sound setup careful state.participants call phase)
    (hsa : SameFor call state.participants participants) :
    Sound setup careful participants call phase := by
  cases phase with
  | running transaction =>
    obtain ⟨hs, hde, hj⟩ := h
    refine ⟨hs, fun userId hh => hde userId ((hsa _ _).mp hh), ?_⟩
    intro hc participant hee hjo hk
    obtain ⟨row, hh, hco⟩ := hj hc participant hee hjo hk
    exact ⟨row, (hsa _ _).mpr hh, hco⟩
  | _ => exact h

theorem Inv.move {phase : Call} (h : Inv setup careful state) (hr : Respects Rises participants)
    (hf : ∀ other, other ≠ call → SameFor other state.participants participants)
    (hh : ∀ userId version, participants.uncommitted userId = some (call, version) →
      ∃ transaction, phase = .running transaction)
    (hsound : Sound setup careful participants call phase) :
    Inv setup careful { state.goTo call phase with participants } where
  rises := hr
  held userId holder version hu := by
    show ∃ transaction, Function.update state.calls call phase holder = .running transaction
    by_cases hs : holder = call
    · subst hs
      rw [Function.update_self]
      exact hh userId version hu
    · rw [Function.update_of_ne hs]
      exact h.held userId holder version ((hf holder hs _ _).mp hu)
  sound holder := by
    show Sound setup careful participants holder (Function.update state.calls call phase holder)
    by_cases hs : holder = call
    · subst hs
      rw [Function.update_self]
      exact hsound
    · rw [Function.update_of_ne hs]
      exact (h.sound holder).sameFor (hf holder hs)

theorem Inv.goTo {transaction : Transaction} (h : Inv setup careful state)
    (hsound : Sound setup careful state.participants call (.running transaction)) :
    Inv setup careful (state.goTo call (.running transaction)) :=
  h.move h.rises (fun other _ => sameFor_refl other _) (fun _ _ _ => ⟨transaction, rfl⟩) hsound

end Invariant

section Steps

variable {setup : Setup} {careful : Prop} {state next : State} {call : Nat}
  {transaction : Transaction} {snapshot : Snapshot} {statement : Statement}
  {rest : List Statement}

theorem Sound.executed_inserts
    (h : Sound setup careful state.participants call (.running transaction))
    (htodo : transaction.todo = statement :: rest) (hin : statement.inserts = true) :
    ∀ earlier ∈ transaction.executed, earlier.inserts = true := by
  intro earlier hm
  have ho := statements_ordered (setup.requests call)
  rw [← h.1, htodo] at ho
  have hp := (List.pairwise_append.mp ho).2.2 earlier hm statement List.mem_cons_self
  by_contra hf
  exact absurd (hp (Bool.eq_false_iff.mpr hf)) (by simp [hin])

theorem Sound.not_deleted (h : Sound setup careful state.participants call (.running transaction))
    (htodo : transaction.todo = statement :: rest) (hin : statement.inserts = true)
    (userId : String) : state.participants.uncommitted userId ≠ some (call, none) := by
  intro hh
  obtain ⟨earlier, hm, hf⟩ := h.2.1 userId hh
  exact absurd (h.executed_inserts htodo hin earlier hm) (by simp [hf])

theorem covers_of_reached {startedIn : MessageIngest.State}
    {messages : List MessageArchive.ArchiveRow}
    {row : Option ParticipantRow} {new : ParticipantRow}
    (hre : Reached setup startedIn messages row) (hj : participant.visibleFromSeq < 0)
    (ha : (Statement.addParticipant participant).apply setup messages row = some new) :
    Covers setup startedIn new := by
  intro send seq hs
  have hf := apply_addParticipant ha
  rcases hre send seq hs with ⟨archived, hm, ho, hle⟩ | ⟨old, rfl, hle⟩
  · have hr := le_resolveFloor hj hm ho
    cases row with
    | none =>
      rw [hf]
      exact Int.le_trans hle hr
    | some old =>
      rw [hf]
      exact Int.le_trans (Int.le_trans hle hr) (Int.le_max_right ..)
  · rw [hf]
    exact Int.le_trans hle (Int.le_max_left ..)

theorem Covers.rises {startedIn : MessageIngest.State} {old new : ParticipantRow}
    (h : Covers setup startedIn old) (hr : Rises old new) : Covers setup startedIn new :=
  fun send seq hs => Int.le_trans (h send seq hs) hr

theorem executed_append (h : transaction.executed ++ transaction.todo =
      (setup.requests call).statements) (htodo : transaction.todo = statement :: rest) :
    (transaction.done statement rest).executed ++ (transaction.done statement rest).todo =
      (setup.requests call).statements := by
  rw [← h, htodo]
  exact List.append_assoc ..

theorem Sound.skip (h : Sound setup careful state.participants call (.running transaction))
    (htodo : transaction.todo = statement :: rest) (hin : statement.inserts = false) :
    Sound setup careful state.participants call (.running (transaction.done statement rest)) := by
  obtain ⟨hs, hde, hj⟩ := h
  refine ⟨executed_append hs htodo, ?_, ?_⟩
  · intro userId hh
    obtain ⟨earlier, hm, hf⟩ := hde userId hh
    exact ⟨earlier, List.mem_append_left _ hm, hf⟩
  · intro hc participant hee hjo hk
    rcases List.mem_append.mp hee with hea | hl
    · exact hj hc participant hea hjo fun hr => hk (List.mem_append_left _ hr)
    · rw [← List.mem_singleton.mp hl] at hin
      exact absurd hin (by simp [Statement.inserts])

section Put

variable (hsound : Sound setup careful state.participants call (.running transaction))
  (htodo : transaction.todo = statement :: rest)
  (hfree : state.participants.free call statement.userId = true)
  (hfinds : statement.inserts = true ∨ (snapshot.rows statement.userId ≠ none ∧
    state.participants.view call statement.userId ≠ none))

include hsound htodo hfinds

theorem put_not_deleted : state.participants.uncommitted statement.userId ≠ some (call, none) := by
  rcases hfinds with hin | ⟨-, hp⟩
  · exact hsound.not_deleted htodo hin statement.userId
  · exact fun hh => hp (view_of_held hh)

include hfree

theorem put_respects (hr : Respects Rises state.participants) :
    Respects Rises (state.participants.put call statement.userId
      (statement.apply setup snapshot.messages (state.participants.view call statement.userId))) :=
  hr.put (fun _ _ _ => Rises.trans) hfree (fun _ _ hv hn => apply_rises (hv ▸ hn))
    fun _ => put_not_deleted hsound htodo hfinds

omit hfree hfinds in
theorem put_sound (hca : careful → ∀ participant, statement = .addParticipant participant →
      participant.visibleFromSeq < 0 → Reached setup transaction.startedIn snapshot.messages
        (state.participants.view call participant.userId)) :
    Sound setup careful (state.participants.put call statement.userId
        (statement.apply setup snapshot.messages (state.participants.view call statement.userId)))
      call (.running (transaction.done statement rest)) := by
  obtain ⟨hst, hde, hjo⟩ := hsound
  refine ⟨executed_append hst htodo, ?_, ?_⟩
  · intro userId hh
    by_cases hs : userId = statement.userId
    · subst hs
      rw [put_uncommitted_self] at hh
      have hn := (Prod.mk.inj (Option.some.inj hh)).2
      refine ⟨statement, List.mem_append_right _ List.mem_cons_self, ?_⟩
      by_contra hin
      obtain ⟨new, hnw⟩ := @apply_of_inserts setup snapshot.messages _
        (state.participants.view call statement.userId) (Bool.eq_true_of_not_eq_false hin)
      exact absurd (hnw.symm.trans hn) (by simp)
    · rw [put_uncommitted_of_ne hs] at hh
      obtain ⟨earlier, hm, hf⟩ := hde userId hh
      exact ⟨earlier, List.mem_append_left _ hm, hf⟩
  · intro hc participant hee hj hk
    have hr : .removeParticipant participant.userId ∉ transaction.executed :=
      fun hm => hk (List.mem_append_left _ hm)
    have hcu : statement ≠ .removeParticipant participant.userId :=
      fun heq => hk (List.mem_append_right _ (List.mem_singleton.mpr heq.symm))
    by_cases hs : participant.userId = statement.userId
    · rw [hs, put_uncommitted_self]
      rcases List.mem_append.mp hee with hea | hl
      · obtain ⟨old, hh, hco⟩ := hjo hc participant hea hj hr
        rw [hs] at hh
        rw [view_of_held hh]
        obtain ⟨new, hnw⟩ := @apply_of_keeps setup snapshot.messages statement old
          fun userId heq => hcu (by
            rw [hs, heq]
            rfl)
        exact ⟨new, by rw [hnw], hco.rises (apply_rises hnw)⟩
      · obtain rfl := List.mem_singleton.mp hl
        obtain ⟨new, hnw⟩ := @apply_of_inserts setup snapshot.messages
          (.addParticipant participant) (state.participants.view call participant.userId) rfl
        exact ⟨new, congrArg (fun row => some (call, row)) hnw,
          covers_of_reached (hca hc participant rfl hj) hj hnw⟩
    · rcases List.mem_append.mp hee with hea | hl
      · obtain ⟨row, hh, hco⟩ := hjo hc participant hea hj hr
        exact ⟨row, (put_uncommitted_of_ne hs).trans hh, hco⟩
      · exact absurd (congrArg Statement.userId (List.mem_singleton.mp hl)) hs

end Put

theorem executeStep_inv {found : Bool} (h : Inv setup careful state)
    (hru : state.calls call = .running transaction) (hsn : transaction.snapshot = some snapshot)
    (htodo : transaction.todo = statement :: rest)
    (hca : careful → CaughtUp setup state (.execute call found))
    (hs : executeStep setup state call found transaction snapshot statement rest = some next) :
    Inv setup careful next := by
  have hsound : Sound setup careful state.participants call (.running transaction) :=
    hru ▸ h.sound call
  have hsk (hin : statement.inserts = false) :
      Inv setup careful (state.goTo call (.running (transaction.done statement rest))) :=
    h.goTo (hsound.skip htodo hin)
  unfold executeStep at hs
  dsimp only at hs
  split at hs
  · cases hs
  · split at hs
    · split at hs
      · rename_i hr
        obtain ⟨hfree, hfinds⟩ := hr
        cases hs
        refine h.move (put_respects hsound htodo hfree hfinds h.rises)
          (fun other hne => sameFor_put hfree hne) (fun _ _ _ => ⟨_, rfl⟩)
          (put_sound hsound htodo fun hc participant ha hj => ?_)
        exact hca hc transaction snapshot participant rest hru hsn (ha ▸ htodo) hj
      · cases hs
    · split at hs
      · cases hs
      · rename_i hin
        split at hs
        · exact Option.some.inj hs ▸ hsk (Bool.eq_false_iff.mpr hin)
        · cases hs

theorem Inv.commit (h : Inv setup careful state)
    (hr : state.calls call = .running transaction) (htodo : transaction.todo = []) :
    Inv setup careful { state.goTo call (.committed transaction.startedIn
      (state.participants.commit call).committed) with
        participants := state.participants.commit call } := by
  have hsound : Sound setup careful state.participants call (.running transaction) :=
    hr ▸ h.sound call
  obtain ⟨hs, -, hj⟩ := hsound
  rw [htodo, List.append_nil] at hs
  refine h.move h.rises.commit (fun other hne => sameFor_commit hne) ?_ ?_
  · exact fun userId version hh => absurd rfl (commit_uncommitted.mp hh).2
  · intro hc participant ha hjo hk
    rw [← hs] at ha hk
    obtain ⟨row, hh, hco⟩ := hj hc participant ha hjo hk
    exact ⟨row, view_of_held hh, hco⟩

theorem step_inv (h : Inv setup careful state) (hc : careful → CaughtUp setup state action)
    (hs : step setup state action = some next) : Inv setup careful next := by
  cases action with
  | ingest action =>
    obtain ⟨ingest, -, rfl⟩ := Option.map_eq_some_iff.mp hs
    exact ⟨h.rises, h.held, h.sound⟩
  | archive ctx committed messages =>
    simp only [step] at hs
    split at hs
    · cases hs
      exact ⟨h.rises, h.held, h.sound⟩
    · cases hs
  | begin_ call =>
    simp only [step] at hs
    split at hs
    · rename_i hil
      cases hs
      refine h.goTo ⟨rfl, ?_, fun _ _ hm => absurd hm List.not_mem_nil⟩
      intro userId hh
      obtain ⟨transaction, hr⟩ := h.held userId call none hh
      exact absurd (hil.symm.trans hr) (by simp)
    · cases hs
  | read call =>
    simp only [step] at hs
    split at hs
    · rename_i transaction hr
      split at hs
      · cases hs
        have hsound : Sound setup careful state.participants call (.running transaction) :=
          hr ▸ h.sound call
        exact h.goTo hsound
      · cases hs
    · cases hs
  | execute call found =>
    simp only [step] at hs
    split at hs
    · rename_i transaction hr
      split at hs
      · rename_i snapshot statement rest hsn htodo
        exact executeStep_inv h hr hsn htodo hc hs
      · cases hs
    · cases hs
  | commit call =>
    simp only [step] at hs
    split at hs
    · rename_i transaction hr
      split at hs
      · rename_i htodo
        exact Option.some.inj hs ▸ h.commit hr htodo
      · cases hs
    · cases hs
  | rollback call =>
    simp only [step] at hs
    split at hs
    · cases hs
      refine h.move h.rises.release (fun other hne => sameFor_release hne) ?_ trivial
      exact fun userId version hh => absurd rfl (release_uncommitted.mp hh).2
    · cases hs

theorem step_committed (hs : step setup state action = some next) :
    next.participants.committed = state.participants.committed ∨
      ∃ call, next.participants = state.participants.commit call := by
  cases action with
  | ingest action =>
    obtain ⟨ingest, -, rfl⟩ := Option.map_eq_some_iff.mp hs
    exact .inl rfl
  | commit call =>
    simp only [step] at hs
    split at hs
    · split at hs
      · exact Option.some.inj hs ▸ .inr ⟨call, rfl⟩
      · cases hs
    · cases hs
  | execute call found =>
    simp only [step, executeStep] at hs
    repeat' split at hs
    all_goals first
      | exact Option.some.inj hs ▸ .inl rfl
      | exact absurd hs nofun
  | _ =>
    simp only [step] at hs
    repeat' split at hs
    all_goals first
      | exact Option.some.inj hs ▸ .inl rfl
      | exact absurd hs nofun

theorem step_rises {old new : ParticipantRow}
    (h : Inv setup careful state) (hs : step setup state action = some next)
    (hold : state.participants.committed userId = some old)
    (hn : next.participants.committed userId = some new) : Rises old new := by
  rcases step_committed hs with hsa | ⟨call, hc⟩
  · rw [hsa, hold] at hn
    exact Option.some.inj hn ▸ Rises.refl old
  · rw [hc] at hn
    exact h.rises.commit_rel Rises.refl hold hn

end Steps

section Runs

variable {setup : Setup} {initial last : State} {actions : List Action}

theorem run_rises {old new : ParticipantRow} (h : Inv setup False initial)
    (hru : Run (step setup) (Present userId) initial actions last)
    (hold : initial.participants.committed userId = some old)
    (hn : last.participants.committed userId = some new) : Rises old new := by
  induction hru generalizing old with
  | nil state =>
    rw [hold] at hn
    exact Option.some.inj hn ▸ Rises.refl old
  | @cons state middle last action rest hp hs hr ih =>
    have hin : Inv setup False middle := step_inv h (fun hf => hf.elim) hs
    have hst : middle.participants.committed userId ≠ none := by
      cases hr with
      | nil => simp [hn]
      | cons hm _ _ => exact hm
    obtain ⟨own, ho⟩ := Option.ne_none_iff_exists'.mp hst
    exact (step_rises h hs hold ho).trans (ih hin ho hn)

theorem joinsCovered_of_inv (h : Inv setup True last) : JoinsCovered setup last := by
  intro call startedIn rows toAdd toRemove roleUpdates hc hr participant hm hj hk
  have hsound : Sound setup True last.participants call (.committed startedIn rows) :=
    hc ▸ h.sound call
  refine hsound trivial participant ?_ hj ?_
  · exact hr ▸ addParticipant_mem hm
  · exact fun hre => hk (removeParticipant_mem (hr ▸ hre))

-- A floor stays or rises as long as the member has a row. Where the archive had caught up at
-- every add from now on, the floor it left hides whatever was sent before.
theorem joins_leave_floors (setup : Setup) (hfresh : Fresh initial)
    (hrun : Run (step setup) anyStep initial actions last) :
    (∀ userId later final old new, Run (step setup) (Present userId) last later final →
      last.participants.committed userId = some old →
      final.participants.committed userId = some new → old.visibleFromSeq ≤ new.visibleFromSeq) ∧
    (Run (step setup) (CaughtUp setup) initial actions last → JoinsCovered setup last) := by
  constructor
  · intro userId later final old new hlater hold hnew
    have hinv : Inv setup False last := hrun.preserves _
      (fun _ _ _ hinv _ hstep => step_inv hinv (fun hfalse => hfalse.elim) hstep)
      (inv_of_fresh hfresh)
    exact run_rises hinv hlater hold hnew
  · intro hcaught
    exact joinsCovered_of_inv (hcaught.preserves _
      (fun _ _ _ hinv hok hstep => step_inv hinv (fun _ => hok) hstep) (inv_of_fresh hfresh))

end Runs

section Sample

def sentence : Proto.Message where
  conversationId := "c1"
  senderId := "alice"
  content := some ⟨some (.text "hello")⟩

-- Alice writes to a conversation that bob joins from now on.
def sample : Setup where
  tenantId := "acme"
  conversationId := "c1"
  numbering := MessageIngest.sampleNumbering
  clock := ⟨0, fun _ => true⟩
  sends _ :=
    { tenantId := some "acme"
      message := sentence
      fingerprint_plain := MessageIngest.no_fingerprint_plain }
  requests _ := .manageParticipants [{ userId := "bob", visibleFromSeq := -1 }] [] []

def sends : List Action :=
  [.begin_ 0 true .ok, .allocate 0 none ⟨"s1", 0, 0, MessageIngest.s1_ne, MessageIngest.s1_plain⟩ none,
    .writeWal 0 true .ok,
    .publish 0 true .ok, .finish 0, .settle 0 true .ok].map .ingest

def archives : Action :=
  .archive { tenantId := some "acme" } true
    [{ sentence with
        serverId := "s1", clientMsgId := "s1", conversationSeq := 1, status := .other 1 }]

def joins : List Action := [.begin_ 0, .read 0, .execute 0 true, .commit 0]

-- The number of the first send when the request came in, and the floor of bob behind it.
def observe (state : State) : Option (Option Nat × Option Int) :=
  match state.calls 0 with
  | .committed startedIn rows =>
    some (returnedSeq sample startedIn 0, (rows "bob").map (·.visibleFromSeq))
  | _ => none

def Action.executes : Action → Bool
  | .execute _ _ => true
  | _ => false

def archived : State := (execute (step sample) anyStep {} (sends ++ [archives])).getD {}

theorem archived_run : Run (step sample) (CaughtUp sample) {} (sends ++ [archives]) archived := by
  have hee : execute (step sample) (fun _ action => action.executes = false) {}
      (sends ++ [archives]) = some archived := rfl
  refine (run_of_execute hee).mono fun state action hok => ?_
  cases action with
  | execute call found => exact absurd hok (by simp [Action.executes])
  | _ => trivial

theorem archived_returned {send seq : Nat}
    (h : seq ∈ returnedSeq sample archived.ingest send) : seq = 1 := by
  cases send with
  | zero => exact (Option.some.inj h).symm
  | succ send => exact absurd h nofun

theorem joined_run : ∃ last, Run (step sample) (CaughtUp sample) archived joins last ∧
    observe last = some (some 1, some 1) := by
  refine ⟨_, .cons trivial rfl (.cons trivial rfl (.cons ?_ rfl (.cons trivial rfl (.nil _)))),
    by decide +kernel⟩
  intro transaction snapshot participant rest hr hs htodo hj send seq hse
  obtain rfl := Call.running.inj hr
  cases hs
  obtain rfl := archived_returned hse
  exact .inl ⟨_, List.mem_cons_self, ⟨rfl, rfl⟩, Int.le_refl 1⟩

theorem archived_message_is_hidden : ∃ last,
    Run (step sample) (CaughtUp sample) {} (sends ++ [archives] ++ joins) last ∧
    JoinsCovered sample last ∧ observe last = some (some 1, some 1) := by
  obtain ⟨last, hjoined, hobserve⟩ := joined_run
  have hrun := archived_run.append hjoined
  have hcovered := (joins_leave_floors sample ⟨fun _ => rfl, fun _ => rfl⟩
    (hrun.mono fun _ _ _ => trivial)).2 hrun
  exact ⟨last, hrun, hcovered, hobserve⟩

-- The send has returned, and its message is not archived when bob is added from now on.
theorem unarchived_message_is_seen : ∃ last,
    Run (step sample) anyStep {} (sends ++ joins) last ∧ ¬ JoinsCovered sample last := by
  have hmap : (execute (step sample) anyStep {} (sends ++ joins)).map observe =
      some (some (some 1, some 0)) := by decide +kernel
  obtain ⟨last, hexecute, hobserve⟩ := Option.map_eq_some_iff.mp hmap
  refine ⟨last, run_of_execute hexecute, fun hcovered => ?_⟩
  unfold observe at hobserve
  split at hobserve
  · rename_i startedIn rows hcommitted
    obtain ⟨hreturned, hfloor⟩ := Prod.mk.inj (Option.some.inj hobserve)
    obtain ⟨row, hrow, hcovers⟩ := hcovered 0 startedIn rows _ _ _ hcommitted rfl _
      List.mem_cons_self (by decide) List.not_mem_nil
    have hrow' : rows "bob" = some row := hrow
    rw [hrow'] at hfloor
    have hzero : row.visibleFromSeq = 0 := Option.some.inj hfloor
    have hone := hcovers 0 1 hreturned
    rw [hzero] at hone
    exact absurd hone (by decide)
  · exact absurd hobserve nofun

end Sample

end FlareIm.JoinFloor
