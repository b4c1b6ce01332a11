import FlareIm.MultipartUpload
import Mathlib.Data.List.Perm.Subperm

namespace FlareIm.MultipartUpload

open RoundTrip Transition
open Function (update update_of_ne update_self)

variable {outcome : Outcome} {found : Bool}

section Contract

-- A stored payload is made of the chunks 0..n-1 in this order, each as its last successful upload
-- left it, with every chunk answered Ok before the completion, and has the declared size.
structure Faithful (setup : Setup) (assembly : Assembly) : Prop where
  indexes : assembly.pieces.map (·.index) = List.range assembly.pieces.length
  uploaded : ∀ piece ∈ assembly.pieces, piece.uploaded = some piece.content
  includes : ∀ index ∈ assembly.answeredBefore, index ∈ assembly.pieces.map (·.index)
  declared : ∀ size ∈ setup.totalSize, assembly.payload.length = size

def AssemblesUploads (setup : Setup) (ok : State → Action → Prop) : Prop :=
  ∀ actions state, Run (step setup) ok (initial setup) actions state →
    ∀ assembly ∈ state.completed, Faithful setup assembly

-- A session that is written leaves no chunk out that was answered Ok.
def KeepsAnswered (state : State) (session : UploadSession) : Prop :=
  ∀ index ∈ state.answered, index ∈ session.uploadedChunks

-- What the answer Ok to an upload says: the file holds its bytes and the session lists it.
def HoldsChunk (state : State) (chunk : Chunk) (session : UploadSession) : Prop :=
  (state.files chunk.index).map (·.content) = some chunk.bytes ∧
    chunk.index ∈ session.uploadedChunks

-- When the steps of the calls do not get in each other's way, and what the code does not check.
def InOrder (setup : Setup) (state : State) : Action → Prop
  | .saveSession call outcome =>
    match state.uploads call with
    | .refreshing session | .saving session =>
      (outcome.takesEffect = true → KeepsAnswered state session) ∧
        (outcome = .answered → HoldsChunk state (setup.chunk call) session)
    | _ => True
  | .completionGet _ found =>
    found = true → ∀ session ∈ state.record, ∀ index ∈ session.uploadedChunks,
      index < session.uploadedChunks.length
  | .readChunk call found =>
    match state.completions call with
    | .reading _ (index :: _) _ => found = true → state.unsettled index = false
    | _ => True
  | .storeFile call outcome =>
    match state.completions call with
    | .storing _ assembly =>
      outcome = .stored → ∀ size ∈ setup.totalSize,
        (assembly.pieces.map fun piece => (piece.uploaded.getD []).length).sum = size
    | _ => True
  | .markCompleted call outcome =>
    match state.completions call with
    | .marking session _ _ => outcome.takesEffect = true → KeepsAnswered state session
    | _ => True
  | _ => True

end Contract

section Chunks

theorem nodup_addChunk {session : UploadSession} (index size : Nat)
    (h : session.uploadedChunks.Nodup) : (session.addChunk index size).uploadedChunks.Nodup := by
  unfold UploadSession.addChunk
  split
  · exact h
  · rename_i hh
    have hn : index ∉ session.uploadedChunks := fun hm =>
      hh (List.contains_iff_mem.mpr hm)
    refine List.nodup_append.mpr ⟨h, List.nodup_singleton index, ?_⟩
    intro other ho last hl heq
    rw [List.mem_singleton] at hl
    exact hn (hl ▸ heq ▸ ho)

theorem insertionSort_eq_range {chunks : List Nat} (hn : chunks.Nodup)
    (hb : ∀ index ∈ chunks, index < chunks.length) :
    chunks.insertionSort (· ≤ ·) = List.range chunks.length := by
  have hsu : chunks ⊆ List.range chunks.length := fun index hm =>
    List.mem_range.mpr (hb index hm)
  have hp : chunks.Perm (List.range chunks.length) :=
    (List.subperm_of_subset hn hsu).perm_of_length_le (by simp)
  have hs : (chunks.insertionSort (· ≤ ·)).Pairwise (· ≤ ·) :=
    List.pairwise_insertionSort (· ≤ ·) chunks
  have hr : (List.range chunks.length).Pairwise (· ≤ ·) :=
    List.pairwise_le_range
  exact ((List.perm_insertionSort (· ≤ ·) chunks).trans hp).eq_of_pairwise
    (fun _ _ _ _ => Nat.le_antisymm) hs hr

end Chunks

section Invariant

-- What a completion has taken up so far: pieces of settled chunks.
structure Taken (assembly : Assembly) (todo : List Nat) (count : Nat) : Prop where
  indexes : assembly.pieces.map (·.index) ++ todo = List.range count
  uploaded : ∀ piece ∈ assembly.pieces, piece.uploaded = some piece.content
  includes : ∀ index ∈ assembly.answeredBefore, index ∈ List.range count

def UploadPhase.session : UploadPhase → Option UploadSession
  | .checking session | .refreshing session | .creating session | .writing session _ _
  | .saving session => some session
  | .notStarted | .finished => none

def CompletionOk (setup : Setup) : CompletionPhase → Prop
  | .notStarted | .finished => True
  | .reading session todo assembly =>
    session.uploadedChunks.Nodup ∧ ∃ count, Taken assembly todo count
  | .storing session assembly =>
    session.uploadedChunks.Nodup ∧ ∃ count, Taken assembly [] count
  | .marking session assembly fresh =>
    session.uploadedChunks.Nodup ∧ (fresh = true → Faithful setup assembly)
  | .cleaning assembly fresh | .deleting assembly fresh =>
    fresh = true → Faithful setup assembly

structure Inv (setup : Setup) (state : State) : Prop where
  record_nodup : ∀ session, state.record = some session → session.uploadedChunks.Nodup
  record_keeps : ∀ session, state.record = some session → KeepsAnswered state session
  uploads_nodup : ∀ call session, (state.uploads call).session = some session →
    session.uploadedChunks.Nodup
  settled : ∀ index file, state.files index = some file → state.unsettled index = false →
    state.lastOk index = some file.content
  completions_ok : ∀ call, CompletionOk setup (state.completions call)
  completed_ok : ∀ assembly ∈ state.completed, Faithful setup assembly

variable {setup : Setup} {state next : State}

theorem inv_initial : Inv setup (initial setup) where
  record_nodup session h := by
    cases h
    exact List.nodup_nil
  record_keeps session h index hin := absurd hin List.not_mem_nil
  uploads_nodup call session h := by
    simp only [initial, UploadPhase.session] at h
    cases h
  settled index file h := absurd h (by simp [initial])
  completions_ok call := trivial
  completed_ok assembly h := absurd h List.not_mem_nil

theorem Inv.setUpload (hin : Inv setup state) {call : Nat} {phase : UploadPhase}
    (hp : ∀ session, phase.session = some session → session.uploadedChunks.Nodup) :
    Inv setup (state.setUpload call phase) where
  record_nodup := hin.record_nodup
  record_keeps := hin.record_keeps
  uploads_nodup other session h := by
    simp only [State.setUpload] at h
    by_cases heq : other = call
    · subst heq
      rw [update_self] at h
      exact hp session h
    · rw [update_of_ne heq] at h
      exact hin.uploads_nodup other session h
  settled := hin.settled
  completions_ok := hin.completions_ok
  completed_ok := hin.completed_ok

theorem Inv.finishUpload (hin : Inv setup state) {call : Nat} :
    Inv setup (state.setUpload call .finished) :=
  hin.setUpload fun _ h => absurd h (by simp [UploadPhase.session])

theorem Inv.setCompletion (hin : Inv setup state) {call : Nat} {phase : CompletionPhase}
    (hp : CompletionOk setup phase) : Inv setup (state.setCompletion call phase) where
  record_nodup := hin.record_nodup
  record_keeps := hin.record_keeps
  uploads_nodup := hin.uploads_nodup
  settled := hin.settled
  completions_ok other := by
    simp only [State.setCompletion]
    by_cases heq : other = call
    · subst heq
      rw [update_self]
      exact hp
    · rw [update_of_ne heq]
      exact hin.completions_ok other
  completed_ok := hin.completed_ok

theorem Inv.upsert (hin : Inv setup state) {session : UploadSession}
    (hn : session.uploadedChunks.Nodup)
    (hk : outcome.takesEffect = true → KeepsAnswered state session) :
    Inv setup (state.upsert session outcome) := by
  unfold State.upsert
  split
  · rename_i ht
    refine { hin with record_nodup := ?_, record_keeps := ?_ }
    · intro other h
      simp only [Option.some.injEq] at h
      exact h ▸ hn
    · intro other h
      simp only [Option.some.injEq] at h
      exact h ▸ hk ht
  · exact hin

-- A file that may change counts as written to until its chunk is answered Ok again.
theorem Inv.touch (hin : Inv setup state) {index : Nat} {file : Option ChunkFile} {inode : Nat} :
    Inv setup { state with
      files := update state.files index file
      nextInode := inode
      unsettled := update state.unsettled index true } where
  record_nodup := hin.record_nodup
  record_keeps := hin.record_keeps
  uploads_nodup := hin.uploads_nodup
  settled other found hf hs := by
    by_cases heq : other = index
    · subst heq
      simp only [update_self] at hs
      cases hs
    · simp only [update_of_ne heq] at hf hs
      exact hin.settled other found hf hs
  completions_ok := hin.completions_ok
  completed_ok := hin.completed_ok

theorem Inv.answerOk (hin : Inv setup state) {chunk : Chunk}
    (hf : (state.files chunk.index).map (·.content) = some chunk.bytes)
    (hl : ∀ session, state.record = some session → chunk.index ∈ session.uploadedChunks) :
    Inv setup (state.answerOk chunk) where
  record_nodup := hin.record_nodup
  record_keeps session h index hie := by
    rcases List.mem_cons.mp hie with rfl | hold
    · exact hl session h
    · exact hin.record_keeps session h index hold
  uploads_nodup := hin.uploads_nodup
  settled index file h hs := by
    simp only [State.answerOk] at h hs ⊢
    by_cases heq : index = chunk.index
    · subst heq
      rw [h, Option.map_some, Option.some.injEq] at hf
      rw [update_self, hf]
    · rw [update_of_ne heq] at hs ⊢
      exact hin.settled index file h hs
  completions_ok := hin.completions_ok
  completed_ok := hin.completed_ok

theorem Inv.removeFiles (hin : Inv setup state) {files : Nat → Option ChunkFile}
    (hs : ∀ index file, files index = some file → state.files index = some file) :
    Inv setup { state with files := files } :=
  { hin with settled := fun index file h => hin.settled index file (hs index file h) }

theorem Inv.dropRecord (hin : Inv setup state) : Inv setup { state with record := none } :=
  { hin with
    record_nodup := fun _ h => absurd h (by simp)
    record_keeps := fun _ h => absurd h (by simp) }

end Invariant

section Uploads

variable {setup : Setup} {state next : State} {call : Nat}

theorem keeps_getSession (hin : Inv setup state)
    (h : getSession setup state call found = some next) : Inv setup next := by
  unfold getSession at h
  split at h
  · cases h
  · split at h
    · cases h
      exact hin.finishUpload
    · rename_i session hs
      have hr : state.record = some session := by
        cases found <;> simp_all
      simp only at h
      split at h
      · cases h
        exact hin.finishUpload
      · cases h
        apply hin.setUpload
        intro other ho
        simp only [UploadPhase.session, Option.some.injEq] at ho
        exact ho ▸ hin.record_nodup session hr

theorem keeps_checkFile (hin : Inv setup state)
    (h : checkFile setup state call = some next) : Inv setup next := by
  unfold checkFile at h
  split at h
  · rename_i session hp
    have hn : session.uploadedChunks.Nodup :=
      hin.uploads_nodup call session (by rw [hp]; rfl)
    have hk : ∀ other, some session = some other → other.uploadedChunks.Nodup := by
      intro other ho
      simp only [Option.some.injEq] at ho
      exact ho ▸ hn
    split at h
    · split at h
      · cases h
        exact hin.setUpload hk
      · cases h
        exact hin.setUpload hk
    · cases h
      exact hin.setUpload hk
  · cases h

theorem keeps_createFile (hin : Inv setup state)
    (h : createFile setup state call = some next) : Inv setup next := by
  unfold createFile at h
  split at h
  · rename_i session hp
    cases h
    have hn := hin.uploads_nodup call session (by rw [hp]; rfl)
    refine (hin.setUpload ?_).touch
    intro other ho
    simp only [UploadPhase.session, Option.some.injEq] at ho
    exact ho ▸ hn
  · cases h

theorem keeps_write {count : Nat} (hin : Inv setup state)
    (h : write setup state call count = some next) : Inv setup next := by
  unfold write at h
  split at h
  · rename_i session inode written hp
    cases h
    have hn := hin.uploads_nodup call session (by rw [hp]; rfl)
    refine (hin.setUpload ?_).touch
    intro other ho
    simp only [UploadPhase.session, Option.some.injEq] at ho
    exact ho ▸ hn
  · cases h

theorem keeps_flush (hin : Inv setup state)
    (h : flush setup state call = some next) : Inv setup next := by
  unfold flush at h
  split at h
  · rename_i session inode written hp
    cases h
    apply hin.setUpload
    intro other ho
    cases ho
    exact nodup_addChunk _ _ (hin.uploads_nodup call session (by rw [hp]; rfl))
  · cases h

theorem keeps_giveUp (hin : Inv setup state)
    (h : giveUp state call = some next) : Inv setup next := by
  unfold giveUp at h
  split at h
  · cases h
    exact hin.finishUpload
  · cases h
    exact hin.finishUpload
  · cases h
    exact hin.finishUpload
  · cases h

-- Both ways to save: the record takes the session, and an answer Ok finds the chunk there.
theorem Inv.save (hin : Inv setup state) {session : UploadSession}
    (hn : session.uploadedChunks.Nodup)
    (hk : outcome.takesEffect = true → KeepsAnswered state session)
    (hh : outcome = .answered → HoldsChunk state (setup.chunk call) session)
    (h : (if outcome = .answered then
        some (((state.upsert session outcome).setUpload call .finished).answerOk (setup.chunk call))
      else some ((state.upsert session outcome).setUpload call .finished)) = some next) :
    Inv setup next := by
  have hs : Inv setup ((state.upsert session outcome).setUpload call .finished) :=
    (hin.upsert hn hk).finishUpload
  split at h
  · rename_i ha
    subst ha
    obtain ⟨hf, hl⟩ := hh rfl
    cases h
    refine hs.answerOk hf ?_
    intro other ho
    simp only [State.upsert, State.setUpload, takesEffect_answered, if_true,
      Option.some.injEq] at ho
    exact ho ▸ hl
  · cases h
    exact hs

theorem keeps_saveSession (hin : Inv setup state)
    (hok : InOrder setup state (.saveSession call outcome))
    (h : saveSession setup state call outcome = some next) : Inv setup next := by
  unfold saveSession at h
  simp only [InOrder] at hok
  split at h
  · rename_i session hp
    rw [hp] at hok
    exact hin.save (hin.uploads_nodup call session (by rw [hp]; rfl)) hok.1 hok.2 h
  · rename_i session hp
    rw [hp] at hok
    exact hin.save (hin.uploads_nodup call session (by rw [hp]; rfl)) hok.1 hok.2 h
  · cases h

end Uploads

section Completions

variable {setup : Setup} {state next : State} {call : Nat}

theorem keeps_completionGet (hin : Inv setup state)
    (hok : InOrder setup state (.completionGet call found))
    (h : completionGet state call found = some next) : Inv setup next := by
  unfold completionGet at h
  split at h
  · cases h
  · split at h
    · cases h
      exact hin.setCompletion trivial
    · rename_i session hs
      obtain ⟨hf, hr⟩ : found = true ∧ state.record = some session := by
        cases found <;> simp_all
      split at h
      · cases h
        exact hin.setCompletion trivial
      · cases h
        have hra := insertionSort_eq_range (hin.record_nodup session hr) (hok hf session hr)
        apply hin.setCompletion
        refine ⟨?_, session.uploadedChunks.length, ?_, ?_, ?_⟩
        · simp only [hra]
          exact List.nodup_range
        · rw [hra]
          rfl
        · intro piece hp
          exact absurd hp List.not_mem_nil
        · intro index hie
          exact List.mem_range.mpr (hok hf session hr index (hin.record_keeps session hr index hie))

theorem keeps_readChunk (hin : Inv setup state) (hok : InOrder setup state (.readChunk call found))
    (h : readChunk state call found = some next) : Inv setup next := by
  have hp := hin.completions_ok call
  unfold readChunk at h
  simp only [InOrder] at hok
  split at h
  · rename_i session index todo assembly hr
    rw [hr] at hok hp
    split at h
    · cases h
      exact hin.setCompletion trivial
    · rename_i file hfi
      obtain ⟨hf, hfi⟩ : found = true ∧ state.files index = some file := by
        cases found <;> simp_all
      cases h
      obtain ⟨hn, count, ht⟩ := hp
      apply hin.setCompletion
      refine ⟨hn, count, ?_, ?_, ht.includes⟩
      · simp only [List.map_append, List.map_cons, List.map_nil, List.append_assoc,
          List.singleton_append]
        exact ht.indexes
      · intro piece hpi
        rcases List.mem_append.mp hpi with hold | hnw
        · exact ht.uploaded piece hold
        · rw [List.mem_singleton] at hnw
          subst hnw
          exact hin.settled index file hfi (hok hf)
  · rename_i session assembly hr
    rw [hr] at hp
    cases h
    exact hin.setCompletion hp
  · cases h

theorem payload_length {assembly : Assembly}
    (h : ∀ piece ∈ assembly.pieces, piece.uploaded = some piece.content) : assembly.payload.length =
      (assembly.pieces.map fun piece => (piece.uploaded.getD []).length).sum := by
  rw [Assembly.payload, List.length_flatten, List.map_map]
  congr 1
  apply List.map_congr_left
  intro piece hp
  rw [h piece hp]
  rfl

theorem Taken.faithful {assembly : Assembly} {count : Nat} (h : Taken assembly [] count)
    (hs : ∀ size ∈ setup.totalSize,
      (assembly.pieces.map fun piece => (piece.uploaded.getD []).length).sum = size) :
    Faithful setup assembly := by
  have hin := h.indexes
  rw [List.append_nil] at hin
  have hc : assembly.pieces.length = count := by
    have hl := congrArg List.length hin
    simpa using hl
  refine ⟨by rw [hc]; exact hin, h.uploaded, ?_, ?_⟩
  · intro index hie
    rw [hin]
    exact h.includes index hie
  · intro size hs'
    rw [payload_length h.uploaded]
    exact hs size hs'

theorem keeps_storeFile {outcome : StoreOutcome} (hin : Inv setup state)
    (hok : InOrder setup state (.storeFile call outcome))
    (h : storeFile state call outcome = some next) : Inv setup next := by
  have hp := hin.completions_ok call
  unfold storeFile at h
  simp only [InOrder] at hok
  split at h
  · rename_i session assembly hs
    rw [hs] at hok hp
    obtain ⟨hn, count, ht⟩ := hp
    cases outcome with
    | failed =>
      cases h
      exact hin.setCompletion trivial
    | stored =>
      cases h
      exact hin.setCompletion ⟨hn, fun _ => ht.faithful (hok rfl)⟩
    | deduplicated =>
      cases h
      exact hin.setCompletion ⟨hn, fun hf => absurd hf (by simp)⟩
  · cases h

theorem keeps_markCompleted (hin : Inv setup state)
    (hok : InOrder setup state (.markCompleted call outcome))
    (h : markCompleted state call outcome = some next) : Inv setup next := by
  have hp := hin.completions_ok call
  unfold markCompleted at h
  simp only [InOrder] at hok
  split at h
  · rename_i session assembly fresh hm
    rw [hm] at hok hp
    cases h
    have hf : CompletionOk setup (.cleaning assembly fresh) := hp.2
    refine Inv.setCompletion ?_ hf
    apply hin.upsert
    · exact hp.1
    · exact hok
  · cases h

theorem keeps_cleanup {complete : Bool} {left : List Nat} (hin : Inv setup state)
    (h : cleanup state call complete left = some next) : Inv setup next := by
  have hp := hin.completions_ok call
  unfold cleanup at h
  split at h
  · rename_i assembly fresh hc
    rw [hc] at hp
    split at h
    · cases h
      have hdo : Inv setup (state.setCompletion call (.deleting assembly fresh)) :=
        hin.setCompletion hp
      refine hdo.removeFiles ?_
      intro index file hf
      cases hf
    · cases h
      have hdo : Inv setup (state.setCompletion call .finished) := hin.setCompletion trivial
      refine hdo.removeFiles ?_
      intro index file hf
      split at hf
      · exact hf
      · cases hf
  · cases h

theorem keeps_deleteSession (hin : Inv setup state)
    (h : deleteSession state call outcome = some next) : Inv setup next := by
  have hp := hin.completions_ok call
  unfold deleteSession at h
  split at h
  · rename_i assembly fresh hde
    rw [hde] at hp
    cases h
    have hdl : Inv setup (if outcome.takesEffect then { state with record := none }
        else state) := by
      split
      · exact hin.dropRecord
      · exact hin
    have hdo := @Inv.setCompletion _ _ hdl call .finished trivial
    refine { hdo with completed_ok := ?_ }
    intro other ho
    cases fresh with
    | false => exact hdo.completed_ok other ho
    | true =>
      rcases List.mem_cons.mp ho with rfl | hold
      · exact hp rfl
      · exact hdo.completed_ok other hold
  · cases h

end Completions

section Runs

variable {setup : Setup}

theorem inv_step (state : State) (action : Action) (next : State) (hin : Inv setup state)
    (hok : InOrder setup state action) (h : step setup state action = some next) :
    Inv setup next := by
  cases action with
  | getSession call found => exact keeps_getSession hin h
  | checkFile call => exact keeps_checkFile hin h
  | createFile call => exact keeps_createFile hin h
  | write call count => exact keeps_write hin h
  | flush call => exact keeps_flush hin h
  | giveUp call => exact keeps_giveUp hin h
  | saveSession call outcome => exact keeps_saveSession hin hok h
  | completionGet call found => exact keeps_completionGet hin hok h
  | readChunk call found => exact keeps_readChunk hin hok h
  | storeFile call outcome => exact keeps_storeFile hin hok h
  | markCompleted call outcome => exact keeps_markCompleted hin hok h
  | cleanup call complete left => exact keeps_cleanup hin h
  | deleteSession call outcome => exact keeps_deleteSession hin h
  | expireRecord =>
    cases h
    exact hin.dropRecord

-- In order, what a completion stores is what was uploaded.
theorem assembles_uploads_inOrder (setup : Setup) : AssemblesUploads setup (InOrder setup) := by
  intro actions state hrun
  exact (hrun.preserves (Inv setup) inv_step inv_initial).completed_ok

end Runs

section Counterexample

def twoChunks : Setup where
  totalSize := some 2
  maxChunkSizeBytes := 8
  chunk call := if call = 0 then ⟨0, [104]⟩ else ⟨1, [105]⟩

-- The record of the second chunk cannot be saved, and its retry finds the file there.
def retriedUpload : List Action :=
  [.getSession 0 true, .checkFile 0, .createFile 0, .write 0 1, .flush 0,
    .saveSession 0 .answered,
    .getSession 1 true, .checkFile 1, .createFile 1, .write 1 1, .flush 1, .saveSession 1 .failed,
    .getSession 2 true, .checkFile 2, .saveSession 2 .answered,
    .completionGet 0 true, .readChunk 0 true, .readChunk 0 true, .storeFile 0 .stored,
    .markCompleted 0 .answered, .cleanup 0 true [], .deleteSession 0 .answered]

theorem a_retried_chunk_is_left_out : ¬AssemblesUploads twoChunks anyStep := by
  intro h
  have hstored : (execute (step twoChunks) anyStep (initial twoChunks) retriedUpload).map
      (·.completed) = some [⟨[1, 0], [⟨0, [104], some [104]⟩]⟩] := by decide
  obtain ⟨state, hexecute, hcompleted⟩ := Option.map_eq_some_iff.mp hstored
  have hfaithful := h retriedUpload state (run_of_execute hexecute)
    ⟨[1, 0], [⟨0, [104], some [104]⟩]⟩ (by rw [hcompleted]; exact List.mem_singleton_self _)
  have hincludes := hfaithful.includes 1 List.mem_cons_self
  exact absurd hincludes (by decide)

end Counterexample

end FlareIm.MultipartUpload
