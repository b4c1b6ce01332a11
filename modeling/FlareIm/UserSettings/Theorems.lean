import FlareIm.UserSettings

namespace FlareIm.UserSettings

variable {conflict : MemberRow → MemberRow}

section Condition

def Call.added : Call → List String
  | .manageParticipants toAdd _ => toAdd.map (·.userId)
  | .createConversation _ participants => participants.map (·.userId)
  | _ => []

-- The members whose rows a call removes.
def Call.removed (tables : Tables) : Call → List String
  | .manageParticipants _ toRemove => toRemove.filter fun userId => (tables.member userId).isSome
  | _ => []

-- Hiding a row loses nothing of what it says, no row is hidden when the archive state of the
-- conversation changes, and nobody comes back whose row was removed.
def Meets (departed : List String) (tables : Tables) (call : Call) : Prop :=
  match call with
  | .deleteConversation userId => ∀ rows ∈ tables, ∀ row ∈ findMember rows.members userId,
      row.draft = none ∧ (row.isArchived = true → rows.lifecycleState = .archived)
  | .updateConversation (some next) => ∀ rows ∈ tables,
      (next = .archived ↔ rows.lifecycleState = .archived) ∨
        ∀ row ∈ rows.members, row.isDeleted = false
  | call => ∀ userId ∈ call.added, userId ∉ departed

instance (departed : List String) (tables : Tables) (call : Call) :
    Decidable (Meets departed tables call) := by
  unfold Meets
  split <;> infer_instance

def Regular : List String → Tables → List Call → Prop
  | _, _, [] => True
  | departed, tables, call :: rest =>
    Meets departed tables call ∧ Regular (departed ++ call.removed tables) (step tables call) rest

def decideRegular : (departed : List String) → (tables : Tables) → (calls : List Call) →
    Decidable (Regular departed tables calls)
  | _, _, [] => .isTrue trivial
  | departed, tables, call :: rest =>
    have := decideRegular (departed ++ call.removed tables) (step tables call) rest
    inferInstanceAs (Decidable (Meets departed tables call ∧
      Regular (departed ++ call.removed tables) (step tables call) rest))

instance (departed : List String) (tables : Tables) (calls : List Call) :
    Decidable (Regular departed tables calls) :=
  decideRegular departed tables calls

theorem not_mem_departed {departed : List String} {tables : Tables} {call : Call}
    (hm : Meets departed tables call) {userId : String} (ha : userId ∈ call.added) :
    userId ∉ departed := by
  cases call with
  | updateUserSettings | updateConversation | deleteConversation => exact absurd ha List.not_mem_nil
  | manageParticipants | createConversation => exact hm userId ha

end Condition

section Rows

variable {members : List MemberRow} {userId other : String} {row : MemberRow}

theorem findMember_userId (h : findMember members userId = some row) : row.userId = userId := by
  simpa using List.find?_some h

theorem mem_of_findMember (h : findMember members userId = some row) : row ∈ members :=
  List.mem_of_find?_eq_some h

theorem findMember_map {change : MemberRow → MemberRow}
    (h : ∀ row, (change row).userId = row.userId) :
    findMember (members.map change) userId = (findMember members userId).map change := by
  rw [findMember, List.find?_map]
  have hs : (fun row : MemberRow => decide (row.userId = userId)) ∘ change =
      fun row => decide (row.userId = userId) :=
    funext fun row => by simp [h row]
  rw [hs, findMember]

theorem findMember_update_self {change : MemberRow → MemberRow}
    (h : ∀ row, row.userId = userId → (change row).userId = userId) :
    findMember (updateMember members userId change) userId =
      (findMember members userId).map change := by
  rw [updateMember, findMember_map fun row => by split <;> simp_all]
  cases hf : findMember members userId with
  | none => rfl
  | some row => simp [findMember_userId hf]

theorem findMember_update_of_ne {change : MemberRow → MemberRow} (hne : other ≠ userId)
    (h : ∀ row, row.userId = userId → (change row).userId = userId) :
    findMember (updateMember members userId change) other = findMember members other := by
  rw [updateMember, findMember_map fun row => by split <;> simp_all]
  cases hf : findMember members other with
  | none => rfl
  | some row =>
    have ho := findMember_userId hf
    simp [ho, hne]

theorem findMember_append_of_ne (hne : row.userId ≠ userId) :
    findMember (members ++ [row]) userId = findMember members userId := by
  rw [findMember, List.find?_append]
  simp [hne, findMember]

end Rows

section Changes

-- What a row says of the settings, hidden or not.
def MemberRow.reports (row : MemberRow) (lifecycleState : LifecycleState) : ReportedSettings :=
  ⟨row.settings lifecycleState, row.settingsVersion⟩

def Tables.reports (tables : Tables) (userId : String) : Option ReportedSettings :=
  tables.bind fun rows => (findMember rows.members userId).map (·.reports rows.lifecycleState)

-- The version does not go back, and moves with the settings.
def Tracks (earlier later : ReportedSettings) : Prop :=
  earlier.settingsVersion ≤ later.settingsVersion ∧
    (earlier.settings ≠ later.settings → earlier.settingsVersion < later.settingsVersion)

theorem Tracks.refl (said : ReportedSettings) : Tracks said said :=
  ⟨le_refl _, fun h => absurd rfl h⟩

theorem Tracks.of_lt {earlier later : ReportedSettings}
    (h : earlier.settingsVersion < later.settingsVersion) : Tracks earlier later :=
  ⟨h.le, fun _ => h⟩

theorem Tracks.trans {first middle last : ReportedSettings} (h : Tracks first middle)
    (h' : Tracks middle last) : Tracks first last := by
  refine ⟨h.1.trans h'.1, fun hne => ?_⟩
  by_cases hf : first.settings = middle.settings
  · exact h.1.trans_lt (h'.2 (hf ▸ hne))
  · exact (h.2 hf).trans_le h'.1

variable {tables : Tables} {rows : ConversationRows} {members : List MemberRow} {userId : String}
  {row : MemberRow} {earlier : ReportedSettings} {departed : List String} {call : Call}

theorem reports_eq_some (h : tables.reports userId = some earlier) : ∃ rows row,
    tables = some rows ∧ findMember rows.members userId = some row ∧ row.reports rows.lifecycleState = earlier := by
  obtain ⟨rows, hro, hr⟩ := Option.bind_eq_some_iff.mp h
  obtain ⟨row, hf, hre⟩ := Option.map_eq_some_iff.mp hr
  exact ⟨rows, row, hro, hf, hre⟩

-- A conflict that leaves the settings alone.
def Keeps (conflict : MemberRow → MemberRow) : Prop :=
  ∀ row, (conflict row).userId = row.userId ∧ ∀ lifecycleState,
    (conflict row).reports lifecycleState = row.reports lifecycleState

theorem keeps_showRow : Keeps showRow :=
  fun _ => ⟨rfl, fun _ => rfl⟩

theorem keeps_seatRow : Keeps seatRow :=
  fun _ => ⟨rfl, fun _ => rfl⟩

theorem findMember_upsert (hk : Keeps conflict)
    (participant : ConversationParticipant) (hr : findMember members userId = some row) :
    ∃ next, findMember (upsert conflict members participant) userId = some next ∧
      ∀ lifecycleState, next.reports lifecycleState = row.reports lifecycleState := by
  have hid : ∀ row, row.userId = participant.userId →
      (conflict row).userId = participant.userId := fun row h => (hk row).1.trans h
  rw [upsert]
  by_cases hne : userId = participant.userId
  · subst hne
    rw [if_pos (by rw [hr]; rfl), findMember_update_self hid, hr]
    exact ⟨conflict row, rfl, (hk row).2⟩
  · refine ⟨row, ?_, fun _ => rfl⟩
    split
    · rw [findMember_update_of_ne hne hid, hr]
    · have hn : (newRow participant).userId ≠ userId := fun h => hne h.symm
      rw [findMember_append_of_ne hn, hr]

theorem findMember_upsert_of_ne (hk : Keeps conflict)
    {participant : ConversationParticipant} (hne : userId ≠ participant.userId) :
    findMember (upsert conflict members participant) userId = findMember members userId := by
  rw [upsert]
  split
  · exact findMember_update_of_ne hne fun row h => (hk row).1.trans h
  · have hn : (newRow participant).userId ≠ userId := fun h => hne h.symm
    exact findMember_append_of_ne hn

theorem findMember_foldl (hk : Keeps conflict)
    (participants : List ConversationParticipant) (hr : findMember members userId = some row) :
    ∃ next, findMember (participants.foldl (upsert conflict) members) userId = some next ∧
      ∀ lifecycleState, next.reports lifecycleState = row.reports lifecycleState := by
  induction participants generalizing members row with
  | nil => exact ⟨row, hr, fun _ => rfl⟩
  | cons participant participants ih =>
    obtain ⟨middle, hm, hre⟩ := findMember_upsert hk participant hr
    obtain ⟨next, hn, hl⟩ := ih hm
    exact ⟨next, hn, fun lifecycleState => (hl _).trans (hre _)⟩

theorem findMember_foldl_of_not_mem (hk : Keeps conflict)
    {participants : List ConversationParticipant}
    (hn : userId ∉ participants.map (·.userId)) :
    findMember (participants.foldl (upsert conflict) members) userId =
      findMember members userId := by
  induction participants generalizing members with
  | nil => rfl
  | cons participant participants ih =>
    rw [List.map_cons, List.mem_cons, not_or] at hn
    rw [List.foldl_cons, ih hn.2, findMember_upsert_of_ne hk hn.1]

theorem foldlM_insertChunk {chunks : List (List ConversationParticipant)}
    {next : List MemberRow} (h : chunks.foldlM insertChunk members = some next) :
    next = chunks.flatten.foldl (upsert showRow) members := by
  induction chunks generalizing members with
  | nil => exact (Option.some.inj h).symm
  | cons chunk chunks ih =>
    rw [List.foldlM_cons] at h
    obtain ⟨middle, hm, hr⟩ := Option.bind_eq_some_iff.mp h
    rw [insertChunk] at hm
    split at hm
    · cases hm
      rw [List.flatten_cons, List.foldl_append]
      exact ih hr
    · cases hm

theorem findMember_filter (toRemove : List String) :
    findMember (members.filter fun row => row.userId ∉ toRemove) userId =
      if userId ∈ toRemove then none else findMember members userId := by
  rw [findMember, List.find?_filter]
  split
  · rename_i hm
    refine List.find?_eq_none.mpr fun row _ => ?_
    simp only [decide_not, Bool.not_eq_true', decide_eq_false_iff_not, decide_eq_true_eq, not_and]
    intro hn hid
    exact hn (hid ▸ hm)
  · rename_i hn
    rw [findMember]
    congr 1
    funext row
    by_cases hid : row.userId = userId
    · simp [hid, hn]
    · simp [hid]

theorem bumped_eq_some {next : MemberRow} (h : bumped row = some next) :
    next.userId = row.userId ∧ (row.isDeleted = false → next.settingsVersion =
      row.settingsVersion + 1) := by
  rw [bumped] at h
  split at h
  · rename_i hde
    cases h
    exact ⟨rfl, fun hs => absurd (hs.symm.trans hde) (by decide)⟩
  · split at h
    · cases h
      exact ⟨rfl, fun _ => rfl⟩
    · cases h

theorem findMember_mapM {next : List MemberRow} (h : members.mapM bumped = some next) :
    (findMember members userId = none → findMember next userId = none) ∧
      ∀ row, findMember members userId = some row →
        ∃ later, findMember next userId = some later ∧ bumped row = some later := by
  induction members generalizing next with
  | nil =>
    cases h
    exact ⟨fun _ => rfl, fun row hr => absurd hr (by simp [findMember])⟩
  | cons head members ih =>
    rw [List.mapM_cons] at h
    obtain ⟨first, hf, hre⟩ := Option.bind_eq_some_iff.mp h
    obtain ⟨rest, hm, hnx⟩ := Option.bind_eq_some_iff.mp hre
    cases hnx
    have hid := (bumped_eq_some hf).1
    obtain ⟨hn, hs⟩ := ih hm
    by_cases hh : head.userId = userId
    · refine ⟨fun h => absurd h (by simp [findMember, hh]), fun row hr => ?_⟩
      rw [findMember, List.find?_cons_of_pos (by simpa using hh)] at hr
      cases hr
      exact ⟨first, by rw [findMember, List.find?_cons_of_pos (by simpa [hid] using hh)], hf⟩
    · have ho : ¬ first.userId = userId := fun h => hh (hid.symm.trans h)
      rw [findMember, findMember, List.find?_cons_of_neg (by simpa using hh),
        List.find?_cons_of_neg (by simpa using ho)]
      exact ⟨hn, hs⟩

end Changes

section Steps

variable {tables next : Tables} {userId : String} {departed : List String} {call : Call}
  {patch : UpdateConversationUserSettingsPatch} {tailSeq : Int}

theorem updateUserSettings_eq_ok {result : ConversationUserSettings}
    (h : updateUserSettings tables userId patch tailSeq = .ok (next, result)) :
    ∃ rows row patched, tables = some rows ∧ findMember rows.members userId = some row ∧
      updates patch rows.lifecycleState row = true ∧ patched.userId = userId ∧
      patched.settingsVersion = row.settingsVersion + 1 ∧
      next = some { rows with members := updateMember rows.members userId fun _ => patched } := by
  rw [updateUserSettings] at h
  split at h
  · cases h
  · simp only at h
    split at h
    · cases h
    · rename_i rows
      split at h
      · cases h
      · rename_i row hr
        split at h
        · rename_i hu
          split at h
          · cases h
            refine ⟨rows, row, patchRow patch rows.lifecycleState tailSeq row _ _, rfl, hr,
              hu, (findMember_userId hr : row.userId = userId), rfl, rfl⟩
          · cases h
        · cases h

-- The rows of one user before and after: what they say follows, and a missing one stays so.
structure Follows (userId : String) (tables next : Tables) : Prop where
  tracks : ∀ earlier, tables.reports userId = some earlier →
    ∃ later, next.reports userId = some later ∧ Tracks earlier later
  missing : tables.reports userId = none → next.reports userId = none

theorem Follows.refl (userId : String) (tables : Tables) : Follows userId tables tables :=
  ⟨fun earlier h => ⟨earlier, h, Tracks.refl earlier⟩, id⟩

theorem follows_of_members {rows later : ConversationRows}
    (hn : findMember rows.members userId = none → findMember later.members userId = none)
    (hs : ∀ row, findMember rows.members userId = some row → ∃ changed,
      findMember later.members userId = some changed ∧
        Tracks (row.reports rows.lifecycleState) (changed.reports later.lifecycleState)) :
    Follows userId (some rows) (some later) where
  tracks earlier h := by
    obtain ⟨_, row, hr, hf, rfl⟩ := reports_eq_some h
    cases hr
    obtain ⟨changed, hc, ht⟩ := hs row hf
    exact ⟨_, by simp [Tables.reports, hc], ht⟩
  missing h := by
    have hm : findMember rows.members userId = none := by simpa [Tables.reports] using h
    simp [Tables.reports, hn hm]

theorem follows_update {rows : ConversationRows} {change : MemberRow → MemberRow} {other : String}
    (hid : ∀ row, row.userId = other → (change row).userId = other)
    (ht : ∀ row, findMember rows.members other = some row →
      Tracks (row.reports rows.lifecycleState) ((change row).reports rows.lifecycleState)) :
    Follows userId (some rows)
      (some { rows with members := updateMember rows.members other change }) := by
  by_cases hne : userId = other
  · subst hne
    refine follows_of_members (fun h => ?_) fun row h => ⟨change row, ?_, ht row h⟩
    · rw [findMember_update_self hid, h, Option.map_none]
    · rw [findMember_update_self hid, h, Option.map_some]
  · have hs := @findMember_update_of_ne rows.members other userId change hne hid
    exact follows_of_members (fun h => hs.trans h) fun row h => ⟨row, hs.trans h, Tracks.refl _⟩

theorem follows_updateUserSettings {other : String} {result : ConversationUserSettings}
    (h : updateUserSettings tables other patch tailSeq = .ok (next, result)) :
    Follows userId tables next := by
  obtain ⟨rows, row, patched, rfl, hr, -, hid, hv, rfl⟩ := updateUserSettings_eq_ok h
  refine follows_update (fun _ _ => hid) fun row' hr' => Tracks.of_lt ?_
  cases (hr.symm.trans hr')
  change row.settingsVersion < patched.settingsVersion
  omega

theorem follows_deleteConversation {other : String}
    (hm : Meets departed tables (.deleteConversation other)) :
    Follows userId tables (deleteConversation tables other) := by
  cases tables with
  | none => exact Follows.refl userId none
  | some rows =>
    refine follows_update (fun _ h => h) fun row hr => ?_
    obtain ⟨hdr, ha⟩ := hm rows rfl row hr
    have hre : (hideRow row).reports rows.lifecycleState = row.reports rows.lifecycleState := by
      simp only [MemberRow.reports, MemberRow.settings, hideRow, hdr, Bool.or_false]
      cases hma : row.isArchived with
      | false => simp
      | true => simp [ha hma]
    rw [hre]
    exact Tracks.refl _

theorem follows_updateConversation {lifecycleState : Option LifecycleState}
    (hme : Meets departed tables (.updateConversation lifecycleState))
    (h : updateConversation tables lifecycleState = .ok next) : Follows userId tables next := by
  unfold updateConversation at h
  split at h
  · cases h
    exact Follows.refl userId none
  · rename_i rows
    simp only at h
    split at h
    · rename_i hc
      split at h
      · rename_i members hm
        cases h
        -- all rows are shown, so that each gets its next version
        have hsh : ∀ row ∈ rows.members, row.isDeleted = false := by
          cases lifecycleState with
          | none => simp at hc
          | some new =>
            refine (hme rows rfl).resolve_left fun hs => ?_
            by_cases hnw : new = .archived
            · simp [hnw, hs.mp hnw] at hc
            · simp [hnw, mt hs.mpr hnw] at hc
        obtain ⟨hn, hso⟩ := @findMember_mapM rows.members userId members hm
        refine follows_of_members hn fun row hr => ?_
        obtain ⟨later, hl, hb⟩ := hso row hr
        have hv := (bumped_eq_some hb).2 (hsh row (mem_of_findMember hr))
        refine ⟨later, hl, Tracks.of_lt ?_⟩
        change row.settingsVersion < later.settingsVersion
        omega
      · cases h
    · rename_i hs
      cases h
      refine follows_of_members id fun row hr => ⟨row, hr, ?_⟩
      have hre : row.reports (lifecycleState.getD rows.lifecycleState) =
          row.reports rows.lifecycleState := by
        have ha : (rows.lifecycleState == .archived) =
            (lifecycleState.getD rows.lifecycleState == .archived) := by simpa using hs
        simp only [MemberRow.reports, MemberRow.settings, ha]
      rw [hre]
      exact Tracks.refl _

theorem reports_manageParticipants {toAdd : List ConversationParticipant} {toRemove : List String}
    (h : manageParticipants tables toAdd toRemove = .ok next) :
    (∀ earlier, tables.reports userId = some earlier →
      next.reports userId = some earlier ∨ (next.reports userId = none ∧ userId ∈ toRemove)) ∧
    (tables.reports userId = none → userId ∉ toAdd.map (·.userId) →
      next.reports userId = none) := by
  unfold manageParticipants at h
  split at h
  · split at h
    · cases h
      exact ⟨fun earlier h => Or.inl h, fun h _ => h⟩
    · cases h
  · rename_i rows
    cases h
    have hn : Tables.reports (some { rows with members :=
        (toAdd.foldl (upsert seatRow) rows.members).filter fun row => row.userId ∉ toRemove })
          userId = (if userId ∈ toRemove then none
            else findMember (toAdd.foldl (upsert seatRow) rows.members) userId).map
              (·.reports rows.lifecycleState) := by
      rw [← findMember_filter]
      rfl
    rw [hn]
    refine ⟨fun earlier hr => ?_, fun hr hno => ?_⟩
    · obtain ⟨_, row, hro, hf, rfl⟩ := reports_eq_some hr
      cases hro
      obtain ⟨seated, hf', hs⟩ := findMember_foldl keeps_seatRow toAdd hf
      split
      · rename_i hm
        exact Or.inr ⟨rfl, hm⟩
      · rw [hf', Option.map_some, hs]
        exact Or.inl rfl
    · have hmi : findMember rows.members userId = none := by
        simpa [Tables.reports] using hr
      rw [findMember_foldl_of_not_mem keeps_seatRow hno, hmi]
      split <;> rfl

theorem reports_createConversation {lifecycleState : LifecycleState}
    {participants : List ConversationParticipant}
    (h : createConversation tables lifecycleState participants = .ok next) :
    (∀ earlier, tables.reports userId = some earlier → next.reports userId = some earlier) ∧
    (tables.reports userId = none → userId ∉ participants.map (·.userId) →
      next.reports userId = none) := by
  rw [createConversation] at h
  split at h
  · rename_i members hm
    cases h
    have hm := foldlM_insertChunk hm
    rw [Listing.toChunks_flatten] at hm
    subst hm
    refine ⟨fun earlier hr => ?_, fun hr hn => ?_⟩
    · obtain ⟨rows, row, rfl, hf, rfl⟩ := reports_eq_some hr
      obtain ⟨row', hf', hs⟩ := findMember_foldl keeps_showRow participants hf
      simp [Tables.reports, hf', hs]
    · have hmi : findMember (tables.getD ⟨lifecycleState, []⟩).members userId = none := by
        cases tables with
        | none => rfl
        | some rows => simpa [Tables.reports] using hr
      simp [Tables.reports, findMember_foldl_of_not_mem keeps_showRow hn, hmi]
  · cases h

-- One step: what a user's row says follows unless the row is removed, and only an addition brings
-- a row.
theorem reports_step (hm : Meets departed tables call) :
    (∀ earlier, tables.reports userId = some earlier →
      (∃ later, (step tables call).reports userId = some later ∧ Tracks earlier later) ∨
        ((step tables call).reports userId = none ∧ userId ∈ call.removed tables)) ∧
    (tables.reports userId = none → userId ∉ call.added →
      (step tables call).reports userId = none) := by
  have hf (h : Follows userId tables (step tables call)) :
      (∀ earlier, tables.reports userId = some earlier →
        (∃ later, (step tables call).reports userId = some later ∧ Tracks earlier later) ∨
          ((step tables call).reports userId = none ∧ userId ∈ call.removed tables)) ∧
      (tables.reports userId = none → userId ∉ call.added →
        (step tables call).reports userId = none) :=
    ⟨fun earlier hr => Or.inl (h.tracks earlier hr), fun hr _ => h.missing hr⟩
  cases call with
  | updateUserSettings other patch tailSeq =>
    refine hf ?_
    rw [step]
    cases hre : updateUserSettings tables other patch tailSeq with
    | error error => exact Follows.refl userId tables
    | ok result => exact follows_updateUserSettings hre
  | updateConversation lifecycleState =>
    refine hf ?_
    rw [step]
    cases hre : updateConversation tables lifecycleState with
    | error error => exact Follows.refl userId tables
    | ok next => exact follows_updateConversation hm hre
  | deleteConversation other => exact hf (follows_deleteConversation hm)
  | manageParticipants toAdd toRemove =>
    rw [step]
    cases hre : manageParticipants tables toAdd toRemove with
    | error error =>
      exact ⟨fun earlier hr => Or.inl ⟨earlier, hr, Tracks.refl earlier⟩, fun hr _ => hr⟩
    | ok next =>
      obtain ⟨hs, hn⟩ :=
        @reports_manageParticipants tables next userId toAdd toRemove hre
      refine ⟨fun earlier hr => (hs earlier hr).imp
        (fun h => ⟨earlier, h, Tracks.refl earlier⟩) fun h => ⟨h.1, ?_⟩, hn⟩
      refine List.mem_filter.mpr ⟨h.2, ?_⟩
      obtain ⟨rows, row, rfl, hfi, -⟩ := reports_eq_some hr
      simp [Tables.member, hfi]
  | createConversation lifecycleState participants =>
    rw [step]
    cases hre : createConversation tables lifecycleState participants with
    | error error =>
      exact ⟨fun earlier hr => Or.inl ⟨earlier, hr, Tracks.refl earlier⟩, fun hr _ => hr⟩
    | ok next =>
      obtain ⟨hs, hn⟩ :=
        @reports_createConversation tables next userId lifecycleState participants hre
      exact ⟨fun earlier hr =>
          Or.inl ⟨earlier, hs earlier hr, Tracks.refl earlier⟩,
        hn⟩

end Steps

section Runs

variable {tables : Tables} {userId : String} {departed : List String} {calls : List Call}
  {earlier later : ReportedSettings}

-- Somebody whose row was removed has none for the rest of the run.
theorem reports_run_of_departed (hre : Regular departed tables calls)
    (hm : userId ∈ departed) (hr : tables.reports userId = none) :
    (run tables calls).reports userId = none := by
  induction calls generalizing tables departed with
  | nil => exact hr
  | cons call calls ih =>
    obtain ⟨hme, hrs⟩ := hre
    have hn : userId ∉ call.added := fun ha => not_mem_departed hme ha hm
    exact ih hrs (List.mem_append_left _ hm) ((reports_step hme).2 hr hn)

theorem reports_run (hre : Regular departed tables calls)
    (hr : tables.reports userId = some earlier) : (run tables calls).reports userId = none ∨
      ∃ later, (run tables calls).reports userId = some later ∧ Tracks earlier later := by
  induction calls generalizing tables departed earlier with
  | nil => exact Or.inr ⟨earlier, hr, Tracks.refl earlier⟩
  | cons call calls ih =>
    obtain ⟨hme, hrs⟩ := hre
    rcases (reports_step hme).1 earlier hr with
      ⟨middle, hm, ht⟩ | ⟨hn, hrm⟩
    · refine (ih hrs hm).imp_right fun ⟨later, hla, hf⟩ => ?_
      exact ⟨later, hla, ht.trans hf⟩
    · have hl := reports_run_of_departed hrs (List.mem_append_right _ hrm) hn
      exact Or.inl hl

theorem regular_append {before between : List Call}
    (h : Regular departed tables (before ++ between)) :
    ∃ departed, Regular departed (run tables before) between := by
  induction before generalizing tables departed with
  | nil => exact ⟨departed, h⟩
  | cons call before ih => exact ih h.2

theorem reports_of_loadBootstrap (h : loadBootstrap tables userId = some earlier) :
    tables.reports userId = some earlier := by
  obtain ⟨rows, rfl, hr⟩ := Option.bind_eq_some_iff.mp h
  obtain ⟨row, hf, hs⟩ := Option.bind_eq_some_iff.mp hr
  split at hs
  · simpa [Tables.reports, hf, MemberRow.reports] using hs
  · cases hs

theorem version_of_updates {patch : UpdateConversationUserSettingsPatch} {row : MemberRow}
    {lifecycleState : LifecycleState} (h : updates patch lifecycleState row = true)
    (hb : patch.baseSettingsVersion ≠ 0) :
    row.settingsVersion = patch.baseSettingsVersion := by
  have hf := patch.base_fits
  have hv := row.version_fits
  simp only [updates, Bool.and_eq_true, Bool.or_eq_true, beq_iff_eq, asI64] at h
  rcases h.2 with hz | hs <;> omega

-- As long as nothing is lost by hiding, the archive state does not change behind hidden rows and
-- nobody comes back, the version moves with what the bootstrap reports. An update from a version
-- always finds that version.
theorem settings_version_tracks_changes (userId : String) :
    (∀ (start : Tables) (before between : List Call) (earlier later : ReportedSettings),
      Regular [] start (before ++ between) →
      loadBootstrap (run start before) userId = some earlier →
      loadBootstrap (run (run start before) between) userId = some later →
      earlier.settings ≠ later.settings → earlier.settingsVersion < later.settingsVersion) ∧
    ∀ (tables next : Tables) (patch : UpdateConversationUserSettingsPatch) (tailSeq : Int)
        (result : ConversationUserSettings),
      updateUserSettings tables userId patch tailSeq = .ok (next, result) →
      patch.baseSettingsVersion ≠ 0 →
        ∃ row, tables.member userId = some row ∧
          row.settingsVersion = patch.baseSettingsVersion := by
  constructor
  · intro start before between earlier later hregular hearlier hlater hne
    obtain ⟨departed, hrest⟩ := regular_append hregular
    have hreports := reports_of_loadBootstrap hlater
    rcases reports_run hrest (reports_of_loadBootstrap hearlier) with hnone | ⟨last, hlast, htracks⟩
    · exact absurd (hnone.symm.trans hreports) (by simp)
    · obtain rfl := Option.some.inj (hlast.symm.trans hreports)
      exact htracks.2 hne
  · intro tables next patch tailSeq result h hbase
    obtain ⟨rows, row, patched, rfl, hrow, hupdates, -⟩ := updateUserSettings_eq_ok h
    exact ⟨row, hrow, version_of_updates hupdates hbase⟩

def startCalls : List Call :=
  [.createConversation .active [⟨"alice", false, false⟩, ⟨"bob", false, false⟩],
    .updateUserSettings "alice" { draft := some "hello" } 0]

def dropPatch : UpdateConversationUserSettingsPatch :=
  { draft := some "", baseSettingsVersion := 1 }

-- Alice drops her draft, and hides the conversation and comes back to it later.
def dropAndHide : List Call :=
  [.updateUserSettings "alice" dropPatch 0, .deleteConversation "alice",
    .manageParticipants [⟨"alice", false, false⟩] []]

def hideOnly : List Call :=
  [.deleteConversation "alice", .manageParticipants [⟨"alice", false, false⟩] []]

theorem drop_and_hide_tracks :
    (∃ earlier later, loadBootstrap (run none startCalls) "alice" = some earlier ∧
      loadBootstrap (run (run none startCalls) dropAndHide) "alice" = some later ∧
        earlier.settings ≠ later.settings ∧ earlier.settingsVersion < later.settingsVersion) ∧
    ∃ row, (run none startCalls).member "alice" = some row ∧ row.settingsVersion = 1 := by
  refine ⟨⟨⟨⟨false, false, false, false, some "hello"⟩, 1⟩, ⟨⟨false, false, false, false, none⟩, 2⟩,
    by decide, by decide, by decide, ?_⟩, ?_⟩
  · exact (settings_version_tracks_changes "alice").1 none startCalls dropAndHide _ _ (by decide)
      (by decide) (by decide) (by decide)
  · cases hresult : updateUserSettings (run none startCalls) "alice" dropPatch 0 with
    | error error =>
      have hok : (updateUserSettings (run none startCalls) "alice" dropPatch 0).isOk = true := by
        decide
      rw [hresult] at hok
      exact absurd hok Bool.false_ne_true
    | ok result =>
      exact (settings_version_tracks_changes "alice").2 _ result.1 dropPatch 0 result.2 hresult
        (by decide)

-- Hiding drops the draft, and the version stays.
theorem hidden_draft_is_lost_silently :
    loadBootstrap (run none startCalls) "alice" =
        some ⟨⟨false, false, false, false, some "hello"⟩, 1⟩ ∧
      loadBootstrap (run (run none startCalls) hideOnly) "alice" =
        some ⟨⟨false, false, false, false, none⟩, 1⟩ := by
  decide

end Runs

end FlareIm.UserSettings
