import FlareIm.OperationStore.Updates

namespace FlareIm.OperationStore

section Rows

-- A row that operations alone have written: each of its users once, and as many as it counts.
structure ReactionRow.WellFormed (row : ReactionRow) : Prop where
  distinct : row.userIds.Nodup
  count_eq : row.count = row.userIds.length

def reacted (userId : String) (row : Option ReactionRow) : Prop :=
  ∃ found, row = some found ∧ userId ∈ found.userIds

variable {userIds : List String} {count : Int} {userId other : String} {row : Option ReactionRow}
  {found : ReactionRow} {add : Bool}

theorem reacted_some : reacted userId (some found) ↔ userId ∈ found.userIds := by
  constructor
  · rintro ⟨same, hs, hm⟩
    exact Option.some.inj hs ▸ hm
  · intro hm
    exact ⟨found, rfl, hm⟩

theorem not_reacted_none : ¬ reacted userId none := by
  rintro ⟨found, hf, -⟩
  cases hf

theorem applyReactionChange_add (ha : userId ∉ userIds) :
    applyReactionChange userIds count userId true =
      .update (userIds ++ [userId]) (max count 0 + 1) := by
  have hr : userIds.any (· == userId) = false := by
    rw [List.any_eq_false]
    intro other ho heu
    exact ha (beq_iff_eq.mp heu ▸ ho)
  simp only [applyReactionChange, hr, if_true, Bool.false_eq_true, if_false]

theorem applyReactionChange_remove (hdi : userIds.Nodup) (hc : count = userIds.length)
    (hp : userId ∈ userIds) : applyReactionChange userIds count userId false =
      if userIds.filter (· != userId) = [] then .delete
      else .update (userIds.filter (· != userId)) (userIds.filter (· != userId)).length := by
  have hr : userIds.any (· == userId) = true :=
    List.any_eq_true.mpr ⟨userId, hp, beq_self_eq_true userId⟩
  have hea : userIds.filter (· != userId) = userIds.erase userId :=
    (hdi.erase_eq_filter userId).symm
  have hl : (userIds.filter (· != userId)).length = userIds.length - 1 := by
    rw [hea, List.length_erase_of_mem hp]
  have hpo : 0 < userIds.length := List.length_pos_of_mem hp
  have hm : max (max count 0 - 1) ((userIds.filter (· != userId)).length : Int) =
      (userIds.filter (· != userId)).length := by
    rw [hl, hc]
    omega
  simp only [applyReactionChange, hr, Bool.false_eq_true, if_false, Bool.not_true, hm]
  by_cases hem : userIds.filter (· != userId) = []
  · rw [if_pos hem, if_neg (by simp [hem])]
  · have hlf : 0 < (userIds.filter (· != userId)).length := List.length_pos_iff.mpr hem
    rw [if_neg hem, if_pos (by omega)]

theorem reactionAfter_none :
    (∀ found, reactionAfter userId add none = some found → found.WellFormed) ∧
      ∀ other, reacted other (reactionAfter userId add none) ↔
        if other = userId then add = true else reacted other none := by
  cases add with
  | false =>
    refine ⟨fun found hf => ?_, fun other => ?_⟩
    · cases hf
    · simp [reactionAfter, not_reacted_none]
  | true =>
    refine ⟨fun found hf => ?_, fun other => ?_⟩
    · cases hf
      exact ⟨List.nodup_singleton userId, rfl⟩
    · simp [reactionAfter, reacted_some, not_reacted_none]

theorem reactionAfter_add (hdi : userIds.Nodup) (hc : count = userIds.length)
    (ha : userId ∉ userIds) :
    (∀ found, reactionAfter userId true (some ⟨userIds, count⟩) = some found → found.WellFormed) ∧
      ∀ other, reacted other (reactionAfter userId true (some ⟨userIds, count⟩)) ↔
        if other = userId then true = true else reacted other (some ⟨userIds, count⟩) := by
  simp only [reactionAfter, applyReactionChange_add ha]
  refine ⟨fun found hf => ?_, fun other => ?_⟩
  · cases hf
    refine ⟨?_, ?_⟩
    · exact List.nodup_append.mpr ⟨hdi, List.nodup_singleton userId, by
        intro one ho another han
        rw [List.mem_singleton.mp han]
        exact fun heq => ha (heq ▸ ho)⟩
    · simp only [List.length_append, List.length_singleton, hc]
      omega
  · rw [reacted_some, reacted_some, List.mem_append, List.mem_singleton]
    by_cases heq : other = userId <;> simp [heq]

theorem reactionAfter_remove (hdi : userIds.Nodup) (hc : count = userIds.length)
    (hp : userId ∈ userIds) :
    (∀ found, reactionAfter userId false (some ⟨userIds, count⟩) = some found → found.WellFormed) ∧
      ∀ other, reacted other (reactionAfter userId false (some ⟨userIds, count⟩)) ↔
        if other = userId then false = true else reacted other (some ⟨userIds, count⟩) := by
  have hr := applyReactionChange_remove hdi hc hp
  have hl : ∀ other, other ∈ userIds.filter (· != userId) ↔
      other ≠ userId ∧ other ∈ userIds := by
    intro other
    rw [List.mem_filter, bne_iff_ne, and_comm]
  by_cases hem : userIds.filter (· != userId) = []
  · rw [if_pos hem] at hr
    simp only [reactionAfter, hr]
    refine ⟨fun found hf => ?_, fun other => ?_⟩
    · cases hf
    · have hn := hl other
      rw [hem] at hn
      rw [reacted_some]
      by_cases heq : other = userId
      · simp [heq, not_reacted_none]
      · simpa [heq, not_reacted_none] using hn
  · rw [if_neg hem] at hr
    simp only [reactionAfter, hr]
    refine ⟨fun found hf => ?_, fun other => ?_⟩
    · cases hf
      exact ⟨hdi.filter _, rfl⟩
    · rw [reacted_some, reacted_some, hl]
      by_cases heq : other = userId <;> simp [heq]

theorem reactionAfter_spec (hr : ∀ found, row = some found → found.WellFormed) :
    (∀ found, reactionAfter userId add row = some found → found.WellFormed) ∧
      ∀ other, reacted other (reactionAfter userId add row) ↔
        if other = userId then add = true else reacted other row := by
  cases row with
  | none => exact reactionAfter_none
  | some found =>
    obtain ⟨userIds, count⟩ := found
    obtain ⟨hdi, hc⟩ := hr _ rfl
    by_cases hs : userId ∈ userIds ↔ add = true
    · -- the operation has been made already
      have hu := applyReactionChange_unchanged count hs
      simp only [reactionAfter, hu]
      refine ⟨hr, fun other => ?_⟩
      split
      · rename_i heq
        rw [reacted_some, heq]
        exact hs
      · rfl
    · cases add with
      | true => exact reactionAfter_add hdi hc (by simpa using hs)
      | false => exact reactionAfter_remove hdi hc (by simpa using hs)

end Rows

section Operations

structure ReactionOperation where
  key : ReactionKey
  userId : String
  add : Bool

def react (tables : Tables) (operation : ReactionOperation) : Tables :=
  upsertMessageReaction operation.key operation.userId operation.add tables

def withoutReactions (tables : Tables) : Tables :=
  { tables with reactions := fun _ => none }

-- What the user's last operation on the row was, if there is one.
def lastOperation (operations : List ReactionOperation) (key : ReactionKey) (userId : String) :
    Option Bool :=
  (operations.reverse.find? fun operation =>
    operation.key == key && operation.userId == userId).map (·.add)

variable {tables : Tables} {key : ReactionKey} {operation : ReactionOperation}
  {operations : List ReactionOperation} {userId : String}

theorem reactions_react : (react tables operation).reactions key =
    if operation.key = key then
      reactionAfter operation.userId operation.add (tables.reactions key)
    else tables.reactions key := by
  rw [react, upsertMessageReaction]
  by_cases hk : operation.key = key
  · rw [if_pos hk, ← hk]
    exact Function.update_self _ _ _
  · rw [if_neg hk]
    exact Function.update_of_ne (Ne.symm hk) _ _

theorem lastOperation_append : lastOperation (operations ++ [operation]) key userId =
    if operation.key = key ∧ operation.userId = userId then some operation.add
    else lastOperation operations key userId := by
  rw [lastOperation, lastOperation, List.reverse_append, List.reverse_singleton,
    List.singleton_append, List.find?_cons]
  by_cases hl : operation.key = key ∧ operation.userId = userId
  · rw [if_pos hl]
    simp [hl.1, hl.2]
  · rw [if_neg hl]
    have ho : (operation.key == key && operation.userId == userId) = false := by
      simpa using hl
    rw [ho]

-- By induction on the operations, the last one first.
theorem reactions_foldl (tables : Tables) (operations : List ReactionOperation)
    (key : ReactionKey) :
    (∀ found, (operations.foldl react (withoutReactions tables)).reactions key = some found →
        found.WellFormed) ∧ ∀ userId, reacted userId
          ((operations.foldl react (withoutReactions tables)).reactions key) ↔
        lastOperation operations key userId = some true := by
  induction operations using List.reverseRecOn with
  | nil =>
    refine ⟨fun found hf => ?_, fun userId => ?_⟩
    · cases hf
    · simp [withoutReactions, lastOperation, not_reacted_none]
  | append_singleton operations operation ih =>
    obtain ⟨hw, hl⟩ := ih
    rw [List.foldl_append, List.foldl_cons, List.foldl_nil, reactions_react]
    by_cases hk : operation.key = key
    · obtain ⟨hw', hr⟩ := @reactionAfter_spec operation.userId _ operation.add hw
      rw [if_pos hk]
      refine ⟨hw', fun userId => ?_⟩
      rw [hr, lastOperation_append]
      by_cases hu : userId = operation.userId
      · rw [if_pos hu, if_pos ⟨hk, hu.symm⟩, Option.some_inj]
      · rw [if_neg hu, if_neg fun h => hu h.2.symm, hl]
    · rw [if_neg hk]
      refine ⟨hw, fun userId => ?_⟩
      rw [hl, lastOperation_append, if_neg fun h => hk h.1]

-- After any operations on a store without reactions, each row has its users once and counts them,
-- the users are those whose last operation on it was an addition, and another operation changes
-- nothing for the users who did not make it.
theorem reactions_well_formed (tables : Tables) (operations : List ReactionOperation) :
    let after := operations.foldl react (withoutReactions tables)
    (∀ key row, after.reactions key = some row →
        row.userIds.Nodup ∧ row.count = row.userIds.length) ∧
      (∀ key userId, reacted userId (after.reactions key) ↔
        lastOperation operations key userId = some true) ∧
      ∀ key operation userId, userId ≠ operation.userId →
        (reacted userId ((react after operation).reactions key) ↔
          reacted userId (after.reactions key)) := by
  refine ⟨fun key row hrow => ?_, fun key userId => ?_, fun key operation userId hother => ?_⟩
  · obtain ⟨hdistinct, hcount⟩ := (reactions_foldl tables operations key).1 row hrow
    exact ⟨hdistinct, hcount⟩
  · exact (reactions_foldl tables operations key).2 userId
  · rw [reactions_react]
    split
    · rw [(reactionAfter_spec (reactions_foldl tables operations key).1).2, if_neg hother]
    · rfl

end Operations

end FlareIm.OperationStore
