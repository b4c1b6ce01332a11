import FlareIm.Lib.Initial
import FlareIm.SessionStore.Theorems
import Mathlib.Data.Finset.Max
import Mathlib.Data.List.Induction

namespace FlareIm.SessionStore

open Initial

section Rules

variable (new : RedisConnectionRecord) (strategy : DeviceConflictStrategy)
  (records : List RedisConnectionRecord)

-- A session of another device that the strategy does not let stand beside the new one.
def RulesOut : DeviceConflictStrategy → RedisConnectionRecord → Prop
  | .exclusive, _ => True
  | .platformExclusive, record => record.devicePlatform = new.devicePlatform
  | .coexist, _ => False

instance (record : RedisConnectionRecord) : Decidable (RulesOut new strategy record) :=
  match strategy with
  | .exclusive => .isTrue trivial
  | .platformExclusive => inferInstanceAs (Decidable (_ = _))
  | .coexist => .isFalse id

-- Why a device goes, when those of the set go for want of room.
def verdict (overCap : Finset String) (deviceId : String) : Option EvictionCause :=
  if deviceId = new.deviceId then some .replaced
  else if ∃ record ∈ records, record.deviceId = deviceId ∧ RulesOut new strategy record then
    some .deviceConflict
  else if deviceId ∈ overCap then some .deviceCap
  else none

def deviceIds : Finset String := (records.map (·.deviceId)).toFinset

-- The devices that neither are the new session's nor conflict with it.
def unopposed : Finset String :=
  (deviceIds records).filter fun deviceId => verdict new strategy records ∅ deviceId = none

-- The time the first of a device's sessions was created at.
def FirstSeen (deviceId : String) (time : Int) : Prop :=
  (∃ record ∈ records, record.deviceId = deviceId ∧ record.createdAt = time) ∧
    ∀ record ∈ records, record.deviceId = deviceId → time ≤ record.createdAt

def Older (deviceId other : String) : Prop :=
  ∃ time time', FirstSeen records deviceId time ∧ FirstSeen records other time' ∧
    (time < time' ∨ time = time' ∧ deviceId < other)

-- The oldest of the unopposed devices, so many that the others and the new session's device
-- are within the cap.
structure Overflow (cap : Nat) (overCap : Finset String) : Prop where
  oldest : IsInitial (Older records) (unopposed new strategy records) overCap
  count : overCap.card = if cap = 0 then 0 else (unopposed new strategy records).card + 1 - cap

end Rules

section Conflicts

variable {new : RedisConnectionRecord} {strategy : DeviceConflictStrategy}
  {records : List RedisConnectionRecord} {deviceId : String}

theorem FirstSeen.unique {time time' : Int} (h : FirstSeen records deviceId time)
    (h' : FirstSeen records deviceId time') : time = time' := by
  obtain ⟨⟨record, hm, hde, rfl⟩, hf⟩ := h
  obtain ⟨⟨record', hm', hde', rfl⟩, hf'⟩ := h'
  have hle := hf record' hm' hde'
  have hge := hf' record hm hde
  omega

instance : Std.Asymm (Older records) where
  asymm a b := by
    rintro ⟨s, t, ha, hb, hab⟩ ⟨t', s', hb', ha', hba⟩
    obtain rfl := ha.unique ha'
    obtain rfl := hb.unique hb'
    rcases hab with hlt | ⟨rfl, hlt⟩
    · rcases hba with hlt' | ⟨rfl, -⟩
      · omega
      · omega
    · rcases hba with hlt' | ⟨-, hlt'⟩
      · omega
      · exact lt_asymm hlt hlt'

theorem Overflow.unique {cap : Nat} {overCap other : Finset String}
    (h : Overflow new strategy records cap overCap)
    (h' : Overflow new strategy records cap other) : overCap = other :=
  h.oldest.unique h'.oldest (h.count.trans h'.count.symm)

theorem conflictCause_eq (record : RedisConnectionRecord) :
    conflictCause new strategy record = if record.deviceId = new.deviceId then some .replaced
      else if RulesOut new strategy record then some .deviceConflict
      else none := by
  unfold conflictCause
  split
  · rfl
  · cases strategy with
    | exclusive | platformExclusive | coexist => rfl

theorem cause_cons (removed : RemovedDevices) (device : String × EvictionCause) :
    RemovedDevices.cause (device :: removed) deviceId =
      if deviceId = device.1 then some device.2 else removed.cause deviceId := by
  obtain ⟨id, cause⟩ := device
  unfold RemovedDevices.cause
  by_cases h : deviceId = id
  · simp [h]
  · have hne : (deviceId == id) = false := by simpa using h
    simp [List.lookup_cons, h, hne]

theorem conflictingDevices_append (record : RedisConnectionRecord) :
    conflictingDevices new strategy (records ++ [record]) =
      match conflictCause new strategy record with
      | some cause => (record.deviceId, cause) :: conflictingDevices new strategy records
      | none => conflictingDevices new strategy records := by
  unfold conflictingDevices
  rw [List.foldl_append]
  rfl

theorem cause_conflicting_eq : (conflictingDevices new strategy records).cause deviceId =
      if ∃ record ∈ records, record.deviceId = deviceId ∧
          (deviceId = new.deviceId ∨ RulesOut new strategy record) then
        some (if deviceId = new.deviceId then .replaced else .deviceConflict)
      else none := by
  induction records using List.reverseRecOn with
  | nil => simp [conflictingDevices, RemovedDevices.cause]
  | append_singleton records record ih =>
    rw [conflictingDevices_append, conflictCause_eq]
    by_cases hde : deviceId = record.deviceId
    · subst hde
      by_cases hs : record.deviceId = new.deviceId
      · simp [hs, cause_cons]
      · by_cases hr : RulesOut new strategy record
        · simp [hs, hr, cause_cons]
        · simp [hs, hr, ih]
    · have ho : (∃ other ∈ records ++ [record], other.deviceId = deviceId ∧
          (deviceId = new.deviceId ∨ RulesOut new strategy other)) ↔
          ∃ other ∈ records, other.deviceId = deviceId ∧
            (deviceId = new.deviceId ∨ RulesOut new strategy other) := by
        simp [Ne.symm hde]
      simp only [ho]
      rw [← ih]
      split
      · rw [cause_cons, if_neg hde]
      · rfl

theorem mem_deviceIds : deviceId ∈ deviceIds records ↔
    ∃ record ∈ records, record.deviceId = deviceId := by
  simp [deviceIds]

theorem cause_conflicting (hm : deviceId ∈ deviceIds records) :
    (conflictingDevices new strategy records).cause deviceId =
      verdict new strategy records ∅ deviceId := by
  obtain ⟨record, hr, hde⟩ := mem_deviceIds.mp hm
  rw [cause_conflicting_eq, verdict]
  by_cases hs : deviceId = new.deviceId
  · have ha : ∃ record ∈ records, record.deviceId = deviceId ∧
        (deviceId = new.deviceId ∨ RulesOut new strategy record) :=
      ⟨record, hr, hde, .inl hs⟩
    rw [if_pos ha, if_pos hs, if_pos hs]
  · simp [hs]

end Conflicts

section Devices

variable {records : List RedisConnectionRecord} {deviceId : String} {time : Int}

theorem devicesOf_append (record : RedisConnectionRecord) :
    devicesOf (records ++ [record]) = noteDevice (devicesOf records) record := by
  unfold devicesOf
  rw [List.foldl_append]
  rfl

theorem map_fst_noteDevice (devices : List (String × Int)) (record : RedisConnectionRecord) :
    (noteDevice devices record).map Prod.fst =
      if record.deviceId ∈ devices.map Prod.fst then devices.map Prod.fst
      else devices.map Prod.fst ++ [record.deviceId] := by
  have ha : devices.any (·.1 == record.deviceId) = true ↔
      record.deviceId ∈ devices.map Prod.fst := by
    simp only [List.any_eq_true, beq_iff_eq, List.mem_map]
  unfold noteDevice
  by_cases hk : record.deviceId ∈ devices.map Prod.fst
  · rw [if_pos (ha.mpr hk), if_pos hk, List.map_map]
    apply List.map_congr_left
    intro device _
    simp only [Function.comp_apply]
    split <;> rfl
  · rw [if_neg (mt ha.mp hk), if_neg hk]
    simp

theorem nodup_devicesOf : ((devicesOf records).map Prod.fst).Nodup := by
  induction records using List.reverseRecOn with
  | nil => exact List.nodup_nil
  | append_singleton records record ih =>
    rw [devicesOf_append, map_fst_noteDevice]
    split
    · exact ih
    · rename_i hn
      refine List.nodup_append.mpr ⟨ih, List.nodup_singleton _, ?_⟩
      intro a ha b hb
      obtain rfl := List.mem_singleton.mp hb
      exact fun heq => hn (heq ▸ ha)

theorem FirstSeen.append_other (h : FirstSeen records deviceId time)
    {record : RedisConnectionRecord} (hne : record.deviceId ≠ deviceId) :
    FirstSeen (records ++ [record]) deviceId time := by
  obtain ⟨⟨first, hm, hde, ht⟩, hf⟩ := h
  refine ⟨⟨first, List.mem_append_left _ hm, hde, ht⟩, ?_⟩
  intro other ho hs
  rcases List.mem_append.mp ho with hold | hn
  · exact hf other hold hs
  · obtain rfl := List.mem_singleton.mp hn
    exact absurd hs hne

theorem FirstSeen.append_same {record : RedisConnectionRecord}
    (h : FirstSeen records record.deviceId time) :
    FirstSeen (records ++ [record]) record.deviceId (min time record.createdAt) := by
  obtain ⟨⟨first, hm, hde, ht⟩, hf⟩ := h
  constructor
  · rcases le_total time record.createdAt with hle | hle
    · exact ⟨first, List.mem_append_left _ hm, hde, ht.trans (min_eq_left hle).symm⟩
    · exact ⟨record, List.mem_append_right _ (List.mem_singleton_self _), rfl,
        (min_eq_right hle).symm⟩
  · intro other ho hs
    rcases List.mem_append.mp ho with hold | hn
    · exact (min_le_left _ _).trans (hf other hold hs)
    · obtain rfl := List.mem_singleton.mp hn
      exact min_le_right _ _

theorem firstSeen_append_new {record : RedisConnectionRecord}
    (hn : ∀ other ∈ records, other.deviceId ≠ record.deviceId) :
    FirstSeen (records ++ [record]) record.deviceId record.createdAt := by
  refine ⟨⟨record, List.mem_append_right _ (List.mem_singleton_self _), rfl, rfl⟩, ?_⟩
  intro other ho hs
  rcases List.mem_append.mp ho with hold | hl
  · exact absurd hs (hn other hold)
  · obtain rfl := List.mem_singleton.mp hl
    exact le_rfl

theorem firstSeen_of_mem (h : (deviceId, time) ∈ devicesOf records) :
    FirstSeen records deviceId time := by
  induction records using List.reverseRecOn generalizing deviceId time with
  | nil => exact absurd h List.not_mem_nil
  | append_singleton records record ih =>
    rw [devicesOf_append, noteDevice] at h
    split at h
    · obtain ⟨⟨known, earlier⟩, hm, heq⟩ := List.mem_map.mp h
      have hk := ih hm
      dsimp only at heq
      split at heq
      · rename_i hs
        subst hs
        cases heq
        exact hk.append_same
      · rename_i hne
        cases heq
        exact hk.append_other (Ne.symm hne)
    · rename_i hu
      have hnw : ∀ other ∈ records, other.deviceId ≠ record.deviceId := by
        intro other ho hs
        obtain ⟨device, hde, hn⟩ := exists_device ho
        refine hu (List.any_eq_true.mpr ⟨device, hde, ?_⟩)
        simp [hn, hs]
      rcases List.mem_append.mp h with hold | hl
      · have hse := ih hold
        obtain ⟨first, hf, hn, -⟩ := hse.1
        exact hse.append_other fun hs => hnw first hf (hn.trans hs.symm)
      · obtain ⟨rfl, rfl⟩ := Prod.mk.inj (List.mem_singleton.mp hl)
        exact firstSeen_append_new hnw

theorem mem_devicesOf : (deviceId, time) ∈ devicesOf records ↔ FirstSeen records deviceId time := by
  refine ⟨firstSeen_of_mem, fun h => ?_⟩
  obtain ⟨record, hr, hn, -⟩ := h.1
  obtain ⟨⟨device, listed⟩, hde, hs⟩ := exists_device hr
  obtain rfl : device = deviceId := hs.trans hn
  obtain rfl := (firstSeen_of_mem hde).unique h
  exact hde

end Devices

section Oldest

variable {devices : List (String × Int)} {removed : RemovedDevices} {device other : String × Int}

theorem isOlder_iff : isOlder device other = true ↔
    device.2 < other.2 ∨ (device.2 = other.2 ∧ device.1 < other.1) := by
  simp [isOlder]

-- One of two devices is older, unless they are the same.
theorem isOlder_of_not (h : isOlder device other = false) (hne : other ≠ device) :
    isOlder other device = true := by
  have hn : ¬ (device.2 < other.2 ∨ (device.2 = other.2 ∧ device.1 < other.1)) := by
    rw [← isOlder_iff, h]
    exact Bool.false_ne_true
  rw [isOlder_iff]
  rcases lt_trichotomy other.2 device.2 with hlt | heq | hgt
  · exact .inl hlt
  · refine .inr ⟨heq, ?_⟩
    rcases lt_trichotomy other.1 device.1 with hlt | hs | hgt
    · exact hlt
    · exact absurd (Prod.ext hs heq) hne
    · exact absurd (.inr ⟨heq.symm, hgt⟩) hn
  · exact absurd (.inl hgt) hn

theorem isOlder_trans {third : String × Int} (h : isOlder device other = true)
    (h' : isOlder other third = true) : isOlder device third = true := by
  rw [isOlder_iff] at h h' ⊢
  rcases h with hlt | ⟨heq, hlt⟩
  · rcases h' with hlt' | ⟨heq', -⟩
    · exact .inl (hlt.trans hlt')
    · exact .inl (heq' ▸ hlt)
  · rcases h' with hlt' | ⟨heq', hlt'⟩
    · exact .inl (heq ▸ hlt')
    · exact .inr ⟨heq.trans heq', hlt.trans hlt'⟩

theorem oldest_first : ∀ (devices : List (String × Int)) (start : Option (String × Int)),
    devices.foldl (fun oldest device =>
        match oldest with
        | none => some device
        | some other => if isOlder device other then some device else some other) start =
        some device →
      ∀ other, (start = some other ∨ other ∈ devices) → other ≠ device →
        isOlder device other = true := by
  intro devices
  induction devices with
  | nil =>
    intro start h other ho hne
    rcases ho with hs | hm
    · exact absurd (Option.some.inj (hs.symm.trans h)) hne
    · exact absurd hm List.not_mem_nil
  | cons head rest ih =>
    intro start h other ho hne
    rw [List.foldl_cons] at h
    have hl := ih _ h
    have hr (hm : other ∈ rest) : isOlder device other = true :=
      hl other (.inr hm) hne
    cases start with
    | none =>
      rcases ho with hs | hm
      · cases hs
      · rcases List.mem_cons.mp hm with rfl | ht
        · exact hl other (.inl rfl) hne
        · exact hr ht
    | some first =>
      cases hf : isOlder head first with
      | true =>
        simp only [hf, if_true] at hl
        have hh (hne : head ≠ device) : isOlder device head = true :=
          hl head (.inl rfl) hne
        rcases ho with hs | hm
        · cases hs
          by_cases hsa : head = device
          · exact hsa ▸ hf
          · exact isOlder_trans (hh hsa) hf
        · rcases List.mem_cons.mp hm with rfl | ht
          · exact hh hne
          · exact hr ht
      | false =>
        simp only [hf, Bool.false_eq_true, if_false] at hl
        have hs (hne : first ≠ device) : isOlder device first = true :=
          hl first (.inl rfl) hne
        rcases ho with hso | hm
        · cases hso
          exact hs hne
        · rcases List.mem_cons.mp hm with rfl | ht
          · by_cases hsa : first = device
            · exact hsa ▸ isOlder_of_not hf (hsa ▸ hne.symm)
            · by_cases heq : first = other
              · exact heq ▸ hs hsa
              · exact isOlder_trans (hs hsa) (isOlder_of_not hf heq)
          · exact hr ht

end Oldest

section Cap

variable {new : RedisConnectionRecord} {strategy : DeviceConflictStrategy}
  {records : List RedisConnectionRecord} {cap : Nat}

-- How far the loop is: these devices have gone for want of room.
structure Evicting (new : RedisConnectionRecord) (strategy : DeviceConflictStrategy)
    (records : List RedisConnectionRecord) (removed : RemovedDevices) (gone : Finset String) :
    Prop where
  oldest : IsInitial (Older records) (unopposed new strategy records) gone
  cause : ∀ deviceId ∈ deviceIds records,
    removed.cause deviceId = verdict new strategy records gone deviceId
  listed : ∀ deviceId, removed.Has deviceId → deviceId ∈ deviceIds records

theorem mem_unopposed {deviceId : String} : deviceId ∈ unopposed new strategy records ↔
    deviceId ∈ deviceIds records ∧ verdict new strategy records ∅ deviceId = none := by
  simp [unopposed]

theorem verdict_unopposed {gone : Finset String} {deviceId : String}
    (h : verdict new strategy records ∅ deviceId = none) :
    verdict new strategy records gone deviceId =
      if deviceId ∈ gone then some .deviceCap else none := by
  unfold verdict at h ⊢
  by_cases hs : deviceId = new.deviceId
  · simp [hs] at h
  · by_cases hr : ∃ record ∈ records, record.deviceId = deviceId ∧ RulesOut new strategy record
    · simp [hs, hr] at h
    · rw [if_neg hs, if_neg hr]

theorem verdict_opposed {gone : Finset String} {deviceId : String} {cause : EvictionCause}
    (h : verdict new strategy records ∅ deviceId = some cause) :
    verdict new strategy records gone deviceId = some cause := by
  unfold verdict at h ⊢
  by_cases hs : deviceId = new.deviceId
  · simpa [hs] using h
  · by_cases hr : ∃ record ∈ records, record.deviceId = deviceId ∧ RulesOut new strategy record
    · simpa [hs, hr] using h
    · simp [hs, hr] at h

theorem Evicting.mem_remaining {removed : RemovedDevices} {gone : Finset String}
    (h : Evicting new strategy records removed gone) {device : String × Int} :
    device ∈ remainingDevices (devicesOf records) removed ↔
      FirstSeen records device.1 device.2 ∧ device.1 ∈ unopposed new strategy records ∧
        device.1 ∉ gone := by
  rw [remainingDevices, List.mem_filter, Option.isNone_iff_eq_none, ← Prod.mk.eta (p := device),
    mem_devicesOf]
  refine and_congr_right fun hs => ?_
  obtain ⟨record, hr, hn, -⟩ := hs.1
  have hl : device.1 ∈ deviceIds records := mem_deviceIds.mpr ⟨record, hr, hn⟩
  rw [h.cause device.1 hl, mem_unopposed]
  cases hv : verdict new strategy records ∅ device.1 with
  | none => simp [verdict_unopposed hv, hl]
  | some cause => simp [verdict_opposed hv]

theorem exists_firstSeen {deviceId : String} (h : deviceId ∈ deviceIds records) :
    ∃ time, FirstSeen records deviceId time := by
  obtain ⟨record, hr, hn⟩ := mem_deviceIds.mp h
  obtain ⟨⟨device, time⟩, hde, hs⟩ := exists_device hr
  obtain rfl : device = deviceId := hs.trans hn
  exact ⟨time, firstSeen_of_mem hde⟩

theorem Evicting.length_remaining {removed : RemovedDevices} {gone : Finset String}
    (h : Evicting new strategy records removed gone) :
    (remainingDevices (devicesOf records) removed).length + gone.card =
      (unopposed new strategy records).card := by
  have hn : ((remainingDevices (devicesOf records) removed).map Prod.fst).Nodup :=
    nodup_devicesOf.sublist (List.filter_sublist.map Prod.fst)
  have hna : ((remainingDevices (devicesOf records) removed).map Prod.fst).toFinset =
      unopposed new strategy records \ gone := by
    ext deviceId
    simp only [List.mem_toFinset, List.mem_map, Finset.mem_sdiff]
    constructor
    · rintro ⟨device, hde, rfl⟩
      exact (h.mem_remaining.mp hde).2
    · rintro ⟨hm, hs⟩
      obtain ⟨time, hse⟩ := exists_firstSeen (mem_unopposed.mp hm).1
      exact ⟨(deviceId, time), h.mem_remaining.mpr ⟨hse, hm, hs⟩, rfl⟩
  have hl := List.toFinset_card_of_nodup hn
  rw [hna, List.length_map] at hl
  rw [← hl]
  exact Finset.card_sdiff_add_card_eq_card h.oldest.subset

theorem Evicting.evict {removed : RemovedDevices} {gone : Finset String} {device : String × Int}
    (h : Evicting new strategy records removed gone)
    (hol : oldestDevice (devicesOf records) removed = some device) : device.1 ∉ gone ∧
      Evicting new strategy records ((device.1, .deviceCap) :: removed) (insert device.1 gone) := by
  have hm : device ∈ remainingDevices (devicesOf records) removed :=
    (oldest_mem _ none hol).resolve_left (by simp)
  obtain ⟨hse, hu, hs⟩ := h.mem_remaining.mp hm
  refine ⟨hs, h.oldest.insert hu ?_, ?_, ?_⟩
  · intro other ho hou hne
    obtain ⟨time, ho'⟩ := exists_firstSeen (mem_unopposed.mp ho).1
    have hlf : (other, time) ∈ remainingDevices (devicesOf records) removed :=
      h.mem_remaining.mpr ⟨ho', ho, hou⟩
    have hne' : (other, time) ≠ device := fun heq => hne (congrArg Prod.fst heq)
    have holder := oldest_first _ none hol (other, time) (.inr hlf) hne'
    exact ⟨device.2, time, hse, ho', isOlder_iff.mp holder⟩
  · intro deviceId hl
    rw [cause_cons]
    split
    · rename_i hsa
      subst hsa
      rw [verdict_unopposed (mem_unopposed.mp hu).2, if_pos (Finset.mem_insert_self _ _)]
    · rename_i hne
      rw [h.cause deviceId hl]
      cases hv : verdict new strategy records ∅ deviceId with
      | none => simp [verdict_unopposed hv, hne]
      | some cause => rw [verdict_opposed hv, verdict_opposed hv]
  · intro deviceId hh
    rcases (has_cons _ _ _).mp hh with rfl | hold
    · exact (mem_unopposed.mp hu).1
    · exact h.listed deviceId hold

-- The loop goes on until there is room for one more below the cap.
theorem Evicting.evictOverCap (hcp : 0 < cap) : ∀ (remaining : Nat) {removed : RemovedDevices}
    {gone : Finset String}, Evicting new strategy records removed gone →
      remaining + gone.card = (unopposed new strategy records).card →
        ∃ overCap, Evicting new strategy records
          (evictOverCap (devicesOf records) cap remaining removed) overCap ∧
            overCap.card = max gone.card ((unopposed new strategy records).card + 1 - cap) := by
  intro remaining
  induction remaining with
  | zero =>
    intro removed gone h hc
    exact ⟨gone, h, by omega⟩
  | succ remaining ih =>
    intro removed gone h hc
    rw [SessionStore.evictOverCap]
    split
    · have hl := h.length_remaining
      cases ho : oldestDevice (devicesOf records) removed with
      | none =>
        have hem : remainingDevices (devicesOf records) removed = [] :=
          oldest_none none ho
        rw [hem, List.length_nil] at hl
        omega
      | some device =>
        obtain ⟨hnw, hn⟩ := h.evict ho
        have hca : (insert device.1 gone).card = gone.card + 1 :=
          Finset.card_insert_of_notMem hnw
        obtain ⟨overCap, hev, hov⟩ := ih hn (by omega)
        exact ⟨overCap, hev, by omega⟩
    · exact ⟨gone, h, by omega⟩

theorem evicting_conflicting :
    Evicting new strategy records (conflictingDevices new strategy records) ∅ where
  oldest := isInitial_empty
  cause _ hm := cause_conflicting hm
  listed deviceId hh := by
    rw [RemovedDevices.Has, cause_conflicting_eq] at hh
    split at hh
    · rename_i ha
      obtain ⟨record, hr, hn, -⟩ := ha
      exact mem_deviceIds.mpr ⟨record, hr, hn⟩
    · cases hh

theorem removedDevices_spec (new : RedisConnectionRecord) (strategy : DeviceConflictStrategy)
    (cap : Nat) (records : List RedisConnectionRecord) :
    ∃ overCap, Overflow new strategy records cap overCap ∧
      Evicting new strategy records (removedDevices new strategy cap records) overCap := by
  have hs := @evicting_conflicting new strategy records
  by_cases hc : 0 < cap
  · have hco := hs.length_remaining
    obtain ⟨overCap, hev, hca⟩ := hs.evictOverCap hc _ hco
    refine ⟨overCap, ⟨hev.oldest, ?_⟩, ?_⟩
    · rw [hca, if_neg hc.ne', Finset.card_empty, Nat.zero_max]
    · rw [removedDevices, if_pos hc]
      exact hev
  · refine ⟨∅, ⟨hs.oldest, ?_⟩, ?_⟩
    · rw [if_pos (by omega), Finset.card_empty]
    · rw [removedDevices, if_neg hc]
      exact hs

end Cap

section Listings

variable {new : RedisConnectionRecord} {strategy : DeviceConflictStrategy}
  {records others : List RedisConnectionRecord} {cap : Nat} {overCap : Finset String}

theorem verdict_congr (h : ∀ record, record ∈ records ↔ record ∈ others) :
    verdict new strategy records = verdict new strategy others := by
  funext overCap deviceId
  simp only [verdict, h]

theorem deviceIds_congr (h : ∀ record, record ∈ records ↔ record ∈ others) :
    deviceIds records = deviceIds others := by
  ext deviceId
  simp only [mem_deviceIds, h]

theorem unopposed_congr (h : ∀ record, record ∈ records ↔ record ∈ others) :
    unopposed new strategy records = unopposed new strategy others := by
  simp only [unopposed, deviceIds_congr h, verdict_congr h]

theorem older_congr (h : ∀ record, record ∈ records ↔ record ∈ others) :
    Older records = Older others := by
  funext deviceId other
  simp only [Older, FirstSeen, h]

theorem Overflow.congr (ho : Overflow new strategy records cap overCap)
    (h : ∀ record, record ∈ records ↔ record ∈ others) :
    Overflow new strategy others cap overCap where
  oldest := by
    rw [← older_congr h, ← unopposed_congr h]
    exact ho.oldest
  count := by
    rw [← unopposed_congr h]
    exact ho.count

end Listings

end FlareIm.SessionStore
