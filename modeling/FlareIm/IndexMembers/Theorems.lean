import FlareIm.GatewaySweep.Invariant
import FlareIm.IndexMembers

namespace FlareIm.IndexMembers

open Framed SessionStore GatewaySweep

section Members

variable {tenantId userId deviceId sessionField member : String}

theorem toList_toString_utf8ByteSize (text : String) :
    (toString text.utf8ByteSize).toList = Nat.toDigits 10 (byteLength text.toList) := by
  rw [byteLength_toList]
  simp [Nat.repr]

theorem gatewayMember_eq (tenantId userId sessionField : String) :
    gatewayMember tenantId userId sessionField =
      connectionMember tenantId userId sessionField := by
  rw [← String.toList_inj]
  simp only [gatewayMember, connectionMember, String.toList_ofList, String.toList_append,
    toList_toString_utf8ByteSize, frame, List.append_assoc]
  rfl

theorem toList_ne_nil {text : String} (h : text ≠ "") : text.toList ≠ [] :=
  fun hn => h (String.toList_eq_nil_iff.mp hn)

theorem parseTenantSessionMember_member (hu : userId ≠ "") (hde : deviceId ≠ "")
    (hl : userId.utf8ByteSize < 2 ^ 64) :
    parseTenantSessionMember (tenantSessionMember userId deviceId) = some (userId, deviceId) := by
  have hc : (tenantSessionMember userId deviceId).toList =
      'v' :: '2' :: ':' :: frame userId.toList deviceId.toList := by
    simp [tenantSessionMember]
  rw [← byteLength_toList] at hl
  have hf : userId.toList ≠ [] ∧ deviceId.toList ≠ [] :=
    ⟨toList_ne_nil hu, toList_ne_nil hde⟩
  unfold parseTenantSessionMember
  rw [hc]
  simp only [unframe_frame hl, Option.bind_some, if_pos hf, String.ofList_toList]

-- The text of a member whose length of the user may be spelled in several ways.
def SpellsTenantSession (member userId deviceId : String) : Prop :=
  ∃ length, parseUsize length = some userId.utf8ByteSize ∧
    member.toList = "v2:".toList ++ (length ++ ':' :: (userId.toList ++ ':' :: deviceId.toList))

def SpellsConnection (member tenantId userId sessionField : String) : Prop :=
  ∃ tenantLength userLength, parseUsize tenantLength = some tenantId.utf8ByteSize ∧
    parseUsize userLength = some userId.utf8ByteSize ∧
    member.toList = "v1:".toList ++ (tenantLength ++ ':' :: (tenantId.toList ++ ':' ::
      (userLength ++ ':' :: (userId.toList ++ ':' :: sessionField.toList))))

theorem parseTenantSessionMember_eq_some_iff :
    parseTenantSessionMember member = some (userId, deviceId) ↔
      userId ≠ "" ∧ deviceId ≠ "" ∧ SpellsTenantSession member userId deviceId := by
  constructor
  · intro h
    unfold parseTenantSessionMember at h
    split at h
    · rename_i rest hc
      obtain ⟨⟨user, device⟩, hfr, hf⟩ := Option.bind_eq_some_iff.mp h
      dsimp only at hf
      split at hf
      · rename_i hn
        obtain ⟨rfl, rfl⟩ := Prod.mk.inj (Option.some.inj hf)
        obtain ⟨length, hl, rfl⟩ := unframe_eq_some_iff.mp hfr
        refine ⟨fun hni => hn.1 (by simpa using hni),
          fun hni => hn.2 (by simpa using hni), length, ?_, ?_⟩
        · rw [← byteLength_toList, String.toList_ofList]
          exact hl
        · simp only [hc, String.toList_ofList]
          rfl
      · cases hf
    · cases h
  · rintro ⟨hu, hde, length, hl, hc⟩
    rw [← byteLength_toList] at hl
    have hfr : unframe (length ++ ':' :: (userId.toList ++ ':' :: deviceId.toList)) =
        some (userId.toList, deviceId.toList) := unframe_eq_some_iff.mpr ⟨length, hl, rfl⟩
    have hf : userId.toList ≠ [] ∧ deviceId.toList ≠ [] :=
      ⟨toList_ne_nil hu, toList_ne_nil hde⟩
    have hs : member.toList = 'v' :: '2' :: ':' ::
        (length ++ ':' :: (userId.toList ++ ':' :: deviceId.toList)) := hc
    unfold parseTenantSessionMember
    rw [hs]
    simp only [hfr, Option.bind_some, if_pos hf, String.ofList_toList]

theorem parseConnectionMember_eq_some_iff :
    parseConnectionMember member = some ⟨tenantId, userId, sessionField⟩ ↔
      tenantId ≠ "" ∧ userId ≠ "" ∧ sessionField ≠ "" ∧
        SpellsConnection member tenantId userId sessionField := by
  constructor
  · intro h
    unfold parseConnectionMember at h
    split at h
    · rename_i rest hc
      obtain ⟨⟨tenant, behind⟩, ht, hb⟩ := Option.bind_eq_some_iff.mp h
      obtain ⟨⟨user, field⟩, hu, hf⟩ := Option.bind_eq_some_iff.mp hb
      dsimp only at hf
      split at hf
      · rename_i hn
        obtain ⟨rfl, rfl, rfl⟩ := ConnectionMember.mk.inj (Option.some.inj hf)
        obtain ⟨tenantLength, hte, rfl⟩ := unframe_eq_some_iff.mp ht
        obtain ⟨userLength, hus, rfl⟩ := unframe_eq_some_iff.mp hu
        refine ⟨fun hni => hn.1 (by simpa using hni), fun hni => hn.2.1 (by simpa using hni),
          fun hni => hn.2.2 (by simpa using hni), tenantLength, userLength, ?_, ?_, ?_⟩
        · rw [← byteLength_toList, String.toList_ofList]
          exact hte
        · rw [← byteLength_toList, String.toList_ofList]
          exact hus
        · simp only [hc, String.toList_ofList]
          rfl
      · cases hf
    · cases h
  · rintro ⟨ht, hu, hfi, tenantLength, userLength, hte, hus, hc⟩
    rw [← byteLength_toList] at hte hus
    have hin : unframe (userLength ++ ':' :: (userId.toList ++ ':' :: sessionField.toList)) =
        some (userId.toList, sessionField.toList) :=
      unframe_eq_some_iff.mpr ⟨userLength, hus, rfl⟩
    have ho (behind : List Char) : unframe (tenantLength ++ ':' ::
        (tenantId.toList ++ ':' :: behind)) = some (tenantId.toList, behind) :=
      unframe_eq_some_iff.mpr ⟨tenantLength, hte, rfl⟩
    have hf : tenantId.toList ≠ [] ∧ userId.toList ≠ [] ∧ sessionField.toList ≠ [] :=
      ⟨toList_ne_nil ht, toList_ne_nil hu, toList_ne_nil hfi⟩
    have hs : member.toList = 'v' :: '1' :: ':' :: (tenantLength ++ ':' ::
        (tenantId.toList ++ ':' ::
          (userLength ++ ':' :: (userId.toList ++ ':' :: sessionField.toList)))) := hc
    unfold parseConnectionMember
    rw [hs]
    simp only [parseFields, ho, hin, Option.bind_some, if_pos hf, String.ofList_toList]

end Members

section Script

variable {tenantId userId sessionField : String}

theorem scriptLength_eq {text : String} (h : text.utf8ByteSize ≤ REDIS_ARGUMENT_BYTES) :
    scriptLength text.toByteArray = (toString text.utf8ByteSize).toByteArray := by
  have hlt : text.utf8ByteSize < 10 ^ LuaNumber.SIGNIFICANT_DIGITS :=
    Nat.lt_of_le_of_lt h (by decide)
  unfold scriptLength
  rw [String.size_toByteArray, LuaNumber.text_of_lt hlt]

theorem scriptGatewayMember_eq (ht : tenantId.utf8ByteSize ≤ REDIS_ARGUMENT_BYTES)
    (hu : userId.utf8ByteSize ≤ REDIS_ARGUMENT_BYTES) :
    scriptGatewayMember userId.toByteArray tenantId.toByteArray sessionField.toByteArray =
      (connectionMember tenantId userId sessionField).toByteArray := by
  simp only [scriptGatewayMember, connectionMember, scriptLength_eq ht,
    scriptLength_eq hu, String.toByteArray_append]

end Script

-- The members of both indexes are read back, told apart and never misread, and the script writes
-- the same ones.
theorem index_members_are_faithful :
    (∀ userId deviceId : String, userId ≠ "" → deviceId ≠ "" → userId.utf8ByteSize < 2 ^ 64 →
      parseTenantSessionMember (tenantSessionMember userId deviceId) = some (userId, deviceId)) ∧
    (∀ tenantId userId sessionField : String, tenantId ≠ "" → userId ≠ "" → sessionField ≠ "" →
      tenantId.utf8ByteSize < 2 ^ 64 → userId.utf8ByteSize < 2 ^ 64 →
      parseConnectionMember (connectionMember tenantId userId sessionField) =
        some ⟨tenantId, userId, sessionField⟩) ∧
    (∀ userId deviceId otherUser otherDevice : String,
      tenantSessionMember userId deviceId = tenantSessionMember otherUser otherDevice →
      userId = otherUser ∧ deviceId = otherDevice) ∧
    (∀ tenantId userId field otherTenant otherUser otherField : String,
      connectionMember tenantId userId field = connectionMember otherTenant otherUser otherField →
      tenantId = otherTenant ∧ userId = otherUser ∧ field = otherField) ∧
    (∀ member userId deviceId : String,
      parseTenantSessionMember member = some (userId, deviceId) ↔
        userId ≠ "" ∧ deviceId ≠ "" ∧ SpellsTenantSession member userId deviceId) ∧
    (∀ member tenantId userId sessionField : String,
      parseConnectionMember member = some ⟨tenantId, userId, sessionField⟩ ↔
        tenantId ≠ "" ∧ userId ≠ "" ∧ sessionField ≠ "" ∧
          SpellsConnection member tenantId userId sessionField) ∧
    ∀ tenantId userId sessionField : String, tenantId.utf8ByteSize ≤ REDIS_ARGUMENT_BYTES →
      userId.utf8ByteSize ≤ REDIS_ARGUMENT_BYTES →
      scriptGatewayMember userId.toByteArray tenantId.toByteArray sessionField.toByteArray =
        (connectionMember tenantId userId sessionField).toByteArray := by
  refine ⟨?_, ?_, ?_, ?_, ?_, ?_, ?_⟩
  · intro userId deviceId huser hdevice hlength
    exact parseTenantSessionMember_member huser hdevice hlength
  · intro tenantId userId sessionField htenant huser hfield htenantLength huserLength
    rw [← gatewayMember_eq]
    exact parseConnectionMember_gatewayMember htenant huser hfield htenantLength huserLength
  · intro userId deviceId otherUser otherDevice h
    exact tenantSessionMember_inj.mp h
  · intro tenantId userId field otherTenant otherUser otherField h
    rw [← gatewayMember_eq, ← gatewayMember_eq] at h
    exact gatewayMember_inj.mp h
  · intro member userId deviceId
    exact parseTenantSessionMember_eq_some_iff
  · intro member tenantId userId sessionField
    exact parseConnectionMember_eq_some_iff
  · intro tenantId userId sessionField htenant huser
    exact scriptGatewayMember_eq htenant huser

theorem index_members_of_colon_and_accent :
    parseTenantSessionMember (tenantSessionMember "u:é:" "d:1") = some ("u:é:", "d:1") ∧
    parseConnectionMember (connectionMember "acme" "u:é:" "s1") = some ⟨"acme", "u:é:", "s1"⟩ ∧
    scriptGatewayMember "u:é:".toByteArray "acme".toByteArray "s1".toByteArray =
      (connectionMember "acme" "u:é:" "s1").toByteArray := by
  obtain ⟨hsession, hconnection, -, -, -, -, hscript⟩ := index_members_are_faithful
  exact ⟨hsession _ _ (by decide) (by decide) (by decide),
    hconnection _ _ _ (by decide) (by decide) (by decide) (by decide) (by decide),
    hscript _ _ _ (by decide) (by decide)⟩

end FlareIm.IndexMembers
