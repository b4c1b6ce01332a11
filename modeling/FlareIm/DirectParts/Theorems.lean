import FlareIm.DirectParts
import FlareIm.Lib.Replacing
import FlareIm.Lib.Slices
import Mathlib.Algebra.BigOperators.Ring.Finset

namespace FlareIm.DirectParts

open DirectUpload (DirectUploadTransportKind UploadedPartRecord)
open SignedWord

section Statement

variable (session : UploadSession)

def UploadSession.partCount : Nat := (session.totalParts.getD 0).toNat

def UploadSession.partNumbers : List UInt32 :=
  (List.range session.partCount).map fun index => UInt32.ofNat (index + 1)

-- The parts of a session make up a file of a size.
structure PartsExact (size : Int64) : Prop where
  -- the count is that of the integers
  count : session.partCount = size.toInt.toNat ⌈/⌉ session.chunkSize.toInt.toNat
  defined_iff : ∀ number, (directPartLength session number).isOk = true ↔
    1 ≤ number.toNat ∧ number.toNat ≤ session.partCount
  bounded : ∀ number length, directPartLength session number = .ok length →
    0 < length ∧ length ≤ session.chunkSize
  sum : ∃ lengths : List Int64,
    session.partNumbers.map (directPartLength session) = lengths.map .ok ∧
      (lengths.map Int64.toInt).sum = size.toInt

-- Of the parts that are merged into a session, the last one of each number is committed.
structure MergesExact (parts : List UploadedPartRecord) : Prop where
  ordered : (parts.foldl mergeUploadedPart session).uploadedParts.Pairwise fun part other =>
    part.partNumber < other.partNumber
  last : ∀ part, part ∈ (parts.foldl mergeUploadedPart session).uploadedParts ↔
    parts.reverse.find? (fun other => other.partNumber = part.partNumber) = some part
  accepted_iff : ensureAllPartsCommitted (parts.foldl mergeUploadedPart session) = .ok () ↔
    ∀ number, 1 ≤ number → number ≤ session.partCount →
      ∃ part ∈ (parts.foldl mergeUploadedPart session).uploadedParts, part.partNumber = number

-- The sum behind the part count is no overflow, and the count is a `u32`.
def Fits (maxChunkSizeBytes fileSize desiredPartSize : Int64) : Prop :=
  let part := partSize maxChunkSizeBytes fileSize desiredPartSize
  transportKind fileSize = .multipartPut →
    fileSize.toInt + part.toInt < 2 ^ 63 ∧
      fileSize.toInt.toNat ⌈/⌉ part.toInt.toNat < 2 ^ 32

end Statement

section Lengths

variable {session : UploadSession} {size : Int64}

theorem toInt_nonneg_toNat {a : Int64} (h : 0 < a.toInt) : (a.toInt.toNat : Int) = a.toInt :=
  Int.toNat_of_nonneg (by omega)

def partSlice (session : UploadSession) (size : Int64) (number : UInt32) : Nat :=
  Slices.slice session.chunkSize.toInt.toNat size.toInt.toNat (number.toNat - 1)

theorem directPartLength_spec (hs : session.totalSize = some size) (hnn : 0 ≤ size.toInt)
    (hc : 0 < session.chunkSize.toInt) (number : UInt32) :
    if number = 0 ∨ partSlice session size number = 0 then
      (directPartLength session number).isOk = false
    else ∃ length, directPartLength session number = .ok length ∧
      length.toInt = partSlice session size number := by
  have hsi := size.toInt_lt
  have hch := session.chunkSize.toInt_lt
  have hin : (Int64.ofNat (number.toNat - 1)).toInt = (number.toNat - 1 : Nat) := by
    have hlt := number.toNat_lt
    exact Int64.toInt_ofNat_of_lt (by omega)
  have ho : (saturatingMul (Int64.ofNat (number.toNat - 1)) session.chunkSize).toInt =
      min (((number.toNat - 1) * session.chunkSize.toInt.toNat : Nat) : Int) (2 ^ 63 - 1) := by
    rw [saturatingMul, toInt_saturate, hin, Nat.cast_mul, toInt_nonneg_toNat hc]
    have hp : 0 ≤ ((number.toNat - 1 : Nat) : Int) * session.chunkSize.toInt :=
      Int.mul_nonneg (by omega) (by omega)
    omega
  have hl : (min (saturatingSub size
      (saturatingMul (Int64.ofNat (number.toNat - 1)) session.chunkSize)) session.chunkSize).toInt =
      min (size.toInt - min (((number.toNat - 1) * session.chunkSize.toInt.toNat : Nat) : Int)
        (2 ^ 63 - 1)) session.chunkSize.toInt := by
    rw [toInt_min, saturatingSub, toInt_saturate, ho]
    omega
  have hsl : partSlice session size number = min session.chunkSize.toInt.toNat
      (size.toInt.toNat - (number.toNat - 1) * session.chunkSize.toInt.toNat) := rfl
  have hn : min (saturatingSub size (saturatingMul (Int64.ofNat (number.toNat - 1))
      session.chunkSize)) session.chunkSize ≤ 0 ↔ partSlice session size number = 0 := by
    rw [Int64.le_iff_toInt_le, hl, hsl, Int64.toInt_zero]
    omega
  split
  · rename_i hno
    simp only [directPartLength, hs, Option.getD_some, hn, if_pos hno]
    rfl
  · rename_i hso
    refine ⟨min (saturatingSub size (saturatingMul (Int64.ofNat (number.toNat - 1))
      session.chunkSize)) session.chunkSize, ?_, ?_⟩
    · simp only [directPartLength, hs, Option.getD_some, hn, if_neg hso]
    · rw [hl]
      omega

theorem uint32_eq_zero_iff (number : UInt32) : number = 0 ↔ number.toNat = 0 := by
  rw [← UInt32.toNat_inj]
  rfl

theorem isOk_directPartLength (hsi : session.totalSize = some size) (hp : 0 < size.toInt)
    (hc : 0 < session.chunkSize.toInt) (number : UInt32) :
    (directPartLength session number).isOk = true ↔ 1 ≤ number.toNat ∧
        number.toNat ≤ size.toInt.toNat ⌈/⌉ session.chunkSize.toInt.toNat := by
  have hs := directPartLength_spec hsi (le_of_lt hp) hc number
  have hsl : 0 < partSlice session size number ↔
      number.toNat - 1 < size.toInt.toNat ⌈/⌉ session.chunkSize.toInt.toNat :=
    Slices.slice_pos_iff (by omega)
  have hz := uint32_eq_zero_iff number
  split at hs
  · rename_i hno
    rw [hz] at hno
    rw [hs]
    constructor
    · nofun
    · intro h
      omega
  · rename_i hso
    obtain ⟨length, hok, -⟩ := hs
    rw [hz] at hso
    rw [hok]
    constructor
    · intro _
      omega
    · intro _
      rfl

theorem bounded_directPartLength (hsi : session.totalSize = some size) (hp : 0 < size.toInt)
    (hc : 0 < session.chunkSize.toInt) {number : UInt32} {length : Int64}
    (hok : directPartLength session number = .ok length) :
    0 < length ∧ length ≤ session.chunkSize := by
  have hs := directPartLength_spec hsi (le_of_lt hp) hc number
  split at hs
  · rw [hok] at hs
    cases hs
  · rename_i hso
    obtain ⟨_, hl, hsl⟩ := hs
    rw [hok] at hl
    cases hl
    have hle : partSlice session size number ≤ session.chunkSize.toInt.toNat :=
      Slices.slice_le _
    rw [Int64.lt_iff_toInt_lt, Int64.le_iff_toInt_le, hsl, Int64.toInt_zero]
    omega

theorem sum_directPartLength (hsi : session.totalSize = some size) (hp : 0 < size.toInt)
    (hch : 0 < session.chunkSize.toInt)
    (hc : session.partCount = size.toInt.toNat ⌈/⌉ session.chunkSize.toInt.toNat) :
    ∃ lengths : List Int64, session.partNumbers.map (directPartLength session) = lengths.map .ok ∧
        (lengths.map Int64.toInt).sum = size.toInt := by
  have hco : session.partCount < 2 ^ 32 := UInt32.toNat_lt _
  have hpa : ∀ index ∈ List.range session.partCount, ∃ length,
      directPartLength session (UInt32.ofNat (index + 1)) = .ok length ∧ length.toInt =
        Slices.slice session.chunkSize.toInt.toNat size.toInt.toNat index := by
    intro index hin
    have hlt := List.mem_range.mp hin
    have hn : (UInt32.ofNat (index + 1)).toNat = index + 1 :=
      UInt32.toNat_ofNat_of_lt (Nat.lt_of_le_of_lt (by omega) hco)
    have hs := directPartLength_spec hsi (le_of_lt hp) hch (UInt32.ofNat (index + 1))
    have hsl : 0 < Slices.slice session.chunkSize.toInt.toNat size.toInt.toNat index :=
      (Slices.slice_pos_iff (by omega)).mpr (hc ▸ hlt)
    have hso : ¬(UInt32.ofNat (index + 1) = 0 ∨
        partSlice session size (UInt32.ofNat (index + 1)) = 0) := by
      rw [uint32_eq_zero_iff, partSlice, hn, Nat.add_sub_cancel]
      omega
    rw [if_neg hso, partSlice, hn, Nat.add_sub_cancel] at hs
    exact hs
  have hl : ∀ index ∈ List.range session.partCount,
      directPartLength session (UInt32.ofNat (index + 1)) = .ok (Int64.ofNat
        (Slices.slice session.chunkSize.toInt.toNat size.toInt.toNat index)) ∧
      (Int64.ofNat (Slices.slice session.chunkSize.toInt.toNat size.toInt.toNat index)).toInt =
        Slices.slice session.chunkSize.toInt.toNat size.toInt.toNat index := by
    intro index hin
    obtain ⟨length, hok, hln⟩ := hpa index hin
    have hlt := length.toInt_lt
    have hw := Int64.toInt_ofNat_of_lt
      (by omega : Slices.slice session.chunkSize.toInt.toNat size.toInt.toNat index < 2 ^ 63)
    refine ⟨?_, hw⟩
    rw [hok, Int64.toInt_inj.mp (hln.trans hw.symm)]
  refine ⟨(List.range session.partCount).map fun index =>
    Int64.ofNat (Slices.slice session.chunkSize.toInt.toNat size.toInt.toNat index), ?_, ?_⟩
  · rw [UploadSession.partNumbers, List.map_map, List.map_map]
    exact List.map_congr_left fun index hin => (hl index hin).1
  · rw [List.map_map]
    calc ((List.range session.partCount).map (Int64.toInt ∘ fun index => Int64.ofNat
          (Slices.slice session.chunkSize.toInt.toNat size.toInt.toNat index))).sum
        = ((List.range session.partCount).map fun index => ((Slices.slice
            session.chunkSize.toInt.toNat size.toInt.toNat index : Nat) : Int)).sum := by
          exact congrArg List.sum (List.map_congr_left fun index hin => (hl index hin).2)
      _ = (((List.range session.partCount).map (Slices.slice
            session.chunkSize.toInt.toNat size.toInt.toNat)).sum : Nat) := by
          rw [Nat.cast_list_sum, List.map_map]
          rfl
      _ = size.toInt := by
          rw [hc, Slices.sum_slices (by omega), toInt_nonneg_toNat hp]

end Lengths

section Initiation

variable {maxChunkSizeBytes fileSize desiredPartSize : Int64}

@[simp] theorem toInt_minPartSize : DIRECT_MULTIPART_MIN_PART_SIZE_BYTES.toInt = 8388608 := by
  decide

theorem partSize_pos : 0 < (partSize maxChunkSizeBytes fileSize desiredPartSize).toInt := by
  unfold partSize
  split
  · rw [toInt_max, Int64.toInt_one]
    omega
  · rw [toInt_min, toInt_max, toInt_max, toInt_minPartSize]
    omega

theorem totalParts_eq (hpo : 0 < fileSize.toInt)
    (hf : Fits maxChunkSizeBytes fileSize desiredPartSize) :
    (totalParts maxChunkSizeBytes fileSize desiredPartSize).toNat = fileSize.toInt.toNat ⌈/⌉
        (partSize maxChunkSizeBytes fileSize desiredPartSize).toInt.toNat := by
  have hpa := @partSize_pos maxChunkSizeBytes fileSize desiredPartSize
  by_cases hk : transportKind fileSize = .singlePut
  · have hs : partSize maxChunkSizeBytes fileSize desiredPartSize = max fileSize 1 :=
      if_pos hk
    have hse : (max fileSize 1).toInt = fileSize.toInt := by
      rw [toInt_max, Int64.toInt_one]
      omega
    have ho : fileSize.toInt.toNat ⌈/⌉ fileSize.toInt.toNat = 1 := by
      rw [Nat.ceilDiv_eq_add_pred_div]
      exact Nat.div_eq_of_lt_le (by omega) (by omega)
    rw [hs, hse, ho, totalParts, if_pos hk]
    rfl
  · have hmu : transportKind fileSize = .multipartPut := by
      cases h : transportKind fileSize
      · exact absurd h hk
      · rfl
    obtain ⟨hsu, hc⟩ := hf hmu
    have hq : ((fileSize + partSize maxChunkSizeBytes fileSize desiredPartSize - 1) /
        partSize maxChunkSizeBytes fileSize desiredPartSize).toInt =
        (fileSize.toInt + (partSize maxChunkSizeBytes fileSize desiredPartSize).toInt - 1) /
          (partSize maxChunkSizeBytes fileSize desiredPartSize).toInt := by
      have hp := toInt_add (a := fileSize)
        (b := partSize maxChunkSizeBytes fileSize desiredPartSize) (by omega) hsu
      have hm := toInt_sub (a := fileSize +
        partSize maxChunkSizeBytes fileSize desiredPartSize) (b := 1)
        (by rw [hp, Int64.toInt_one]; omega) (by rw [hp, Int64.toInt_one]; omega)
      rw [hp, Int64.toInt_one] at hm
      rw [toInt_div (by omega) hpa, hm]
    have hce : (fileSize.toInt + (partSize maxChunkSizeBytes fileSize desiredPartSize).toInt - 1) /
          (partSize maxChunkSizeBytes fileSize desiredPartSize).toInt =
        (fileSize.toInt.toNat ⌈/⌉
          (partSize maxChunkSizeBytes fileSize desiredPartSize).toInt.toNat : Nat) := by
      rw [Nat.ceilDiv_eq_add_pred_div, Int.natCast_div, toInt_nonneg_toNat hpa]
      congr 1
      omega
    rw [hce] at hq
    rw [totalParts, if_neg hk, UInt64.toNat_toUInt32, Int64.toNat_toUInt64_of_le
      (Int64.le_iff_toInt_le.mpr (by rw [hq, Int64.toInt_zero]; omega)),
      Int64.toNatClampNeg, hq, Int.toNat_natCast]
    exact Nat.mod_eq_of_lt hc

theorem partsExact_initiated (hp : 0 < fileSize.toInt)
    (hf : Fits maxChunkSizeBytes fileSize desiredPartSize) :
    PartsExact (initiateDirectUpload maxChunkSizeBytes fileSize desiredPartSize) fileSize := by
  have hm : max fileSize 0 = fileSize := by
    apply Int64.toInt_inj.mp
    rw [toInt_max, Int64.toInt_zero]
    omega
  have hs : (initiateDirectUpload maxChunkSizeBytes fileSize desiredPartSize).totalSize =
      some fileSize := congrArg some hm
  have hc : 0 <
      (initiateDirectUpload maxChunkSizeBytes fileSize desiredPartSize).chunkSize.toInt :=
    partSize_pos
  have hco : (initiateDirectUpload maxChunkSizeBytes fileSize desiredPartSize).partCount =
      fileSize.toInt.toNat ⌈/⌉ (initiateDirectUpload maxChunkSizeBytes fileSize
        desiredPartSize).chunkSize.toInt.toNat := by
    simp only [UploadSession.partCount, initiateDirectUpload, Option.getD_some, hm]
    exact totalParts_eq hp hf
  exact {
    count := hco
    defined_iff := fun number => hco ▸ isOk_directPartLength hs hp hc number
    bounded := fun _ _ hok => bounded_directPartLength hs hp hc hok
    sum := sum_directPartLength hs hp hc hco }

theorem initiated_empty (hem : fileSize.toInt ≤ 0) :
    let session := initiateDirectUpload maxChunkSizeBytes fileSize desiredPartSize
    session.transportKind = some .singlePut ∧ session.totalSize = some 0 ∧ session.partCount = 1 ∧
        ∀ number, (directPartLength session number).isOk = false := by
  have hm : max fileSize 0 = 0 := by
    apply Int64.toInt_inj.mp
    rw [toInt_max, Int64.toInt_zero]
    omega
  intro session
  have hsi : session.totalSize = some 0 := congrArg some hm
  have hs : transportKind (max fileSize 0) = .singlePut := by
    rw [hm]
    rfl
  refine ⟨congrArg some hs, hsi, ?_, fun number => ?_⟩
  · change (totalParts maxChunkSizeBytes (max fileSize 0) desiredPartSize).toNat = 1
    rw [totalParts, if_pos hs]
    rfl
  · have hsp := directPartLength_spec hsi (le_of_eq Int64.toInt_zero.symm)
      (partSize_pos : 0 < session.chunkSize.toInt) number
    have hn : partSlice session 0 number = 0 := by
      rw [partSlice, Slices.slice, Int64.toInt_zero]
      omega
    rw [if_pos (Or.inr hn)] at hsp
    exact hsp

end Initiation

section Merges

variable (session : UploadSession)

theorem uploadedParts_foldl (parts : List UploadedPartRecord) :
    (parts.foldl mergeUploadedPart session).uploadedParts =
      parts.foldl (Replacing.replace UploadedPartRecord.partNumber) session.uploadedParts := by
  induction parts generalizing session with
  | nil => rfl
  | cons part parts ih => exact ih (mergeUploadedPart session part)

theorem totalParts_foldl (parts : List UploadedPartRecord) :
    (parts.foldl mergeUploadedPart session).totalParts = session.totalParts := by
  induction parts generalizing session with
  | nil => rfl
  | cons part parts ih => exact ih (mergeUploadedPart session part)

theorem ensureAllPartsCommitted_eq_ok :
    ensureAllPartsCommitted session = .ok () ↔
      session.partCount ≠ 0 ∧ session.uploadedParts.length = session.partCount := by
  unfold ensureAllPartsCommitted
  dsimp only
  split
  · rename_i h
    rw [uint32_eq_zero_iff] at h
    refine iff_of_false nofun fun hb => ?_
    rcases h with hz | hl
    · exact hb.1 hz
    · exact hl hb.2
  · rename_i h
    rw [uint32_eq_zero_iff, not_or, not_not] at h
    exact iff_of_true rfl h

theorem length_eq_iff_all {numbers : List Nat} {count : Nat} (hno : numbers.Nodup)
    (hr : ∀ number ∈ numbers, 1 ≤ number ∧ number ≤ count) :
    numbers.length = count ↔ ∀ number, 1 ≤ number → number ≤ count → number ∈ numbers := by
  have hsu : numbers ⊆ List.range' 1 count := by
    intro number hn
    obtain ⟨hl, hh⟩ := hr number hn
    exact List.mem_range'_1.mpr ⟨hl, by omega⟩
  have hs := List.subperm_of_subset hno hsu
  constructor
  · intro hln number hl hh
    have hp := hs.perm_of_length_le (by rw [List.length_range', hln])
    exact hp.mem_iff.mpr (List.mem_range'_1.mpr ⟨hl, by omega⟩)
  · intro ha
    have hb : List.range' 1 count ⊆ numbers := by
      intro number hn
      obtain ⟨hl, hh⟩ := List.mem_range'_1.mp hn
      exact ha number hl (by omega)
    have hge := (List.subperm_of_subset List.nodup_range' hb).length_le
    have hle := hs.length_le
    rw [List.length_range'] at hge hle
    exact le_antisymm hle hge

variable {session}

theorem mergesExact_of_new (hnw : session.uploadedParts = []) (hco : session.partCount ≠ 0)
    {parts : List UploadedPartRecord}
    (hp : ∀ part ∈ parts, 1 ≤ part.partNumber ∧ part.partNumber ≤ session.partCount) :
    MergesExact session parts := by
  have hm : (parts.foldl mergeUploadedPart session).uploadedParts =
      parts.foldl (Replacing.replace UploadedPartRecord.partNumber) [] := by
    rw [uploadedParts_foldl, hnw]
  have ho : Replacing.Ordered UploadedPartRecord.partNumber
      (parts.foldl mergeUploadedPart session).uploadedParts :=
    hm ▸ Replacing.ordered_foldl parts List.Pairwise.nil
  have hl : ∀ part, part ∈ (parts.foldl mergeUploadedPart session).uploadedParts ↔
      parts.reverse.find? (fun other => other.partNumber = part.partNumber) = some part :=
    fun part => hm ▸ Replacing.mem_foldl_replace parts
  have hr : ∀ number ∈ ((parts.foldl mergeUploadedPart session).uploadedParts.map
      UploadedPartRecord.partNumber), 1 ≤ number ∧ number ≤ session.partCount := by
    intro number hn
    obtain ⟨part, hpa, rfl⟩ := List.mem_map.mp hn
    exact hp part (List.mem_reverse.mp (List.mem_of_find?_eq_some ((hl part).mp hpa)))
  have hc : (parts.foldl mergeUploadedPart session).partCount = session.partCount := by
    rw [UploadSession.partCount, totalParts_foldl, UploadSession.partCount]
  have ha := length_eq_iff_all ho.nodup hr
  rw [List.length_map] at ha
  refine ⟨ho, hl, ?_⟩
  rw [ensureAllPartsCommitted_eq_ok, hc, and_iff_right hco, ha]
  simp only [List.mem_map]

end Merges

section Sizes

-- The part arithmetic is exact while the sum of the sizes and the part count are in range.
theorem initiated_parts (maxChunkSizeBytes fileSize desiredPartSize : Int64)
    (hfits : Fits maxChunkSizeBytes fileSize desiredPartSize) :
    let session := initiateDirectUpload maxChunkSizeBytes fileSize desiredPartSize
    (0 < fileSize → PartsExact session fileSize) ∧
      (fileSize ≤ 0 → session.transportKind = some .singlePut ∧ session.totalSize = some 0 ∧
        session.partCount = 1 ∧ ∀ number, (directPartLength session number).isOk = false) ∧
      ∀ parts : List UploadedPartRecord,
        (∀ part ∈ parts, 1 ≤ part.partNumber ∧ part.partNumber ≤ session.partCount) →
          MergesExact session parts := by
  intro session
  have hempty : fileSize ≤ 0 → session.transportKind = some .singlePut ∧
      session.totalSize = some 0 ∧ session.partCount = 1 ∧
        ∀ number, (directPartLength session number).isOk = false := fun h => by
    rw [Int64.le_iff_toInt_le, Int64.toInt_zero] at h
    exact initiated_empty h
  have hexact : 0 < fileSize → PartsExact session fileSize := fun h => by
    rw [Int64.lt_iff_toInt_lt, Int64.toInt_zero] at h
    exact partsExact_initiated h hfits
  refine ⟨hexact, hempty, fun parts hparts => mergesExact_of_new rfl ?_ hparts⟩
  by_cases hpos : 0 < fileSize
  · have hsize := Int64.lt_iff_toInt_lt.mp hpos
    have hchunk : 0 < session.chunkSize.toInt := partSize_pos
    rw [Int64.toInt_zero] at hsize
    rw [(hexact hpos).count]
    intro hzero
    have hle := (ceilDiv_le_iff_le_mul (by omega)).mp (le_of_eq hzero)
    omega
  · rw [Int64.lt_iff_toInt_lt, Int64.toInt_zero] at hpos
    have hle : fileSize ≤ 0 := Int64.le_iff_toInt_le.mpr (by rw [Int64.toInt_zero]; omega)
    rw [(hempty hle).2.2.1]
    exact Nat.one_ne_zero

theorem twenty_mebibytes_in_three_parts :
    (initiateDirectUpload 52428800 20971527 0).partCount = 3 ∧
      PartsExact (initiateDirectUpload 52428800 20971527 0) 20971527 := by
  have hfits : Fits 52428800 20971527 0 := fun _ => ⟨by decide +kernel, by decide +kernel⟩
  exact ⟨by decide +kernel, (initiated_parts 52428800 20971527 0 hfits).1 (by decide)⟩

-- The one part of an empty file has no length.
theorem empty_file_has_no_part : ¬∀ maxChunkSizeBytes fileSize desiredPartSize : Int64,
    PartsExact (initiateDirectUpload maxChunkSizeBytes fileSize desiredPartSize)
        (max fileSize 0) ∧
      ∀ parts : List UploadedPartRecord,
        (∀ part ∈ parts, 1 ≤ part.partNumber ∧ part.partNumber ≤
          (initiateDirectUpload maxChunkSizeBytes fileSize desiredPartSize).partCount) →
          MergesExact (initiateDirectUpload maxChunkSizeBytes fileSize desiredPartSize) parts := by
  intro h
  have hdefined := ((h 52428800 0 0).1.defined_iff 1).mpr (by decide)
  have hempty := (@initiated_empty 52428800 0 0 (le_of_eq Int64.toInt_zero)).2.2.2 1
  rw [hempty] at hdefined
  cases hdefined

end Sizes

end FlareIm.DirectParts
