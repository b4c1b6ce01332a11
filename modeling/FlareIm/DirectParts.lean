import FlareIm.DirectUpload
import FlareIm.Lib.SignedWord

namespace FlareIm.DirectParts

open DirectUpload (DirectUploadTransportKind ErrorCode UploadedPartRecord)
open SignedWord

section Sessions

def DIRECT_SINGLE_PUT_THRESHOLD_BYTES : Int64 := 8 * 1024 * 1024
def DIRECT_MULTIPART_MIN_PART_SIZE_BYTES : Int64 := 8 * 1024 * 1024

-- A session, as far as its parts go.
structure UploadSession where
  chunkSize : Int64
  totalSize : Option Int64
  uploadedSize : Int64
  uploadedChunks : List Nat
  uploadedParts : List UploadedPartRecord
  transportKind : Option DirectUploadTransportKind
  totalParts : Option UInt32

structure FlareError where
  code : ErrorCode
  message : String
  details : String

end Sessions

section Initiation

variable (maxChunkSizeBytes fileSize desiredPartSize : Int64)

def transportKind (fileSize : Int64) : DirectUploadTransportKind :=
  if fileSize ≤ DIRECT_SINGLE_PUT_THRESHOLD_BYTES then .singlePut else .multipartPut

def partSize : Int64 :=
  if transportKind fileSize = .singlePut then max fileSize 1
  else
    min (max desiredPartSize DIRECT_MULTIPART_MIN_PART_SIZE_BYTES)
      (max maxChunkSizeBytes DIRECT_MULTIPART_MIN_PART_SIZE_BYTES)

-- In a release build the sum wraps, and the cast keeps the low bits of the count.
def totalParts : UInt32 :=
  if transportKind fileSize = .singlePut then 1
  else
    ((fileSize + partSize maxChunkSizeBytes fileSize desiredPartSize - 1) /
      partSize maxChunkSizeBytes fileSize desiredPartSize).toUInt64.toUInt32

-- The request declares `declaredSize`; a negative size counts as none.
def initiateDirectUpload (maxChunkSizeBytes declaredSize desiredPartSize : Int64) :
    UploadSession :=
  let fileSize := max declaredSize 0
  { chunkSize := partSize maxChunkSizeBytes fileSize desiredPartSize
    totalSize := some fileSize
    uploadedSize := 0
    uploadedChunks := []
    uploadedParts := []
    transportKind := some (transportKind fileSize)
    totalParts := some (totalParts maxChunkSizeBytes fileSize desiredPartSize) }

end Initiation

section Parts

variable (session : UploadSession)

def directPartLength (partNumber : UInt32) : Except FlareError Int64 :=
  let totalSize := session.totalSize.getD 0
  let partSize := session.chunkSize
  let offset := saturatingMul (Int64.ofNat (partNumber.toNat - 1)) partSize
  let length := min (saturatingSub totalSize offset) partSize
  if partNumber = 0 ∨ length ≤ 0 then
    .error ⟨.internalError, "direct upload session has no bytes for this part",
      "part_number=" ++ toString partNumber ++ " part_size=" ++ toString partSize ++
        " total_size=" ++ toString totalSize⟩
  else .ok length

-- The sum of the sizes wraps in a release build.
def mergeUploadedPart (part : UploadedPartRecord) : UploadSession :=
  let uploadedParts := DirectUpload.mergeUploadedPart session.uploadedParts part
  { session with
    uploadedParts
    uploadedChunks := uploadedParts.map (·.partNumber)
    uploadedSize := Int64.ofInt (uploadedParts.map (·.size)).sum }

def ensureAllPartsCommitted : Except FlareError Unit :=
  let totalParts := session.totalParts.getD 0
  if totalParts = 0 ∨ session.uploadedParts.length ≠ totalParts.toNat then
    .error ⟨.invalidParameter, "not all multipart parts are committed",
      "committed_parts=" ++ toString session.uploadedParts.length ++
        " total_parts=" ++ toString totalParts⟩
  else .ok ()

end Parts

end FlareIm.DirectParts
