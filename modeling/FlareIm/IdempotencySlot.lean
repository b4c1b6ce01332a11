import FlareIm.Lib.DecimalText
import FlareIm.MessageProfile

namespace FlareIm.IdempotencySlot

open DecimalText MessageProfile

-- The result of a first send, from which the acknowledgement of a retry is rebuilt.
structure IdempotentRecord where
  serverId : String
  conversationSeq : Nat
  durability : SendAckDurability
  fingerprint : String
  deriving DecidableEq

-- The numbers the proto library gives the durabilities.
structure Numbering where
  number : SendAckDurability → Nat
  ofNumber : Int → Option SendAckDurability
  ofNumber_number : ∀ durability, ofNumber (number durability) = some durability
  number_lt : ∀ durability, number durability < 2 ^ 31

def PENDING_MARKER : String := "PENDING"

section Text

variable (numbering : Numbering)

def encode (record : IdempotentRecord) : String :=
  let encoded := record.serverId ++ "|" ++ toString record.conversationSeq ++ "|" ++
    toString (numbering.number record.durability)
  if record.fingerprint = "" then encoded else encoded ++ "|" ++ record.fingerprint

-- Digits, after a plus sign or none, of a number below the bound.
def parseUnsigned (bound : Nat) (chars : List Char) : Option Nat :=
  let digits := match chars with
    | '+' :: rest => rest
    | _ => chars
  if digits = [] ∨ !digits.all Char.isDigit then none
  else
    let n := Nat.ofDigitChars 10 digits 0
    if n < bound then some n else none

def parseI32 (chars : List Char) : Option Int :=
  match chars with
  | '-' :: rest =>
    if rest.head? = some '+' then none
    else (parseUnsigned (2 ^ 31 + 1) rest).map fun n => -(n : Int)
  | _ => (parseUnsigned (2 ^ 31) chars).map Int.ofNat

def decode (value : String) : Option IdempotentRecord :=
  match value.toList.splitOn '|' with
  | serverId :: seq :: rest =>
    if serverId = [] then none
    else
      match parseUnsigned (2 ^ 64) seq with
      | none => none
      | some conversationSeq =>
        if 2 < rest.length then none
        else some {
          serverId := String.ofList serverId
          conversationSeq
          durability := ((rest.head?.bind parseI32).bind numbering.ofNumber).getD .persisted
          fingerprint := String.ofList ((rest[1]?).getD []) }
  | _ => none

end Text

inductive IdempotencyBegin where
  | fresh
  | replay (record : IdempotentRecord)
  | inFlight

-- What a send finds in the slot of its key. A broken value counts as a send under way.
def readSlot (numbering : Numbering) : Option String → IdempotencyBegin
  | none => .fresh
  | some value =>
    if value = PENDING_MARKER then .inFlight
    else
      match decode numbering value with
      | some record => .replay record
      | none => .inFlight

section RoundTrip

variable {numbering : Numbering}

-- The records whose text can be taken apart again. A server id is a uuid.
structure Plain (record : IdempotentRecord) : Prop where
  server_id_ne : record.serverId ≠ ""
  server_id : '|' ∉ record.serverId.toList
  fingerprint : '|' ∉ record.fingerprint.toList
  seq_lt : record.conversationSeq < 2 ^ 64

theorem parseUnsigned_toDigits {n bound : Nat} (h : n < bound) :
    parseUnsigned bound (Nat.toDigits 10 n) = some n := by
  have hdi : (match Nat.toDigits 10 n with
      | '+' :: rest => rest
      | _ => Nat.toDigits 10 n) = Nat.toDigits 10 n := by
    split
    · rename_i rest hp
      have hm : '+' ∈ Nat.toDigits 10 n := by
        rw [hp]
        exact List.mem_cons_self
      exact absurd hm (not_mem_toDigits rfl n)
    · rfl
  have hne : Nat.toDigits 10 n ≠ [] := Nat.toDigits_ne_nil
  have ha : (Nat.toDigits 10 n).all Char.isDigit = true :=
    List.all_eq_true.mpr fun c hc => Nat.isDigit_of_mem_toDigits (by decide) (by decide) hc
  simp only [parseUnsigned, hdi, hne, ha, Bool.not_true, Bool.false_eq_true, or_self,
    if_false, Nat.ofDigitChars_ten_toDigits, h, if_true]

theorem parseI32_toDigits {n : Nat} (h : n < 2 ^ 31) : parseI32 (Nat.toDigits 10 n) = some n := by
  unfold parseI32
  split
  · rename_i rest hmi
    have hm : '-' ∈ Nat.toDigits 10 n := by
      rw [hmi]
      exact List.mem_cons_self
    exact absurd hm (not_mem_toDigits rfl n)
  · rw [parseUnsigned_toDigits h]
    rfl

-- The fields of the text of a record.
def fields (numbering : Numbering) (record : IdempotentRecord) : List (List Char) :=
  [record.serverId.toList, Nat.toDigits 10 record.conversationSeq,
    Nat.toDigits 10 (numbering.number record.durability)] ++
    if record.fingerprint = "" then [] else [record.fingerprint.toList]

theorem toList_encode (record : IdempotentRecord) :
    (encode numbering record).toList = ['|'].intercalate (fields numbering record) := by
  have hb : ("|" : String).toList = ['|'] := rfl
  unfold encode fields
  split <;> simp [String.toList_append, hb, List.intercalate]

theorem decode_encode {record : IdempotentRecord} (h : Plain record) :
    decode numbering (encode numbering record) = some record := by
  have hp : (encode numbering record).toList.splitOn '|' = fields numbering record := by
    rw [toList_encode]
    refine List.splitOn_intercalate '|' ?_ (by simp [fields])
    intro field hfi
    simp only [fields, List.mem_append, List.mem_cons, List.not_mem_nil, or_false] at hfi
    rcases hfi with (rfl | rfl | rfl) | hf
    · exact h.server_id
    · exact not_mem_toDigits rfl _
    · exact not_mem_toDigits rfl _
    · split at hf
      · exact absurd hf List.not_mem_nil
      · rw [List.mem_singleton.mp hf]
        exact h.fingerprint
  have hs : record.serverId.toList ≠ [] := by
    simpa using h.server_id_ne
  have hse := parseUnsigned_toDigits h.seq_lt
  have hdu := parseI32_toDigits (numbering.number_lt record.durability)
  simp only [Nat.reducePow] at hse
  rw [decode, hp]
  by_cases hf : record.fingerprint = ""
  · have hr : record = ⟨record.serverId, record.conversationSeq, record.durability, ""⟩ := by
      rw [← hf]
    rw [hr]
    simp [fields, hs, hse, hdu, numbering.ofNumber_number]
  · simp [fields, hf, hs, hse, hdu, numbering.ofNumber_number]

theorem encode_ne_pending (record : IdempotentRecord) :
    encode numbering record ≠ PENDING_MARKER := by
  intro h
  have hm : '|' ∈ (encode numbering record).toList := by
    rw [toList_encode]
    simp [fields, List.intercalate]
  rw [h] at hm
  exact absurd hm (by decide)

theorem readSlot_encode {record : IdempotentRecord} (h : Plain record) :
    readSlot numbering (some (encode numbering record)) = .replay record := by
  rw [readSlot, if_neg (encode_ne_pending record), decode_encode h]

end RoundTrip

end FlareIm.IdempotencySlot
