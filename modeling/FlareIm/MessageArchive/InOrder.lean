import FlareIm.Lib.Firsts
import FlareIm.MessageArchive.Copies

namespace FlareIm.MessageArchive

open Text Context Proto EventRow EventApplication Fallible Firsts

section Ledger

variable {ledger claims : List LedgerClaim} {claim : LedgerClaim} {outcome : ArchiveOutcome}

-- Another message has the client id.
def Taken (ledger : List LedgerClaim) (claim : LedgerClaim) : Prop :=
  ∃ entry, occupant ledger claim = some entry ∧ entry.serverId ≠ claim.serverId

-- How often a message was found to be a duplicate or its client id to be reused.
def ArchiveOutcome.count (outcome : ArchiveOutcome) : Nat :=
  outcome.duplicates.length + outcome.reusedClientMsgIds

end Ledger

section Rows

variable {tables : Tables} {rows : List ArchiveRow} {row : ArchiveRow} {ledger : List LedgerClaim}

abbrev claimsOf (rows : List ArchiveRow) : List LedgerClaim :=
  rows.filterMap LedgerClaim.of

-- The row repeats a send that the ledger has under another server id.
def repeats (ledger : List LedgerClaim) (row : ArchiveRow) : Bool :=
  ((LedgerClaim.of row).toList.foldl (judge ledger) {}).isDuplicate row.serverId

end Rows

section Regular

variable (tables : Tables) (rows : List ArchiveRow)

-- The ledger with the claims of the rows behind it: who holds a key is the first in it.
abbrev queue : List LedgerClaim := tables.ledger ++ claimsOf rows

-- The server id is that of a claim that goes in: no entry has its key and no earlier claim.
def Enters (serverId : String) : Prop :=
  ∃ claim ∈ claimsOf rows, claim.serverId = serverId ∧ occupant tables.ledger claim = none ∧
    occupant (claimsOf rows) claim = some claim

-- The rows that repeat no send and are new to the write ledger.
def newcomers : List ArchiveRow :=
  rows.filter fun row => row.writeKey ∉ tables.writeLedger ∧ repeats (queue tables rows) row = false

def HasRow (messages : List ArchiveRow) (row : ArchiveRow) : Prop :=
  ∃ stored ∈ messages, stored.writeKey = row.writeKey ∧ stored.createdAt = row.createdAt

-- Rows that share a server id are of one fate and of one time.
structure Regular : Prop where
  entered : ∀ claim ∈ claimsOf rows, Enters tables rows claim.serverId →
    ¬ Taken (queue tables rows) claim
  whole : ∀ row ∈ rows, ∀ other ∈ rows, row.writeKey ∉ tables.writeLedger →
    row.serverId = other.serverId → repeats (queue tables rows) other = true →
    repeats (queue tables rows) row = true
  dated : ∀ row ∈ newcomers tables rows, ∀ first,
    (newcomers tables rows).find? (fun other => other.writeKey = row.writeKey) = some first →
    row.createdAt = first.createdAt ∨ HasRow tables.messages row

end Regular

section Agree

variable {tables : Tables} {rows : List ArchiveRow} {row : ArchiveRow}

theorem HasRow.insertRow {messages : List ArchiveRow} {other : ArchiveRow}
    (h : HasRow messages row) : HasRow (MessageArchive.insertRow messages other) row := by
  obtain ⟨stored, hm, hs⟩ := h
  exact ⟨stored, mem_insertRow hm, hs⟩

end Agree

section Sample

end Sample

end FlareIm.MessageArchive
