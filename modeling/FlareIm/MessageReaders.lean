import FlareIm.Lib.Keyset
import FlareIm.Lib.Sorted
import Mathlib.Data.String.Basic

namespace FlareIm.MessageReaders

section Index

structure MemberReadPosition where
  userId : String
  lastReadSeq : Int
  visibleFromSeq : Int

structure ReadCounts where
  readCount : UInt32
  unreadCount : UInt32
  total : UInt32

inductive ReaderState where
  | read
  | unread

-- Some numbers in ascending order.
structure Ascending (values : List Int) where
  sorted : List Int
  ascending : sorted.Pairwise (· ≤ ·)
  perm : sorted.Perm values

def sortUnstable (values : List Int) : Ascending values where
  sorted := values.insertionSort (· ≤ ·)
  ascending := List.pairwise_insertionSort _ values
  perm := List.perm_insertionSort _ values

-- The difference of two sizes, if it is one.
def checkedSub (size part : Nat) : Option Nat :=
  if part ≤ size then some (size - part) else none

variable {values : List Int}

-- Where the numbers below `seq` end.
def Ascending.partitionPoint (numbers : Ascending values) (seq : Int) : Nat :=
  (numbers.sorted.takeWhile fun value => value < seq).length

def Ascending.atOrPast (numbers : Ascending values) (seq : Int) : Option Nat :=
  checkedSub numbers.sorted.length (numbers.partitionPoint seq)

-- The members other than the sender, each once in the order of the ids, and their numbers.
structure ReadWatermarks where
  members : List MemberReadPosition
  inOrder : members.Pairwise fun member other => member.userId < other.userId
  read : Ascending (members.map (·.lastReadSeq))
  floors : Ascending (members.map (·.visibleFromSeq))
  hiddenReads : Ascending (members.map fun m => min m.lastReadSeq m.visibleFromSeq)

def withoutSender (members : List MemberReadPosition) (sender : String) : ReadWatermarks where
  members := Sorted.dedupBy (·.userId) (Sorted.sortBy (·.userId)
    (members.filter fun member => member.userId ≠ sender))
  inOrder := Sorted.pairwise_dedupBy_sortBy
  read := sortUnstable _
  floors := sortUnstable _
  hiddenReads := sortUnstable _

def onSide (state : ReaderState) (seq : Int) (member : MemberReadPosition) : Bool :=
  match state with
  | .read => decide (seq ≤ member.lastReadSeq)
  | .unread => decide (member.lastReadSeq < seq)

variable (watermarks : ReadWatermarks) (seq : Int)

def ReadWatermarks.counts : Option ReadCounts := do
  let total := watermarks.floors.partitionPoint seq
  -- read and visible = read - (read and hidden)
  let read ← checkedSub (← watermarks.read.atOrPast seq) (← watermarks.hiddenReads.atOrPast seq)
  let unread ← checkedSub total read
  some ⟨UInt32.ofNat read, UInt32.ofNat unread, UInt32.ofNat total⟩

def ReadWatermarks.page (state : ReaderState) (cursor : String) (limit : Nat) :
    List String × String × Bool :=
  let side := watermarks.members.filter fun member => member.visibleFromSeq < seq
  let side := side.filter (onSide state seq)
  let side := side.filter fun member => cursor = "" ∨ cursor < member.userId
  let side := side.map (·.userId)
  let page := side.take limit
  let hasMore := !(side.drop limit).isEmpty
  let nextCursor := if hasMore then page.getLast?.getD "" else ""
  (page, nextCursor, hasMore)

-- A reader who goes on with the cursor of the page before.
def readerPage (state : ReaderState) (limit : Nat) (_ : Unit) (cursor : String) :
    Unit × Option (Keyset.Page String String) :=
  let (page, next, hasMore) := watermarks.page seq state cursor limit
  ((), some ⟨page, next, hasMore⟩)

end Index

section Purpose

variable (members : List MemberReadPosition) (sender : String) (seq : Int)

-- Of the positions of one member the first counts.
def others : List MemberReadPosition :=
  Firsts.firsts (·.userId) [] (members.filter fun member => member.userId ≠ sender)

-- The members who see the message.
def audience : List MemberReadPosition :=
  (others members sender).filter fun member => member.visibleFromSeq < seq

def side (state : ReaderState) : List MemberReadPosition :=
  (audience members sender seq).filter (onSide state seq)

def CountsExact : Prop :=
  ∃ counts, (withoutSender members sender).counts seq = some counts ∧
    counts.readCount.toNat = (side members sender seq .read).length ∧
    counts.unreadCount.toNat = (side members sender seq .unread).length ∧
    counts.total.toNat = (audience members sender seq).length

-- The pages list the members of a side once, in the order of their ids.
def PagesComplete (state : ReaderState) (limit : Nat) : Prop :=
  ∃ fuel ids, Keyset.drain (readerPage (withoutSender members sender) seq state limit) fuel () "" =
      some ids ∧
    ids.Perm ((side members sender seq state).map (·.userId)) ∧ ids.Pairwise (· < ·)

end Purpose

end FlareIm.MessageReaders
