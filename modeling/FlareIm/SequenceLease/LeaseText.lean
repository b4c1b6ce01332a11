import FlareIm.Lib.DecimalText
import FlareIm.Lib.LuaNumber
import FlareIm.SequenceLease
import Mathlib.Data.List.DropRight

namespace FlareIm.SequenceLease

open DecimalText

variable {segment fence : Nat} {expected : Option Nat}

section Script

-- The division rounded to the nearest, halves to the even number.
def roundedQuotient (n unit : Nat) : Nat :=
  if unit < 2 * (n % unit) ∨ (unit = 2 * (n % unit) ∧ n / unit % 2 = 1) then n / unit + 1
  else n / unit

-- A number of fourteen digits with its exponent, zeros at the end left out.
def scientific (mantissa exponent : Nat) : List Char :=
  let digits := Nat.toDigits 10 mantissa
  let fraction := digits.tail.rdropWhile (· = '0')
  digits.take 1 ++ (if fraction = [] then [] else '.' :: fraction) ++
    'e' :: '+' :: Nat.toDigits 10 exponent

-- The text Lua makes of a number: fourteen significant digits.
def luaText (n : Nat) : List Char :=
  if n < 10 ^ 14 then Nat.toDigits 10 n
  else
    let exponent := Nat.log 10 n
    let mantissa := roundedQuotient n (10 ^ (exponent - 13))
    if mantissa = 10 ^ 14 then scientific (10 ^ 13) (exponent + 1)
    else scientific mantissa exponent

-- The number Lua makes of a text: whole, or with a fraction and an exponent that covers it.
def tonumber (text : List Char) : Option Nat :=
  match splitOnce 'e' text with
  | none => (digits text).map LuaNumber.ofNat
  | some (mantissa, '+' :: exponent) =>
    let parts := (splitOnce '.' mantissa).getD (mantissa, [])
    match digits (parts.1 ++ parts.2), digits exponent with
    | some value, some exponent =>
      if parts.2.length ≤ exponent then
        some (LuaNumber.ofNat (value * 10 ^ (exponent - parts.2.length)))
      else none
    | _, _ => none
  | some _ => none

-- The keys of a conversation: the text of the lease, the counter of fences and that of numbers.
structure Redis where
  lease : Option (List Char) := none
  fence : Nat := 0
  seq : Nat := 0

def incrBy (counter by_ : Nat) : Option Nat :=
  if counter + by_ < 2 ^ 63 then some (counter + by_) else none

-- The answer of a script ends before the first nil. A number beyond 63 bits is no positive one.
def luaReply : List (Option Nat) → List Nat
  | some n :: rest => (LuaNumber.reply n).getD 0 :: luaReply rest
  | none :: _ | [] => []

def readOutcome : List Nat → LeaseOutcome
  | 1 :: token :: start :: end_ :: _ => .granted token start end_
  | _ => .notOwner

def segmentStart (end_ segment : Nat) : Nat :=
  LuaNumber.ofNat (LuaNumber.ofNat (LuaNumber.ofNat end_ - LuaNumber.ofNat segment) + 1)

-- `INCRBY` of the numbers and the answer. A counter out of range fails the script.
def refill (redis : Redis) (token : Option Nat) (segment : Nat) : Redis × Option LeaseOutcome :=
  match incrBy redis.seq segment with
  | none => (redis, none)
  | some end_ =>
    ({ redis with seq := end_ },
      some (readOutcome (luaReply
        [some 1, token, some (segmentStart end_ segment), some (LuaNumber.ofNat end_)])))

-- A token that is no signed number of 64 bits is sent as none.
def LEASE_REFILL_LUA (redis : Redis) (nodeId : String) (expected : Option Nat) (segment : Nat) :
    Redis × Option LeaseOutcome :=
  match redis.lease with
  | some lease =>
    match splitOnce ':' lease with
    | none => (redis, none)
    | some (owner, rest) =>
      if owner ≠ nodeId.toList then (redis, some .notOwner)
      else if (expected.filter (· < 2 ^ 63)).any
        fun expected => tonumber rest ≠ some (LuaNumber.ofNat expected) then
        (redis, some .notOwner)
      else refill redis (tonumber rest) segment
  | none =>
    match incrBy redis.fence 1 with
    | none => (redis, none)
    | some fence =>
      let token := LuaNumber.ofNat fence
      refill { redis with fence, lease := some (nodeId.toList ++ ':' :: luaText token) }
        (some token) segment

end Script

-- A call of a node, with the token its process has, if it has one.
structure RefillCall where
  nodeId : String
  expected : Option Nat
  segment : Nat

def RefillCall.run (redis : Redis) (call : RefillCall) : Redis × Option LeaseOutcome :=
  LEASE_REFILL_LUA redis call.nodeId call.expected call.segment

-- The calls that come before the lease expires.
def afterCalls (redis : Redis) (calls : List RefillCall) : Redis :=
  calls.foldl (fun redis call => (call.run redis).1) redis

-- The token of the process that took the lease under a fence.
def tokenOf (fence : Nat) : Nat :=
  (LuaNumber.reply (LuaNumber.ofNat fence)).getD 0

def Granted (outcome : Option LeaseOutcome) : Prop :=
  ∃ token start end_, outcome = some (.granted token start end_)

-- As long as the lease is there its holder is granted numbers, unless the counter is at its end,
-- and no other node is, nor a process with the token of an earlier lease.
structure DecidesOwnership (held : Redis) (nodeId : String) : Prop where
  holder : ∀ calls segment, (afterCalls held calls).seq + segment < 2 ^ 63 →
    Granted (RefillCall.run (afterCalls held calls) ⟨nodeId, some (tokenOf held.fence), segment⟩).2
  others : ∀ calls other expected segment, other ≠ nodeId →
    ¬ Granted (RefillCall.run (afterCalls held calls) ⟨other, expected, segment⟩).2
  older : ∀ calls fence segment, 0 < fence → fence < held.fence →
    ¬ Granted (RefillCall.run (afterCalls held calls) ⟨nodeId, some (tokenOf fence), segment⟩).2

section Text

variable {redis : Redis} {nodeId : String} {text : List Char}

theorem splitOnce_eq_some {mark : Char} {chars front back : List Char}
    (h : splitOnce mark chars = some (front, back)) :
    mark ∉ front ∧ chars = front ++ mark :: back := by
  induction chars generalizing front with
  | nil => exact absurd h (by simp [splitOnce])
  | cons c rest ih =>
    rw [splitOnce] at h
    split at h
    · rename_i hma
      cases h
      exact ⟨List.not_mem_nil, by rw [hma]; rfl⟩
    · rename_i hma
      obtain ⟨⟨before, after⟩, hr, hs⟩ := Option.map_eq_some_iff.mp h
      cases hs
      obtain ⟨hn, heq⟩ := ih hr
      exact ⟨fun hm => (List.mem_cons.mp hm).elim (fun h => hma h.symm) hn, by rw [heq]; rfl⟩

theorem splitOnce_eq_none {mark : Char} {chars : List Char} (h : mark ∈ chars) :
    splitOnce mark chars ≠ none := by
  induction chars with
  | nil => exact absurd h List.not_mem_nil
  | cons c rest ih =>
    rw [splitOnce]
    split
    · simp
    · rename_i hm
      have hr := (List.mem_cons.mp h).resolve_left fun heq => hm heq.symm
      simpa using ih hr

end Text

section Ownership

variable {redis held : Redis} {nodeId other : String} {call : RefillCall} {lease : List Char}

theorem refill_lease (token : Option Nat) (segment : Nat) :
    (refill redis token segment).1.lease = redis.lease := by
  unfold refill
  split <;> rfl

theorem refill_of_lt {token : Option Nat} (h : redis.seq + segment < 2 ^ 63) :
    (refill redis token segment).1 = { redis with seq := redis.seq + segment } := by
  unfold refill incrBy
  rw [if_pos h]

theorem granted_refill_iff {token : Option Nat} :
    Granted (refill redis token segment).2 ↔ token.isSome ∧ redis.seq + segment < 2 ^ 63 := by
  unfold refill incrBy
  by_cases hs : redis.seq + segment < 2 ^ 63
  · rw [if_pos hs]
    cases token with
    | none =>
      refine iff_of_false ?_ fun h => absurd h.1 (by decide)
      rintro ⟨token, start, end_, h⟩
      cases h
    | some token => exact iff_of_true ⟨_, _, _, rfl⟩ ⟨rfl, hs⟩
  · rw [if_neg hs]
    refine iff_of_false ?_ fun h => hs h.2
    rintro ⟨token, start, end_, h⟩
    cases h

theorem run_lease (h : redis.lease = some lease) : (call.run redis).1.lease = some lease := by
  unfold RefillCall.run LEASE_REFILL_LUA
  rw [h]
  simp only
  split
  · exact h
  · split
    · exact h
    · split
      · exact h
      · rw [refill_lease, h]

theorem afterCalls_lease (h : redis.lease = some lease) (calls : List RefillCall) :
    (afterCalls redis calls).lease = some lease := by
  induction calls generalizing redis with
  | nil => exact h
  | cons call rest ih => exact ih (run_lease h)

theorem tokenOf_lt (fence : Nat) : tokenOf fence < 2 ^ 63 := by
  unfold tokenOf LuaNumber.reply
  split
  · assumption
  · decide

-- The text the lease of a node was given.
def leaseText (nodeId : String) (fence : Nat) : List Char :=
  nodeId.toList ++ ':' :: luaText (LuaNumber.ofNat fence)

theorem granted_own_iff {token : Nat} (ht : token < 2 ^ 63)
    (hl : redis.lease = some (leaseText nodeId fence)) (hc : ':' ∉ nodeId.toList) :
    Granted (RefillCall.run redis ⟨nodeId, some token, segment⟩).2 ↔
      tonumber (luaText (LuaNumber.ofNat fence)) = some (LuaNumber.ofNat token) ∧
        redis.seq + segment < 2 ^ 63 := by
  have hs : (some token).filter (fun n => decide (n < 2 ^ 63)) = some token := by
    rw [Option.filter, if_pos (decide_eq_true ht)]
  unfold RefillCall.run LEASE_REFILL_LUA
  rw [hl]
  simp only [leaseText, splitOnce_append hc, ne_eq, not_true_eq_false, if_false, hs,
    Option.any_some, decide_not, Bool.not_eq_true', decide_eq_false_iff_not]
  by_cases hr : tonumber (luaText (LuaNumber.ofNat fence)) = some (LuaNumber.ofNat token)
  · rw [if_neg (not_not_intro hr), granted_refill_iff, hr]
    exact and_congr_left' (iff_of_true rfl rfl)
  · rw [if_pos hr]
    refine iff_of_false ?_ fun h => hr h.1
    rintro ⟨granted, start, end_, h⟩
    cases h

theorem not_granted_of_owner {owner rest : List Char}
    (hl : redis.lease = some lease) (hc : splitOnce ':' lease = some (owner, rest))
    (ho : owner ≠ other.toList) :
    ¬ Granted (RefillCall.run redis ⟨other, expected, segment⟩).2 := by
  unfold RefillCall.run LEASE_REFILL_LUA
  rw [hl]
  simp [hc, ho, Granted]

-- A node whose id has a colon is not taken for the owner of its lease.
theorem not_granted_of_colon
    (hl : redis.lease = some (leaseText nodeId fence)) (hc : ':' ∈ nodeId.toList) :
    ¬ Granted (RefillCall.run redis ⟨nodeId, expected, segment⟩).2 := by
  have hm : ':' ∈ leaseText nodeId fence := List.mem_append_left _ hc
  obtain ⟨⟨owner, rest⟩, hcu⟩ := Option.ne_none_iff_exists'.mp (splitOnce_eq_none hm)
  refine not_granted_of_owner hl hcu fun ho => ?_
  exact (splitOnce_eq_some hcu).1 (ho ▸ hc)

theorem acquired {before : Redis} (hfr : before.lease = none)
    (hg : Granted (LEASE_REFILL_LUA before nodeId expected segment).2) :
    let held := (LEASE_REFILL_LUA before nodeId expected segment).1
    held.lease = some (leaseText nodeId (before.fence + 1)) ∧ held.fence = before.fence + 1 ∧
      held.seq < 2 ^ 63 := by
  unfold LEASE_REFILL_LUA at hg ⊢
  rw [hfr] at hg ⊢
  by_cases hf : before.fence + 1 < 2 ^ 63
  · rw [incrBy, if_pos hf] at hg ⊢
    dsimp only at hg ⊢
    have hs := (granted_refill_iff.mp hg).2
    rw [refill_of_lt hs]
    exact ⟨rfl, rfl, hs⟩
  · rw [incrBy, if_neg hf] at hg
    obtain ⟨token, start, end_, h⟩ := hg
    cases h

theorem decides_held_iff (hl : held.lease = some (leaseText nodeId (fence + 1)))
    (hf : held.fence = fence + 1) (hse : held.seq < 2 ^ 63) : DecidesOwnership held nodeId ↔
      ':' ∉ nodeId.toList ∧ tonumber (luaText (LuaNumber.ofNat (fence + 1))) =
        some (LuaNumber.ofNat (tokenOf (fence + 1))) ∧ ∀ earlier, 0 < earlier → earlier ≤ fence →
        LuaNumber.ofNat (tokenOf earlier) ≠ LuaNumber.ofNat (tokenOf (fence + 1)) := by
  constructor
  · intro h
    have hc : ':' ∉ nodeId.toList := fun hc =>
      not_granted_of_colon hl hc (h.holder [] 0 hse)
    have hr := ((granted_own_iff (tokenOf_lt _) hl hc).mp (h.holder [] 0 hse)).1
    rw [hf] at hr
    refine ⟨hc, hr, fun earlier hp hle hs => ?_⟩
    refine h.older [] earlier 0 hp (by omega) ?_
    refine (granted_own_iff (tokenOf_lt _) hl hc).mpr ⟨?_, hse⟩
    rw [hr, hs]
  · rintro ⟨hc, hr, ha⟩
    refine ⟨?_, ?_, ?_⟩
    · intro calls segment hro
      refine (granted_own_iff (tokenOf_lt _) (afterCalls_lease hl calls) hc).mpr ⟨?_, hro⟩
      rw [hf, hr]
    · intro calls other expected segment ho
      exact not_granted_of_owner (afterCalls_lease hl calls) (splitOnce_append hc)
        fun hon => ho (String.toList_inj.mp hon).symm
    · intro calls earlier segment hp hlt hg
      have hs :=
        ((granted_own_iff (tokenOf_lt _) (afterCalls_lease hl calls) hc).mp hg).1
      rw [hr] at hs
      exact ha earlier hp (by omega) (Option.some.inj hs).symm

-- From the moment a node takes a lease until it expires, ownership is decided as it should be
-- exactly when the id of the node has no colon, and the script reads the token back as the number
-- that its process sends and no process of an earlier lease does.
theorem decides_ownership_iff (before : Redis) (nodeId : String) (expected : Option Nat)
    (segment : Nat) (hfree : before.lease = none)
    (hgranted : Granted (LEASE_REFILL_LUA before nodeId expected segment).2) :
    DecidesOwnership (LEASE_REFILL_LUA before nodeId expected segment).1 nodeId ↔
      ':' ∉ nodeId.toList ∧
      tonumber (luaText (LuaNumber.ofNat (before.fence + 1))) =
        some (LuaNumber.ofNat (tokenOf (before.fence + 1))) ∧
      ∀ fence, 0 < fence → fence ≤ before.fence →
        LuaNumber.ofNat (tokenOf fence) ≠ LuaNumber.ofNat (tokenOf (before.fence + 1)) := by
  obtain ⟨hlease, hfence, hseq⟩ := acquired hfree hgranted
  exact decides_held_iff hlease hfence hseq

-- The first lease of a node whose id is a name.
theorem name_decides_ownership :
    DecidesOwnership (LEASE_REFILL_LUA {} "node-1" none 100).1 "node-1" := by
  refine (decides_ownership_iff {} "node-1" none 100 rfl ⟨1, 1, 100, by decide +kernel⟩).mpr ?_
  refine ⟨by decide, by decide +kernel, ?_⟩
  intro fence hpos hle
  exact absurd hpos (Nat.not_lt.mpr hle)

-- A node that is called by its address takes its lease and is refused its own refill.
theorem address_is_refused_its_refill :
    let held := (LEASE_REFILL_LUA {} "10.0.0.1:7000" none 100).1
    (LEASE_REFILL_LUA {} "10.0.0.1:7000" none 100).2 = some (.granted 1 1 100) ∧
      (LEASE_REFILL_LUA held "10.0.0.1:7000" (some 1) 100).2 = some .notOwner ∧
      ¬ DecidesOwnership held "10.0.0.1:7000" := by
  refine ⟨by decide +kernel, by decide +kernel, fun h => ?_⟩
  obtain ⟨token, start, end_, hgranted⟩ := h.holder [] 100 (by decide +kernel)
  have hrefused : (RefillCall.run (afterCalls (LEASE_REFILL_LUA {} "10.0.0.1:7000" none 100).1 [])
      ⟨"10.0.0.1:7000", some 1, 100⟩).2 = some .notOwner := by decide +kernel
  have htoken : tokenOf (LEASE_REFILL_LUA {} "10.0.0.1:7000" none 100).1.fence = 1 := by
    decide +kernel
  rw [htoken, hrefused] at hgranted
  exact absurd hgranted (by simp)

end Ownership

end FlareIm.SequenceLease
