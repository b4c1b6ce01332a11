import FlareIm.Lib.Listing
import FlareIm.MessageReaders
import Mathlib.Data.UInt

namespace FlareIm.MessageReaders

section Counts

variable {values : List Int} {members : List MemberReadPosition} {sender : String} {seq : Int}

theorem partitionPoint_eq (numbers : Ascending values) :
    numbers.partitionPoint seq = values.countP fun value => value < seq := by
  rw [Ascending.partitionPoint, Sorted.length_takeWhile, numbers.perm.countP_eq]
  exact numbers.ascending.imp fun hle hlt => by
    have hlt := of_decide_eq_true hlt
    exact decide_eq_true (hle.trans_lt hlt)

theorem atOrPast_eq (numbers : Ascending values) :
    numbers.atOrPast seq = some (values.countP fun value => seq ≤ value) := by
  have hs : values.length = values.countP (fun value => value < seq) +
      values.countP fun value => seq ≤ value := by
    rw [List.length_eq_countP_add_countP fun value : Int => decide (value < seq)]
    congr 1
    refine List.countP_congr fun value _ => ?_
    simp
  rw [Ascending.atOrPast, partitionPoint_eq, checkedSub, numbers.perm.length_eq, if_pos (by omega)]
  congr 1
  omega

theorem countP_split (p q : MemberReadPosition → Bool) :
    members.countP p = members.countP (fun m => p m && q m) +
      members.countP fun m => p m && !q m := by
  rw [List.countP_eq_countP_filter_add members p q, List.countP_filter, List.countP_filter]

-- Those who read past the message are those who see it and those whose floor is past it too.
theorem countP_read : members.countP (fun m => seq ≤ m.lastReadSeq) =
    members.countP (fun m => seq ≤ min m.lastReadSeq m.visibleFromSeq) +
      members.countP fun m => onSide .read seq m && decide (m.visibleFromSeq < seq) := by
  rw [countP_split (fun m => decide (seq ≤ m.lastReadSeq)) fun m => seq ≤ m.visibleFromSeq]
  congr 1
  · refine List.countP_congr fun m _ => ?_
    simp
  · refine List.countP_congr fun m _ => ?_
    simp [onSide]

theorem countP_visible : members.countP (fun m => m.visibleFromSeq < seq) =
    members.countP (fun m => onSide .read seq m && decide (m.visibleFromSeq < seq)) +
      members.countP fun m => onSide .unread seq m && decide (m.visibleFromSeq < seq) := by
  rw [countP_split (fun m => decide (m.visibleFromSeq < seq)) fun m => onSide .read seq m]
  congr 1
  · refine List.countP_congr fun m _ => ?_
    simp [and_comm]
  · refine List.countP_congr fun m _ => ?_
    simp [onSide, and_comm]

theorem members_perm : (withoutSender members sender).members.Perm (others members sender) :=
  Sorted.dedupBy_sortBy_perm

theorem length_side (state : ReaderState) : (side members sender seq state).length =
    (withoutSender members sender).members.countP
      fun m => onSide state seq m && decide (m.visibleFromSeq < seq) := by
  rw [side, audience, List.filter_filter, ← List.countP_eq_length_filter, members_perm.countP_eq]

theorem length_audience : (audience members sender seq).length =
    (withoutSender members sender).members.countP fun m => m.visibleFromSeq < seq := by
  rw [audience, ← List.countP_eq_length_filter, members_perm.countP_eq]

theorem length_audience_eq : (audience members sender seq).length =
    (side members sender seq .read).length + (side members sender seq .unread).length := by
  rw [length_audience, length_side, length_side, countP_visible]

theorem counts_eq : (withoutSender members sender).counts seq =
    some ⟨UInt32.ofNat (side members sender seq .read).length,
      UInt32.ofNat (side members sender seq .unread).length,
      UInt32.ofNat (audience members sender seq).length⟩ := by
  have hr := @countP_read (withoutSender members sender).members seq
  have hv := @countP_visible (withoutSender members sender).members seq
  rw [length_side, length_side, length_audience]
  simp only [ReadWatermarks.counts, atOrPast_eq, partitionPoint_eq, List.countP_map,
    Function.comp_def, Option.bind_eq_bind, Option.bind_some, checkedSub]
  rw [if_pos (by omega), Option.bind_some, if_pos (by omega), Option.bind_some, hr, hv,
    Nat.add_sub_cancel_left, Nat.add_sub_cancel_left]

theorem countsExact_iff :
    CountsExact members sender seq ↔ (audience members sender seq).length < 2 ^ 32 := by
  have hl := @length_audience_eq members sender seq
  rw [CountsExact, counts_eq]
  constructor
  · rintro ⟨counts, hc, -, -, ht⟩
    cases hc
    rw [← ht]
    exact UInt32.toNat_lt _
  · intro hf
    have hea {n : Nat} (hn : n < 2 ^ 32) : (UInt32.ofNat n).toNat = n := by
      rw [UInt32.toNat_ofNat', Nat.mod_eq_of_lt hn]
    exact ⟨_, rfl, hea (by omega), hea (by omega), hea hf⟩

end Counts

section Pages

variable {members : List MemberReadPosition} {sender : String} {seq : Int} {state : ReaderState}
  {limit : Nat}

-- The members of a side as the pages show them.
def listedSide (members : List MemberReadPosition) (sender : String) (seq : Int)
    (state : ReaderState) : List MemberReadPosition :=
  ((withoutSender members sender).members.filter fun m => m.visibleFromSeq < seq).filter
    (onSide state seq)

theorem listedSide_perm :
    (listedSide members sender seq state).Perm (side members sender seq state) :=
  (members_perm.filter _).filter _

theorem pairwise_listedSide : (listedSide members sender seq state).Pairwise
    fun member other => member.userId < other.userId :=
  (withoutSender members sender).inOrder.sublist (List.filter_sublist.trans List.filter_sublist)

-- What the id of a member leaves for the next page. The empty one asks for the first page.
def after (last member : MemberReadPosition) : Prop :=
  last.userId = "" ∨ last.userId < member.userId

instance : DecidableRel after := fun _ _ => inferInstanceAs (Decidable (_ ∨ _))

-- The cursor of a member is the id, and there is none in front of the first page.
def cursorOf (member : Option MemberReadPosition) : String :=
  (member.map (·.userId)).getD ""

theorem page_eq (last : Option MemberReadPosition) :
    let rows := Keyset.beyond after id last (listedSide members sender seq state)
    (withoutSender members sender).page seq state (cursorOf last) limit =
      ((rows.take limit).map (·.userId),
        if limit < rows.length then cursorOf (rows.take limit).getLast? else "",
        decide (limit < rows.length)) := by
  have hr : ((listedSide members sender seq state).filter fun member =>
      cursorOf last = "" ∨ cursorOf last < member.userId) =
        Keyset.beyond after id last (listedSide members sender seq state) := by
    cases last with
    | none => exact List.filter_eq_self.mpr fun member _ => by simp [cursorOf]
    | some last => rfl
  have hm (rows : List MemberReadPosition) :
      (!((rows.map (·.userId)).drop limit).isEmpty) = decide (limit < rows.length) := by
    rw [Bool.eq_iff_iff]
    simp
  rw [listedSide] at hr
  simp only [ReadWatermarks.page, hr, hm, ← List.map_take, List.getLast?_map, decide_eq_true_eq]
  rfl

theorem readerPage_scan {fuel : Nat} :
    Keyset.drain (readerPage (withoutSender members sender) seq state limit) fuel () "" =
      (Keyset.drain (Keyset.scan after limit fun _ => listedSide members sender seq state)
        fuel 0 none).map (List.map MemberReadPosition.userId) := by
  refine Keyset.drain_map MemberReadPosition.userId
    (fun _ (last : Option MemberReadPosition) _ text => text = cursorOf last) ?_ rfl
  rintro turn last - text rfl
  exact ⟨turn + 1, _, (), _, rfl, by rw [readerPage, page_eq], rfl, rfl,
    fun hm => if_pos (of_decide_eq_true hm)⟩

theorem not_lt_empty (id : String) : ¬ id < "" := by
  rw [String.lt_iff_toList_lt]
  exact List.not_lt_nil _

theorem front_eq_nil {front back : List MemberReadPosition} {last : MemberReadPosition}
    (hed : listedSide members sender seq state = front ++ last :: back)
    (hem : last.userId = "") : front = [] := by
  have ho := @pairwise_listedSide members sender seq state
  rw [hed] at ho
  obtain ⟨-, -, hf⟩ := List.pairwise_append.mp ho
  cases front with
  | nil => rfl
  | cons first front =>
    have hlt := hf first List.mem_cons_self last List.mem_cons_self
    exact absurd (hem ▸ hlt) (not_lt_empty _)

theorem separated_iff : Keyset.Separated after limit (listedSide members sender seq state) ↔
    (limit = 1 → "" ∈ (side members sender seq state).map (·.userId) →
      (side members sender seq state).length = 1) := by
  have hp := @listedSide_perm members sender seq state
  rw [← (hp.map _).mem_iff, ← hp.length_eq]
  constructor
  · rintro hs rfl hm
    obtain ⟨last, hl, hem⟩ := List.mem_map.mp hm
    obtain ⟨front, back, hed⟩ := List.mem_iff_append.mp hl
    obtain rfl := front_eq_nil hed hem
    have hb : back = [] := by
      by_contra hne
      obtain ⟨hf, -⟩ := hs [] last back hed (Nat.one_dvd _) hne
      exact hf last List.mem_cons_self (Or.inl hem)
    rw [hed, hb]
    rfl
  · intro h front last back hed hdv hne
    have ho := @pairwise_listedSide members sender seq state
    rw [hed] at ho
    obtain ⟨-, hbe, hf⟩ := List.pairwise_append.mp ho
    obtain ⟨hb, -⟩ := List.pairwise_cons.mp hbe
    have hna : last.userId ≠ "" := by
      intro hem
      obtain rfl := front_eq_nil hed hem
      have hli : limit = 1 := Nat.dvd_one.mp hdv
      have hm : "" ∈ (listedSide members sender seq state).map (·.userId) := by
        rw [hed]
        exact List.mem_cons.mpr (Or.inl hem.symm)
      have hln := h hli hm
      rw [hed] at hln
      have hn : back.length = 0 := Nat.succ.inj hln
      exact hne (List.length_eq_zero_iff.mp hn)
    refine ⟨fun member hme ha => ?_, fun member hme => Or.inr (hb member hme)⟩
    have hlt := ha.resolve_left hna
    rcases List.mem_append.mp hme with hm | hm
    · exact lt_asymm hlt (hf member hm last List.mem_cons_self)
    · obtain rfl := List.mem_singleton.mp hm
      exact lt_irrefl _ hlt

theorem pagesComplete_iff_drain : PagesComplete members sender seq state limit ↔
    ∃ fuel, Keyset.drain (Keyset.scan after limit fun _ => listedSide members sender seq state)
      fuel 0 none = some (listedSide members sender seq state) := by
  have hp := @listedSide_perm members sender seq state
  have hor : ((listedSide members sender seq state).map (·.userId)).Pairwise (· < ·) :=
    List.pairwise_map.mpr pairwise_listedSide
  constructor
  · rintro ⟨fuel, ids, hdr, hids, hs⟩
    rw [readerPage_scan] at hdr
    obtain ⟨rows, hr, rfl⟩ := Option.map_eq_some_iff.mp hdr
    have hsa : rows.map MemberReadPosition.userId =
        (listedSide members sender seq state).map (·.userId) :=
      List.Perm.eq_of_pairwise (fun id other _ _ h h' => absurd h' (lt_asymm h)) hs hor
        (hids.trans (hp.map _).symm)
    have hsu : rows ⊆ listedSide members sender seq state :=
      Keyset.drain_scan_subset (fun _ => List.Subset.refl _) hr
    have hn : ((listedSide members sender seq state).map (·.userId)).Nodup :=
      hor.imp fun h => ne_of_lt h
    refine ⟨fuel, hr.trans (congrArg some (Listing.eq_of_map_eq hsa ?_))⟩
    exact fun member hm other ho h =>
      List.inj_on_of_nodup_map hn (hsu hm) ho h
  · rintro ⟨fuel, hdr⟩
    refine ⟨fuel, _, ?_, hp.map _, hor⟩
    rw [readerPage_scan, hdr]
    rfl

theorem pagesComplete_iff (hl : 0 < limit) : PagesComplete members sender seq state limit ↔
    (limit = 1 → "" ∈ (side members sender seq state).map (·.userId) →
      (side members sender seq state).length = 1) := by
  have ho := @pairwise_listedSide members sender seq state
  have hn : (listedSide members sender seq state).Nodup := by
    refine ho.imp fun {member other} hlt heq => ?_
    rw [heq] at hlt
    exact lt_irrefl _ hlt
  rw [pagesComplete_iff_drain, ← separated_iff]
  refine Keyset.drain_scan_eq_iff hl hn fun front last back hed member hm => ?_
  rw [hed] at ho
  obtain ⟨-, hb, -⟩ := List.pairwise_append.mp ho
  exact Or.inr ((List.pairwise_cons.mp hb).1 member hm)

-- The counts by binary search are those of the members one by one, and the pages list each side
-- once, exactly when the counts fit into 32 bits and no page of one member ends with an empty id.
theorem reads_exact_iff (members : List MemberReadPosition) (sender : String) (seq : Int)
    (limit : Nat) (hlimit : 0 < limit) :
    (CountsExact members sender seq ∧ ∀ state, PagesComplete members sender seq state limit) ↔
      (audience members sender seq).length < 2 ^ 32 ∧
        ∀ state, limit = 1 → "" ∈ (side members sender seq state).map (·.userId) →
          (side members sender seq state).length = 1 :=
  and_congr countsExact_iff (forall_congr' fun _ => pagesComplete_iff hlimit)

-- Two readers and one who has not read it yet; of the two positions of "b" the first counts.
theorem group_reads_exact :
    CountsExact [⟨"c", 9, 0⟩, ⟨"b", 7, 2⟩, ⟨"s", 9, 0⟩, ⟨"b", 1, 0⟩, ⟨"d", 4, 0⟩] "s" 5 ∧
      ∀ state, PagesComplete
        [⟨"c", 9, 0⟩, ⟨"b", 7, 2⟩, ⟨"s", 9, 0⟩, ⟨"b", 1, 0⟩, ⟨"d", 4, 0⟩] "s" 5 state 1 :=
  (reads_exact_iff _ "s" 5 1 (by decide)).mpr ⟨by decide, by
    rintro (_ | _) <;> decide⟩

-- The page of the empty id comes again and again.
theorem empty_id_repeats :
    ¬ PagesComplete [⟨"", 9, 0⟩, ⟨"b", 9, 0⟩] "s" 5 .read 1 := by
  intro h
  exact absurd ((pagesComplete_iff (by decide)).mp h rfl) (by decide)

end Pages

end FlareIm.MessageReaders
