import FlareIm.MemberListing
import FlareIm.Lib.Listing
import Mathlib.Data.String.Basic

namespace FlareIm.MemberListing

open Text DecimalText Fallible

section Cursor

variable {joinedAt : DateTime} {userId : String} {total version : Int}

def cursorMark (joinedAt : DateTime) (total version : Int) : List Char :=
  'k' :: ':' :: ((toString joinedAt.timestampMicros).toList ++ ':' :: ((toString total).toList ++
    ':' :: ((toString version).toList ++ [':'])))

theorem toList_encodeParticipantCursor :
    (encodeParticipantCursor joinedAt userId total version).toList =
      cursorMark joinedAt total version ++ userId.toList := by
  have hc : (":" : String).toList = [':'] := rfl
  have hm : ("k:" : String).toList = ['k', ':'] := rfl
  simp [encodeParticipantCursor, cursorMark, String.toList_append, hc, hm]

theorem trim_encodeParticipantCursor :
    trim (encodeParticipantCursor joinedAt userId total version) =
      encodeParticipantCursor joinedAt (trimEnd userId) total version := by
  have hf : ∀ c, (cursorMark joinedAt total version).head? = some c → isWhitespace c = false := by
    rintro c hc
    cases hc
    rfl
  have hl : ∀ c, (cursorMark joinedAt total version).getLast? = some c →
      isWhitespace c = false := by
    rintro c hc
    have hen : cursorMark joinedAt total version =
        ('k' :: ':' :: ((toString joinedAt.timestampMicros).toList ++ ':' ::
          ((toString total).toList ++ ':' :: (toString version).toList))) ++ [':'] := by
      simp [cursorMark]
    rw [hen, List.getLast?_concat] at hc
    cases hc
    rfl
  have hne : cursorMark joinedAt total version ≠ [] := List.cons_ne_nil _ _
  apply String.toList_inj.mp
  rw [trim, String.toList_ofList, toList_encodeParticipantCursor, toList_encodeParticipantCursor,
    trimChars_append hne hf hl, trimEnd, String.toList_ofList]

theorem fromTimestampMicros_self : fromTimestampMicros joinedAt.timestampMicros = some joinedAt :=
  dif_pos ⟨joinedAt.after_min, joinedAt.before_max⟩

theorem parseI64_timestampMicros :
    parseI64 (toString joinedAt.timestampMicros).toList = some joinedAt.timestampMicros := by
  have ha := joinedAt.after_min
  have hb := joinedAt.before_max
  unfold MIN_UTC at ha
  unfold MAX_UTC at hb
  exact parseI64_toString (by omega) (by omega)

variable (htotal : -2 ^ 63 ≤ total ∧ total < 2 ^ 63)
  (hversion : -2 ^ 63 ≤ version ∧ version < 2 ^ 63)

include htotal hversion

-- What is read from a cursor: all that was written, without the white space at its end.
theorem parse_encodeParticipantCursor :
    parseParticipantCursor (some (encodeParticipantCursor joinedAt userId total version)) =
      if trimEnd userId = "" then {}
      else ⟨some (joinedAt, trimEnd userId), 0, some (total, version)⟩ := by
  have hc {n : Int} : ':' ∉ (toString n).toList := not_mem_toString (by decide) rfl n
  have hne : encodeParticipantCursor joinedAt (trimEnd userId) total version ≠ "" := by
    intro hem
    have ht := congrArg String.toList hem
    rw [toList_encodeParticipantCursor] at ht
    exact absurd ht (List.cons_ne_nil _ _)
  have hr : cursorMark joinedAt total version ++ (trimEnd userId).toList =
      'k' :: ':' :: ((toString joinedAt.timestampMicros).toList ++ ':' ::
        ((toString total).toList ++ ':' :: ((toString version).toList ++ ':' ::
          (trimEnd userId).toList))) := by
    simp [cursorMark]
  rw [parseParticipantCursor, Option.map_some, trim_encodeParticipantCursor,
    Option.filter_some_pos (by simpa using hne)]
  simp only [toList_encodeParticipantCursor, hr, parseKeyset, splitOnce_append hc,
    parseI64_timestampMicros, parseI64_toString htotal.1 htotal.2,
    parseI64_toString hversion.1 hversion.2, fromTimestampMicros_self, Option.bind_eq_bind,
    Option.bind_some, String.ofList_toList, String.toList_eq_nil_iff]
  split <;> rfl

-- A cursor is read as it was written unless white space stands at the end of its identifier.
theorem parse_encode_iff :
    parseParticipantCursor (some (encodeParticipantCursor joinedAt userId total version)) =
        ⟨some (joinedAt, userId), 0, some (total, version)⟩ ↔
      userId ≠ "" ∧ trimEnd userId = userId := by
  rw [parse_encodeParticipantCursor htotal hversion]
  split
  · rename_i hem
    constructor
    · intro h
      cases h
    · rintro ⟨hne, hen⟩
      exact absurd (hen ▸ hem) hne
  · rename_i hne
    constructor
    · intro h
      have hen : trimEnd userId = userId := by simpa using h
      exact ⟨hen ▸ hne, hen⟩
    · rintro ⟨-, hen⟩
      rw [hen]

end Cursor

section Pages

variable {collation : Collation} {table : MemberTable} {caller : Caller} {request : ListRequest}

instance : IsStrictTotalOrder (Int × String) collation.keyBefore where
  irrefl key h := by
    rcases h with hlt | ⟨-, hbefore⟩
    · exact lt_irrefl _ hlt
    · exact irrefl _ hbefore
  trans a b c hab hbc := by
    rcases hab with hab | ⟨hab, hid⟩
    · rcases hbc with hbc | ⟨hbc, -⟩
      · exact Or.inl (hab.trans hbc)
      · exact Or.inl (hbc ▸ hab)
    · rcases hbc with hbc | ⟨hbc, hid'⟩
      · exact Or.inl (hab ▸ hbc)
      · exact Or.inr ⟨hab.trans hbc, IsTrans.trans _ _ _ hid hid'⟩
  trichotomous a b hab hba := by
    have htime : a.1 = b.1 :=
      le_antisymm (not_lt.mp fun h => hba (Or.inl h)) (not_lt.mp fun h => hab (Or.inl h))
    rcases trichotomous_of collation.before a.2 b.2 with hid | hid | hid
    · exact absurd (Or.inr ⟨htime, hid⟩) hab
    · exact Prod.ext htime hid
    · exact absurd (Or.inr ⟨htime.symm, hid⟩) hba

theorem pairwise_listed (includeRemoved : Bool) (scope : ParticipantScope) :
    (table.listed collation includeRemoved scope).Pairwise fun row other =>
      collation.keyBefore row.key other.key := by
  refine Keyset.pairwise_inOrder ?_
  have hids : (table.rows.map MemberRow.key).Nodup := by
    refine List.Nodup.of_map Prod.snd ?_
    rw [List.map_map]
    exact table.distinct
  exact hids.sublist (List.filter_sublist.map _)

theorem mem_listed {row : MemberRow} {includeRemoved : Bool} {scope : ParticipantScope}
    (h : row ∈ table.listed collation includeRemoved scope) : row ∈ table.rows :=
  (List.mem_filter.mp (Keyset.mem_inOrder.mp h)).1

-- What the cursor of a row leaves for the next page. Without an identifier it is the first page.
def after (collation : Collation) (last row : MemberRow) : Prop :=
  trimEnd last.userId = "" ∨
    collation.keyBefore (last.joinedAt.timestampMicros, trimEnd last.userId) row.key

instance : DecidableRel (after collation) := fun _ _ => inferInstanceAs (Decidable (_ ∨ _))

theorem after_of_keyBefore {last row : MemberRow} (h : collation.keyBefore last.key row.key) :
    after collation last row := by
  right
  by_cases hen : trimEnd last.userId = last.userId
  · rw [hen]
    exact h
  · have hs : collation.keyBefore (last.joinedAt.timestampMicros, trimEnd last.userId)
        last.key := Or.inr ⟨rfl, collation.blank _ hen⟩
    exact IsTrans.trans _ last.key _ hs h

theorem after_self {row : MemberRow} (hn : row.userId ≠ "") :
    after collation row row ↔ trimEnd row.userId ≠ row.userId := by
  constructor
  · intro h hen
    rcases h with hem | hb
    · exact hn (hen ▸ hem)
    · rw [hen] at hb
      exact irrefl row.key hb
  · intro hen
    exact Or.inr (Or.inr ⟨rfl, collation.blank _ hen⟩)

theorem separated_iff {size : Nat} {ordered : List MemberRow}
    (hna : ∀ row ∈ ordered, row.userId ≠ "")
    (ho : ordered.Pairwise fun row other => collation.keyBefore row.key other.key) :
    Keyset.Separated (after collation) size ordered ↔
      ∀ front last back, ordered = front ++ last :: back → size ∣ front.length + 1 → back ≠ [] →
        trimEnd last.userId = last.userId := by
  refine forall_congr' fun front => forall_congr' fun last => forall_congr' fun back =>
    imp_congr_right fun hed => imp_congr_right fun _ => imp_congr_right fun _ => ?_
  subst hed
  obtain ⟨-, hl, hf⟩ := List.pairwise_append.mp ho
  obtain ⟨hba, -⟩ := List.pairwise_cons.mp hl
  have hn : last.userId ≠ "" := hna last (by simp)
  constructor
  · rintro ⟨hb, -⟩
    by_contra hen
    exact hb last (by simp) ((after_self hn).mpr hen)
  · intro hen
    refine ⟨fun row hr ha => ?_, fun row hr => after_of_keyBefore (hba row hr)⟩
    rcases List.mem_append.mp hr with hm | hm
    · have hla : collation.keyBefore last.key row.key := by
        rcases ha with hem | hb
        · exact absurd (hen ▸ hem) hn
        · rwa [hen] at hb
      exact asymm hla (hf row hm last List.mem_cons_self)
    · obtain rfl := List.mem_singleton.mp hm
      exact (after_self hn).mp ha hen

theorem roundToMillis_ranged {micros : Int} (hl : -2 ^ 63 ≤ micros) (hh : micros < 2 ^ 63) :
    -2 ^ 63 ≤ roundToMillis micros ∧ roundToMillis micros < 2 ^ 63 := by
  unfold roundToMillis
  split <;> omega

theorem version_ranged : -2 ^ 63 ≤ table.version ∧ table.version < 2 ^ 63 := by
  unfold MemberTable.version
  split
  · decide
  · rename_i micros hm
    obtain ⟨row, hr, rfl⟩ := List.mem_map.mp (List.max?_mem hm)
    obtain ⟨hl, hh⟩ := table.updated row hr
    exact roundToMillis_ranged hl hh

theorem count_ranged (includeRemoved : Bool) (scope : ParticipantScope) :
    -2 ^ 63 ≤ table.count includeRemoved scope ∧ table.count includeRemoved scope < 2 ^ 63 := by
  have hle := List.length_filter_le (activeFilter includeRemoved scope) table.rows
  have hr := table.countable
  unfold MemberTable.count
  omega

theorem pageMetadata_ranged :
    (-2 ^ 63 ≤ (pageMetadata table caller request none).1 ∧
      (pageMetadata table caller request none).1 < 2 ^ 63) ∧
    (-2 ^ 63 ≤ (pageMetadata table caller request none).2 ∧
      (pageMetadata table caller request none).2 < 2 ^ 63) := by
  rw [pageMetadata]
  split
  · decide
  · exact ⟨count_ranged _ _, version_ranged⟩

-- The cursor of a row, which carries on the total and the version of the first page.
def MemberRow.cursor (table : MemberTable) (caller : Caller) (request : ListRequest)
    (row : MemberRow) : String :=
  let (total, version) := pageMetadata table caller request none
  encodeParticipantCursor row.joinedAt row.userId total version

-- A cursor and the text that stands for it.
def Writes (table : MemberTable) (caller : Caller) (request : ListRequest)
    (cursor : Option MemberRow) (text : Option String) : Prop :=
  (cursor = none ∧ text = none) ∨
    ∃ row, cursor = some row ∧ text = some (row.cursor table caller request)

theorem fetchRows_eq {cursor : Option MemberRow} {text : Option String}
    (hw : Writes table caller request cursor text) :
    fetchRows collation table request (parseParticipantCursor text) =
      (Keyset.beyond (after collation) id cursor
        (table.listed collation request.includeRemoved request.scope)).take
          (clampParticipantPageLimit request.limit + 1) := by
  rcases hw with ⟨rfl, rfl⟩ | ⟨last, rfl, rfl⟩
  · rfl
  · obtain ⟨htotal, hversion⟩ := @pageMetadata_ranged table caller request
    rw [MemberRow.cursor, parse_encodeParticipantCursor htotal hversion, Keyset.beyond]
    split
    · rename_i hem
      have ha : (table.listed collation request.includeRemoved request.scope).filter
          (fun row => decide (after collation last (id row))) =
            table.listed collation request.includeRemoved request.scope :=
        List.filter_eq_self.mpr fun row _ => decide_eq_true (Or.inl hem)
      rw [ha]
      rfl
    · rename_i hn
      simp only [fetchRows, after, hn, false_or, id_eq]

theorem pageMetadata_eq {cursor : Option MemberRow} {text : Option String}
    (hw : Writes table caller request cursor text) :
    pageMetadata table caller request (parseParticipantCursor text).carried =
      pageMetadata table caller request none := by
  rcases hw with ⟨rfl, rfl⟩ | ⟨last, rfl, rfl⟩
  · rfl
  · obtain ⟨htotal, hversion⟩ := @pageMetadata_ranged table caller request
    rw [MemberRow.cursor, parse_encodeParticipantCursor htotal hversion]
    split <;> rfl

variable (hallowed : checkCaller table caller request = .ok ())

include hallowed

theorem listConversationParticipants_eq {cursor : Option MemberRow} {text : Option String}
    (hw : Writes table caller request cursor text) :
    ∃ page, listConversationParticipants collation table caller request text = .ok page ∧
      let limit := clampParticipantPageLimit request.limit
      let rows := Keyset.beyond (after collation) id cursor
        (table.listed collation request.includeRemoved request.scope)
      page.participants.map (⟨·, page.memberCount, page.participantVersion⟩) =
          (rows.take limit).map (MemberRow.shown table caller request) ∧
        page.hasMore = decide (limit < rows.length) ∧
        (limit < rows.length → page.nextCursor =
          (rows.take limit).getLast?.map (MemberRow.cursor table caller request)) := by
  rw [listConversationParticipants, hallowed]
  simp only [bind, Except.bind]
  refine ⟨_, rfl, ?_⟩
  simp only [fetchRows_eq hw, pageMetadata_eq hw, List.length_take]
  by_cases hm : clampParticipantPageLimit request.limit <
      (Keyset.beyond (after collation) id cursor
        (table.listed collation request.includeRemoved request.scope)).length
  · have hc : clampParticipantPageLimit request.limit <
        min (clampParticipantPageLimit request.limit + 1) (Keyset.beyond (after collation) id cursor
          (table.listed collation request.includeRemoved request.scope)).length := by
      omega
    simp only [hc, hm, decide_true, if_true, List.take_take, Nat.le_succ, min_eq_left]
    exact ⟨rfl, trivial, fun _ => rfl⟩
  · have ha : ¬ clampParticipantPageLimit request.limit <
        min (clampParticipantPageLimit request.limit + 1) (Keyset.beyond (after collation) id cursor
          (table.listed collation request.includeRemoved request.scope)).length := by
      omega
    simp only [ha, hm, decide_false, Bool.false_eq_true, if_false, false_implies, and_true]
    rw [List.take_of_length_le (by omega), List.take_of_length_le (by omega)]
    rfl

theorem memberPage_scan {fuel : Nat} :
    Keyset.drain (memberPage collation table caller request) fuel () none =
      (Keyset.drain (Keyset.scan (after collation) (clampParticipantPageLimit request.limit)
        fun _ => table.listed collation request.includeRemoved request.scope) fuel 0 none).map
          (List.map (MemberRow.shown table caller request)) := by
  refine Keyset.drain_map _ (fun _ cursor _ text => Writes table caller request cursor text) ?_
    (Or.inl ⟨rfl, rfl⟩)
  intro turn cursor _ text hw
  obtain ⟨page, hp, hr, hm, hn⟩ := listConversationParticipants_eq hallowed hw
  refine ⟨turn + 1, _, (), _, rfl, by rw [memberPage, hp], hr, hm, fun hla => ?_⟩
  have hla := of_decide_eq_true hla
  simp only [hn hla]
  cases hl : ((Keyset.beyond (after collation) id cursor
      (table.listed collation request.includeRemoved request.scope)).take
        (clampParticipantPageLimit request.limit)).getLast? with
  | none => exact Or.inl ⟨rfl, rfl⟩
  | some last => exact Or.inr ⟨last, rfl, rfl⟩

theorem drain_memberPage_iff :
    (∃ fuel, Keyset.drain (memberPage collation table caller request) fuel () none =
        some ((table.listed collation request.includeRemoved request.scope).map
          (MemberRow.shown table caller request))) ↔ ∀ front last back,
        table.listed collation request.includeRemoved request.scope = front ++ last :: back →
          clampParticipantPageLimit request.limit ∣ front.length + 1 → back ≠ [] →
            trimEnd last.userId = last.userId := by
  have ho : (table.listed collation request.includeRemoved request.scope).Pairwise
      fun row other => collation.keyBefore row.key other.key :=
    pairwise_listed request.includeRemoved request.scope
  have hsi : 0 < clampParticipantPageLimit request.limit := by
    unfold clampParticipantPageLimit
    omega
  have hn : (table.listed collation request.includeRemoved request.scope).Nodup := by
    refine ho.imp fun {row other} hb heq => ?_
    rw [heq] at hb
    exact irrefl other.key hb
  have hba : ∀ front last back,
      table.listed collation request.includeRemoved request.scope = front ++ last :: back →
        ∀ row ∈ back, after collation last row := by
    intro front last back hed row hr
    rw [hed] at ho
    exact after_of_keyBefore ((List.pairwise_cons.mp (List.pairwise_append.mp ho).2.1).1 row hr)
  have hs := Keyset.drain_scan_eq_iff hsi hn hba
  rw [separated_iff (fun row hr => table.named row (mem_listed hr)) ho] at hs
  rw [← hs]
  refine exists_congr fun fuel => ?_
  rw [memberPage_scan hallowed]
  have hin : Function.Injective (List.map (MemberRow.shown table caller request)) :=
    List.map_injective_iff.mpr fun row other h => congrArg ListedMember.member h
  exact (Option.map_injective hin).eq_iff' rfl

end Pages

section Examples

theorem lt_append {front back : List Char} (hne : back ≠ []) : front < front ++ back := by
  induction front with
  | nil =>
    obtain ⟨c, rest, rfl⟩ := List.exists_cons_of_ne_nil hne
    exact List.Lex.nil
  | cons c front ih => exact List.Lex.cons ih

-- The order of code points, in which a text stands behind its beginnings.
def codePoints : Collation where
  before text other := text < other
  decidable := inferInstance
  strict := inferInstance
  blank text h := by
    rw [String.lt_iff_toList_lt]
    obtain ⟨back, hback⟩ := List.rdropWhile_prefix isWhitespace text.toList
    have hne : back ≠ [] := by
      rintro rfl
      rw [List.append_nil] at hback
      exact h (by rw [trimEnd, hback, String.ofList_toList])
    rw [trimEnd, String.toList_ofList]
    conv_rhs => rw [← hback]
    exact lt_append hne

end Examples

section Listing

-- Going through the pages returns each member once, and shows the first page's total and version on
-- each, exactly when no page ends with an identifier that ends in white space; nor does anything
-- else make the cursor lose what was written into it.
theorem member_listing_iff (collation : Collation) (table : MemberTable) (caller : Caller)
    (request : ListRequest) (hallowed : checkCaller table caller request = .ok ()) :
    ((∃ fuel, Keyset.drain (memberPage collation table caller request) fuel () none =
        some ((table.listed collation request.includeRemoved request.scope).map
          (MemberRow.shown table caller request))) ↔
      ∀ front last back,
        table.listed collation request.includeRemoved request.scope = front ++ last :: back →
          clampParticipantPageLimit request.limit ∣ front.length + 1 → back ≠ [] →
            trimEnd last.userId = last.userId) ∧
    ∀ (joinedAt : DateTime) (userId : String) (total version : Int),
      -2 ^ 63 ≤ total ∧ total < 2 ^ 63 → -2 ^ 63 ≤ version ∧ version < 2 ^ 63 →
        (parseParticipantCursor (some (encodeParticipantCursor joinedAt userId total version)) =
            ⟨some (joinedAt, userId), 0, some (total, version)⟩ ↔
          userId ≠ "" ∧ trimEnd userId = userId) :=
  ⟨drain_memberPage_iff hallowed, fun _ _ _ _ htotal hversion => parse_encode_iff htotal hversion⟩

def systemCaller : Caller := ⟨some "0", none, true⟩

def oneAPage : ListRequest := ⟨"c", 1, false, true, .members⟩

def twoMembers : MemberTable where
  rows := [⟨"u:1", ⟨5, by decide, by decide⟩, false, false, 0⟩,
    ⟨" v", ⟨5, by decide, by decide⟩, false, false, 0⟩]
  distinct := by decide
  named := by decide
  countable := by decide
  updated := by decide

theorem two_members_are_listed :
    ∃ fuel, Keyset.drain (memberPage codePoints twoMembers systemCaller oneAPage) fuel () none =
      some ((twoMembers.listed codePoints false .members).map
        (MemberRow.shown twoMembers systemCaller oneAPage)) := by
  refine (member_listing_iff codePoints twoMembers systemCaller oneAPage (by decide)).1.mpr ?_
  intro front last back hedge _ _
  have hlisted : last ∈ twoMembers.listed codePoints oneAPage.includeRemoved oneAPage.scope := by
    rw [hedge]
    simp
  have hends : ∀ row ∈ twoMembers.rows, trimEnd row.userId = row.userId := by decide
  exact hends last (mem_listed hlisted)

def blankEndTable : MemberTable where
  rows := [⟨"u ", ⟨5, by decide, by decide⟩, false, false, 0⟩,
    ⟨"v", ⟨5, by decide, by decide⟩, false, false, 0⟩]
  distinct := by decide
  named := by decide
  countable := by decide
  updated := by decide

-- The page that ends with "u " comes again and again.
theorem blank_end_repeats :
    ¬ ∃ fuel,
      Keyset.drain (memberPage codePoints blankEndTable systemCaller oneAPage) fuel () none =
        some ((blankEndTable.listed codePoints false .members).map
          (MemberRow.shown blankEndTable systemCaller oneAPage)) := by
  intro h
  have hlisted : blankEndTable.listed codePoints false .members = blankEndTable.rows := by decide
  have hedges := (drain_memberPage_iff (by decide)).mp h
  exact absurd (hedges [] _ _ hlisted (by decide) (by decide)) (by decide)

end Listing

end FlareIm.MemberListing
