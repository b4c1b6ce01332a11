import Mathlib.Data.List.Sort

namespace Keyset

section Beyond

variable {Row Key : Type*} (before : Key → Key → Prop) [DecidableRel before] (key : Row → Key)

-- The rows a page may show: those beyond the last key of the page before it.
def beyond (boundary : Option Key) (rows : List Row) : List Row :=
  match boundary with
  | none => rows
  | some last => rows.filter fun row => before last (key row)

variable {before key} {rows : List Row} {boundary : Option Key}

theorem mem_beyond {row : Row} : row ∈ beyond before key boundary rows ↔
    row ∈ rows ∧ ∀ last, boundary = some last → before last (key row) := by
  cases boundary with
  | none | some last => simp [beyond]

theorem beyond_sublist : List.Sublist (beyond before key boundary rows) rows := by
  cases boundary with
  | none => exact List.Sublist.refl rows
  | some last => exact List.filter_sublist

-- In strict order nothing but what follows a row is beyond it.
theorem filter_last [IsStrictOrder Key before] {front rest : List Row} {last : Row}
    (hso : (front ++ last :: rest).Pairwise fun a b => before (key a) (key b)) :
    (front ++ last :: rest).filter (fun row => before (key last) (key row)) = rest := by
  obtain ⟨-, hl, hf⟩ := List.pairwise_append.mp hso
  obtain ⟨hre, -⟩ := List.pairwise_cons.mp hl
  have hs : ¬ before (key last) (key last) := irrefl (key last)
  have hn : front.filter (fun row => before (key last) (key row)) = [] := by
    refine List.filter_eq_nil_iff.mpr fun row hr => ?_
    have hb := hf row hr last List.mem_cons_self
    have hno : ¬ before (key last) (key row) := fun h => hs (IsTrans.trans _ _ _ h hb)
    simpa using hno
  have ha : rest.filter (fun row => before (key last) (key row)) = rest :=
    List.filter_eq_self.mpr fun row hr => by simpa using hre row hr
  rw [List.filter_append, hn, List.filter_cons_of_neg (by simpa using hs), ha, List.nil_append]

-- What is beyond the last row of a page is what the page left.
theorem beyond_last [IsStrictOrder Key before] {last : Row} {size : Nat}
    (hso : rows.Pairwise fun a b => before (key a) (key b))
    (hl : ((beyond before key boundary rows).take size).getLast? = some last) :
    beyond before key (some (key last)) rows = (beyond before key boundary rows).drop size := by
  obtain ⟨front, hf⟩ := List.getLast?_eq_some_iff.mp hl
  have hs : beyond before key boundary rows =
      front ++ last :: (beyond before key boundary rows).drop size := by
    conv_lhs => rw [← List.take_append_drop size (beyond before key boundary rows), hf]
    rw [List.append_assoc, List.singleton_append]
  have hm : last ∈ beyond before key boundary rows := by
    rw [hs]
    exact List.mem_append_right front List.mem_cons_self
  -- what is beyond the last row is also beyond the boundary
  have hr : beyond before key (some (key last)) rows =
      (beyond before key boundary rows).filter fun row => before (key last) (key row) := by
    cases boundary with
    | none => rfl
    | some start =>
      have hst : before start (key last) := (mem_beyond.mp hm).2 start rfl
      rw [beyond, beyond, List.filter_filter]
      refine List.filter_congr fun row _ => ?_
      have hif : before (key last) (key row) ↔
          before (key last) (key row) ∧ before start (key row) :=
        ⟨fun h => ⟨h, IsTrans.trans _ _ _ hst h⟩, And.left⟩
      simpa using hif
  have hp : (beyond before key boundary rows).Pairwise
      fun a b => before (key a) (key b) := hso.sublist beyond_sublist
  rw [hr]
  conv_lhs => rw [hs]
  rw [hs] at hp
  exact filter_last hp

def inOrder (before : Key → Key → Prop) [DecidableRel before] (key : Row → Key)
    (rows : List Row) : List Row :=
  rows.insertionSort fun a b => ¬ before (key b) (key a)

theorem mem_inOrder {row : Row} : row ∈ inOrder before key rows ↔ row ∈ rows :=
  List.mem_insertionSort _

theorem perm_inOrder : (inOrder before key rows).Perm rows :=
  List.perm_insertionSort _ rows

-- Rows with different keys come out in strict order.
theorem pairwise_inOrder [IsStrictTotalOrder Key before] (hn : (rows.map key).Nodup) :
    (inOrder before key rows).Pairwise fun a b => before (key a) (key b) := by
  have ht : Std.Total fun a b => ¬ before (key b) (key a) :=
    ⟨fun a b => by
      by_cases hba : before (key b) (key a)
      · exact Or.inr (asymm hba)
      · exact Or.inl hba⟩
  have htr : IsTrans Row fun a b => ¬ before (key b) (key a) :=
    ⟨fun a b c hba hcb hca => by
      rcases trichotomous_of before (key b) (key c) with hbc | heq | hcb'
      · exact hba (IsTrans.trans _ _ _ hbc hca)
      · exact hba (heq ▸ hca)
      · exact hcb hcb'⟩
  have ho : (inOrder before key rows).Pairwise fun a b => ¬ before (key b) (key a) :=
    List.pairwise_insertionSort _ rows
  have hdi : (inOrder before key rows).Pairwise fun a b => key a ≠ key b :=
    List.pairwise_map.mp ((perm_inOrder.map key).nodup_iff.mpr hn)
  refine (ho.and hdi).imp fun {a b} h => ?_
  rcases trichotomous_of before (key a) (key b) with hab | heq | hba
  · exact hab
  · exact absurd heq h.2
  · exact absurd hba h.1

-- Two lists in strict order with the same members are the same.
omit [DecidableRel before] in
theorem eq_of_mem_iff [IsStrictOrder Key before] {keys others : List Key}
    (hk : keys.Pairwise before) (ho : others.Pairwise before)
    (hm : ∀ key, key ∈ keys ↔ key ∈ others) : keys = others := by
  have hn {keys : List Key} (h : keys.Pairwise before) : keys.Nodup :=
    h.imp fun hb => ne_of_irrefl hb
  have hp : keys.Perm others :=
    (List.perm_ext_iff_of_nodup (hn hk) (hn ho)).mpr hm
  refine hp.eq_of_pairwise (fun a b _ _ h h' => ?_) hk ho
  exact absurd (IsTrans.trans _ _ _ h h') (@irrefl _ before _ a)

end Beyond

section Drain

variable {State Cursor Row : Type*}

structure Page (Cursor Row : Type*) where
  rows : List Row
  next : Cursor
  hasMore : Bool

variable (read : State → Cursor → State × Option (Page Cursor Row))

-- The rows of one page after another, for as long as a page says that there are more.
def drain : Nat → State → Cursor → Option (List Row)
  | 0, _, _ => none
  | fuel + 1, state, cursor =>
    match read state cursor with
    | (_, none) => none
    | (next, some page) =>
      if page.hasMore then (drain fuel next page.next).map (page.rows ++ ·)
      else some page.rows

-- A page behind which `rest` is left: its first rows, and a cursor for the others.
structure Serves (At : Cursor → List Row → Prop) (size : Nat) (rest : List Row)
    (page : Page Cursor Row) : Prop where
  rows : page.rows = rest.take size
  hasMore : page.hasMore = decide (size < rest.length)
  next : size < rest.length → At page.next (rest.drop size)

variable {read} {size : Nat}

theorem drain_eq_some (Inv : State → Prop) (At : Cursor → List Row → Prop) (hsi : 0 < size)
    (hr : ∀ state cursor rest, Inv state → At cursor rest → ∃ next page,
      read state cursor = (next, some page) ∧ Inv next ∧ Serves At size rest page)
    {fuel : Nat} {state : State} {cursor : Cursor} {rest : List Row} (hin : Inv state)
    (hat : At cursor rest) (hf : rest.length < fuel) :
    drain read fuel state cursor = some rest := by
  induction fuel generalizing state cursor rest with
  | zero => omega
  | succ fuel ih =>
    obtain ⟨next, page, hp, hn, hs⟩ := hr state cursor rest hin hat
    rw [drain, hp]
    simp only
    by_cases hm : size < rest.length
    · have hsh : (rest.drop size).length < fuel := by
        rw [List.length_drop]
        omega
      have hl := ih hn (hs.next hm) hsh
      rw [hs.hasMore, if_pos (decide_eq_true hm), hl, Option.map_some,
        hs.rows, List.take_append_drop]
    · have ha : rest.take size = rest := List.take_of_length_le (by omega)
      rw [hs.hasMore, if_neg (by simpa using hm), hs.rows, ha]

-- A reader who is sent back to the same place never gets to the end.
theorem drain_eq_none (Loop : State → Cursor → Prop)
    (hl : ∀ state cursor, Loop state cursor → ∃ next page,
      read state cursor = (next, some page) ∧ page.hasMore = true ∧ Loop next page.next)
    {state : State} {cursor : Cursor} (h : Loop state cursor) (fuel : Nat) :
    drain read fuel state cursor = none := by
  induction fuel generalizing state cursor with
  | zero => rfl
  | succ fuel ih =>
    obtain ⟨next, page, hp, hm, hn⟩ := hl state cursor h
    rw [drain, hp]
    simp only [hm, if_true, ih hn, Option.map_none]

-- The rows of all pages are among those a page may show.
theorem drain_subset (Inv : State → Prop) (Shown : Row → Prop)
    (hre : ∀ state cursor next page, Inv state → read state cursor = (next, some page) →
      Inv next ∧ ∀ row ∈ page.rows, Shown row)
    {fuel : Nat} {state : State} {cursor : Cursor} {rows : List Row} (hin : Inv state)
    (h : drain read fuel state cursor = some rows) : ∀ row ∈ rows, Shown row := by
  induction fuel generalizing state cursor rows with
  | zero => exact absurd h (by simp [drain])
  | succ fuel ih =>
    rw [drain] at h
    split at h
    · cases h
    · next next page hp =>
        obtain ⟨hn, hs⟩ := hre state cursor next page hin hp
        by_cases hm : page.hasMore
        · rw [if_pos hm] at h
          obtain ⟨rest, hrs, rfl⟩ := Option.map_eq_some_iff.mp h
          intro row hr
          rcases List.mem_append.mp hr with hf | hl
          · exact hs row hf
          · exact ih hn hrs row hl
        · rw [if_neg hm] at h
          cases h
          exact hs

end Drain

section Readers

variable {State State' Cursor Cursor' Row Row' : Type*}

-- Two readers who stand at the same places get the same rows.
theorem drain_map {read : State → Cursor → State × Option (Page Cursor Row)}
    {read' : State' → Cursor' → State' × Option (Page Cursor' Row')} (f : Row → Row')
    (At : State → Cursor → State' → Cursor' → Prop)
    (hr : ∀ state cursor state' cursor', At state cursor state' cursor' →
      ∃ next page next' page', read state cursor = (next, some page) ∧
        read' state' cursor' = (next', some page') ∧ page'.rows = page.rows.map f ∧
          page'.hasMore = page.hasMore ∧ (page.hasMore = true → At next page.next next' page'.next))
    {fuel : Nat} {state : State} {state' : State'} {cursor : Cursor} {cursor' : Cursor'}
    (h : At state cursor state' cursor') :
    drain read' fuel state' cursor' = (drain read fuel state cursor).map (List.map f) := by
  induction fuel generalizing state cursor state' cursor' with
  | zero => rfl
  | succ fuel ih =>
    obtain ⟨next, page, next', page', hp, hp', hro, hm, hn⟩ :=
      hr state cursor state' cursor' h
    rw [drain, drain, hp, hp']
    simp only [hro, hm]
    split
    · rename_i ht
      rw [ih (hn ht), Option.map_map, Option.map_map]
      congr 1
      funext rest
      simp
    · rfl

end Readers

section Edges

variable {Row : Type*} (after : Row → Row → Prop) [DecidableRel after]

-- A reader who gets the rows anew for each page, in the order of that turn, and shows those that
-- come after the last row of the page before.
def scan (size : Nat) (orders : Nat → List Row) (turn : Nat) (cursor : Option Row) :
    Nat × Option (Page (Option Row) Row) :=
  let rows := beyond after id cursor (orders turn)
  (turn + 1, some ⟨rows.take size, (rows.take size).getLast?, decide (size < rows.length)⟩)

-- Where a page ends, the rows after its last one are those that have not been shown.
def Separated (size : Nat) (ordered : List Row) : Prop :=
  ∀ front last back, ordered = front ++ last :: back → size ∣ front.length + 1 → back ≠ [] →
    (∀ row ∈ front ++ [last], ¬ after last row) ∧ ∀ row ∈ back, after last row

variable {after} {size : Nat} {orders : Nat → List Row} {rows ordered : List Row}

theorem filter_edge {front back : List Row} {last : Row}
    (hf : ∀ row ∈ front ++ [last], ¬ after last row) (hb : ∀ row ∈ back, after last row) :
    (front ++ last :: back).filter (fun row => after last row) = back := by
  have hs : front ++ last :: back = (front ++ [last]) ++ back := by simp
  have hn : (front ++ [last]).filter (fun row => after last row) = [] :=
    List.filter_eq_nil_iff.mpr fun row hr => by simpa using hf row hr
  have ha : back.filter (fun row => after last row) = back :=
    List.filter_eq_self.mpr fun row hr => by simpa using hb row hr
  rw [hs, List.filter_append, hn, ha, List.nil_append]

-- The reader has shown some rows and stands behind the last of them.
def Stands (seen : List Row) (cursor : Option Row) : Prop :=
  (seen = [] ∧ cursor = none) ∨ ∃ front last, seen = front ++ [last] ∧ cursor = some last

theorem stands_take (seen : List Row) {rest : List Row} (hs : 0 < size)
    (hm : size < rest.length) : Stands (seen ++ rest.take size) (rest.take size).getLast? := by
  obtain ⟨last, hl⟩ : ∃ last, (rest.take size).getLast? = some last := by
    refine Option.ne_none_iff_exists'.mp fun hn => ?_
    have hem := congrArg List.length (List.getLast?_eq_none_iff.mp hn)
    rw [List.length_take, List.length_nil] at hem
    omega
  obtain ⟨front, hf⟩ := List.getLast?_eq_some_iff.mp hl
  refine Or.inr ⟨seen ++ front, last, ?_, hl⟩
  rw [hf, List.append_assoc]

-- However the rows are ordered, a reader whose pages end where they are separated gets each once.
theorem drain_scan_perm {newer : Row → Row → Prop} (hsi : 0 < size)
    (hor : ∀ turn, (orders turn).Perm rows ∧ (orders turn).Pairwise newer)
    (hse : ∀ ordered : List Row, ordered.Perm rows → ordered.Pairwise newer →
      Separated after size ordered) {fuel : Nat} (turn : Nat) (seen : List Row) {rest : List Row}
    {cursor : Option Row} (hp : (seen ++ rest).Perm rows) (hn : (seen ++ rest).Pairwise newer)
    (hpg : size ∣ seen.length) (hrs : seen ≠ [] → rest ≠ []) (hst : Stands seen cursor)
    (hfu : rest.length < fuel) :
    ∃ result, drain (scan after size orders) fuel turn cursor = some result ∧ result.Perm rest := by
  induction fuel generalizing turn seen rest cursor with
  | zero => omega
  | succ fuel ih =>
    obtain ⟨hod, hso⟩ := hor turn
    have ha : (orders turn).Perm (seen ++ rest) := hod.trans hp.symm
    -- what this page and those behind it can show is what has not been shown
    have hs : (beyond after id cursor (orders turn)).Perm rest := by
      rcases hst with ⟨rfl, rfl⟩ | ⟨front, last, rfl, rfl⟩
      · exact ha
      · have hf := ha.filter fun row => after last row
        have hed : front ++ [last] ++ rest = front ++ last :: rest := by simp
        rw [hed] at hf hp hn
        obtain ⟨hfr, hb⟩ := hse _ hp hn front last rest rfl (by simpa using hpg) (hrs (by simp))
        rw [filter_edge hfr hb] at hf
        exact hf
    have hsu : List.Sublist (beyond after id cursor (orders turn)) (orders turn) :=
      beyond_sublist
    have hln := hs.length_eq
    rw [drain, scan]
    simp only
    by_cases hm : size < (beyond after id cursor (orders turn)).length
    · rw [if_pos (decide_eq_true hm)]
      have hpa := List.take_append_drop size (beyond after id cursor (orders turn))
      have hsp : (seen ++ (beyond after id cursor (orders turn)).take size) ++
          (beyond after id cursor (orders turn)).drop size =
            seen ++ beyond after id cursor (orders turn) := by
        rw [List.append_assoc, hpa]
      obtain ⟨hsn, -, hc⟩ := List.pairwise_append.mp hn
      have hag : (seen ++ beyond after id cursor (orders turn)).Pairwise newer :=
        List.pairwise_append.mpr ⟨hsn, hso.sublist hsu,
          fun row hr other ho => hc row hr other (hs.mem_iff.mp ho)⟩
      have hsm : (beyond after id cursor (orders turn)).drop size ≠ [] := by
        intro hni
        rw [List.drop_eq_nil_iff] at hni
        omega
      obtain ⟨result, hre, hl⟩ := @ih (turn + 1)
        (seen ++ (beyond after id cursor (orders turn)).take size)
        ((beyond after id cursor (orders turn)).drop size) _
        (hsp ▸ (hs.append_left seen).trans hp) (hsp ▸ hag)
        (by
          rw [List.length_append, List.length_take, Nat.min_eq_left hm.le]
          exact (Nat.dvd_add_right hpg).mpr (Nat.dvd_refl size))
        (fun _ => hsm) (stands_take _ hsi hm)
        (by
          rw [List.length_drop]
          omega)
      refine ⟨_, by rw [hre, Option.map_some], ?_⟩
      have hj := hl.append_left ((beyond after id cursor (orders turn)).take size)
      rw [hpa] at hj
      exact hj.trans hs
    · rw [if_neg (by simpa using hm)]
      refine ⟨_, rfl, ?_⟩
      rw [List.take_of_length_le (by omega)]
      exact hs

-- Behind a row nothing is shown that does not come after it.
theorem drain_scan_after (hs : 0 < size)
    (ht : ∀ a b c, after a b → after b c → after a c) {fuel turn : Nat} {last : Row}
    {result : List Row}
    (h : drain (scan after size orders) fuel turn (some last) = some result) :
    ∀ row ∈ result, after last row := by
  induction fuel generalizing turn last result with
  | zero => exact absurd h (by simp [drain])
  | succ fuel ih =>
    have hp : ∀ row ∈ (beyond after id (some last) (orders turn)).take size,
        after last row := fun row hr =>
      (mem_beyond.mp (List.mem_of_mem_take hr)).2 last rfl
    rw [drain, scan] at h
    simp only at h
    split at h
    · obtain ⟨rest, hre, rfl⟩ := Option.map_eq_some_iff.mp h
      intro row hr
      rcases List.mem_append.mp hr with hf | hl
      · exact hp row hf
      · cases hn : ((beyond after id (some last) (orders turn)).take size).getLast? with
        | none =>
          rename_i hm
          have hem := congrArg List.length (List.getLast?_eq_none_iff.mp hn)
          rw [List.length_take, List.length_nil] at hem
          have hm := of_decide_eq_true hm
          omega
        | some next =>
          rw [hn] at hre
          exact ht last next row (hp next (List.mem_of_getLast? hn)) (ih hre row hl)
    · cases h
      exact hp

theorem drain_scan_subset (ho : ∀ turn, orders turn ⊆ rows) {fuel turn : Nat}
    {cursor : Option Row} {result : List Row}
    (h : drain (scan after size orders) fuel turn cursor = some result) : result ⊆ rows := by
  refine drain_subset (fun _ => True) (· ∈ rows) ?_ trivial h
  rintro turn cursor next page - hp
  simp only [scan, Prod.mk.injEq, Option.some.injEq] at hp
  obtain ⟨-, rfl⟩ := hp
  exact ⟨trivial, fun row hr =>
    ho turn (mem_beyond.mp (List.mem_of_mem_take hr)).1⟩

-- A reader whose next page begins with a row that was shown before shows it twice.
theorem not_after_of_nodup {front back result : List Row} {last : Row} {fuel turn : Nat}
    (hsi : 0 < size)
    (h : drain (scan after size fun _ => front ++ last :: back) fuel turn (some last) = some result)
    (hno : ((front ++ [last]) ++ result).Nodup) : ∀ row ∈ front ++ [last], ¬ after last row := by
  intro row hr ha
  obtain ⟨-, -, hdi⟩ := List.nodup_append'.mp hno
  cases fuel with
  | zero => exact absurd h (by simp [drain])
  | succ fuel =>
    have hs : front ++ last :: back = (front ++ [last]) ++ back := by simp
    obtain ⟨first, rest, hf⟩ : ∃ first rest,
        (front ++ [last]).filter (fun row => after last row) = first :: rest :=
      List.exists_cons_of_ne_nil fun hni => by
        have hn := List.filter_eq_nil_iff.mp hni row hr
        exact hn (by simpa using ha)
    have hm : first ∈ front ++ [last] :=
      (List.mem_filter.mp (hf ▸ List.mem_cons_self : first ∈ _)).1
    have hb : first ∈ (beyond after id (some last) (front ++ last :: back)).take size := by
      rw [hs, beyond, List.filter_append]
      simp only [id_eq, hf, List.cons_append]
      obtain ⟨n, rfl⟩ : ∃ n, size = n + 1 := ⟨size - 1, by omega⟩
      exact List.mem_cons_self
    rw [drain, scan] at h
    simp only at h
    split at h
    · obtain ⟨later, -, rfl⟩ := Option.map_eq_some_iff.mp h
      exact hdi hm (List.mem_append_left _ hb)
    · cases h
      exact hdi hm hb

-- A reader who gets each row once has pages that end where the rows are separated.
theorem separated_of_drain (hsi : 0 < size) (ho : ordered.Nodup)
    (hba : (∀ a b c, after a b → after b c → after a c) ∨
      ∀ front last back, ordered = front ++ last :: back → ∀ row ∈ back, after last row)
    {fuel turn : Nat} (seen rest : List Row) {result : List Row} {cursor : Option Row}
    (hsp : ordered = seen ++ rest) (hpa : size ∣ seen.length)
    (hrs : beyond after id cursor ordered = rest)
    (h : drain (scan after size fun _ => ordered) fuel turn cursor = some result)
    (hp : (seen ++ result).Perm ordered) :
    ∀ front last back, ordered = front ++ last :: back → size ∣ front.length + 1 → back ≠ [] →
      seen.length ≤ front.length →
        (∀ row ∈ front ++ [last], ¬ after last row) ∧ ∀ row ∈ back, after last row := by
  induction fuel generalizing turn seen rest result cursor with
  | zero => exact absurd h (by simp [drain])
  | succ fuel ih =>
    intro front last back hed hdv hne hse
    have hlg : ordered.length = front.length + 1 + back.length := by
      rw [hed, List.length_append, List.length_cons]
      omega
    have hso : 0 < back.length := List.length_pos_iff.mpr hne
    -- pages are of one size
    have hs : seen.length + size ≤ front.length + 1 := by
      obtain ⟨k, hk⟩ := (Nat.dvd_sub hdv hpa)
      have hk0 : 0 < k := by
        rcases Nat.eq_zero_or_pos k with rfl | hk0
        · omega
        · exact hk0
      have hle := Nat.le_mul_of_pos_right size hk0
      omega
    have hre : ordered.length = seen.length + rest.length := by
      rw [hsp, List.length_append]
    have hmo : size < rest.length := by omega
    rw [drain, scan, hrs] at h
    simp only [decide_eq_true hmo, if_true] at h
    obtain ⟨later, hla, rfl⟩ := Option.map_eq_some_iff.mp h
    -- the edge of this page
    obtain ⟨front', last', hsh, hc⟩ : ∃ front' last',
        seen ++ rest.take size = front' ++ [last'] ∧ (rest.take size).getLast? = some last' := by
      rcases stands_take seen hsi hmo with ⟨hni, -⟩ | h
      · have hem := congrArg List.length hni
        rw [List.length_append, List.length_take, List.length_nil] at hem
        omega
      · exact h
    have hh : ordered = front' ++ last' :: rest.drop size := by
      rw [hsp]
      conv_lhs => rw [← List.take_append_drop size rest, ← List.append_assoc, hsh]
      simp
    have hsi' : front'.length + 1 = seen.length + size := by
      have hln := congrArg List.length hsh
      rw [List.length_append, List.length_take, List.length_append, List.length_singleton,
        Nat.min_eq_left hmo.le] at hln
      omega
    rw [hc] at hla
    rw [← List.append_assoc, hsh] at hp
    have hn := hp.nodup_iff.mpr ho
    have hf : ∀ row ∈ front' ++ [last'], ¬ after last' row :=
      not_after_of_nodup hsi (hh ▸ hla) hn
    have hb : ∀ row ∈ rest.drop size, after last' row := by
      rcases hba with ht | hba
      · intro row hr
        by_contra hno
        have hlo : row ∉ later := fun hm =>
          hno (drain_scan_after hsi ht hla row hm)
        have hm : row ∈ ordered := by
          rw [hh]
          exact List.mem_append_right _ (List.mem_cons_of_mem _ hr)
        have hea := (List.mem_append.mp (hp.mem_iff.mpr hm)).resolve_right hlo
        rw [hh, show front' ++ last' :: rest.drop size =
          (front' ++ [last']) ++ rest.drop size by simp] at ho
        exact (List.nodup_append'.mp ho).2.2 hea hr
      · exact hba front' last' _ hh
    by_cases hl : front.length + 1 = seen.length + size
    · have hsa := hed.symm.trans hh
      have heq := List.append_inj' hsa (by
        have hln := congrArg List.length hsa
        simp only [List.length_append, List.length_cons] at hln ⊢
        omega)
      obtain ⟨rfl, hco⟩ := heq
      obtain ⟨rfl, rfl⟩ := List.cons.inj hco
      exact ⟨hf, hb⟩
    · refine ih (front' ++ [last']) (rest.drop size) ?_ ?_ ?_ hla hp front last back hed hdv hne ?_
      · rw [hh]
        simp
      · rw [List.length_append, List.length_singleton, hsi']
        exact (Nat.dvd_add_right hpa).mpr (Nat.dvd_refl size)
      · rw [beyond, hh]
        exact filter_edge hf hb
      · rw [List.length_append, List.length_singleton, hsi']
        have hmu := Nat.dvd_sub hdv ((Nat.dvd_add_right hpa).mpr (Nat.dvd_refl size))
        have hle := Nat.le_of_dvd (by omega) hmu
        omega

-- In whichever orders the rows come, a reader gets each once exactly when every page of every
-- order ends where the rows are separated.
theorem drain_scan_iff {newer : Row → Row → Prop} (hs : 0 < size) (hro : rows.Nodup)
    (ht : ∀ a b c, after a b → after b c → after a c) :
    (∀ orders : Nat → List Row, (∀ turn, (orders turn).Perm rows ∧ (orders turn).Pairwise newer) →
          ∃ fuel result, drain (scan after size orders) fuel 0 none = some result ∧
            result.Perm rows) ↔ ∀ ordered : List Row, ordered.Perm rows → ordered.Pairwise newer →
        Separated after size ordered := by
  constructor
  · intro h ordered hp hn front last back hed hdv hne
    obtain ⟨fuel, result, hr, ha⟩ := h (fun _ => ordered) fun _ => ⟨hp, hn⟩
    exact separated_of_drain hs (hp.nodup_iff.mpr hro) (Or.inl ht) [] ordered
      rfl (Nat.dvd_zero size) rfl hr (ha.trans hp.symm) front last back hed hdv hne (Nat.zero_le _)
  · intro h orders ho
    obtain ⟨hp, hn⟩ := ho 0
    obtain ⟨result, hr, ha⟩ := drain_scan_perm hs ho h 0 [] hp hn
      (Nat.dvd_zero size) (fun h => absurd rfl h) (Or.inl ⟨rfl, rfl⟩) (Nat.lt_succ_self _)
    exact ⟨_, result, hr, ha.trans hp⟩

-- A reader of rows in one order gets them in that order.
theorem drain_scan_eq (hsi : 0 < size) (hse : Separated after size ordered) :
    drain (scan after size fun _ => ordered) (ordered.length + 1) 0 none = some ordered := by
  refine drain_eq_some (fun _ => True) (fun cursor rest => ∃ seen, ordered = seen ++ rest ∧
    size ∣ seen.length ∧ (seen ≠ [] → rest ≠ []) ∧ Stands seen cursor) hsi ?_ trivial
    ⟨[], rfl, Nat.dvd_zero size, fun h => absurd rfl h, Or.inl ⟨rfl, rfl⟩⟩ (Nat.lt_succ_self _)
  rintro turn cursor rest - ⟨seen, hs, hdv, hr, hst⟩
  have hsh : beyond after id cursor ordered = rest := by
    rcases hst with ⟨rfl, rfl⟩ | ⟨front, last, rfl, rfl⟩
    · exact hs
    · have hed : ordered = front ++ last :: rest := by simpa using hs
      obtain ⟨hf, hb⟩ := hse front last rest hed (by simpa using hdv) (hr (by simp))
      rw [beyond, hed]
      exact filter_edge hf hb
  refine ⟨_, _, rfl, trivial, by rw [hsh], by rw [hsh], fun hm => ?_⟩
  refine ⟨seen ++ rest.take size, ?_, ?_, fun _ hn => ?_, ?_⟩
  · rw [List.append_assoc, List.take_append_drop, hs]
  · rw [List.length_append, List.length_take, Nat.min_eq_left hm.le]
    exact (Nat.dvd_add_right hdv).mpr (Nat.dvd_refl size)
  · rw [List.drop_eq_nil_iff] at hn
    omega
  · simp only [hsh]
    exact stands_take _ hsi hm

-- In one order, where what follows a row always comes after it.
theorem drain_scan_eq_iff (hs : 0 < size) (ho : ordered.Nodup)
    (hb : ∀ front last back, ordered = front ++ last :: back → ∀ row ∈ back, after last row) :
    (∃ fuel, drain (scan after size fun _ => ordered) fuel 0 none = some ordered) ↔
      Separated after size ordered := by
  constructor
  · rintro ⟨fuel, h⟩ front last back hed hdv hne
    exact separated_of_drain hs ho (Or.inr hb) [] ordered rfl
      (Nat.dvd_zero size) rfl h (List.Perm.refl _) front last back hed hdv hne (Nat.zero_le _)
  · intro h
    exact ⟨_, drain_scan_eq hs h⟩

end Edges

end Keyset
