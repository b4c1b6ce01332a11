import FlareIm.ReadReceipt

namespace FlareIm.ReadReceipt

open Text Proto Transition
open Function (update update_of_ne update_self)

variable {action : Action} {other : String} {claim : ReadWatermarkClaim} {seq : Nat}
  {watermarks : Watermarks} {available : Bool} {actions : List Action}

-- What the steps of the handler do, one case for each.
inductive Move (calls : Calls) (state : State) : Action → State → Prop where
  | refuse {id : Nat} (h : state.phase id = .waiting) :
      Move calls state (.refuse id) (state.finish id .error)
  | admitCall {id : Nat} {available : Bool} (h : state.phase id = .waiting) :
      Move calls state (.admitCall id available) (admitCall calls state id available)
  | allocate {id seq : Nat} {readClaim : Option ReadWatermarkClaim}
      (h : state.phase id = .admitted readClaim) :
      Move calls state (.allocate id (some seq))
        { state with
          phase := Function.update state.phase id (.sequenced readClaim seq)
          sequenced := (id, seq) :: state.sequenced }
  | starve {id : Nat} {readClaim : Option ReadWatermarkClaim}
      (h : state.phase id = .admitted readClaim) :
      Move calls state (.allocate id none) (state.fail id readClaim)
  | publish {id seq : Nat} {readClaim : Option ReadWatermarkClaim} {gotThrough : Bool}
      (h : state.phase id = .sequenced readClaim seq) :
      Move calls state (.publish id true gotThrough)
        (State.finish { state with
          published := { calls.event id with conversationSeq := seq } :: state.published } id .ok)
  | lose {id seq : Nat} {readClaim : Option ReadWatermarkClaim} {gotThrough : Bool}
      (h : state.phase id = .sequenced readClaim seq) :
      Move calls state (.publish id false gotThrough)
        (State.fail { state with
          published := if gotThrough then
            { calls.event id with conversationSeq := seq } :: state.published
            else state.published } id readClaim)
  | release {id : Nat} {claim : ReadWatermarkClaim} (h : state.phase id = .failing claim) :
      Move calls state (.release id)
        (State.finish { state with
          watermarks := releaseReadClaim calls.tenantId state.watermarks claim } id .error)
  | expire {userId : String} :
      Move calls state (.expire userId)
        { state with
          watermarks := Function.update state.watermarks
            (watermarkKey calls.tenantId calls.conversationId userId) none }

theorem move_of_step {calls : Calls} {state next : State}
    (h : step calls state action = some next) : Move calls state action next := by
  cases action with
  | refuse id =>
    simp only [step] at h
    split at h
    · cases h
      exact .refuse ‹_›
    · cases h
  | admitCall id available =>
    simp only [step] at h
    split at h
    · cases h
      exact .admitCall ‹_›
    · cases h
  | allocate id seq =>
    simp only [step] at h
    split at h
    · cases h
      exact .allocate ‹_›
    · cases h
      exact .starve ‹_›
    · cases h
  | publish id answered gotThrough =>
    simp only [step] at h
    split at h
    · cases h
      cases answered with
      | true => exact .publish ‹_›
      | false => exact .lose ‹_›
    · cases h
  | release id =>
    simp only [step] at h
    split at h
    · cases h
      exact .release ‹_›
    · cases h
  | expire userId =>
    cases h
    exact .expire

-- The watermark of a reader in the conversation of the calls.
def Calls.key (calls : Calls) (reader : String) : String :=
  watermarkKey calls.tenantId calls.conversationId reader

theorem Calls.key_inj {calls : Calls} {reader : String} :
    calls.key reader = calls.key other ↔ reader = other := by
  constructor
  · exact (String.append_right_inj _).mp
  · rintro rfl
    rfl

def Calls.reader (calls : Calls) (id : Nat) : Option String :=
  (cursorReadReceipt (calls.event id)).map (·.1)

-- A claim that stands: its call has not finished.
def Holds (phase : Phase) (claim : ReadWatermarkClaim) : Prop :=
  phase = .admitted (some claim) ∨ (∃ seq, phase = .sequenced (some claim) seq) ∨
    phase = .failing claim

-- A claim whose call has not failed so far.
def Flies (phase : Phase) (claim : ReadWatermarkClaim) : Prop :=
  phase = .admitted (some claim) ∨ ∃ seq, phase = .sequenced (some claim) seq

-- The last call that was compared with the watermark of a reader.
def lastJudged (calls : Calls) (state : State) (reader : String) : Option Nat :=
  state.judged.find? fun id => calls.reader id == some reader

-- The positions a script compares exactly.
def MAX_EXACT : Nat := 2 ^ 53

-- No receipt is compared with a watermark between the claim of another one of its reader that
-- fails and the release of that claim. Positions are within the numbers of a script.
def undisturbed (calls : Calls) (state : State) : Action → Prop
  | .admitCall id _ =>
    ∀ reader position, cursorReadReceipt (calls.event id) = some (reader, position) →
      position ≤ MAX_EXACT ∧
        ∀ other claim, state.phase other = .failing claim → claim.userId ≠ reader
  | .allocate id none =>
    ∀ claim, state.phase id = .admitted (some claim) →
      lastJudged calls state claim.userId = some id
  | .publish id false _ =>
    ∀ claim seq, state.phase id = .sequenced (some claim) seq →
      lastJudged calls state claim.userId = some id
  | _ => True

-- A position of a reader was published, at least, or a call under way will publish it, which is
-- not the one that may still fail.
def Covered (calls : Calls) (state : State) (reader : String) (position : Nat) : Prop :=
  (∃ event ∈ state.published, ∃ reached, cursorReadReceipt event = some (reader, reached) ∧
    position ≤ reached) ∨
  ∃ id claim, lastJudged calls state reader ≠ some id ∧ Flies (state.phase id) claim ∧
    claim.userId = reader ∧ position ≤ claim.readSeq

structure Inv (calls : Calls) (state : State) : Prop where
  claims : ∀ id claim, Holds (state.phase id) claim →
    cursorReadReceipt (calls.event id) = some (claim.userId, claim.readSeq) ∧
      claim.conversationId = calls.conversationId ∧ id ∈ state.judged
  failing : ∀ id claim, state.phase id = .failing claim →
    lastJudged calls state claim.userId = some id
  previous : ∀ id claim, lastJudged calls state claim.userId = some id →
    Holds (state.phase id) claim → claim.previous ≤ MAX_EXACT ∧
      (claim.previous = 0 ∨ Covered calls state claim.userId claim.previous)
  marks : ∀ reader mark, state.watermarks (calls.key reader) = some mark →
    mark ≤ MAX_EXACT ∧ ((∃ id claim, lastJudged calls state reader = some id ∧
      Holds (state.phase id) claim ∧ claim.userId = reader ∧ claim.readSeq = mark) ∨
      Covered calls state reader mark)
  answered : ∀ id reader position,
    cursorReadReceipt (calls.event id) = some (reader, position) →
    state.phase id = .finished .ok → Covered calls state reader position
  waiting : ∀ id, state.phase id = .waiting → id ∉ state.judged

theorem Flies.holds {phase : Phase} (h : Flies phase claim) : Holds phase claim := by
  rcases h with h | h
  · exact .inl h
  · exact .inr (.inl h)

theorem Holds.flies {phase : Phase} (h : Holds phase claim)
    (hf : phase ≠ .failing claim) : Flies phase claim := by
  rcases h with h | h | h
  · exact .inl h
  · exact .inr h
  · exact absurd h hf

theorem not_holds_waiting (claim : ReadWatermarkClaim) : ¬ Holds .waiting claim := by
  simp [Holds]

theorem not_holds_finished (outcome : Outcome) (claim : ReadWatermarkClaim) :
    ¬ Holds (.finished outcome) claim := by
  simp [Holds]

theorem lastJudged_eq {calls : Calls} {state next : State} (h : next.judged = state.judged)
    (reader : String) : lastJudged calls next reader = lastJudged calls state reader := by
  rw [lastJudged, lastJudged, h]

section OneCall

variable {calls : Calls} {state next : State} {id : Nat}

-- One call changes, no receipt is compared. Its flying claim goes on, or is published, or was
-- the last one compared.
structure Settles (calls : Calls) (state next : State) (id : Nat) : Prop where
  judged : next.judged = state.judged
  published : ∀ event ∈ state.published, event ∈ next.published
  others : ∀ other, other ≠ id → next.phase other = state.phase other
  flies : ∀ claim, Flies (state.phase id) claim → Flies (next.phase id) claim ∨
    lastJudged calls state claim.userId = some id ∨
    ∃ event ∈ next.published, cursorReadReceipt event = some (claim.userId, claim.readSeq)

theorem Covered.settles {reader : String} {position : Nat} (h : Covered calls state reader position)
    (hs : Settles calls state next id) : Covered calls next reader position := by
  rcases h with ⟨event, hev, hr⟩ | ⟨flying, claim, hl, hf, hu, hp⟩
  · exact .inl ⟨event, hs.published event hev, hr⟩
  · by_cases hid : flying = id
    · subst hid
      rcases hs.flies claim hf with hg | hj | ⟨event, hev, hr⟩
      · exact .inr ⟨flying, claim, by rwa [lastJudged_eq hs.judged], hg, hu, hp⟩
      · rw [hu] at hj
        exact absurd hj hl
      · exact .inl ⟨event, hev, claim.readSeq, by rw [hr, hu], hp⟩
    · refine .inr ⟨flying, claim, by rwa [lastJudged_eq hs.judged], ?_, hu, hp⟩
      rwa [hs.others flying hid]

-- What the call of a settling step has to show for the invariant.
structure SettlesCall (calls : Calls) (state next : State) (id : Nat) : Prop
    extends Settles calls state next id where
  holds : ∀ claim, Holds (next.phase id) claim → Holds (state.phase id) claim
  failing : ∀ claim, next.phase id = .failing claim → lastJudged calls state claim.userId = some id
  answered : ∀ reader position, cursorReadReceipt (calls.event id) = some (reader, position) →
    next.phase id = .finished .ok → Covered calls next reader position
  started : next.phase id ≠ .waiting
  marks : ∀ reader mark, next.watermarks (calls.key reader) = some mark →
    mark ≤ MAX_EXACT ∧ ((∃ holder claim, lastJudged calls state reader = some holder ∧
      Holds (next.phase holder) claim ∧ claim.userId = reader ∧ claim.readSeq = mark) ∨
      Covered calls next reader mark)

theorem Inv.settles (hin : Inv calls state) (hs : SettlesCall calls state next id) :
    Inv calls next := by
  have hh : ∀ other claim, Holds (next.phase other) claim → Holds (state.phase other) claim := by
    intro other claim h
    by_cases hid : other = id
    · subst hid
      exact hs.holds claim h
    · rwa [hs.others other hid] at h
  have hl : ∀ reader, lastJudged calls next reader = lastJudged calls state reader :=
    lastJudged_eq hs.judged
  refine ⟨?_, ?_, ?_, ?_, ?_, ?_⟩
  · intro other claim h
    rw [hs.judged]
    exact hin.claims other claim (hh other claim h)
  · intro other claim h
    rw [hl]
    by_cases hid : other = id
    · subst hid
      exact hs.failing claim h
    · rw [hs.others other hid] at h
      exact hin.failing other claim h
  · intro other claim hj h
    rw [hl] at hj
    obtain ⟨hle, hp⟩ := hin.previous other claim hj (hh other claim h)
    exact ⟨hle, hp.imp_right fun hc => hc.settles hs.toSettles⟩
  · intro reader mark hm
    rw [hl]
    exact hs.marks reader mark hm
  · intro other reader position hr hdo
    by_cases hid : other = id
    · subst hid
      exact hs.answered reader position hr hdo
    · rw [hs.others other hid] at hdo
      exact (hin.answered other reader position hr hdo).settles hs.toSettles
  · intro other hw
    rw [hs.judged]
    by_cases hid : other = id
    · subst hid
      exact absurd hw hs.started
    · rw [hs.others other hid] at hw
      exact hin.waiting other hw

theorem Inv.marks_of_settles (hin : Inv calls state) (hs : Settles calls state next id)
    {reader : String} {mark : Nat}
    (hk : ∀ claim, Holds (state.phase id) claim → claim.userId = reader →
      claim.readSeq = mark → Holds (next.phase id) claim ∨ Covered calls next reader mark)
    (hm : state.watermarks (calls.key reader) = some mark) :
    mark ≤ MAX_EXACT ∧ ((∃ holder claim, lastJudged calls state reader = some holder ∧
      Holds (next.phase holder) claim ∧ claim.userId = reader ∧ claim.readSeq = mark) ∨
      Covered calls next reader mark) := by
  obtain ⟨hle, ⟨holder, claim, hl, hh, hu, hse⟩ | hc⟩ := hin.marks reader mark hm
  · refine ⟨hle, ?_⟩
    by_cases hid : holder = id
    · subst hid
      rcases hk claim hh hu hse with hst | hc
      · exact .inl ⟨holder, claim, hl, hst, hu, hse⟩
      · exact .inr hc
    · refine .inl ⟨holder, claim, hl, ?_, hu, hse⟩
      rwa [hs.others holder hid]
  · exact ⟨hle, .inr (hc.settles hs)⟩

-- The call has no claim, before or after, and no answer that would need one.
theorem Inv.idle (call : Nat) (hin : Inv calls state) (hj : next.judged = state.judged)
    (hma : next.watermarks = state.watermarks)
    (hp : ∀ event ∈ state.published, event ∈ next.published)
    (ho : ∀ other, other ≠ call → next.phase other = state.phase other)
    (hb : ∀ claim, ¬ Holds (state.phase call) claim) (ha : ∀ claim, ¬ Holds (next.phase call) claim)
    (han : next.phase call ≠ .finished .ok) (hst : next.phase call ≠ .waiting) :
    Inv calls next := by
  have hs : Settles calls state next call :=
    ⟨hj, hp, ho, fun claim h => absurd h.holds (hb claim)⟩
  refine hin.settles ⟨hs, fun claim h => absurd h (ha claim), ?_, ?_, hst, ?_⟩
  · intro claim h
    exact absurd (.inr (.inr h)) (ha claim)
  · intro reader position _ h
    exact absurd h han
  · intro reader mark hm
    rw [hma] at hm
    exact hin.marks_of_settles hs (fun claim h => absurd h (hb claim)) hm

theorem Inv.allocate (hin : Inv calls state) {readClaim : Option ReadWatermarkClaim}
    (h : state.phase id = .admitted readClaim) :
    Inv calls { state with
      phase := update state.phase id (.sequenced readClaim seq)
      sequenced := (id, seq) :: state.sequenced } := by
  cases readClaim with
  | none =>
    apply Inv.idle id hin
    · rfl
    · rfl
    · exact fun event hev => hev
    · exact fun other hid => update_of_ne hid _ _
    · simp [h, Holds]
    · simp [Holds]
    · simp
    · simp
  | some claim =>
    have hs : Settles calls state { state with
        phase := update state.phase id (.sequenced (some claim) seq)
        sequenced := (id, seq) :: state.sequenced } id := by
      refine ⟨rfl, fun event hev => hev, fun other hid => update_of_ne hid _ _, ?_⟩
      intro held hh
      have heq : held = claim := by simpa [h, Flies, eq_comm] using hh
      exact .inl (.inr ⟨seq, by simp [heq]⟩)
    refine hin.settles ⟨hs, ?_, by simp, by simp, by simp, ?_⟩
    · intro held hh
      have heq : held = claim := by simpa [Holds, eq_comm] using hh
      exact .inl (by rw [h, heq])
    · intro reader mark hm
      refine hin.marks_of_settles hs (fun held hh _ _ => .inl ?_) hm
      have heq : held = claim := by simpa [h, Holds, eq_comm] using hh
      exact .inr (.inl ⟨seq, by simp [heq]⟩)

-- A call that fails: with a claim it is the last one compared, without one nobody relied on it.
theorem Inv.fail (hin : Inv calls state) {readClaim : Option ReadWatermarkClaim}
    {published : List Event} (hp : ∀ event ∈ state.published, event ∈ published)
    (hho : ∀ claim, Holds (state.phase id) claim ↔ readClaim = some claim)
    (hl : ∀ claim, readClaim = some claim → lastJudged calls state claim.userId = some id) :
    Inv calls (State.fail { state with published := published } id readClaim) := by
  cases readClaim with
  | none =>
    apply Inv.idle id hin
    · rfl
    · rfl
    · exact hp
    · exact fun other hid => update_of_ne hid _ _
    · simp [hho]
    · simp [State.fail, Phase.failed, Holds]
    · simp [State.fail, Phase.failed]
    · simp [State.fail, Phase.failed]
  | some claim =>
    have hs : Settles calls state
        (State.fail { state with published := published } id (some claim)) id := by
      refine ⟨rfl, hp, fun other hid => update_of_ne hid _ _, ?_⟩
      intro held hh
      exact .inr (.inl (hl held ((hho held).mp hh.holds)))
    refine hin.settles ⟨hs, ?_, ?_, by simp [State.fail, Phase.failed], by simp [State.fail, Phase.failed], ?_⟩
    · intro held hh
      rw [hho]
      simpa [State.fail, Phase.failed, Holds] using hh
    · intro held hh
      exact hl held (by simpa [State.fail, Phase.failed] using hh)
    · intro reader mark hm
      refine hin.marks_of_settles hs (fun held hh _ _ => .inl ?_) hm
      have heq := (hho held).mp hh
      exact .inr (.inr (by simpa [State.fail, Phase.failed] using heq))

theorem cursorReadReceipt_seq (event : Event) (seq : Nat) :
    cursorReadReceipt { event with conversationSeq := seq } = cursorReadReceipt event := rfl

theorem Inv.publish (hin : Inv calls state) (id seq : Nat) :
    Inv calls (State.finish { state with
      published := { calls.event id with conversationSeq := seq } :: state.published } id .ok) := by
  have ho : { calls.event id with conversationSeq := seq } ∈
      (State.finish { state with published :=
        { calls.event id with conversationSeq := seq } :: state.published } id .ok).published :=
    List.mem_cons_self
  have hc : ∀ claim, Holds (state.phase id) claim →
      cursorReadReceipt { calls.event id with conversationSeq := seq } =
        some (claim.userId, claim.readSeq) := by
    intro claim hh
    exact (hin.claims id claim hh).1
  have hs : Settles calls state (State.finish { state with published :=
      { calls.event id with conversationSeq := seq } :: state.published } id .ok) id := by
    refine ⟨rfl, fun event hev => List.mem_cons_of_mem _ hev,
      fun other hid => update_of_ne hid _ _, ?_⟩
    intro claim hf
    exact .inr (.inr ⟨_, ho, hc claim hf.holds⟩)
  refine hin.settles ⟨hs, by simp [State.finish, Holds], by simp [State.finish], ?_,
    by simp [State.finish], ?_⟩
  · intro reader position hr _
    exact .inl ⟨_, ho, position, by rwa [cursorReadReceipt_seq], Nat.le_refl _⟩
  · intro reader mark hm
    refine hin.marks_of_settles hs (fun claim hh hu hse => .inr ?_) hm
    exact .inl ⟨_, ho, mark, by rw [hc claim hh, hu, hse], Nat.le_refl _⟩

theorem releaseReadClaim_other {reader : String}
    (hc : claim.conversationId = calls.conversationId) (ho : claim.userId ≠ reader)
    (watermarks : Watermarks) :
    releaseReadClaim calls.tenantId watermarks claim (calls.key reader) =
      watermarks (calls.key reader) := by
  rw [releaseReadClaim, hc, rollback]
  split
  · refine update_of_ne (fun heq => ho ?_) _ _
    exact (Calls.key_inj.mp heq).symm
  · rfl

theorem releaseReadClaim_own {reader : String}
    (hc : claim.conversationId = calls.conversationId) (ho : claim.userId = reader)
    (watermarks : Watermarks) :
    releaseReadClaim calls.tenantId watermarks claim (calls.key reader) =
      if watermarks (calls.key reader) = some claim.readSeq then
        if claim.previous = 0 then none else some claim.previous
      else watermarks (calls.key reader) := by
  rw [releaseReadClaim, hc, ho]
  show rollback watermarks (calls.key reader) claim.readSeq claim.previous (calls.key reader) = _
  rw [rollback]
  split
  · rw [update_self]
  · rfl

theorem Inv.release (hin : Inv calls state) (h : state.phase id = .failing claim) :
    Inv calls (State.finish { state with
      watermarks := releaseReadClaim calls.tenantId state.watermarks claim } id .error) := by
  have hho : Holds (state.phase id) claim := .inr (.inr h)
  obtain ⟨-, hc, -⟩ := hin.claims id claim hho
  have hl := hin.failing id claim h
  have ho : ∀ held, Holds (state.phase id) held → held = claim := by
    intro held hh
    simpa [h, Holds, eq_comm] using hh
  have hs : Settles calls state (State.finish { state with
      watermarks := releaseReadClaim calls.tenantId state.watermarks claim } id .error) id := by
    refine ⟨rfl, fun event hev => hev, fun other hid => update_of_ne hid _ _, ?_⟩
    intro held hf
    exact .inr (.inl (by rw [ho held hf.holds]; exact hl))
  refine hin.settles ⟨hs, by simp [State.finish, Holds], by simp [State.finish],
    by simp [State.finish], by simp [State.finish], ?_⟩
  intro reader mark hm
  by_cases hon : claim.userId = reader
  · have hm' : releaseReadClaim calls.tenantId state.watermarks claim (calls.key reader) =
      some mark := hm
    rw [releaseReadClaim_own hc hon] at hm'
    split at hm'
    · -- the watermark goes back to what the claim found
      split at hm'
      · cases hm'
      · rename_i hp
        cases hm'
        obtain ⟨hle, hz | hco⟩ := hin.previous id claim hl hho
        · exact absurd hz hp
        · rw [hon] at hco
          exact ⟨hle, .inr (hco.settles hs)⟩
    · rename_i hch
      refine hin.marks_of_settles hs (fun held hh _ hse => ?_) hm'
      rw [ho held hh] at hse
      exact absurd (hm'.trans (by rw [hse])) hch
  · have hm' : state.watermarks (calls.key reader) = some mark := by
      rw [← releaseReadClaim_other hc hon state.watermarks]
      exact hm
    refine hin.marks_of_settles hs (fun held hh hu _ => ?_) hm'
    rw [ho held hh] at hu
    exact absurd hu hon

theorem Inv.expire (hin : Inv calls state) (userId : String) :
    Inv calls { state with
      watermarks := update state.watermarks
        (watermarkKey calls.tenantId calls.conversationId userId) none } := by
  refine ⟨hin.claims, hin.failing, hin.previous, ?_, hin.answered, hin.waiting⟩
  intro reader mark hm
  by_cases ho : calls.key reader = calls.key userId
  · rw [ho] at hm
    exact absurd ((update_self _ _ _).symm.trans hm) (by simp)
  · exact hin.marks reader mark ((update_of_ne ho _ _).symm.trans hm)

end OneCall

section Judge

variable {calls : Calls} {state next : State} {id position : Nat} {reader : String}

-- A receipt was compared with its reader's watermark: it is stale, or it raised the watermark
-- and holds the claim for it.
structure Judges (calls : Calls) (state next : State) (id : Nat) (reader : String)
    (position : Nat) : Prop where
  receipt : cursorReadReceipt (calls.event id) = some (reader, position)
  exact_ : position ≤ MAX_EXACT
  waiting : state.phase id = .waiting
  calm : ∀ other claim, state.phase other = .failing claim → claim.userId ≠ reader
  judged : next.judged = id :: state.judged
  published : next.published = state.published
  others : ∀ other, other ≠ id → next.phase other = state.phase other
  otherMarks : ∀ other, other ≠ reader →
    next.watermarks (calls.key other) = state.watermarks (calls.key other)
  verdict : (next.phase id = .finished .ok ∧
      next.watermarks (calls.key reader) = state.watermarks (calls.key reader) ∧
      ∃ mark, state.watermarks (calls.key reader) = some mark ∧ position ≤ mark) ∨
    (next.phase id = .admitted (some ⟨calls.conversationId, reader, position,
        (state.watermarks (calls.key reader)).getD 0⟩) ∧
      next.watermarks (calls.key reader) = some position ∧
      (state.watermarks (calls.key reader)).getD 0 < position)

theorem Judges.lastJudged_own (h : Judges calls state next id reader position) :
    lastJudged calls next reader = some id := by
  simp [lastJudged, h.judged, Calls.reader, h.receipt]

theorem Judges.lastJudged_other (h : Judges calls state next id reader position)
    (ho : other ≠ reader) : lastJudged calls next other = lastJudged calls state other := by
  simp [lastJudged, h.judged, Calls.reader, h.receipt, ho.symm]

theorem Judges.ne_of_holds (h : Judges calls state next id reader position) {other : Nat}
    (hh : Holds (state.phase other) claim) : other ≠ id := by
  rintro rfl
  rw [h.waiting] at hh
  exact not_holds_waiting claim hh

theorem Covered.judges {reached : Nat} (h : Covered calls state other reached)
    (hj : Judges calls state next id reader position) : Covered calls next other reached := by
  rcases h with hp | ⟨flying, claim, hl, hf, hu, hr⟩
  · rw [← hj.published] at hp
    exact .inl hp
  · have hne := hj.ne_of_holds hf.holds
    refine .inr ⟨flying, claim, ?_, by rwa [hj.others flying hne], hu, hr⟩
    by_cases ho : other = reader
    · subst ho
      rw [hj.lastJudged_own]
      exact fun heq => hne (Option.some.inj heq).symm
    · rwa [hj.lastJudged_other ho]

theorem Judges.covered_mark (hj : Judges calls state next id reader position)
    (hin : Inv calls state) {mark : Nat}
    (hm : state.watermarks (calls.key reader) = some mark) : Covered calls next reader mark := by
  obtain ⟨-, ⟨holder, claim, hl, hh, hu, hs⟩ | hc⟩ := hin.marks reader mark hm
  · have hne := hj.ne_of_holds hh
    have hfl : Flies (state.phase holder) claim :=
      hh.flies fun hf => hj.calm holder claim hf hu
    refine .inr ⟨holder, claim, ?_, by rwa [hj.others holder hne], hu, hs.ge⟩
    rw [hj.lastJudged_own]
    exact fun heq => hne (Option.some.inj heq).symm
  · exact hc.judges hj

theorem Covered.mono {lower : Nat} (h : Covered calls state reader position)
    (hle : lower ≤ position) : Covered calls state reader lower := by
  rcases h with ⟨event, hev, reached, hre, hr⟩ | ⟨flying, claim, hl, hf, hu, hr⟩
  · exact .inl ⟨event, hev, reached, hre, hle.trans hr⟩
  · exact .inr ⟨flying, claim, hl, hf, hu, hle.trans hr⟩

theorem Judges.own_claim (hj : Judges calls state next id reader position)
    (h : Holds (next.phase id) claim) :
    claim = ⟨calls.conversationId, reader, position, (state.watermarks (calls.key reader)).getD 0⟩ ∧
      next.watermarks (calls.key reader) = some position := by
  rcases hj.verdict with ⟨hp, -⟩ | ⟨hp, hm⟩
  · rw [hp] at h
    exact absurd h (not_holds_finished _ _)
  · refine ⟨?_, hm.1⟩
    simpa [hp, Holds, eq_comm] using h

theorem Judges.covered_previous (hj : Judges calls state next id reader position)
    (hin : Inv calls state) : (state.watermarks (calls.key reader)).getD 0 ≤ MAX_EXACT ∧
      ((state.watermarks (calls.key reader)).getD 0 = 0 ∨
        Covered calls next reader ((state.watermarks (calls.key reader)).getD 0)) := by
  cases hm : state.watermarks (calls.key reader) with
  | none => exact ⟨Nat.zero_le _, .inl rfl⟩
  | some mark => exact ⟨(hin.marks reader mark hm).1, .inr (hj.covered_mark hin hm)⟩

theorem Inv.judges (hin : Inv calls state) (hj : Judges calls state next id reader position) :
    Inv calls next := by
  refine ⟨?_, ?_, ?_, ?_, ?_, ?_⟩
  · intro other claim hh
    rw [hj.judged]
    by_cases hid : other = id
    · subst hid
      obtain ⟨rfl, -⟩ := hj.own_claim hh
      exact ⟨hj.receipt, rfl, List.mem_cons_self⟩
    · rw [hj.others other hid] at hh
      obtain ⟨hr, hco, hm⟩ := hin.claims other claim hh
      exact ⟨hr, hco, List.mem_cons_of_mem _ hm⟩
  · intro other claim hf
    by_cases hid : other = id
    · subst hid
      rcases hj.verdict with ⟨hp, -⟩ | ⟨hp, -⟩ <;> rw [hp] at hf <;> cases hf
    · rw [hj.others other hid] at hf
      rw [hj.lastJudged_other (hj.calm other claim hf)]
      exact hin.failing other claim hf
  · intro other claim hl hh
    by_cases ho : claim.userId = reader
    · rw [ho, hj.lastJudged_own] at hl
      cases hl
      obtain ⟨rfl, -⟩ := hj.own_claim hh
      exact hj.covered_previous hin
    · rw [hj.lastJudged_other ho] at hl
      have hid : other ≠ id := by
        rintro rfl
        obtain ⟨rfl, -⟩ := hj.own_claim hh
        exact ho rfl
      rw [hj.others other hid] at hh
      obtain ⟨hle, hpr⟩ := hin.previous other claim hl hh
      exact ⟨hle, hpr.imp_right fun hc => hc.judges hj⟩
  · intro other mark hma
    by_cases ho : other = reader
    · subst ho
      rcases hj.verdict with ⟨-, hs, -⟩ | ⟨hp, hra, -⟩
      · rw [hs] at hma
        exact ⟨(hin.marks other mark hma).1, .inr (hj.covered_mark hin hma)⟩
      · rw [hra] at hma
        cases hma
        exact ⟨hj.exact_, .inl ⟨id, _, hj.lastJudged_own, .inl hp, rfl, rfl⟩⟩
    · rw [hj.otherMarks other ho] at hma
      obtain ⟨hle, ⟨holder, claim, hl, hh, hu, hse⟩ | hc⟩ :=
        hin.marks other mark hma
      · refine ⟨hle, .inl ⟨holder, claim, by rwa [hj.lastJudged_other ho], ?_, hu, hse⟩⟩
        rwa [hj.others holder (hj.ne_of_holds hh)]
      · exact ⟨hle, .inr (hc.judges hj)⟩
  · intro other named reached hr hdo
    by_cases hid : other = id
    · subst hid
      rw [hj.receipt] at hr
      cases hr
      rcases hj.verdict with ⟨-, -, mark, hma, hle⟩ | ⟨hp, -⟩
      · exact (hj.covered_mark hin hma).mono hle
      · rw [hp] at hdo
        cases hdo
    · rw [hj.others other hid] at hdo
      exact (hin.answered other named reached hr hdo).judges hj
  · intro other hw
    have hid : other ≠ id := by
      rintro rfl
      rcases hj.verdict with ⟨hp, -⟩ | ⟨hp, -⟩ <;> rw [hp] at hw <;> cases hw
    rw [hj.others other hid] at hw
    rw [hj.judged, List.mem_cons, not_or]
    exact ⟨hid, hin.waiting other hw⟩

end Judge

theorem cursorReadReceipt_pos {event : Event} {reader : String} {position : Nat}
    (h : cursorReadReceipt event = some (reader, position)) : position ≠ 0 := by
  unfold cursorReadReceipt at h
  split at h
  · cases h
  · split at h
    · split at h
      · cases h
      · rename_i hr
        rw [not_or, not_or] at hr
        cases h
        exact hr.2.1
    · cases h

theorem advance_exact {key : String} {position : Nat}
    (hm : (watermarks key).getD 0 ≤ MAX_EXACT) (hp : position ≤ MAX_EXACT) :
    advance watermarks key position =
      if position ≤ (watermarks key).getD 0 then
        (watermarks, .notAdvanced ((watermarks key).getD 0))
      else (update watermarks key (some position),
        .advanced ((watermarks key).getD 0)) := by
  simp only [advance, LuaNumber.ofNat_of_le hm, LuaNumber.ofNat_of_le hp,
    LuaNumber.reply_of_le hm, Option.map_some, Option.getD_some]

section Steps

variable {calls : Calls} {state next : State} {id position : Nat} {reader : String}

theorem Inv.mark_le (hin : Inv calls state) (reader : String) :
    (state.watermarks (calls.key reader)).getD 0 ≤ MAX_EXACT := by
  cases hm : state.watermarks (calls.key reader) with
  | none => exact Nat.zero_le _
  | some mark => exact (hin.marks reader mark hm).1

theorem admit_judges (hin : Inv calls state) (hw : state.phase id = .waiting)
    (hr : cursorReadReceipt (calls.event id) = some (reader, position)) (hp : position ≤ MAX_EXACT)
    (hc : ∀ other claim, state.phase other = .failing claim → claim.userId ≠ reader) :
    Judges calls state (admitCall calls state id true) id reader position := by
  have hk : watermarkKey calls.tenantId (calls.event id).conversationId reader =
      calls.key reader := by
    rw [calls.same_conversation id]
    rfl
  have had := advance_exact (hin.mark_le reader) hp
  have hj : (admitCall calls state id true).judged = id :: state.judged := by
    simp [admitCall, isJudged, hr]
  have hoh : ∀ other, other ≠ id →
      (admitCall calls state id true).phase other = state.phase other :=
    fun other hid => update_of_ne hid _ _
  by_cases hs : position ≤ (state.watermarks (calls.key reader)).getD 0
  · rw [if_pos hs] at had
    have ha : admitEvent calls.tenantId state.watermarks true (calls.event id) =
        (state.watermarks,
          .staleReadReceipt position ((state.watermarks (calls.key reader)).getD 0)) := by
      simp [admitEvent, hr, hk, had]
    refine ⟨hr, hp, hw, hc, hj, rfl, hoh, ?_, .inl ⟨?_, ?_, ?_⟩⟩
    · intro other _
      simp [admitCall, ha, EventAdmission.phase]
    · simp [admitCall, ha, EventAdmission.phase]
    · simp [admitCall, ha, EventAdmission.phase]
    · cases hm : state.watermarks (calls.key reader) with
      | none =>
        rw [hm] at hs
        exact absurd (Nat.le_zero.mp hs) (cursorReadReceipt_pos hr)
      | some mark => exact ⟨mark, rfl, by simpa [hm] using hs⟩
  · rw [if_neg hs] at had
    have ha : admitEvent calls.tenantId state.watermarks true (calls.event id) =
        (update state.watermarks (calls.key reader) (some position),
          .admitted (some ⟨calls.conversationId, reader, position,
            (state.watermarks (calls.key reader)).getD 0⟩)) := by
      simp only [admitEvent, hr, hk, had]
      simp [calls.same_conversation id]
    refine ⟨hr, hp, hw, hc, hj, rfl, hoh, ?_, .inr ⟨?_, ?_, Nat.not_le.mp hs⟩⟩
    · intro other ho
      have hne : calls.key other ≠ calls.key reader := fun heq => ho (Calls.key_inj.mp heq)
      simp [admitCall, ha, update_of_ne hne]
    · simp [admitCall, ha, EventAdmission.phase]
    · simp [admitCall, ha, EventAdmission.phase]

theorem admit_unjudged (h : isJudged (calls.event id) available = false) :
    admitCall calls state id available =
      { state with phase := update state.phase id (.admitted none) } := by
  have had : admitEvent calls.tenantId state.watermarks available (calls.event id) =
      (state.watermarks, .admitted none) := by
    unfold admitEvent
    cases hr : cursorReadReceipt (calls.event id) with
    | none => rfl
    | some receipt =>
      have ha : available = false := by simpa [isJudged, hr] using h
      simp [ha]
  simp [admitCall, had, h, EventAdmission.phase]

theorem inv_initial (calls : Calls) : Inv calls State.initial := by
  refine ⟨?_, ?_, ?_, ?_, ?_, ?_⟩ <;> simp [State.initial, Holds, lastJudged]

theorem step_inv (hin : Inv calls state) (hok : undisturbed calls state action)
    (hs : step calls state action = some next) : Inv calls next := by
  cases move_of_step hs with
  | @refuse id h =>
    apply Inv.idle id hin
    · rfl
    · rfl
    · exact fun event hev => hev
    · exact fun other hid => update_of_ne hid _ _
    · simp [h, Holds]
    · simp [State.finish, Holds]
    · simp [State.finish]
    · simp [State.finish]
  | @admitCall id available h =>
    cases hj : isJudged (calls.event id) available with
    | false =>
      rw [admit_unjudged hj]
      apply Inv.idle id hin
      · rfl
      · rfl
      · exact fun event hev => hev
      · exact fun other hid => update_of_ne hid _ _
      · simp [h, Holds]
      · simp [Holds]
      · simp
      · simp
    | true =>
      simp only [isJudged, Bool.and_eq_true, Option.isSome_iff_exists] at hj
      obtain ⟨rfl, ⟨reader, position⟩, hr⟩ := hj
      obtain ⟨hp, hca⟩ := hok reader position hr
      exact hin.judges (admit_judges hin h hr hp hca)
  | allocate h => exact hin.allocate h
  | @starve id readClaim h =>
    have hh : ∀ claim, Holds (state.phase id) claim ↔ readClaim = some claim := by
      simp [h, Holds]
    refine hin.fail (fun event hev => hev) hh fun claim hc => ?_
    subst hc
    exact hok claim h
  | @publish id seq readClaim gotThrough h => exact hin.publish id seq
  | @lose id seq readClaim gotThrough h =>
    have hh : ∀ claim, Holds (state.phase id) claim ↔ readClaim = some claim := by
      simp [h, Holds]
    refine hin.fail ?_ hh fun claim hc => ?_
    · intro event hev
      cases gotThrough with
      | true => exact List.mem_cons_of_mem _ hev
      | false => exact hev
    · subst hc
      exact hok claim seq h
  | release h => exact hin.release h
  | expire => exact hin.expire _

theorem run_inv
    (hr : Run (step calls) (undisturbed calls) State.initial actions state) : Inv calls state :=
  hr.preserves _ (fun _ _ _ hin hok hs => step_inv hin hok hs) (inv_initial calls)

end Steps

section Independence

variable {calls : Calls} {state next alone : State} {reader : String}

def ofReader (reader : String) (event : Event) : Bool :=
  (cursorReadReceipt event).map (·.1) == some reader

-- The steps of the calls of one reader.
def concerns (calls : Calls) (reader : String) : Action → Bool
  | .refuse id | .admitCall id _ | .allocate id _ | .publish id _ _ | .release id =>
    calls.reader id == some reader
  | .expire userId => userId == reader

-- Two states look the same to a reader: the watermark, the calls and what was published.
structure SameFor (calls : Calls) (reader : String) (state alone : State) : Prop where
  mark : state.watermarks (calls.key reader) = alone.watermarks (calls.key reader)
  phase : ∀ id, calls.reader id = some reader → state.phase id = alone.phase id
  published : state.published.filter (ofReader reader) = alone.published.filter (ofReader reader)

end Independence

def settled : Phase → Prop
  | .waiting | .finished _ => True
  | _ => False

section Sample

end Sample

end FlareIm.ReadReceipt
