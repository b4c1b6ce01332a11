import FlareIm.SequenceFloor

namespace FlareIm.SequenceFloor

open Transition
open Function (update update_of_ne)

variable {seq floor : Nat} {next : State}

-- The numbers of the conversation that must not be given out again.
def State.Stored (state : State) (seq : Nat) : Prop :=
  seq ∈ state.messages ∨ seq ∈ state.events

def State.Known (state : State) (seq : Nat) : Prop :=
  state.Stored seq ∨ seq ∈ state.pending

def State.Quiet (state : State) : Prop :=
  state.pending = [] ∧ ∀ call, state.phase call = .idle ∨ state.phase call = .done

-- The largest number a script counts to exactly.
def MAX_EXACT : Nat := 2 ^ 53

-- The counter is lost between allocations. From then on a floor is asked for before any number
-- of the restarted counter is returned: no event is numbered, and a checked process draws the
-- first number at most. The floor answered then has no event above it, and numbers stay within
-- those of a script.
def guarded (ingest : Ingest) (state : State) : Action → Prop
  | .incr call =>
    state.recovering = true →
      state.counter = 0 ∧ state.cache (ingest.process call) = some .checked
  | .lookup _ none => False
  | .lookup _ (some floor) => state.recovering = true → ∀ seq ∈ state.events, seq ≤ floor
  | .allocate call => ∀ floor, state.phase call = .floored floor → max state.counter floor < MAX_EXACT
  | .event => state.recovering = false
  | .lose => state.Quiet
  | _ => True

-- A call that asks for a floor, or was answered one.
def Phase.asks : Phase → Prop
  | .looking | .floored _ => True
  | _ => False

structure Inv (ingest : Ingest) (state : State) : Prop where
  asks : ∀ call, (state.phase call).asks → ingest.hasProvider (ingest.process call) = true
  provider : ∀ process, state.cache process = some .checked → ingest.hasProvider process = true
  noFallback : ∀ call, state.phase call ≠ .fallback
  drawnLe : ∀ call seq, state.phase call = .drawn seq → seq ≤ state.counter
  drawnInj : ∀ call other seq, state.phase call = .drawn seq → state.phase other = .drawn seq →
    call = other
  drawnFresh : ∀ call seq, state.phase call = .drawn seq →
    suspicious ingest state call seq = true ∨ state.recovering = false ∧ ¬ state.Known seq
  covered : state.recovering = false → ∀ seq, state.Known seq → seq ≤ state.counter
  pending : state.recovering = true → state.pending = []
  floored : state.recovering = true → ∀ call floor, state.phase call = .floored floor →
    ∀ seq, state.Stored seq → seq ≤ floor

-- A conversation whose counter is ahead of everything stored, with no call under way.
structure Healthy (ingest : Ingest) (state : State) : Prop where
  quiet : state.Quiet
  provider : ∀ process, state.cache process = some .checked → ingest.hasProvider process = true
  ahead : ∀ seq, state.Stored seq → seq ≤ state.counter
  kept : state.lost = false
  calm : state.recovering = false

theorem Healthy.inv {ingest : Ingest} {state : State} (h : Healthy ingest state) :
    Inv ingest state := by
  obtain ⟨hpe, hp⟩ := h.quiet
  have hn : ∀ {call : Nat} {phase : Phase}, phase ≠ .idle → phase ≠ .done →
      state.phase call ≠ phase := by
    intro call phase hil hdo heq
    rcases hp call with hc | hc
    · exact hil (heq.symm.trans hc)
    · exact hdo (heq.symm.trans hc)
  refine ⟨?_, h.provider, fun call => hn (by simp) (by simp), ?_, ?_, ?_, ?_, ?_, ?_⟩
  · intro call ha
    rcases hp call with hc | hc
    · rw [hc] at ha
      cases ha
    · rw [hc] at ha
      cases ha
  · intro call seq hdr
    exact absurd hdr (hn (by simp) (by simp))
  · intro call other seq hdr
    exact absurd hdr (hn (by simp) (by simp))
  · intro call seq hdr
    exact absurd hdr (hn (by simp) (by simp))
  · rintro - seq (hs | hpn)
    · exact h.ahead seq hs
    · rw [hpe] at hpn
      cases hpn
  · intro hr
    exact hpe
  · intro hr
    rw [h.calm] at hr
    cases hr

section Steps

variable {ingest : Ingest} {state : State} {call : Nat}

theorem Inv.goTo (hin : Inv ingest state) {phase : Phase} (hf : phase ≠ .fallback)
    (hdr : ∀ seq, phase ≠ .drawn seq)
    (ha : phase.asks → ingest.hasProvider (ingest.process call) = true)
    (hfl : state.recovering = true → ∀ floor, phase = .floored floor →
      ∀ seq, state.Stored seq → seq ≤ floor) : Inv ingest (state.goTo call phase) := by
  have hp : ∀ {other : Nat} {seq : Nat}, (state.goTo call phase).phase other = .drawn seq →
      state.phase other = .drawn seq := by
    intro other seq h
    by_cases ho : other = call
    · subst ho
      exact absurd (by simpa [State.goTo] using h) (hdr seq)
    · simpa [State.goTo, update_of_ne ho] using h
  refine ⟨?_, hin.provider, ?_, ?_, ?_, ?_, hin.covered, hin.pending, ?_⟩
  · intro other h
    by_cases ho : other = call
    · subst ho
      exact ha (by simpa [State.goTo] using h)
    · exact hin.asks other (by simpa [State.goTo, update_of_ne ho] using h)
  · intro other
    by_cases ho : other = call
    · subst ho
      simpa [State.goTo] using hf
    · simpa [State.goTo, update_of_ne ho] using hin.noFallback other
  · intro other seq h
    exact hin.drawnLe other seq (hp h)
  · intro one two seq hon ht
    exact hin.drawnInj one two seq (hp hon) (hp ht)
  · intro other seq h
    exact hin.drawnFresh other seq (hp h)
  · intro hr other floor h
    by_cases ho : other = call
    · subst ho
      exact hfl hr floor (by simpa [State.goTo] using h)
    · exact hin.floored hr other floor (by
        simpa [State.goTo, update_of_ne ho] using h)

theorem Inv.draw (hin : Inv ingest state)
    (hok : state.recovering = true →
      state.counter = 0 ∧ state.cache (ingest.process call) = some .checked) :
    Inv ingest { state.goTo call (.drawn (state.counter + 1)) with
      counter := state.counter + 1 } := by
  have ho : ∀ {other : Nat} {phase : Phase}, other ≠ call →
      (state.goTo call (.drawn (state.counter + 1))).phase other = phase →
      state.phase other = phase := by
    intro other phase hne h
    simpa [State.goTo, update_of_ne hne] using h
  have hown : (state.goTo call (.drawn (state.counter + 1))).phase call =
      .drawn (state.counter + 1) := by
    simp [State.goTo]
  refine ⟨?_, hin.provider, ?_, ?_, ?_, ?_, ?_, hin.pending, ?_⟩
  · intro other h
    by_cases hne : other = call
    · subst hne
      have ha : (Phase.drawn (state.counter + 1)).asks := by rwa [← hown]
      cases ha
    · refine hin.asks other ?_
      rwa [ho hne rfl]
  · intro other h
    by_cases hne : other = call
    · subst hne
      rw [hown] at h
      cases h
    · exact hin.noFallback other (ho hne h)
  · intro other seq h
    by_cases hne : other = call
    · subst hne
      rw [hown] at h
      cases h
      exact Nat.le_refl _
    · exact Nat.le_succ_of_le (hin.drawnLe other seq (ho hne h))
  · intro one two seq hon ht
    have hn : ∀ {other : Nat}, other ≠ call →
        (state.goTo call (.drawn (state.counter + 1))).phase other ≠ .drawn (state.counter + 1) := by
      intro other hne h
      have hle := hin.drawnLe other _ (ho hne h)
      omega
    by_cases hon' : one = call
    · by_cases ht' : two = call
      · rw [hon', ht']
      · subst hon'
        rw [hown] at hon
        cases hon
        exact absurd ht (hn ht')
    · by_cases ht' : two = call
      · subst ht'
        rw [hown] at ht
        cases ht
        exact absurd hon (hn hon')
      · exact hin.drawnInj one two seq (ho hon' hon) (ho ht' ht)
  · intro other seq h
    by_cases hne : other = call
    · subst hne
      rw [hown] at h
      cases h
      cases hr : state.recovering with
      | true =>
        obtain ⟨hz, hc⟩ := hok hr
        refine .inl ?_
        show (state.counter + 1 == 1 && state.cache (ingest.process other) == some .checked) = true
        simp [hz, hc]
      | false =>
        refine .inr ⟨hr, fun hk => ?_⟩
        have hle := hin.covered hr _ hk
        omega
    · exact hin.drawnFresh other seq (ho hne h)
  · intro hr seq hk
    exact Nat.le_succ_of_le (hin.covered hr seq hk)
  · intro hr other floor h
    by_cases hne : other = call
    · subst hne
      rw [hown] at h
      cases h
    · exact hin.floored hr other floor (ho hne h)

theorem Inv.returned (hin : Inv ingest state) (hdr : state.phase call = .drawn seq)
    (hsu : suspicious ingest state call seq = false) :
    ¬ state.Known seq ∧ Inv ingest (state.returned call seq) := by
  have hfr : state.recovering = false ∧ ¬ state.Known seq := by
    rcases hin.drawnFresh call seq hdr with hf | hfr
    · rw [hsu] at hf
      cases hf
    · exact hfr
  obtain ⟨hc, hn⟩ := hfr
  have hgo : Inv ingest (state.goTo call .done) :=
    hin.goTo (by simp) (by simp) (by simp [Phase.asks]) (by simp)
  refine ⟨hn, hgo.asks, hgo.provider, hgo.noFallback, hgo.drawnLe, hgo.drawnInj, ?_, ?_, ?_, ?_⟩
  · intro other number h
    have ho : other ≠ call := by
      rintro rfl
      simp [State.returned, State.goTo] at h
    have hb : state.phase other = .drawn number := by
      simpa [State.returned, State.goTo, update_of_ne ho] using h
    rcases hin.drawnFresh other number hb with hf | ⟨hc, ho'⟩
    · exact .inl hf
    · refine .inr ⟨hc, ?_⟩
      rintro (hs | hp)
      · exact ho' (.inl hs)
      · rcases List.mem_cons.mp hp with heq | hp
        · subst heq
          exact ho (hin.drawnInj other call _ hb hdr)
        · exact ho' (.inr hp)
  · rintro - number (hs | hp)
    · exact hin.covered hc number (.inl hs)
    · rcases List.mem_cons.mp hp with rfl | hp
      · exact hin.drawnLe call _ hdr
      · exact hin.covered hc number (.inr hp)
  · intro hr
    exact absurd hc (by simpa [State.returned, State.goTo] using hr)
  · intro hr
    exact absurd hc (by simpa [State.returned, State.goTo] using hr)

theorem Inv.raise (hin : Inv ingest state) (seq : Nat) (hc : next.counter = seq)
    (ha : state.counter < seq) (hk : ∀ known, state.Known known → known < seq)
    (hme : next.messages = state.messages) (hev : next.events = state.events)
    (hpe : next.pending = seq :: state.pending) (hca : next.recovering = false)
    (hch : ∀ process, state.cache process = some .checked → next.cache process = some .checked)
    (hpr : ∀ process, next.cache process = some .checked → ingest.hasProvider process = true)
    (hp : ∀ other, next.phase other = state.phase other ∨ next.phase other = .done) :
    Inv ingest next := by
  have hdr : ∀ {other number : Nat}, next.phase other = .drawn number →
      state.phase other = .drawn number := by
    intro other number h
    rcases hp other with hs | hdo
    · rw [← hs, h]
    · rw [hdo] at h
      cases h
  have hn : ∀ number, next.Known number → number = seq ∨ state.Known number := by
    rintro number (hst | hm)
    · rw [State.Stored, hme, hev] at hst
      exact .inr (.inl hst)
    · rw [hpe] at hm
      exact (List.mem_cons.mp hm).imp_right .inr
  refine ⟨?_, hpr, ?_, ?_, ?_, ?_, ?_, ?_, ?_⟩
  · intro other h
    rcases hp other with hs | hdo
    · exact hin.asks other (by rwa [← hs])
    · rw [hdo] at h
      cases h
  · intro other h
    rcases hp other with hs | hdo
    · exact hin.noFallback other (hs.symm.trans h)
    · rw [hdo] at h
      cases h
  · intro other number h
    rw [hc]
    have hle := hin.drawnLe other number (hdr h)
    omega
  · intro one two number ho ht
    exact hin.drawnInj one two number (hdr ho) (hdr ht)
  · intro other number h
    rcases hin.drawnFresh other number (hdr h) with hf | ⟨-, hfr⟩
    · refine .inl ?_
      simp only [suspicious, Bool.and_eq_true, beq_iff_eq] at hf ⊢
      exact ⟨hf.1, hch _ hf.2⟩
    · refine .inr ⟨hca, fun hk' => ?_⟩
      rcases hn number hk' with heq | hold
      · have hle := hin.drawnLe other number (hdr h)
        omega
      · exact hfr hold
  · rintro - number h
    rw [hc]
    rcases hn number h with heq | hold
    · exact heq.le
    · exact (hk number hold).le
  · intro hr
    rw [hca] at hr
    cases hr
  · intro hr
    rw [hca] at hr
    cases hr

theorem allocateSeqWithFloor_exact {counter : Nat} (h : max counter floor < MAX_EXACT) :
    allocateSeqWithFloor counter floor = some (max counter floor + 1) := by
  have hc : counter ≤ 2 ^ 53 := by
    have := Nat.le_max_left counter floor
    unfold MAX_EXACT at h
    omega
  have hf : floor ≤ 2 ^ 53 := by
    have := Nat.le_max_right counter floor
    unfold MAX_EXACT at h
    omega
  have hm : max counter floor + 1 ≤ 2 ^ 53 := h
  unfold allocateSeqWithFloor
  split
  · rename_i hz
    subst hz
    rw [Nat.max_zero] at hm ⊢
    rw [allocateSeq, if_pos (Nat.lt_of_le_of_lt hm (by decide))]
  · rw [LuaNumber.ofNat_of_le hc, LuaNumber.ofNat_of_le hf,
      LuaNumber.ofNat_of_le hm, LuaNumber.reply_of_le hm]

theorem Inv.known_lt_floor (hin : Inv ingest state)
    (hp : state.phase call = .floored floor) (h : state.Known seq) :
    seq < max state.counter floor + 1 := by
  cases hr : state.recovering with
  | false =>
    have hle := hin.covered hr seq h
    omega
  | true =>
    rcases h with hs | hpe
    · have hle := hin.floored hr call floor hp seq hs
      omega
    · rw [hin.pending hr] at hpe
      cases hpe

theorem Inv.allocate (hin : Inv ingest state) (hp : state.phase call = .floored floor)
    (hok : max state.counter floor < MAX_EXACT)
    (hs : allocateSeqWithFloor state.counter floor = some seq) :
    ¬ state.Known seq ∧ Inv ingest { state.returned call seq with
      counter := seq
      cache := update state.cache (ingest.process call) (some .checked)
      recovering := false } := by
  rw [allocateSeqWithFloor_exact hok] at hs
  cases hs
  have hpr : ingest.hasProvider (ingest.process call) = true :=
    hin.asks call (by rw [hp]; trivial)
  refine ⟨fun h => Nat.lt_irrefl _ (hin.known_lt_floor hp h), ?_⟩
  apply hin.raise (max state.counter floor + 1) rfl
  · omega
  · exact fun known h => hin.known_lt_floor hp h
  · rfl
  · rfl
  · rfl
  · rfl
  · intro process h
    show update state.cache _ _ process = _
    by_cases ho : process = ingest.process call
    · rw [ho, Function.update_self]
    · rw [update_of_ne ho, h]
  · intro process h
    by_cases ho : process = ingest.process call
    · rw [ho, hpr]
    · exact hin.provider process ((update_of_ne ho _ _).symm.trans h)
  · intro other
    by_cases ho : other = call
    · exact .inr (by simp [ho, State.returned, State.goTo])
    · exact .inl (by simp [State.returned, State.goTo, update_of_ne ho])

theorem allocateSeq_eq {counter : Nat} (h : allocateSeq counter = some seq) :
    seq = counter + 1 := by
  unfold allocateSeq at h
  split at h
  · exact (Option.some.inj h).symm
  · cases h

theorem Inv.event (hin : Inv ingest state) (hok : state.recovering = false)
    (hs : allocateSeq state.counter = some seq) : ¬ state.Known seq ∧
      Inv ingest { state with counter := seq, pending := seq :: state.pending } := by
  rw [allocateSeq_eq hs]
  have hb : ∀ known, state.Known known → known < state.counter + 1 := by
    intro known h
    have hle := hin.covered hok known h
    omega
  refine ⟨fun h => Nat.lt_irrefl _ (hb _ h), ?_⟩
  exact hin.raise _ rfl (Nat.lt_succ_self _) hb rfl rfl rfl hok (fun _ h => h) hin.provider
    (fun _ => .inl rfl)

-- Numbers move from the callers into the store, or are given up: nothing new is known.
theorem Inv.settle (hin : Inv ingest state) (hco : next.counter = state.counter)
    (hca : next.cache = state.cache) (hp : next.phase = state.phase)
    (hc : next.recovering = state.recovering) (hk : ∀ seq, next.Known seq → state.Known seq)
    (hs : state.recovering = true → ∀ seq, next.Stored seq → state.Stored seq)
    (hpe : ∀ seq ∈ next.pending, seq ∈ state.pending) : Inv ingest next := by
  refine ⟨?_, ?_, ?_, ?_, ?_, ?_, ?_, ?_, ?_⟩
  · rw [hp]
    exact hin.asks
  · rw [hca]
    exact hin.provider
  · rw [hp]
    exact hin.noFallback
  · rw [hp, hco]
    exact hin.drawnLe
  · rw [hp]
    exact hin.drawnInj
  · intro call seq h
    rw [hp] at h
    rw [hc]
    refine (hin.drawnFresh call seq h).imp ?_ fun ⟨hc, hf⟩ => ⟨hc, fun h => hf (hk seq h)⟩
    intro hfi
    simpa [suspicious, hca] using hfi
  · rw [hc, hco]
    exact fun h seq hm => hin.covered h seq (hk seq hm)
  · rw [hc]
    intro hr
    refine List.eq_nil_iff_forall_not_mem.mpr fun seq hm => ?_
    have hn := hpe seq hm
    rw [hin.pending hr] at hn
    cases hn
  · rw [hc, hp]
    exact fun hr call floor h seq hm =>
      hin.floored hr call floor h seq (hs hr seq hm)

-- A number is stored from the callers: it was known, and during a recovery there is none.
theorem Inv.store (hin : Inv ingest state) {messages events : List Nat} (hm : seq ∈ state.pending)
    (ha : ∀ number, number ∈ messages ∨ number ∈ events → number = seq ∨ state.Stored number) :
    Inv ingest { state with
      messages := messages
      events := events
      pending := state.pending.filter (· ≠ seq) } := by
  refine hin.settle rfl rfl rfl rfl ?_ ?_ ?_
  · rintro number (hs | hp)
    · rcases ha number hs with rfl | hold
      · exact .inr hm
      · exact .inl hold
    · exact .inr (List.mem_filter.mp hp).1
  · intro hr
    rw [hin.pending hr] at hm
    cases hm
  · exact fun number h => (List.mem_filter.mp h).1

theorem Inv.lose (hin : Inv ingest state) (hq : state.Quiet) :
    Inv ingest { state with
      counter := 0
      lost := true
      recovering := state.messages ++ state.events != [] } := by
  obtain ⟨hpe, hp⟩ := hq
  have hn : ∀ {call : Nat} {phase : Phase}, phase ≠ .idle → phase ≠ .done →
      state.phase call ≠ phase := by
    intro call phase hil hdo heq
    rcases hp call with hc | hc
    · exact hil (heq.symm.trans hc)
    · exact hdo (heq.symm.trans hc)
  refine ⟨hin.asks, hin.provider, hin.noFallback, ?_, hin.drawnInj, ?_, ?_, fun _ => hpe, ?_⟩
  · intro call seq hdr
    exact absurd hdr (hn (by simp) (by simp))
  · intro call seq hdr
    exact absurd hdr (hn (by simp) (by simp))
  · intro hca seq hk
    have hem : state.messages ++ state.events = [] := by simpa using hca
    rcases hk with hs | hm
    · have hm := List.mem_append.mpr hs
      rw [hem] at hm
      cases hm
    · rw [hpe] at hm
      cases hm
  · intro hr call floor h
    exact absurd h (hn (by simp) (by simp))

theorem Inv.step {action : Action} (hin : Inv ingest state)
    (hok : guarded ingest state action) (hs : step ingest state action = some next) :
    Inv ingest next := by
  cases action with
  | begin_ call inBackoff =>
    simp only [SequenceFloor.step] at hs
    split at hs
    · split at hs
      · cases hs
        exact hin.goTo (by simp) (by simp) (by simp [Phase.asks]) (by simp)
      · rename_i hpl
        cases hs
        have hpr : ingest.hasProvider (ingest.process call) = true := by
          simp only [planSeqAlloc] at hpl
          split at hpl
          · rename_i h
            exact (Bool.and_eq_true_iff.mp h).1
          · cases hpl
        rw [firstTouchPhase, if_pos hpr]
        exact hin.goTo (by simp) (by simp) (fun _ => hpr) (by simp)
    · cases hs
  | incr call =>
    simp only [SequenceFloor.step] at hs
    split at hs
    · rename_i seq hp hse
      cases hs
      rw [allocateSeq_eq hse]
      exact hin.draw hok
    · rename_i hp hse
      exact absurd hp (hin.noFallback call)
    · cases hs
  | recheck call =>
    simp only [SequenceFloor.step] at hs
    split at hs
    · rename_i seq hp
      split at hs
      · rename_i hsu
        cases hs
        have hpr : ingest.hasProvider (ingest.process call) = true := by
          simp only [suspicious, Bool.and_eq_true, beq_iff_eq] at hsu
          exact hin.provider _ hsu.2
        rw [firstTouchPhase, if_pos hpr]
        exact hin.goTo (by simp) (by simp) (fun _ => hpr) (by simp)
      · rename_i hpa
        cases hs
        exact (hin.returned hp (by simpa using hpa)).2
    · cases hs
  | lookup call floor =>
    cases floor with
    | none => exact False.elim hok
    | some floor =>
      simp only [SequenceFloor.step] at hs
      split at hs
      · rename_i answered hp ha
        cases ha
        split at hs
        · rename_i han
          cases hs
          refine hin.goTo (by simp) (by simp) (fun _ => hin.asks call (by rw [hp]; trivial)) ?_
          intro hr answer haw seq hst
          cases haw
          rcases hst with hme | hev
          · exact han.1 seq hme
          · exact hok hr seq hev
        · cases hs
      · rename_i hn
        cases hn
      · cases hs
  | allocate call =>
    simp only [SequenceFloor.step] at hs
    split at hs
    · rename_i floor hp
      split at hs
      · rename_i seq hse
        cases hs
        exact (hin.allocate hp (hok floor hp) hse).2
      · cases hs
    · cases hs
  | event =>
    simp only [SequenceFloor.step] at hs
    split at hs
    · rename_i seq hse
      cases hs
      exact (hin.event hok hse).2
    · cases hs
  | storeMessage seq =>
    simp only [SequenceFloor.step] at hs
    split at hs
    · rename_i hm
      cases hs
      refine hin.store hm fun number h => ?_
      rw [List.mem_cons, or_assoc] at h
      exact h
    · cases hs
  | storeEvent seq =>
    simp only [SequenceFloor.step] at hs
    split at hs
    · rename_i hm
      cases hs
      refine hin.store hm fun number h => ?_
      rw [List.mem_cons, or_left_comm] at h
      exact h
    · cases hs
  | giveUp seq =>
    cases hs
    refine hin.settle rfl rfl rfl rfl ?_ (fun _ _ h => h) fun number h => (List.mem_filter.mp h).1
    rintro number (hst | hpe)
    · exact .inl hst
    · exact .inr (List.mem_filter.mp hpe).1
  | lose =>
    simp only [SequenceFloor.step] at hs
    split at hs
    · cases hs
    · cases hs
      exact hin.lose hok

end Steps

section Sample

end Sample

end FlareIm.SequenceFloor
