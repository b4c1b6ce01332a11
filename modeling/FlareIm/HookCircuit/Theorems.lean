import FlareIm.HookCircuit.Refinement

namespace FlareIm.HookCircuit

open Retaining

variable {breakers : HookCircuitBreakers} {key other : HookCircuitKey} {circuits : Circuits}
  {now : Nat} {circuit : Circuit}

section Counts

theorem openCount_insert (circuit : Circuit) :
    openCount (circuits.insert key circuit) +
        (if (circuits.lookup key).any Circuit.isOpen then 1 else 0) =
      openCount circuits + if circuit.isOpen then 1 else 0 := by
  have hea := countWhere_erase Circuit.isOpen circuits key
  rw [openCount, openCount, countWhere_insert]
  omega

theorem openCount_erase :
    openCount (circuits.erase key) +
        (if (circuits.lookup key).any Circuit.isOpen then 1 else 0) = openCount circuits :=
  (countWhere_erase Circuit.isOpen circuits key).symm

theorem openCount_makeRoom : openCount (makeRoom breakers now circuits).2 = openCount circuits := by
  unfold makeRoom
  by_cases hr : size circuits < breakers.maxTracked
  · rw [if_pos hr]
  · rw [if_neg hr]
    exact countWhere_retain_of_imp fun circuit ho => by simp [keeps, ho]

theorem countFailure_isOpen (hc : circuit.isOpen = false) :
    ((countFailure breakers now circuit).1 = none ∧
      (countFailure breakers now circuit).2.isOpen = false) ∨
    ((countFailure breakers now circuit).1 = some .opened ∧
      (countFailure breakers now circuit).2.isOpen = true) := by
  unfold countFailure
  dsimp only
  split
  · split
    · exact .inl ⟨rfl, hc⟩
    · exact .inr ⟨rfl, rfl⟩
  · split
    · exact .inl ⟨rfl, hc⟩
    · exact .inr ⟨rfl, rfl⟩

def closes : Option HookCircuitTransition → Nat
  | some .closed => 1
  | _ => 0

def opens : Option HookCircuitTransition → Nat
  | some .opened => 1
  | _ => 0

theorem openCount_settleAt (hen : breakers.policy.enabled = true) (probe healthy : Bool)
    (hp : probe = true → ∀ circuit, circuits.lookup key = some circuit → circuit.isOpen) :
    let settled := settleAt breakers key probe (resultOf healthy) now circuits
    openCount settled.2 + closes settled.1 = openCount circuits + opens settled.1 := by
  intro settled
  cases hl : circuits.lookup key with
  | none =>
    by_cases hsk : probe = true ∨ healthy = true
    · have hsa : settled = (none, circuits) := by
        rcases hsk with rfl | rfl
        · cases healthy <;> simp [settled, settleAt, hen, resultOf, hl]
        · simp [settled, settleAt, hen, resultOf, hl]
      rw [hsa]
      rfl
    · simp only [not_or, Bool.not_eq_true] at hsk
      obtain ⟨rfl, rfl⟩ := hsk
      have hs : settled = _ := settleAt_new hen hl
      by_cases hm : (makeRoom breakers now circuits).1
      · rw [if_pos hm, AList.insert_insert] at hs
        have hin := @openCount_insert key (makeRoom breakers now circuits).2
          (countFailure breakers now (fresh now)).2
        rw [lookup_makeRoom_of_none hl, openCount_makeRoom] at hin
        simp only [Option.any_none, Bool.false_eq_true, if_false] at hin
        rw [hs]
        rcases @countFailure_isOpen breakers now (fresh now) rfl with ⟨heq, ho⟩ | ⟨heq, ho⟩
        · rw [ho] at hin
          simpa [heq, closes, opens] using hin
        · rw [ho] at hin
          simpa [heq, closes, opens] using hin
      · rw [if_neg hm] at hs
        rw [hs]
        exact congrArg (· + 0) openCount_makeRoom
  | some circuit =>
    cases probe with
    | true =>
      have ho := hp rfl circuit hl
      cases healthy with
      | true =>
        have hs : settled = (some .closed, circuits.erase key) := by
          simp [settled, settleAt, hen, resultOf, hl]
        have hea := @openCount_erase key circuits
        rw [hl] at hea
        rw [hs]
        simpa [closes, opens, ho] using hea
      | false =>
        have hs : settled =
            (some .reopened, circuits.insert key (reopen breakers now circuit)) := by
          simp [settled, settleAt, hen, resultOf, hl]
        have hin := @openCount_insert key circuits (reopen breakers now circuit)
        have hr : (reopen breakers now circuit).isOpen = true := rfl
        rw [hl, hr] at hin
        rw [hs]
        simpa [closes, opens, ho] using hin
    | false =>
      cases healthy with
      | true =>
        by_cases ho : circuit.isOpen
        · have hno : circuit.openUntil.isNone = false := by
            simpa [Circuit.isOpen] using ho
          have hs : settled = (none, circuits) := by
            simp [settled, settleAt, hen, resultOf, hl, hno]
          rw [hs]
          rfl
        · have hn : circuit.openUntil.isNone = true := by
            simpa [Circuit.isOpen] using ho
          have hs : settled = (none, circuits.erase key) := by
            simp [settled, settleAt, hen, resultOf, hl, hn]
          have hea := @openCount_erase key circuits
          rw [hl] at hea
          rw [hs]
          simpa [closes, opens, ho] using hea
      | false =>
        have hs : settled = _ := settleAt_counted hen hl
        by_cases ho : circuit.isOpen
        · rw [if_pos ho] at hs
          rw [hs]
          rfl
        · rw [if_neg ho] at hs
          have hc : circuit.isOpen = false := by simpa using ho
          have hin := @openCount_insert key circuits (countFailure breakers now circuit).2
          rw [hl] at hin
          simp only [Option.any_some, hc, Bool.false_eq_true, if_false] at hin
          rw [hs]
          rcases @countFailure_isOpen breakers now circuit hc with
            ⟨heq, ha⟩ | ⟨heq, ha⟩
          · rw [ha] at hin
            simpa [heq, closes, opens] using hin
          · rw [ha] at hin
            simpa [heq, closes, opens] using hin

theorem openCount_insert_of_same {found : Circuit}
    (hl : circuits.lookup key = some found) (hs : circuit.isOpen = found.isOpen) :
    openCount (circuits.insert key circuit) = openCount circuits := by
  have hin := @openCount_insert key circuits circuit
  rw [hl, hs] at hin
  simpa using hin

theorem openCount_admitAt (hen : breakers.policy.enabled = true) :
    openCount (admitAt breakers key now circuits).2 = openCount circuits := by
  unfold admitAt
  rw [if_neg (by simp [hen])]
  cases hl : circuits.lookup key with
  | none => rfl
  | some circuit =>
    cases ho : circuit.openUntil with
    | none => simp [ho]
    | some deadline =>
      simp only [ho]
      split
      · rfl
      · split
        · rfl
        · exact openCount_insert_of_same hl (by simp [Circuit.isOpen, ho])

theorem openCount_neutral (hen : breakers.policy.enabled = true) :
    openCount (settleAt breakers key true .neutral now circuits).2 = openCount circuits := by
  unfold settleAt
  rw [if_neg (by simp [hen])]
  cases hl : circuits.lookup key with
  | none => rfl
  | some circuit => exact openCount_insert_of_same hl rfl

theorem size_makeRoom_le : size (makeRoom breakers now circuits).2 ≤ size circuits := by
  unfold makeRoom
  split
  · exact le_rfl
  · exact size_retain_le

theorem size_makeRoom_lt (h : (makeRoom breakers now circuits).1 = true) :
    size (makeRoom breakers now circuits).2 < breakers.maxTracked := by
  unfold makeRoom at h ⊢
  by_cases hr : size circuits < breakers.maxTracked
  · rw [if_pos hr]
    exact hr
  · rw [if_neg hr] at h ⊢
    simpa using h

theorem size_insert_of_lookup {found : Circuit} (hl : circuits.lookup key = some found) :
    size (circuits.insert key circuit) = size circuits :=
  size_insert_of_mem (AList.lookup_isSome.mp (by rw [hl]; rfl))

theorem size_settleAt_le (hen : breakers.policy.enabled = true)
    (h : size circuits ≤ breakers.maxTracked) (probe : Bool) (result : HookCircuitResult) :
    size (settleAt breakers key probe result now circuits).2 ≤ breakers.maxTracked := by
  cases hl : circuits.lookup key with
  | none =>
    by_cases hf : result = .unhealthy ∧ probe = false
    · obtain ⟨rfl, rfl⟩ := hf
      rw [settleAt_new hen hl]
      by_cases hm : (makeRoom breakers now circuits).1
      · rw [if_pos hm, AList.insert_insert]
        exact size_insert_le.trans (size_makeRoom_lt hm)
      · rw [if_neg hm]
        exact size_makeRoom_le.trans h
    · have hs : (settleAt breakers key probe result now circuits).2 = circuits := by
        cases result with
        | neutral | healthy => simp [settleAt, hen, hl]
        | unhealthy =>
          have hp : probe = true := by simpa using hf
          simp [settleAt, hen, hl, hp]
      rw [hs]
      exact h
  | some circuit =>
    have hin := fun changed => @size_insert_of_lookup key circuits changed circuit hl
    have hea := @size_erase_le _ _ _ circuits key
    cases result with
    | neutral =>
      cases probe with
      | true => simpa [settleAt, hen, hl, hin] using h
      | false => simpa [settleAt, hen, hl] using h
    | healthy =>
      cases probe with
      | true => simpa [settleAt, hen, hl] using hea.trans h
      | false =>
        by_cases ho : circuit.openUntil.isNone
        · simpa [settleAt, hen, hl, ho] using hea.trans h
        · simpa [settleAt, hen, hl, ho] using h
    | unhealthy =>
      cases probe with
      | true => simpa [settleAt, hen, hl, hin] using h
      | false =>
        rw [settleAt_counted hen hl]
        split
        · exact h
        · exact (hin _).trans_le h

theorem size_admitAt (hen : breakers.policy.enabled = true) :
    size (admitAt breakers key now circuits).2 = size circuits := by
  unfold admitAt
  rw [if_neg (by simp [hen])]
  cases hl : circuits.lookup key with
  | none => rfl
  | some circuit =>
    cases ho : circuit.openUntil with
    | none => simp [ho]
    | some deadline =>
      simp only [ho]
      split
      · rfl
      · split
        · rfl
        · exact size_insert_of_lookup hl

end Counts

section Runs

variable {state next : State} {action : Action} {actions : List Action}

def openings (transitions : List (HookCircuitKey × HookCircuitTransition)) : Nat :=
  transitions.countP (·.2 = .opened)

def closings (transitions : List (HookCircuitKey × HookCircuitTransition)) : Nat :=
  transitions.countP (·.2 = .closed)

structure Balanced (breakers : HookCircuitBreakers) (state : State) : Prop where
  balance : openings state.transitions = closings state.transitions + openCount state.circuits
  bounded : size state.circuits ≤ breakers.maxTracked

theorem openings_append (transition : Option HookCircuitTransition)
    (transitions : List (HookCircuitKey × HookCircuitTransition)) :
    openings (transition.toList.map (key, ·) ++ transitions) =
      opens transition + openings transitions := by
  rcases transition with - | (- | - | -) <;> simp [openings, opens, Nat.add_comm]

theorem closings_append (transition : Option HookCircuitTransition)
    (transitions : List (HookCircuitKey × HookCircuitTransition)) :
    closings (transition.toList.map (key, ·) ++ transitions) =
      closes transition + closings transitions := by
  rcases transition with - | (- | - | -) <;> simp [closings, closes, Nat.add_comm]

theorem balanced_step (hen : breakers.policy.enabled = true)
    (hsa : (state.track action.key).Sane breakers) (h : Balanced breakers state)
    (hs : step breakers state action = some next) : Balanced breakers next := by
  obtain ⟨hba, hb⟩ := h
  obtain ⟨-, ⟨-, -, rfl⟩ | ⟨outcome, call, -, hc, hse, rfl⟩ | ⟨call, -, -, -, rfl⟩⟩ :=
    step_cases hs
  · refine ⟨?_, ?_⟩
    · rw [State.begin, openCount_admitAt hen]
      exact hba
    · rw [State.begin, size_admitAt hen]
      exact hb
  · obtain ⟨admission, settled⟩ := call
    dsimp only at hse
    subst hse
    cases admission with
    | rejected retryAfter => exact ⟨hba, hb⟩
    | admitted probe =>
      have hp : probe = true → ∀ circuit,
          state.circuits.lookup action.key = some circuit → circuit.isOpen := by
        rintro rfl circuit hci
        obtain ⟨found, hf, -, ho⟩ := hsa.probes.held action.call hc
        rw [State.track, hci, Option.some.injEq] at hf
        rw [hf]
        exact ho
      have hco := @openCount_settleAt breakers action.key state.circuits action.now hen
        probe outcome.answered hp
      refine ⟨?_, ?_⟩
      · simp only [State.finish, openings_append, closings_append]
        unfold resultOf at hco
        dsimp only at hco
        omega
      · exact size_settleAt_le hen hb probe _
  · unfold State.drop
    split
    · refine ⟨?_, ?_⟩
      · dsimp only
        rw [openCount_neutral hen]
        exact hba
      · exact size_settleAt_le hen hb true .neutral
    · exact ⟨hba, hb⟩

theorem balanced_run (hen : breakers.policy.enabled = true)
    (hr : Run breakers {} actions state) : Balanced breakers state := by
  have ha := hr.preserves
    (fun state => Balanced breakers state ∧ ∀ key, (state.track key).Sane breakers)
    (fun state action next hin _ hs => by
      refine ⟨balanced_step hen (hin.2 action.key) hin.1 hs, fun key => ?_⟩
      have ht := track_step hen hs key
      obtain ⟨hp, hst, hpr⟩ := hin.2 key
      exact ⟨hp.step ht, hst.step ht, hpr.step hp hst ht⟩)
    ⟨⟨rfl, Nat.zero_le _⟩, fun _ => ⟨Track.probes_start, Track.streaks_start, Track.progress_start⟩⟩
  exact ha.1

theorem late_step (hen : breakers.policy.enabled = true)
    (hs : step breakers state action = some next) {call : HookCall}
    (hc : state.calls action.key action.call = some call) (hp : call.admission ≠ .admitted true)
    (hci : state.circuits.lookup action.key = some circuit) (ho : circuit.isOpen) :
    next.circuits = state.circuits := by
  obtain ⟨-, ⟨-, hfr, -⟩ | ⟨outcome, found, -, hf, -, rfl⟩ | ⟨found, -, hf, -, rfl⟩⟩ :=
    step_cases hs
  · rw [hc] at hfr
    cases hfr
  · rw [hc] at hf
    cases hf
    unfold State.finish
    cases ha : call.admission with
    | rejected retryAfter => rfl
    | admitted probe =>
      have hno : probe = false := by
        rw [ha] at hp
        simpa using hp
      subst hno
      dsimp only
      cases outcome.answered with
      | true =>
        have hso : circuit.openUntil.isNone = false := by simpa [Circuit.isOpen] using ho
        simp [settleAt, hen, hci, hso]
      | false =>
        simp only [Bool.false_eq_true, if_false]
        rw [settleAt_counted hen hci, if_pos ho]
  · rw [hc] at hf
    cases hf
    rw [State.drop, if_neg hp]

-- A circuit that opens was not open, so no probe was out.
theorem not_probe_of_opens (hen : breakers.policy.enabled = true)
    (hsa : (state.track action.key).Sane breakers) (hs : step breakers state action = some next)
    (ho : next.transitions = (action.key, .opened) :: state.transitions) (call : Nat) :
    ¬ (state.track action.key).IsProbe call := by
  intro hc
  obtain ⟨circuit, hci, -, hoe⟩ := hsa.probes.held call hc
  have hl := congrArg List.length ho
  obtain ⟨-, ⟨-, -, rfl⟩ | ⟨outcome, found, -, -, -, rfl⟩ | ⟨found, -, -, -, rfl⟩⟩ :=
    step_cases hs
  · simp [State.begin] at hl
  · unfold State.finish at ho hl
    cases ha : found.admission with
    | rejected retryAfter => simp [ha] at hl
    | admitted probe =>
      have haw := (@settleAt_eq breakers action.key state.circuits action.now hen probe
        outcome.answered).1
      have hlo : state.circuits.lookup action.key = some circuit := hci
      rw [hlo, resultOf] at haw
      simp only [ha, haw] at ho
      cases probe with
      | true =>
        cases han : outcome.answered with
        | true | false => simp [settleOne, han] at ho
      | false => simp [settleOne, hoe] at ho
  · unfold State.drop at hl
    split at hl <;> simp at hl

theorem open_step (hen : breakers.policy.enabled = true)
    (hs : step breakers state action = some next)
    (hci : state.circuits.lookup key = some circuit) (ho : circuit.isOpen) :
    (∃ after, next.circuits.lookup key = some after ∧ after.isOpen) ∨
      (key = action.key ∧ next.transitions = (key, .closed) :: state.transitions) := by
  by_cases hk : key = action.key
  · subst hk
    obtain ⟨-, ⟨-, hfr, rfl⟩ | ⟨outcome, call, -, hc, hse, rfl⟩ |
      ⟨call, -, hc, hse, rfl⟩⟩ := step_cases hs
    · left
      have hl := (@admitAt_eq breakers action.key state.circuits action.now hen).2.1
      rw [hci] at hl
      rcases admitOne_cases action.now (some circuit) with ⟨-, hsa⟩ | ⟨found, hf, -, -, heq⟩
      · exact ⟨circuit, hl.trans hsa, ho⟩
      · cases hf
        exact ⟨_, hl.trans (congrArg Prod.snd heq), ho⟩
    · unfold State.finish
      cases call.admission with
      | rejected retryAfter => exact .inl ⟨circuit, hci, ho⟩
      | admitted probe =>
        obtain ⟨ha, hl, -⟩ := @settleAt_eq breakers action.key state.circuits
          action.now hen probe outcome.answered
        rw [hci] at ha hl
        unfold resultOf at ha hl
        dsimp only
        rw [ha, hl]
        cases probe with
        | true =>
          cases outcome.answered with
          | true => exact .inr ⟨rfl, rfl⟩
          | false => exact .inl ⟨_, rfl, rfl⟩
        | false =>
          left
          exact ⟨circuit, by simp [settleOne, ho], ho⟩
    · left
      unfold State.drop
      split
      · have hl := (@settleAt_neutral breakers action.key state.circuits action.now hen).1
        rw [hci] at hl
        exact ⟨_, hl, ho⟩
      · exact ⟨circuit, hci, ho⟩
  · left
    obtain ⟨-, -, -, hsa | ⟨found, hf, hold, -, -⟩⟩ := step_others hen hs hk
    · exact ⟨circuit, hsa.trans hci, ho⟩
    · rw [hci] at hf
      cases hf
      simp [keeps, ho] at hold

end Runs

section Alone

variable {full alone next : State} {action : Action} {actions : List Action}

-- The state of a run, and that of the same run without the actions of other keys.
structure Alike (key : HookCircuitKey) (full alone : State) : Prop where
  track : full.track key = { alone.track key with clock := full.clock }
  clock : alone.clock ≤ full.clock
  only : ∀ other ≠ key, alone.circuits.lookup other = none

theorem roomFor_of_not_full (h : size circuits < breakers.maxTracked) :
    roomFor breakers key now circuits = true := by
  simp [roomFor, makeRoom, h]

theorem roomFor_of_only (hon : ∀ other ≠ key, circuits.lookup other = none) :
    roomFor breakers key now circuits = true := by
  by_cases hm : key ∈ circuits
  · simp [roomFor, hm]
  · apply roomFor_of_not_full
    have hem : circuits.entries = [] := by
      rw [List.eq_nil_iff_forall_not_mem]
      rintro ⟨other, circuit⟩ hen
      have hl : circuits.lookup other = some circuit := AList.mem_lookup_iff.mpr hen
      by_cases ho : other = key
      · subst ho
        rw [AList.lookup_eq_none.mpr hm] at hl
        cases hl
      · rw [hon other ho] at hl
        cases hl
    rw [size, hem]
    exact breakers.maxTracked_pos

theorem Alike.pass (h : Alike key full alone) (hen : breakers.policy.enabled = true)
    (hr : size full.circuits < breakers.maxTracked)
    (hs : step breakers full action = some next) (hne : key ≠ action.key) :
    Alike key next alone := by
  obtain ⟨hc, hse, hcl, hsa | ⟨circuit, -, -, hf, -⟩⟩ :=
    step_others hen hs hne
  · have ht : next.track key = { full.track key with clock := next.clock } := by
      simp [State.track, hc, hse, hsa]
    refine ⟨?_, ?_, h.only⟩
    · rw [ht, h.track]
    · rw [hcl]
      exact h.clock.trans (step_cases hs).1
  · exact absurd hr (Nat.not_lt.mpr hf)

theorem Alike.act (h : Alike action.key full alone) (hen : breakers.policy.enabled = true)
    (hr : size full.circuits < breakers.maxTracked) (hs : step breakers full action = some next) :
    ∃ after, step breakers alone action = some after ∧ Alike action.key next after := by
  have ht := h.track
  have hci : full.circuits.lookup action.key = alone.circuits.lookup action.key :=
    congrArg Track.circuit ht
  have hca : full.calls action.key = alone.calls action.key := congrArg Track.calls ht
  have hse : full.settlements action.key = alone.settlements action.key :=
    congrArg Track.settlements ht
  have hf := @roomFor_of_not_full breakers action.key full.circuits action.now hr
  have hal := @roomFor_of_only breakers action.key alone.circuits action.now h.only
  obtain ⟨hti, hcs⟩ := step_cases hs
  have hno : ¬ action.now < alone.clock := Nat.not_lt.mpr (h.clock.trans hti)
  rcases hcs with ⟨hev, hfr, hn⟩ | ⟨outcome, call, hev, hc, hst, hn⟩ | ⟨call, hev, hc, hst, hn⟩
  · rw [hca] at hfr
    refine ⟨alone.begin breakers action, by simp [step, hno, hev, hfr], ?_⟩
    subst hn
    refine ⟨?_, le_rfl, ?_⟩
    · rw [track_begin hen, track_begin hen, ht]
      rfl
    · intro other hne
      exact ((admitAt_eq hen).2.2 other hne).trans (h.only other hne)
  · rw [hca] at hc
    refine ⟨alone.finish breakers action call outcome, ?_, ?_⟩
    · simp [step, hno, hev, hc, hst]
    subst hn
    cases ha : call.admission with
    | rejected retryAfter =>
      refine ⟨?_, ?_, ?_⟩
      · simp [State.track, State.finish, ha, putCall, hci, hca, hse]
      · simp [State.finish, ha]
      · intro other hne
        simpa [State.finish, ha] using h.only other hne
    | admitted probe =>
      refine ⟨?_, ?_, ?_⟩
      · rw [track_finish hen ha outcome, track_finish hen ha outcome, ht, hf, hal]
        simp [State.finish, ha]
      · simp [State.finish, ha]
      · intro other hne
        have ho := (@settleAt_eq breakers action.key alone.circuits action.now hen
          probe outcome.answered).2.2 other hne
        have hl : (alone.finish breakers action call outcome).circuits.lookup other =
            (settleAt breakers action.key probe (resultOf outcome.answered) action.now
              alone.circuits).2.lookup other := by
          simp [State.finish, ha, resultOf]
        rw [hl]
        rcases ho with hsa | ⟨circuit, hso, -⟩
        · rw [hsa, h.only other hne]
        · rw [h.only other hne] at hso
          cases hso
  · rw [hca] at hc
    refine ⟨alone.drop breakers action call, by simp [step, hno, hev, hc, hst], ?_⟩
    subst hn
    by_cases hp : call.admission = .admitted true
    · refine ⟨?_, ?_, ?_⟩
      · rw [track_drop hen hp, track_drop hen hp, ht]
        simp [State.drop, hp]
      · simp [State.drop, hp]
      · intro other hne
        have hsa := (@settleAt_neutral breakers action.key alone.circuits action.now
          hen).2 other hne
        simpa [State.drop, hp] using hsa.trans (h.only other hne)
    · refine ⟨?_, ?_, ?_⟩
      · simp [State.track, State.drop, hp, putCall, hci, hca, hse]
      · simp [State.drop, hp]
      · intro other hne
        simpa [State.drop, hp] using h.only other hne

theorem alike_run (hen : breakers.policy.enabled = true) {last : State}
    (hru : Transition.Run (step breakers)
      (fun state _ => size state.circuits < breakers.maxTracked) full actions last)
    (h : Alike key full alone) :
    ∃ after, Run breakers alone (actions.filter (·.key = key)) after ∧ Alike key last after := by
  induction hru generalizing alone with
  | nil state => exact ⟨alone, .nil alone, h⟩
  | @cons state middle last action rest hr hs hre ih =>
    by_cases hk : key = action.key
    · subst hk
      obtain ⟨after, ha, hal⟩ := h.act hen hr hs
      obtain ⟨final, hf, hl⟩ := ih hal
      refine ⟨final, ?_, hl⟩
      rw [List.filter_cons_of_pos (by simp)]
      exact .cons trivial ha hf
    · obtain ⟨final, hf, hl⟩ := ih (h.pass hen hr hs hk)
      refine ⟨final, ?_, hl⟩
      rw [List.filter_cons_of_neg (by simpa using Ne.symm hk)]
      exact hf

end Alone

section Sound

-- A moment of a run: a state that some actions lead to.
def Reachable (breakers : HookCircuitBreakers) (state : State) : Prop :=
  ∃ actions, Run breakers {} actions state

structure Sound (breakers : HookCircuitBreakers) : Prop where
  one_probe : ∀ state, Reachable breakers state → ∀ key first second,
    state.calls key first = some ⟨.admitted true, false⟩ →
    state.calls key second = some ⟨.admitted true, false⟩ → first = second
  probing_has_probe : ∀ state, Reachable breakers state → ∀ key circuit,
    state.circuits.lookup key = some circuit → circuit.probing →
    ∃ call, state.calls key call = some ⟨.admitted true, false⟩
  none_admitted_early : ∀ state action next, step breakers state action = some next →
    action.event = .begin → ∀ circuit deadline,
    state.circuits.lookup action.key = some circuit → circuit.openUntil = some deadline →
    action.now < deadline →
    next.calls action.key action.call = some ⟨.rejected (deadline - action.now), false⟩
  late_result_ignored : ∀ state opening opened, Reachable breakers state →
    step breakers state opening = some opened →
    opened.transitions = (opening.key, .opened) :: state.transitions →
    ∀ actions last, Run breakers opened actions last → ∀ result next call circuit,
    result.key = opening.key → state.calls result.key result.call = some call →
    last.calls result.key result.call = some call →
    last.circuits.lookup result.key = some circuit → circuit.isOpen →
    step breakers last result = some next → next.circuits = last.circuits
  opens_rightly : ∀ state, Reachable breakers state → ∀ key later settlement earlier,
    state.settlements key = later ++ settlement :: earlier →
    settlement.transition = some .opened → OpensRightly breakers settlement earlier
  opens_in_time : ∀ state, Reachable breakers state → ∀ key first,
    FailsSince breakers (state.settlements key) first
      (2 * breakers.policy.failureThreshold - 1) →
    ∃ circuit, state.circuits.lookup key = some circuit ∧ circuit.isOpen
  transitions_balance : ∀ state, Reachable breakers state →
    openings state.transitions = closings state.transitions + openCount state.circuits
  bounded : ∀ state, Reachable breakers state → size state.circuits ≤ breakers.maxTracked
  open_not_evicted : ∀ state action next, step breakers state action = some next →
    ∀ key circuit, state.circuits.lookup key = some circuit → circuit.isOpen →
    (∃ after, next.circuits.lookup key = some after ∧ after.isOpen) ∨
      (key = action.key ∧ next.transitions = (key, .closed) :: state.transitions)
  keys_independent : ∀ actions state,
    Transition.Run (step breakers) (fun state _ => size state.circuits < breakers.maxTracked) {}
      actions state →
    ∀ key, ∃ alone, Run breakers {} (actions.filter (·.key = key)) alone ∧
      alone.calls key = state.calls key ∧ alone.settlements key = state.settlements key ∧
      alone.circuits.lookup key = state.circuits.lookup key

variable {breakers : HookCircuitBreakers}

theorem none_admitted_early (hen : breakers.policy.enabled = true) {state next : State}
    {action : Action} (hs : step breakers state action = some next)
    (hev : action.event = .begin) {deadline : Nat}
    (hc : state.circuits.lookup action.key = some circuit)
    (hoe : circuit.openUntil = some deadline) (hea : action.now < deadline) :
    next.calls action.key action.call = some ⟨.rejected (deadline - action.now), false⟩ := by
  obtain ⟨-, ⟨-, -, rfl⟩ | ⟨outcome, call, ho, -⟩ | ⟨call, ho, -⟩⟩ := step_cases hs
  · have ha := (@admitAt_eq breakers action.key state.circuits action.now hen).1
    rw [hc] at ha
    simp [State.begin, putCall, ha, admitOne, hoe, hea]
  · rw [hev] at ho
    cases ho
  · rw [hev] at ho
    cases ho

-- Whatever the calls of any keys do, no hook is short-circuited for good and none is closed
-- wrongly.
theorem hook_circuits_are_sound (breakers : HookCircuitBreakers)
    (henabled : breakers.policy.enabled = true) : Sound breakers where
  one_probe := by
    rintro state ⟨actions, hrun⟩ key first second hfirst hsecond
    exact (sane_run henabled hrun key).probes.unique first second hfirst hsecond
  probing_has_probe := by
    rintro state ⟨actions, hrun⟩ key circuit hcircuit hprobing
    exact (sane_run henabled hrun key).probes.holder circuit hcircuit hprobing
  none_admitted_early := by
    intro state action next hstep hevent circuit deadline hcircuit hopen hearly
    exact HookCircuit.none_admitted_early henabled hstep hevent hcircuit hopen hearly
  late_result_ignored := by
    rintro state opening opened ⟨before, hbefore⟩ hopening hopens actions last hrun result next
      call circuit hkey hcall hlast hcircuit hopen hresult
    have hsane := sane_run henabled hbefore opening.key
    have hnot := not_probe_of_opens henabled hsane hopening hopens result.call
    obtain ⟨-, ⟨-, hfresh, -⟩ | ⟨outcome, found, -, hfound, hsettled, -⟩ |
      ⟨found, -, hfound, hsettled, -⟩⟩ := step_cases hresult
    · rw [hlast] at hfresh
      cases hfresh
    all_goals
      rw [hlast, Option.some.injEq] at hfound
      subst hfound
      refine late_step henabled hresult hlast ?_ hcircuit hopen
      intro hprobe
      apply hnot
      rw [hkey] at hcall
      obtain ⟨admission, settled⟩ := call
      dsimp only at hprobe hsettled
      subst hprobe hsettled
      exact hcall
  opens_rightly := by
    rintro state ⟨actions, hrun⟩ key later settlement earlier hsplit hopened
    exact (sane_run henabled hrun key).streaks.opened later settlement earlier hsplit hopened
  opens_in_time := by
    rintro state ⟨actions, hrun⟩ key first hfails
    have hsane := sane_run henabled hrun key
    exact hsane.progress.opens hsane.streaks hfails
  transitions_balance := by
    rintro state ⟨actions, hrun⟩
    exact (balanced_run henabled hrun).balance
  bounded := by
    rintro state ⟨actions, hrun⟩
    exact (balanced_run henabled hrun).bounded
  open_not_evicted := by
    intro state action next hstep key circuit hcircuit hopen
    exact open_step henabled hstep hcircuit hopen
  keys_independent := by
    intro actions state hrun key
    have hstart : Alike key {} {} := ⟨rfl, le_rfl, fun _ _ => rfl⟩
    obtain ⟨alone, halone, halike⟩ := alike_run henabled hrun hstart
    have htrack := halike.track
    exact ⟨alone, halone, (congrArg Track.calls htrack).symm,
      (congrArg Track.settlements htrack).symm, (congrArg Track.circuit htrack).symm⟩

theorem default_hook_circuits_are_sound : Sound (.new {}) :=
  hook_circuits_are_sound (.new {}) rfl

-- A failure opens the circuit of a hook with threshold 1, an abandoned probe frees its place, and
-- the next probe closes the circuit.
example :
    let breakers := HookCircuitBreakers.new { failureThreshold := 1 }
    let key : HookCircuitKey := ⟨"t1", "pre_send", "dlp"⟩
    let act := fun call now event => (⟨key, call, now, event⟩ : Action)
    ((step breakers {} (act 0 0 .begin) >>= fun state =>
      step breakers state (act 0 0 (.finish .timedOut)) >>= fun state =>
      step breakers state (act 1 (seconds 20) .begin) >>= fun state =>
      step breakers state (act 1 (seconds 20) .drop) >>= fun state =>
      step breakers state (act 2 (seconds 20) .begin) >>= fun state =>
      step breakers state (act 2 (seconds 21) (.finish .allowed))).map
        fun state => (state.transitions, openCount state.circuits)) =
      some ([(key, .closed), (key, .opened)], 0) := by
  decide +kernel

end Sound

end FlareIm.HookCircuit
