import FlareIm.HookCircuit.Streaks

namespace FlareIm.HookCircuit

open Retaining

def State.track (state : State) (key : HookCircuitKey) : Track where
  circuit := state.circuits.lookup key
  calls := state.calls key
  settlements := state.settlements key
  clock := state.clock

variable {breakers : HookCircuitBreakers} {key other : HookCircuitKey} {circuits : Circuits}
  {now : Nat}

section Tables

theorem lookup_makeRoom : (makeRoom breakers now circuits).2.lookup other = circuits.lookup other ∨
      ∃ circuit, circuits.lookup other = some circuit ∧ keeps breakers now circuit = false ∧
        breakers.maxTracked ≤ size circuits ∧
        (makeRoom breakers now circuits).2.lookup other = none := by
  unfold makeRoom
  by_cases hr : size circuits < breakers.maxTracked
  · left
    rw [if_pos hr]
  · rw [if_neg hr, lookup_retain]
    cases hl : circuits.lookup other with
    | none => exact .inl rfl
    | some circuit =>
      by_cases hk : keeps breakers now circuit
      · left
        simp [hk]
      · right
        exact ⟨circuit, rfl, by simpa using hk, Nat.le_of_not_lt hr, by simp [hk]⟩

theorem lookup_makeRoom_of_none (h : circuits.lookup key = none) :
    (makeRoom breakers now circuits).2.lookup key = none := by
  rcases @lookup_makeRoom breakers key circuits now with hs | ⟨circuit, hc, -⟩
  · rw [hs, h]
  · rw [h] at hc
    cases hc

theorem admitAt_eq (hen : breakers.policy.enabled = true) :
    (admitAt breakers key now circuits).1 = (admitOne now (circuits.lookup key)).1 ∧
    (admitAt breakers key now circuits).2.lookup key = (admitOne now (circuits.lookup key)).2 ∧
    ∀ other ≠ key, (admitAt breakers key now circuits).2.lookup other = circuits.lookup other := by
  unfold admitAt
  rw [if_neg (by simp [hen])]
  cases hl : circuits.lookup key with
  | none => exact ⟨rfl, hl, fun _ _ => rfl⟩
  | some circuit =>
    cases ho : circuit.openUntil with
    | none => simp [admitOne, ho, hl]
    | some deadline =>
      by_cases hea : now < deadline
      · simp [admitOne, ho, hea, hl]
      · by_cases hp : circuit.probing
        · simp [admitOne, ho, hea, hp, hl]
        · simp only [admitOne, ho, hea, hp, if_false, Bool.false_eq_true]
          exact ⟨trivial, AList.lookup_insert _, fun other hne => AList.lookup_insert_ne hne⟩

theorem settleAt_neutral (hen : breakers.policy.enabled = true) :
    (settleAt breakers key true .neutral now circuits).2.lookup key =
      (circuits.lookup key).map (fun circuit => { circuit with probing := false }) ∧
    ∀ other ≠ key, (settleAt breakers key true .neutral now circuits).2.lookup other =
      circuits.lookup other := by
  unfold settleAt
  rw [if_neg (by simp [hen])]
  cases hl : circuits.lookup key with
  | none => exact ⟨hl, fun _ _ => rfl⟩
  | some circuit =>
    exact ⟨AList.lookup_insert _, fun other hne => AList.lookup_insert_ne hne⟩

def resultOf (healthy : Bool) : HookCircuitResult := if healthy then .healthy else .unhealthy

theorem settleAt_new (hen : breakers.policy.enabled = true) (hl : circuits.lookup key = none) :
    settleAt breakers key false .unhealthy now circuits =
      if (makeRoom breakers now circuits).1 then
        ((countFailure breakers now (fresh now)).1,
          (((makeRoom breakers now circuits).2.insert key (fresh now)).insert key
            (countFailure breakers now (fresh now)).2))
      else (none, (makeRoom breakers now circuits).2) := by
  have hm : key ∉ circuits := AList.lookup_eq_none.mp hl
  have hr := @lookup_makeRoom_of_none breakers key circuits now hl
  unfold settleAt
  rw [if_neg (by simp [hen])]
  simp only [Bool.false_eq_true, if_false, hm]
  by_cases hma : (makeRoom breakers now circuits).1
  · simp only [hma, Bool.not_true, Bool.false_eq_true, if_false, if_true,
      lookup_orInsert_of_none hr, AList.lookup_insert]
    rfl
  · simp [hma]

theorem settleAt_counted (hen : breakers.policy.enabled = true) {circuit : Circuit}
    (hl : circuits.lookup key = some circuit) :
    settleAt breakers key false .unhealthy now circuits = if circuit.isOpen then (none, circuits)
      else ((countFailure breakers now circuit).1,
        circuits.insert key (countFailure breakers now circuit).2) := by
  have hm : key ∈ circuits := AList.lookup_isSome.mp (by rw [hl]; rfl)
  unfold settleAt
  rw [if_neg (by simp [hen])]
  simp only [Bool.false_eq_true, if_false, hm, if_true, Bool.not_true, orInsert_of_some hl, hl]

theorem settleAt_eq (hen : breakers.policy.enabled = true) (probe healthy : Bool) :
    (settleAt breakers key probe (resultOf healthy) now circuits).1 =
      (settleOne breakers probe healthy now (roomFor breakers key now circuits)
        (circuits.lookup key)).1 ∧
    (settleAt breakers key probe (resultOf healthy) now circuits).2.lookup key =
      (settleOne breakers probe healthy now (roomFor breakers key now circuits)
        (circuits.lookup key)).2 ∧ ∀ other ≠ key,
      (settleAt breakers key probe (resultOf healthy) now circuits).2.lookup other =
        circuits.lookup other ∨
      ∃ circuit, circuits.lookup other = some circuit ∧ keeps breakers now circuit = false ∧
        breakers.maxTracked ≤ size circuits ∧
        (settleAt breakers key probe (resultOf healthy) now circuits).2.lookup other = none := by
  cases hl : circuits.lookup key with
  | none =>
    have hm : key ∉ circuits := AList.lookup_eq_none.mp hl
    by_cases hs : probe = true ∨ healthy = true
    · have hsa : settleAt breakers key probe (resultOf healthy) now circuits =
          (none, circuits) := by
        rcases hs with rfl | rfl
        · cases healthy <;> simp [settleAt, hen, resultOf, hl]
        · simp [settleAt, hen, resultOf, hl]
      have hn : settleOne breakers probe healthy now (roomFor breakers key now circuits) none =
          (none, none) := by
        rw [settleOne, if_pos]
        tauto
      rw [hsa, hn]
      exact ⟨rfl, hl, fun _ _ => .inl rfl⟩
    · simp only [not_or, Bool.not_eq_true] at hs
      obtain ⟨rfl, rfl⟩ := hs
      have hr : resultOf false = .unhealthy := rfl
      rw [hr, settleAt_new hen hl]
      have hro : roomFor breakers key now circuits = (makeRoom breakers now circuits).1 := by
        simp [roomFor, hm]
      have hoh := fun other => @lookup_makeRoom breakers other circuits now
      rw [hro]
      by_cases hma : (makeRoom breakers now circuits).1
      · simp only [hma, if_true, settleOne, Bool.false_eq_true, Bool.not_true, or_self, if_false]
        refine ⟨rfl, AList.lookup_insert _, fun other hne => ?_⟩
        rw [AList.lookup_insert_ne hne, AList.lookup_insert_ne hne]
        exact hoh other
      · simp only [hma, settleOne, Bool.false_eq_true, false_or, Bool.not_false, if_true, if_false]
        exact ⟨trivial, lookup_makeRoom_of_none hl, fun other _ => hoh other⟩
  | some circuit =>
    cases probe with
    | true =>
      cases healthy with
      | true =>
        simp only [settleAt, hen, resultOf, settleOne, hl, Bool.not_true,
          Bool.false_eq_true, if_false, if_true]
        exact ⟨trivial, AList.lookup_erase _ _, fun other hne => .inl (AList.lookup_erase_ne hne)⟩
      | false =>
        simp only [settleAt, hen, resultOf, settleOne, hl, Bool.not_true,
          Bool.false_eq_true, if_false, if_true]
        exact ⟨trivial, AList.lookup_insert _, fun other hne => .inl (AList.lookup_insert_ne hne)⟩
    | false =>
      cases healthy with
      | true =>
        cases ho : circuit.openUntil with
        | none =>
          simp only [settleAt, hen, resultOf, settleOne, hl, Bool.not_true,
            Bool.false_eq_true, if_false, if_true, Circuit.isOpen, ho,
            Option.isNone_none, Option.isSome_none]
          exact ⟨trivial, AList.lookup_erase _ _, fun other hne => .inl (AList.lookup_erase_ne hne)⟩
        | some deadline =>
          simp only [settleAt, hen, resultOf, settleOne, hl, Bool.not_true,
            Bool.false_eq_true, if_false, if_true, Circuit.isOpen, ho,
            Option.isNone_some, Option.isSome_some]
          exact ⟨trivial, trivial, fun _ _ => .inl trivial⟩
      | false =>
        have hr : resultOf false = .unhealthy := rfl
        rw [hr, settleAt_counted hen hl]
        by_cases ho : circuit.isOpen
        · simp only [settleOne, ho, if_true, Bool.false_eq_true, if_false]
          exact ⟨trivial, hl, fun _ _ => .inl trivial⟩
        · simp only [settleOne, ho, Bool.false_eq_true, if_false]
          exact ⟨rfl, AList.lookup_insert _, fun other hne => .inl (AList.lookup_insert_ne hne)⟩

end Tables

section Steps

variable {state next : State} {action : Action}

theorem step_cases (hs : step breakers state action = some next) :
    state.clock ≤ action.now ∧
      ((action.event = .begin ∧ state.calls action.key action.call = none ∧
        next = state.begin breakers action) ∨
      (∃ outcome call, action.event = .finish outcome ∧
        state.calls action.key action.call = some call ∧ call.settled = false ∧
        next = state.finish breakers action call outcome) ∨
      ∃ call, action.event = .drop ∧ state.calls action.key action.call = some call ∧
        call.settled = false ∧ next = state.drop breakers action call) := by
  unfold step at hs
  by_cases ht : action.now < state.clock
  · rw [if_pos ht] at hs
    cases hs
  · rw [if_neg ht] at hs
    refine ⟨Nat.le_of_not_lt ht, ?_⟩
    cases hev : action.event with
    | begin =>
      cases hc : state.calls action.key action.call with
      | none =>
        simp only [hev, hc, Option.some.injEq] at hs
        exact .inl ⟨rfl, rfl, hs.symm⟩
      | some call => simp [hev, hc] at hs
    | finish outcome =>
      cases hc : state.calls action.key action.call with
      | none => simp [hev, hc] at hs
      | some call =>
        cases hse : call.settled with
        | true => simp [hev, hc, hse] at hs
        | false =>
          simp only [hev, hc, hse, Bool.false_eq_true, if_false, Option.some.injEq] at hs
          exact .inr (.inl ⟨outcome, call, rfl, rfl, hse, hs.symm⟩)
    | drop =>
      cases hc : state.calls action.key action.call with
      | none => simp [hev, hc] at hs
      | some call =>
        cases hse : call.settled with
        | true => simp [hev, hc, hse] at hs
        | false =>
          simp only [hev, hc, hse, Bool.false_eq_true, if_false, Option.some.injEq] at hs
          exact .inr (.inr ⟨call, rfl, rfl, hse, hs.symm⟩)

-- A step is a step of its own key. Another key at most loses a circuit that a full table does not
-- keep.
theorem step_others (hen : breakers.policy.enabled = true)
    (hs : step breakers state action = some next) (hne : key ≠ action.key) :
    next.calls key = state.calls key ∧ next.settlements key = state.settlements key ∧
      next.clock = action.now ∧
      (next.circuits.lookup key = state.circuits.lookup key ∨
        ∃ circuit, state.circuits.lookup key = some circuit ∧
          keeps breakers action.now circuit = false ∧
          breakers.maxTracked ≤ size state.circuits ∧ next.circuits.lookup key = none) := by
  obtain ⟨-, ⟨-, -, rfl⟩ | ⟨outcome, call, -, -, -, rfl⟩ | ⟨call, -, -, -, rfl⟩⟩ := step_cases hs
  · refine ⟨by simp [State.begin, putCall, hne], rfl, rfl, .inl ?_⟩
    exact (admitAt_eq hen).2.2 key hne
  · unfold State.finish
    cases call.admission with
    | rejected retryAfter => exact ⟨by simp [putCall, hne], rfl, rfl, .inl rfl⟩
    | admitted probe =>
      refine ⟨by simp [putCall, hne], by simp [hne], rfl, ?_⟩
      exact (settleAt_eq hen probe outcome.answered).2.2 key hne
  · unfold State.drop
    by_cases hp : call.admission = .admitted true
    · rw [if_pos hp]
      refine ⟨by simp [putCall, hne], rfl, rfl, .inl ?_⟩
      exact (settleAt_neutral hen).2 key hne
    · rw [if_neg hp]
      exact ⟨by simp [putCall, hne], rfl, rfl, .inl rfl⟩

theorem track_begin (hen : breakers.policy.enabled = true) :
    (state.begin breakers action).track action.key =
      { state.track action.key with
        circuit := (admitOne action.now (state.track action.key).circuit).2
        calls := Function.update (state.track action.key).calls action.call
          (some ⟨(admitOne action.now (state.track action.key).circuit).1, false⟩)
        clock := action.now } := by
  obtain ⟨ha, hc, -⟩ := @admitAt_eq breakers action.key state.circuits action.now hen
  simp [State.track, State.begin, putCall, ha, hc]

theorem track_finish (hen : breakers.policy.enabled = true) {call : HookCall} {probe : Bool}
    (had : call.admission = .admitted probe) (outcome : HookExecutionOutcome) :
    let room := roomFor breakers action.key action.now state.circuits
    let settled := settleOne breakers probe outcome.answered action.now room
      (state.track action.key).circuit
    (state.finish breakers action call outcome).track action.key =
      { circuit := settled.2
        calls := Function.update (state.track action.key).calls action.call
          (some ⟨.admitted probe, true⟩)
        settlements := ⟨action.now, probe, outcome.answered, room, settled.1⟩ ::
          (state.track action.key).settlements
        clock := action.now } := by
  obtain ⟨ha, hc, -⟩ := @settleAt_eq breakers action.key state.circuits action.now
    hen probe outcome.answered
  unfold resultOf at ha hc
  simp [State.track, State.finish, putCall, had, ha, hc]

theorem track_drop (hen : breakers.policy.enabled = true) {call : HookCall}
    (ha : call.admission = .admitted true) : (state.drop breakers action call).track action.key =
      { state.track action.key with
        circuit := (state.track action.key).circuit.map
          fun circuit => { circuit with probing := false }
        calls := Function.update (state.track action.key).calls action.call
          (some ⟨.admitted true, true⟩)
        clock := action.now } := by
  obtain ⟨hc, -⟩ := @settleAt_neutral breakers action.key state.circuits action.now hen
  simp [State.track, State.drop, putCall, ha, hc]

theorem track_step (hen : breakers.policy.enabled = true)
    (hs : step breakers state action = some next) (key : HookCircuitKey) :
    Track.Step breakers (state.track key) (next.track key) := by
  by_cases hk : key = action.key
  · subst hk
    obtain ⟨ht, ⟨-, hf, rfl⟩ | ⟨outcome, call, -, hc, hse, rfl⟩ |
      ⟨call, -, hc, hse, rfl⟩⟩ := step_cases hs
    · rw [track_begin hen]
      exact .begin action.call action.now hf ht
    · obtain ⟨admission, settled⟩ := call
      dsimp only at hse
      subst hse
      cases admission with
      | admitted probe =>
        rw [track_finish hen rfl outcome]
        exact .finish action.call action.now probe outcome.answered _ hc ht
      | rejected retryAfter =>
        have hl := @Track.Step.leave breakers (state.track action.key) action.call
          action.now (.rejected retryAfter) hc (fun h => nomatch h) ht
        simpa [State.track, State.finish, putCall] using hl
    · obtain ⟨admission, settled⟩ := call
      dsimp only at hse
      subst hse
      by_cases hp : admission = .admitted true
      · subst hp
        rw [track_drop hen rfl]
        exact .abandon action.call action.now hc ht
      · have hl := @Track.Step.leave breakers (state.track action.key) action.call
          action.now admission hc hp ht
        simpa [State.track, State.drop, putCall, hp] using hl
  · have ht := (step_cases hs).1
    obtain ⟨hca, hst, hcl, hsa | ⟨circuit, hci, hold, -, hg⟩⟩ :=
      step_others hen hs hk
    · have htr : next.track key = { state.track key with clock := action.now } := by
        simp [State.track, hca, hst, hcl, hsa]
      rw [htr]
      exact .pass action.now ht
    · have htr : next.track key =
          { state.track key with circuit := none, clock := action.now } := by
        simp [State.track, hca, hst, hcl, hg]
      rw [htr]
      exact .evict action.now circuit hci hold ht

-- What holds of every key in every state.
structure Track.Sane (breakers : HookCircuitBreakers) (track : Track) : Prop where
  probes : track.Probes
  streaks : track.Streaks breakers
  progress : track.Progress breakers

theorem sane_run (hen : breakers.policy.enabled = true) {actions : List Action}
    (hr : Run breakers {} actions state) (key : HookCircuitKey) :
    (state.track key).Sane breakers := by
  have ha := hr.preserves (fun state => ∀ key, (state.track key).Sane breakers)
    (fun state action next hin _ hs key => by
      have ht := track_step hen hs key
      obtain ⟨hp, hst, hpr⟩ := hin key
      exact ⟨hp.step ht, hst.step ht, hpr.step hp hst ht⟩)
    (fun _ => ⟨Track.probes_start, Track.streaks_start, Track.progress_start⟩)
  exact ha key

end Steps

end FlareIm.HookCircuit
