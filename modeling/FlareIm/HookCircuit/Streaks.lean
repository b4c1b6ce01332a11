import FlareIm.HookCircuit.Track
import Mathlib.Order.Basic

namespace FlareIm.HookCircuit

variable {breakers : HookCircuitBreakers} {track after : Track} {settlements : List Settlement}
  {circuit : Circuit} {now first : Nat} {room : Bool}

section Streaks

def Settlement.countsSince (start : Nat) (settlement : Settlement) : Prop :=
  settlement.healthy = false ∧ settlement.probe = false ∧ start ≤ settlement.now

-- The latest `failures` settlements are failures since `start`.
def Counts (settlements : List Settlement) (start failures : Nat) : Prop :=
  failures ≤ settlements.length ∧ ∀ settlement ∈ settlements.take failures,
    settlement.countsSince start

-- An opening comes with the last of the failures that reach the threshold, all in one window.
def OpensRightly (breakers : HookCircuitBreakers) (settlement : Settlement)
    (earlier : List Settlement) : Prop :=
  breakers.policy.failureThreshold ≤ (settlement :: earlier).length ∧
    ∀ failure ∈ (settlement :: earlier).take breakers.policy.failureThreshold,
      failure.healthy = false ∧ failure.probe = false ∧ failure.now ≤ settlement.now ∧
        settlement.now ≤ failure.now + breakers.policy.failureWindow

structure Track.Streaks (breakers : HookCircuitBreakers) (track : Track) : Prop where
  counted : ∀ circuit, track.circuit = some circuit → circuit.isOpen = false →
    circuit.consecutiveFailures < breakers.policy.failureThreshold ∧
      circuit.streakStarted ≤ track.clock ∧
      Counts track.settlements circuit.streakStarted circuit.consecutiveFailures
  past : ∀ settlement ∈ track.settlements, settlement.now ≤ track.clock
  opened : ∀ later settlement earlier, track.settlements = later ++ settlement :: earlier →
    settlement.transition = some .opened → OpensRightly breakers settlement earlier

theorem Counts.extend
    {transition : Option HookCircuitTransition}
    (h : Counts settlements circuit.streakStarted circuit.consecutiveFailures)
    (ht : circuit.streakStarted ≤ now) :
    Counts (⟨now, false, false, room, transition⟩ :: settlements)
        (streak breakers now circuit).1 (streak breakers now circuit).2 ∧
      now ≤ (streak breakers now circuit).1 + breakers.policy.failureWindow ∧
      (streak breakers now circuit).1 ≤ now := by
  unfold streak
  by_cases hl : breakers.policy.failureWindow < now - circuit.streakStarted
  · rw [if_pos hl]
    refine ⟨⟨by simp, ?_⟩, by simp, le_rfl⟩
    intro settlement hm
    simp only [List.take_succ_cons, List.take_zero, List.mem_singleton] at hm
    subst hm
    exact ⟨rfl, rfl, le_rfl⟩
  · rw [if_neg hl]
    refine ⟨⟨by simpa using h.1, ?_⟩, by dsimp only; omega, ht⟩
    intro settlement hm
    rw [List.take_succ_cons, List.mem_cons] at hm
    rcases hm with rfl | hm
    · exact ⟨rfl, rfl, ht⟩
    · exact h.2 settlement hm

theorem countOne_spec (hc : circuit.consecutiveFailures < breakers.policy.failureThreshold)
    (ht : circuit.streakStarted ≤ now) (hcl : circuit.isOpen = false)
    (hcu : Counts settlements circuit.streakStarted circuit.consecutiveFailures)
    (hpa : ∀ settlement ∈ settlements, settlement.now ≤ now) :
    let settlement : Settlement := ⟨now, false, false, room, (countOne breakers now circuit).1⟩
    (∃ counted, (countOne breakers now circuit) = (none, some counted) ∧
      counted.isOpen = false ∧ counted.streakStarted = (streak breakers now circuit).1 ∧
      counted.consecutiveFailures = (streak breakers now circuit).2 ∧
      counted.consecutiveFailures < breakers.policy.failureThreshold ∧ counted.streakStarted ≤ now ∧
      Counts (settlement :: settlements) counted.streakStarted counted.consecutiveFailures) ∨
    (∃ opened, (countOne breakers now circuit) = (some .opened, some opened) ∧
      opened.isOpen ∧ OpensRightly breakers settlement settlements) := by
  intro settlement
  obtain ⟨hn, hw, hs⟩ := @Counts.extend breakers settlements circuit now room
    (countOne breakers now circuit).1 hcu ht
  by_cases hl : (streak breakers now circuit).2 < breakers.policy.failureThreshold
  · left
    have hco := @countFailure_eq breakers circuit now hc
    rw [if_pos hl] at hco
    have hp := congrArg (fun pair => (pair.1, some pair.2)) hco
    exact ⟨_, hp, hcl, rfl, rfl, hl, hs, hn⟩
  · right
    have hfu : (streak breakers now circuit).2 = breakers.policy.failureThreshold :=
      Nat.le_antisymm (streak_le hc) (Nat.le_of_not_lt hl)
    have ho := @countFailure_eq breakers circuit now hc
    rw [if_neg hl] at ho
    have hp := congrArg (fun pair => (pair.1, some pair.2)) ho
    refine ⟨_, hp, rfl, ?_, ?_⟩
    · rw [← hfu]
      exact hn.1
    · intro failure hf
      rw [← hfu] at hf
      obtain ⟨hh, hpr, hsi⟩ := hn.2 failure hf
      have hle : failure.now ≤ now := by
        rcases List.mem_cons.mp (List.mem_of_mem_take hf) with rfl | hm
        · exact le_rfl
        · exact hpa failure hm
      refine ⟨hh, hpr, hle, ?_⟩
      show now ≤ failure.now + breakers.policy.failureWindow
      omega

theorem Track.streaks_start : ({} : Track).Streaks breakers where
  counted _ h := nomatch h
  past _ h := nomatch h
  opened later _ _ h := by
    have hl := congrArg List.length h
    simp at hl

theorem Track.Streaks.finish (h : track.Streaks breakers) {settlement : Settlement}
    (hti : track.clock ≤ settlement.now)
    (hoe : settlement.transition = some .opened →
      OpensRightly breakers settlement track.settlements)
    (hs : after.settlements = settlement :: track.settlements) (hcl : after.clock = settlement.now)
    (hc : ∀ circuit, after.circuit = some circuit → circuit.isOpen = false →
      circuit.consecutiveFailures < breakers.policy.failureThreshold ∧
        circuit.streakStarted ≤ after.clock ∧
        Counts after.settlements circuit.streakStarted circuit.consecutiveFailures) :
    after.Streaks breakers where
  counted := hc
  past other ho := by
    rw [hs, List.mem_cons] at ho
    rw [hcl]
    rcases ho with rfl | ho
    · exact le_rfl
    · exact (h.past other ho).trans hti
  opened later other earlier hsp ht := by
    rw [hs] at hsp
    cases later with
    | nil =>
      rw [List.nil_append, List.cons.injEq] at hsp
      obtain ⟨rfl, rfl⟩ := hsp
      exact hoe ht
    | cons first later =>
      rw [List.cons_append, List.cons.injEq] at hsp
      exact h.opened later other earlier hsp.2 ht

theorem Track.Streaks.of_same (h : track.Streaks breakers)
    (hs : after.settlements = track.settlements) (ht : track.clock ≤ after.clock)
    (hci : ∀ circuit, after.circuit = some circuit → ∃ before,
      track.circuit = some before ∧ circuit.isOpen = before.isOpen ∧
        circuit.consecutiveFailures = before.consecutiveFailures ∧
        circuit.streakStarted = before.streakStarted) : after.Streaks breakers where
  counted circuit hso hc := by
    obtain ⟨before, hb, ho, hf, hst⟩ := hci circuit hso
    rw [ho] at hc
    obtain ⟨hl, hp, hco⟩ := h.counted before hb hc
    rw [hf, hst, hs]
    exact ⟨hl, hp.trans ht, hco⟩
  past settlement hm := by
    rw [hs] at hm
    exact (h.past settlement hm).trans ht
  opened := by
    rw [hs]
    exact h.opened

theorem Track.Streaks.count (h : track.Streaks breakers)
    {calls : Nat → Option HookCall}
    (hse : settleOne breakers false false now room track.circuit =
      countOne breakers now circuit)
    (hcu : circuit.consecutiveFailures < breakers.policy.failureThreshold)
    (hst : circuit.streakStarted ≤ now) (hc : circuit.isOpen = false)
    (hco : Counts track.settlements circuit.streakStarted circuit.consecutiveFailures)
    (ht : track.clock ≤ now) :
    Track.Streaks breakers
      { circuit := (settleOne breakers false false now room track.circuit).2
        calls
        settlements :=
          ⟨now, false, false, room,
            (settleOne breakers false false now room track.circuit).1⟩ :: track.settlements
        clock := now } := by
  have hp : ∀ settlement ∈ track.settlements, settlement.now ≤ now :=
    fun settlement hm => (h.past settlement hm).trans ht
  have hsp := @countOne_spec breakers track.settlements circuit now room hcu hst hc
    hco hp
  rw [hse]
  rcases hsp with ⟨counted, heq, -, -, -, hl, hb, hmo⟩ | ⟨opened, heq, ho, hr⟩
  · refine h.finish ht ?_ rfl rfl ?_
    · rw [heq]
      exact fun h => nomatch h
    · intro other hs _
      rw [heq] at hs
      cases hs
      exact ⟨hl, hb, hmo⟩
  · refine h.finish ht (fun _ => hr) rfl rfl ?_
    intro other hs hn
    rw [heq, Option.some.injEq] at hs
    rw [← hs, ho] at hn
    cases hn

theorem admitOne_keeps (now : Nat) {before : Option Circuit}
    (h : (admitOne now before).2 = some circuit) : ∃ found, before = some found ∧
      circuit.isOpen = found.isOpen ∧ circuit.consecutiveFailures = found.consecutiveFailures ∧
      circuit.streakStarted = found.streakStarted := by
  rcases admitOne_cases now before with ⟨-, hs⟩ | ⟨found, hf, -, -, heq⟩
  · rw [hs] at h
    exact ⟨circuit, h, rfl, rfl, rfl⟩
  · rw [heq] at h
    cases h
    exact ⟨found, hf, rfl, rfl, rfl⟩

theorem Track.Streaks.step (h : track.Streaks breakers) (hs : Track.Step breakers track after) :
    after.Streaks breakers := by
  cases hs with
  | begin call now hf ht =>
    exact h.of_same rfl ht fun circuit hci => admitOne_keeps now hci
  | finish call now probe healthy room hc ht =>
    cases hci : track.circuit with
    | none =>
      by_cases hsk : probe = true ∨ healthy = true ∨ (!room) = true
      · have hn : settleOne breakers probe healthy now room none = (none, none) :=
          if_pos (by simpa using hsk)
        refine h.finish ht ?_ rfl rfl ?_
        · rw [hn]
          intro h
          cases h
        · rw [hn]
          intro _ h
          cases h
      · simp only [not_or, Bool.not_eq_true] at hsk
        obtain ⟨rfl, rfl, hr⟩ := hsk
        have hco : settleOne breakers false false now room track.circuit =
            countOne breakers now (fresh now) := by
          rw [hci]
          exact if_neg (by simpa using hr)
        rw [← hci]
        exact h.count hco breakers.failureThreshold_pos le_rfl rfl
          ⟨Nat.zero_le _, by simp [fresh]⟩ ht
    | some circuit =>
      cases probe with
      | true =>
        cases healthy with
        | true =>
          refine h.finish ht ?_ rfl rfl (fun _ h => by cases h)
          intro h
          cases h
        | false =>
          refine h.finish ht (fun h => by cases h) rfl rfl ?_
          intro other hso hcl
          simp only [settleOne, if_true, Bool.false_eq_true, if_false,
            Option.some.injEq] at hso
          rw [← hso] at hcl
          cases hcl
      | false =>
        by_cases ho : circuit.isOpen
        · have hsa : settleOne breakers false healthy now room (some circuit) =
              (none, some circuit) := by
            simp [settleOne, ho]
          refine h.finish ht ?_ rfl rfl ?_
          · rw [hsa]
            intro h
            cases h
          · rw [hsa]
            intro other hso hcl
            rw [Option.some.injEq] at hso
            rw [← hso, ho] at hcl
            cases hcl
        · have hcl : circuit.isOpen = false := by simpa using ho
          cases healthy with
          | true =>
            have hg : settleOne breakers false true now room (some circuit) =
                (none, none) := by
              simp [settleOne, hcl]
            refine h.finish ht ?_ rfl rfl ?_
            · rw [hg]
              intro h
              cases h
            · rw [hg]
              intro _ h
              cases h
          | false =>
            obtain ⟨hl, hst, hcu⟩ := h.counted circuit hci hcl
            have hco : settleOne breakers false false now room track.circuit =
                countOne breakers now circuit := by
              simp [hci, settleOne, hcl]
            rw [← hci]
            exact h.count hco hl (hst.trans ht) hcl hcu ht
  | abandon call now hc ht =>
    refine h.of_same rfl ht fun circuit hci => ?_
    obtain ⟨before, hb, rfl⟩ := Option.map_eq_some_iff.mp hci
    exact ⟨before, hb, rfl, rfl, rfl⟩
  | leave call now admission hc hp ht | pass now ht =>
    exact h.of_same rfl ht fun circuit hci => ⟨circuit, hci, rfl, rfl, rfl⟩
  | evict now circuit hci hold ht =>
    exact h.of_same rfl ht fun _ h => by cases h

end Streaks

section Progress

-- The latest `count` settlements are failures in the window that begins at `first`, each with
-- room to track the hook.
def FailsSince (breakers : HookCircuitBreakers) (settlements : List Settlement)
    (first count : Nat) : Prop :=
  count ≤ settlements.length ∧ ∀ settlement ∈ settlements.take count,
    settlement.healthy = false ∧ settlement.room = true ∧ first ≤ settlement.now ∧
      settlement.now ≤ first + breakers.policy.failureWindow

-- How near failures in one window have brought the opening. A streak that began before the window
-- may restart once, or be dropped once, and the failures it had are then fewer than the threshold.
def Nears (breakers : HookCircuitBreakers) (track : Track) (first count : Nat) : Prop :=
  (∃ circuit, track.circuit = some circuit ∧ (circuit.isOpen ∨
    count ≤ circuit.consecutiveFailures ∨
    (first ≤ circuit.streakStarted ∧
      count < breakers.policy.failureThreshold + circuit.consecutiveFailures))) ∨
  (track.circuit = none ∧ count < breakers.policy.failureThreshold) ∨
  (first + breakers.policy.failureWindow < track.clock ∧
    count + 1 < 2 * breakers.policy.failureThreshold)

def Track.Progress (breakers : HookCircuitBreakers) (track : Track) : Prop :=
  ∀ first count, FailsSince breakers track.settlements first count →
    Nears breakers track first count

theorem Track.progress_start : ({} : Track).Progress breakers := by
  intro first count hf
  have hz : count = 0 := Nat.le_zero.mp hf.1
  subst hz
  exact .inr (.inl ⟨rfl, breakers.failureThreshold_pos⟩)

theorem nears_zero (first : Nat) : Nears breakers track first 0 := by
  cases hc : track.circuit with
  | none => exact .inr (.inl ⟨hc, breakers.failureThreshold_pos⟩)
  | some circuit => exact .inl ⟨circuit, hc, .inr (.inl (Nat.zero_le _))⟩

theorem Nears.of_same {count : Nat} (h : Nears breakers track first count)
    (ht : track.clock ≤ after.clock)
    (hso : ∀ circuit, track.circuit = some circuit → ∃ later,
      after.circuit = some later ∧ later.isOpen = circuit.isOpen ∧
        later.consecutiveFailures = circuit.consecutiveFailures ∧
        later.streakStarted = circuit.streakStarted)
    (hn : track.circuit = none → after.circuit = none) : Nears breakers after first count := by
  rcases h with ⟨circuit, hc, hca⟩ | ⟨hc, hl⟩ | ⟨hlat, hl⟩
  · obtain ⟨later, hla, ho, hf, hs⟩ := hso circuit hc
    exact .inl ⟨later, hla, by rwa [ho, hf, hs]⟩
  · exact .inr (.inl ⟨hn hc, hl⟩)
  · exact .inr (.inr ⟨hlat.trans_le ht, hl⟩)

theorem nears_count {count : Nat}
    (hco : circuit.consecutiveFailures < breakers.policy.failureThreshold) (hf : first ≤ now)
    (hw : now ≤ first + breakers.policy.failureWindow)
    (hca : count ≤ circuit.consecutiveFailures ∨
      (first ≤ circuit.streakStarted ∧
        count < breakers.policy.failureThreshold + circuit.consecutiveFailures))
    {calls : Nat → Option HookCall} :
    Nears breakers
      { circuit := (countOne breakers now circuit).2, calls, settlements, clock := now }
      first (count + 1) := by
  have heq := @countFailure_eq breakers circuit now hco
  by_cases hl : (streak breakers now circuit).2 < breakers.policy.failureThreshold
  · rw [if_pos hl] at heq
    have hc := congrArg (fun pair => some (Prod.snd pair)) heq
    refine .inl ⟨_, hc, .inr ?_⟩
    dsimp only
    unfold streak
    by_cases hla : breakers.policy.failureWindow < now - circuit.streakStarted
    · rw [if_pos hla]
      right
      omega
    · rw [if_neg hla]
      dsimp only
      omega
  · rw [if_neg hl] at heq
    have ho := congrArg (fun pair => some (Prod.snd pair)) heq
    exact .inl ⟨_, ho, .inl rfl⟩

theorem Track.Progress.of_settlements (h : track.Progress breakers)
    (hs : after.settlements = track.settlements)
    (hn : ∀ first count, Nears breakers track first count → Nears breakers after first count) :
    after.Progress breakers := by
  intro first count hf
  rw [hs] at hf
  exact hn first count (h first count hf)

theorem FailsSince.of_cons {settlement : Settlement}
    {count : Nat} (h : FailsSince breakers (settlement :: settlements) first (count + 1)) :
    (settlement.healthy = false ∧ settlement.room = true ∧ first ≤ settlement.now ∧
      settlement.now ≤ first + breakers.policy.failureWindow) ∧
    FailsSince breakers settlements first count := by
  obtain ⟨hl, ha⟩ := h
  rw [List.take_succ_cons] at ha
  exact ⟨ha settlement List.mem_cons_self, Nat.le_of_succ_le_succ hl,
    fun other ho => ha other (List.mem_cons_of_mem settlement ho)⟩

theorem Track.Progress.step (h : track.Progress breakers) (hp : track.Probes)
    (hst : track.Streaks breakers) (hs : Track.Step breakers track after) :
    after.Progress breakers := by
  cases hs with
  | begin call now hfr ht =>
    refine h.of_settlements rfl fun first count hna => hna.of_same ht ?_ ?_
    · intro circuit hci
      rcases admitOne_cases now track.circuit with ⟨-, hsa⟩ | ⟨found, hf, -, -, heq⟩
      · exact ⟨circuit, hsa.trans hci, rfl, rfl, rfl⟩
      · rw [hci] at hf
        cases hf
        exact ⟨_, congrArg Prod.snd heq, rfl, rfl, rfl⟩
    · intro hn
      show (admitOne now track.circuit).2 = none
      rw [hn]
      rfl
  | finish call now probe healthy room hc ht =>
    intro first count hfa
    cases count with
    | zero => exact nears_zero first
    | succ count =>
      obtain ⟨⟨hh, hr, hfi, hw⟩, hb⟩ := hfa.of_cons
      dsimp only at hh hr hfi hw
      subst hh hr
      cases probe with
      | true =>
        obtain ⟨circuit, hci, -, -⟩ := hp.held call hc
        exact .inl ⟨reopen breakers now circuit, by simp [settleOne, hci], .inl rfl⟩
      | false =>
        rcases h first count hb with ⟨circuit, hci, hca⟩ | ⟨hn, hl⟩ | ⟨hla, -⟩
        · by_cases ho : circuit.isOpen
          · exact .inl ⟨circuit, by simp [settleOne, hci, ho], .inl ho⟩
          · have hcl : circuit.isOpen = false := by simpa using ho
            have hse : settleOne breakers false false now true track.circuit =
                countOne breakers now circuit := by
              simp [settleOne, hci, hcl]
            rw [hse]
            exact nears_count (hst.counted circuit hci hcl).1 hfi hw (hca.resolve_left ho)
        · have hse : settleOne breakers false false now true track.circuit =
              countOne breakers now (fresh now) := by
            simp [settleOne, hn]
          rw [hse]
          exact nears_count breakers.failureThreshold_pos hfi hw (.inr ⟨hfi, hl⟩)
        · omega
  | abandon call now hc ht =>
    refine h.of_settlements rfl fun first count hna => hna.of_same ht ?_ ?_
    · intro circuit hci
      exact ⟨{ circuit with probing := false }, by simp [hci], rfl, rfl, rfl⟩
    · intro hn
      simp [hn]
  | leave call now admission hc hpr ht | pass now ht =>
    exact h.of_settlements rfl fun first count hna => hna.of_same ht
      (fun circuit hci => ⟨circuit, hci, rfl, rfl, rfl⟩) id
  | evict now circuit hci hold ht =>
    refine h.of_settlements rfl fun first count hna => ?_
    simp only [keeps, Bool.decide_or, Bool.decide_eq_true, Bool.or_eq_false_iff,
      decide_eq_false_iff_not, Nat.not_le] at hold
    obtain ⟨hcl, hla⟩ := hold
    have hl := (hst.counted circuit hci hcl).1
    rcases hna with ⟨found, hf, hca⟩ | ⟨hn, -⟩ | ⟨hov, hfe⟩
    · rw [hci] at hf
      cases hf
      rcases hca with ho | hco | ⟨hsi, hco⟩
      · rw [hcl] at ho
        cases ho
      · exact .inr (.inl ⟨rfl, hco.trans_lt hl⟩)
      · right
        right
        refine ⟨?_, by omega⟩
        show first + breakers.policy.failureWindow < now
        omega
    · rw [hci] at hn
      cases hn
    · exact .inr (.inr ⟨hov.trans_le ht, hfe⟩)

theorem Track.Progress.opens (h : track.Progress breakers) (hs : track.Streaks breakers)
    (hf : FailsSince breakers track.settlements first (2 * breakers.policy.failureThreshold - 1)) :
    ∃ circuit, track.circuit = some circuit ∧ circuit.isOpen := by
  have hp := breakers.failureThreshold_pos
  rcases h first _ hf with ⟨circuit, hc, hca⟩ | ⟨-, hl⟩ | ⟨-, hl⟩
  · refine ⟨circuit, hc, ?_⟩
    by_contra hn
    have hcl : circuit.isOpen = false := by simpa using hn
    have hco := (hs.counted circuit hc hcl).1
    rcases hca with ho | hca | ⟨-, hca⟩
    · exact hn ho
    · omega
    · omega
  · omega
  · omega

end Progress

end FlareIm.HookCircuit
