import FlareIm.HookCircuit
import Mathlib.Logic.Relation

namespace FlareIm.HookCircuit

-- What one key sees of the breakers. The table may drop its circuit while it is not open and its
-- failures are out of date.
structure Track where
  circuit : Option Circuit := none
  calls : Nat → Option HookCall := fun _ => none
  settlements : List Settlement := []
  clock : Nat := 0

section Steps

variable (breakers : HookCircuitBreakers)

def admitOne (now : Nat) : Option Circuit → HookCircuitAdmission × Option Circuit
  | none => (.admitted false, none)
  | some circuit =>
    match circuit.openUntil with
    | none => (.admitted false, some circuit)
    | some deadline =>
      if now < deadline then (.rejected (deadline - now), some circuit)
      else if circuit.probing then (.rejected PROBE_RETRY_AFTER, some circuit)
      else (.admitted true, some { circuit with probing := true })

def countOne (now : Nat) (circuit : Circuit) : Option HookCircuitTransition × Option Circuit :=
  ((countFailure breakers now circuit).1, some (countFailure breakers now circuit).2)

def settleOne (probe healthy : Bool) (now : Nat) (room : Bool) :
    Option Circuit → Option HookCircuitTransition × Option Circuit
  | none => if probe ∨ healthy ∨ !room then (none, none) else countOne breakers now (fresh now)
  | some circuit =>
    if probe then
      if healthy then (some .closed, none) else (some .reopened, some (reopen breakers now circuit))
    else if circuit.isOpen then (none, some circuit)
    else if healthy then (none, none)
    else countOne breakers now circuit

inductive Track.Step : Track → Track → Prop
  | begin {track : Track} (call now : Nat) (hfresh : track.calls call = none)
      (htime : track.clock ≤ now) :
      Step track
        { track with
          circuit := (admitOne now track.circuit).2
          calls := Function.update track.calls call
            (some ⟨(admitOne now track.circuit).1, false⟩)
          clock := now }
  | finish {track : Track} (call now : Nat) (probe healthy room : Bool)
      (hcall : track.calls call = some ⟨.admitted probe, false⟩) (htime : track.clock ≤ now) :
      Step track
        { circuit := (settleOne breakers probe healthy now room track.circuit).2
          calls := Function.update track.calls call (some ⟨.admitted probe, true⟩)
          settlements :=
            ⟨now, probe, healthy, room,
              (settleOne breakers probe healthy now room track.circuit).1⟩ :: track.settlements
          clock := now }
  | abandon {track : Track} (call now : Nat)
      (hcall : track.calls call = some ⟨.admitted true, false⟩) (htime : track.clock ≤ now) :
      Step track
        { track with
          circuit := track.circuit.map fun circuit => { circuit with probing := false }
          calls := Function.update track.calls call (some ⟨.admitted true, true⟩)
          clock := now }
  | leave {track : Track} (call now : Nat) (admission : HookCircuitAdmission)
      (hcall : track.calls call = some ⟨admission, false⟩) (hprobe : admission ≠ .admitted true)
      (htime : track.clock ≤ now) :
      Step track
        { track with
          calls := Function.update track.calls call (some ⟨admission, true⟩)
          clock := now }
  | evict {track : Track} (now : Nat) (circuit : Circuit) (hcircuit : track.circuit = some circuit)
      (hold : keeps breakers now circuit = false) (htime : track.clock ≤ now) :
      Step track { track with circuit := none, clock := now }
  | pass {track : Track} (now : Nat) (htime : track.clock ≤ now) :
      Step track { track with clock := now }

def Track.Reaches : Track → Track → Prop := Relation.ReflTransGen (Track.Step breakers)

end Steps

section Counting

variable {breakers : HookCircuitBreakers} {circuit : Circuit} {now : Nat}

-- The beginning and the length of the streak that one more failure makes.
def streak (breakers : HookCircuitBreakers) (now : Nat) (circuit : Circuit) : Nat × Nat :=
  if breakers.policy.failureWindow < now - circuit.streakStarted then (now, 1)
  else (circuit.streakStarted, circuit.consecutiveFailures + 1)

theorem countFailure_eq (h : circuit.consecutiveFailures < breakers.policy.failureThreshold) :
    countFailure breakers now circuit =
      if (streak breakers now circuit).2 < breakers.policy.failureThreshold then
        (none,
          { circuit with
            streakStarted := (streak breakers now circuit).1
            consecutiveFailures := (streak breakers now circuit).2 })
      else
        (some .opened,
          { circuit with
            streakStarted := (streak breakers now circuit).1
            consecutiveFailures := 0
            failedProbes := 0
            openUntil := some (now + breakers.policy.openFor) }) := by
  have hle := breakers.policy.failureThreshold_le
  have hp := breakers.failureThreshold_pos
  have ho : saturatingIncrement 0 = 1 := rfl
  have hm : saturatingIncrement circuit.consecutiveFailures =
      circuit.consecutiveFailures + 1 := Nat.min_eq_left (by omega)
  unfold countFailure streak
  by_cases hl : breakers.policy.failureWindow < now - circuit.streakStarted
  · simp only [if_pos hl, ho]
  · simp only [if_neg hl, hm]

theorem streak_le (h : circuit.consecutiveFailures < breakers.policy.failureThreshold) :
    (streak breakers now circuit).2 ≤ breakers.policy.failureThreshold := by
  have hp := breakers.failureThreshold_pos
  unfold streak
  split
  · exact hp
  · exact h

end Counting

section Probes

def Track.IsProbe (track : Track) (call : Nat) : Prop :=
  track.calls call = some ⟨.admitted true, false⟩

-- A circuit that is probing has its one probe, and only an open one has.
structure Track.Probes (track : Track) : Prop where
  holder : ∀ circuit, track.circuit = some circuit → circuit.probing → ∃ call, track.IsProbe call
  held : ∀ call, track.IsProbe call →
    ∃ circuit, track.circuit = some circuit ∧ circuit.probing ∧ circuit.isOpen
  unique : ∀ first second, track.IsProbe first → track.IsProbe second → first = second

variable {breakers : HookCircuitBreakers} {track next : Track}

theorem Track.probes_start : ({} : Track).Probes where
  holder _ h := nomatch h
  held _ h := nomatch h
  unique _ _ h := nomatch h

theorem Track.Probes.not_probing (h : track.Probes) {circuit : Circuit}
    (hci : track.circuit = some circuit) (hcl : circuit.isOpen = false) :
    circuit.probing = false := by
  by_contra hp
  obtain ⟨call, hc⟩ := h.holder circuit hci (by simpa using hp)
  obtain ⟨other, ho, -, hoe⟩ := h.held call hc
  rw [hci, Option.some.injEq] at ho
  rw [ho, hoe] at hcl
  cases hcl

theorem Track.probes_of_none (hn : ∀ call, ¬ track.IsProbe call)
    (hil : ∀ circuit, track.circuit = some circuit → circuit.probing = false) : track.Probes where
  holder circuit hci hp := by
    rw [hil circuit hci] at hp
    cases hp
  held call hc := absurd hc (hn call)
  unique first _ hf := absurd hf (hn first)

theorem Track.Probes.of_same (h : track.Probes) (hci : next.circuit = track.circuit)
    (hca : ∀ call, next.IsProbe call ↔ track.IsProbe call) : next.Probes where
  holder circuit hs hp := by
    rw [hci] at hs
    obtain ⟨call, hc⟩ := h.holder circuit hs hp
    exact ⟨call, (hca call).mpr hc⟩
  held call hc := by
    rw [hci]
    exact h.held call ((hca call).mp hc)
  unique first second hf hse :=
    h.unique first second ((hca first).mp hf) ((hca second).mp hse)

theorem admitOne_cases (now : Nat) (circuit : Option Circuit) :
    ((admitOne now circuit).1 ≠ .admitted true ∧ (admitOne now circuit).2 = circuit) ∨
    ∃ found, circuit = some found ∧ found.isOpen ∧ found.probing = false ∧
      admitOne now circuit = (.admitted true, some { found with probing := true }) := by
  cases circuit with
  | none => left; exact ⟨by simp [admitOne], rfl⟩
  | some found =>
    cases ho : found.openUntil with
    | none => left; simp [admitOne, ho]
    | some deadline =>
      by_cases hea : now < deadline
      · left
        simp [admitOne, ho, hea]
      · by_cases hp : found.probing
        · left
          simp [admitOne, ho, hea, hp]
        · right
          refine ⟨found, rfl, by simp [Circuit.isOpen, ho], by simpa using hp, ?_⟩
          simp [admitOne, ho, hea, hp]

theorem countFailure_probing (now : Nat) (circuit : Circuit) :
    (countFailure breakers now circuit).2.probing = circuit.probing := by
  unfold countFailure
  dsimp only
  split <;> split <;> rfl

theorem settleOne_not_probing {healthy room : Bool} {now : Nat} {before after : Option Circuit}
    (hil : ∀ circuit, before = some circuit → circuit.isOpen = false ∧ circuit.probing = false)
    (ha : (settleOne breakers false healthy now room before).2 = after)
    {circuit : Circuit} (hc : after = some circuit) : circuit.probing = false := by
  subst ha
  cases before with
  | none =>
    by_cases hs : healthy = true ∨ (!room) = true
    · simp only [settleOne, Bool.false_eq_true, false_or, hs, if_true] at hc
      cases hc
    · simp only [settleOne, Bool.false_eq_true, false_or, hs, if_false, countOne,
        Option.some.injEq] at hc
      rw [← hc, countFailure_probing]
      rfl
  | some found =>
    obtain ⟨hcl, hn⟩ := hil found rfl
    by_cases hh : healthy
    · simp [settleOne, hcl, hh] at hc
    · simp only [settleOne, Bool.false_eq_true, if_false, hcl, hh, countOne,
        Option.some.injEq] at hc
      rw [← hc, countFailure_probing, hn]

theorem Track.Probes.step (h : track.Probes) (hs : Track.Step breakers track next) :
    next.Probes := by
  -- The calls of a step that ends `call` hold no new probe.
  have hen : ∀ (call : Nat) (admission : HookCircuitAdmission) (other : Nat),
      Function.update track.calls call (some ⟨admission, true⟩) other =
        some ⟨.admitted true, false⟩ ↔ other ≠ call ∧ track.IsProbe other := by
    intro call admission other
    by_cases hsa : other = call
    · subst hsa
      simp
    · simp [hsa, Track.IsProbe]
  -- Once the probe is over there is none.
  have hov : ∀ (call : Nat) (admission : HookCircuitAdmission), track.IsProbe call →
      ∀ other, Function.update track.calls call (some ⟨admission, true⟩) other ≠
        some ⟨.admitted true, false⟩ := by
    intro call admission hc other ho
    obtain ⟨hne, hpr⟩ := (hen call admission other).mp ho
    exact hne (h.unique other call hpr hc)
  -- A call that is no probe ends without touching one.
  have hk : ∀ (call : Nat) (admission : HookCircuitAdmission),
      track.calls call = some ⟨admission, false⟩ → admission ≠ .admitted true →
      ∀ other, Function.update track.calls call (some ⟨admission, true⟩) other =
        some ⟨.admitted true, false⟩ ↔ track.IsProbe other := by
    intro call admission hc hpr other
    rw [hen]
    refine ⟨fun ho => ho.2, fun ho => ⟨?_, ho⟩⟩
    rintro rfl
    rw [Track.IsProbe, hc, Option.some.injEq, HookCall.mk.injEq] at ho
    exact hpr ho.1
  cases hs with
  | begin call now hfr ht =>
    rcases admitOne_cases now track.circuit with ⟨hno, hsa⟩ | ⟨found, hf, hoe, hil, heq⟩
    · refine h.of_same hsa fun other => ?_
      by_cases hc : other = call
      · subst hc
        simp [Track.IsProbe, hfr, hno]
      · simp [hc, Track.IsProbe]
    · have hn : ∀ other, ¬ track.IsProbe other := by
        intro other ho
        obtain ⟨circuit, hci, hp, -⟩ := h.held other ho
        rw [hf, Option.some.injEq] at hci
        rw [← hci, hil] at hp
        cases hp
      have hif : ∀ other, Function.update track.calls call
          (some ⟨(admitOne now track.circuit).1, false⟩) other =
            some ⟨.admitted true, false⟩ ↔ other = call := by
        intro other
        by_cases hc : other = call
        · subst hc
          simp [heq]
        · have ho := hn other
          rw [Track.IsProbe] at ho
          simp [hc, ho]
      refine ⟨?_, ?_, ?_⟩
      · intro circuit hci hp
        exact ⟨call, (hif call).mpr rfl⟩
      · intro other ho
        rw [heq]
        exact ⟨_, rfl, rfl, hoe⟩
      · intro first second hfi hse
        rw [(hif first).mp hfi, (hif second).mp hse]
  | finish call now probe healthy room hc ht =>
    cases probe with
    | true =>
      obtain ⟨circuit, hci, hp, hoe⟩ := h.held call hc
      refine Track.probes_of_none (hov call _ hc) ?_
      intro after ha
      cases healthy with
      | true => simp [settleOne, hci] at ha
      | false =>
        simp only [settleOne, hci, if_true, Bool.false_eq_true, if_false, Option.some.injEq] at ha
        rw [← ha]
        rfl
    | false =>
      by_cases hoe : ∃ circuit, track.circuit = some circuit ∧ circuit.isOpen
      · obtain ⟨circuit, hci, hoe⟩ := hoe
        have hsa : (settleOne breakers false healthy now room track.circuit).2 = track.circuit := by
          simp [settleOne, hci, hoe]
        exact h.of_same hsa (hk call (.admitted false) hc (by simp))
      · have hcl : ∀ circuit, track.circuit = some circuit → circuit.isOpen = false := by
          intro circuit hci
          by_contra hno
          exact hoe ⟨circuit, hci, by simpa using hno⟩
        refine Track.probes_of_none ?_ ?_
        · intro other ho
          obtain ⟨circuit, hci, -, hiO⟩ :=
            h.held other ((hen call _ other).mp ho).2
          exact hoe ⟨circuit, hci, hiO⟩
        · intro circuit hci
          exact settleOne_not_probing
            (fun before hb =>
              ⟨hcl before hb, h.not_probing hb (hcl before hb)⟩)
            rfl hci
  | abandon call now hc ht =>
    refine Track.probes_of_none (hov call _ hc) ?_
    intro circuit hci
    obtain ⟨before, -, rfl⟩ := Option.map_eq_some_iff.mp hci
    rfl
  | leave call now admission hc hpr ht =>
    exact h.of_same rfl (hk call admission hc hpr)
  | evict now circuit hci hold ht =>
    refine Track.probes_of_none ?_ (fun _ h => nomatch h)
    intro call hc
    obtain ⟨found, hf, -, hoe⟩ := h.held call hc
    rw [hci, Option.some.injEq] at hf
    simp [keeps, hf, hoe] at hold
  | pass now ht => exact h.of_same rfl fun _ => Iff.rfl

end Probes

end FlareIm.HookCircuit
