import FlareIm.ConnectionUsage
import Mathlib.Order.Bounds.Defs

namespace FlareIm.ConnectionUsage

open UsageReporter (CONNECTIONS_PEAK CONNECTION_MINUTES ConnectionReading MeterReading U64_MAX)

variable {time start : Nat} {connections : Connections}

section Statement

variable (tenant : String)

def clock : History → Nat
  | [] => 0
  | step :: _ => step.time

def sessions : History → Nat
  | [] => 0
  | step :: earlier =>
    match step.event with
    | .opened other => if other = tenant then sessions earlier + 1 else sessions earlier
    | .closed other => if other = tenant then sessions earlier - 1 else sessions earlier
    | .windowTaken => sessions earlier

-- The open sessions of a nanosecond are those of the steps up to its start.
def openAt (history : History) (time : Nat) : Nat :=
  sessions tenant (history.dropWhile fun step => time < step.time)

-- The integral of the open sessions from one time to another.
def integral (history : History) (start stop : Nat) : Nat :=
  ∑ time ∈ Finset.Ico start stop, openAt tenant history time

-- A step settles the gauge of the tenant and drops it.
def settled (step : Step) (earlier : History) : Nat :=
  if (connectionsAfter earlier tenant).isSome ∧ connectionsAfter (step :: earlier) tenant = none
  then 1 else 0

-- Times do not decrease, only an open session is closed, and the totals fit in 64 bits, half a
-- minute for the rounding included.
structure WellFormed (history : History) : Prop where
  ordered : ∀ step earlier, step :: earlier <:+ history → clock earlier ≤ step.time
  closes : ∀ step earlier, step :: earlier <:+ history → step.event = .closed tenant →
    0 < sessions tenant earlier
  fits : ∀ moment, moment <:+ history → sessions tenant moment < 2 ^ 64 ∧
    integral tenant moment 0 (clock moment) + MILLI * (MINUTE_MS / 2) < MILLI * 2 ^ 64

def Event.touches (event : Event) : Prop :=
  event = .opened tenant ∨ event = .closed tenant ∨ event = .windowTaken

-- A gauge with open sessions is advanced by whole milliseconds.
def WholeMillis (history : History) : Prop :=
  ∀ step earlier gauge, step :: earlier <:+ history →
    connectionsAfter earlier tenant = some gauge → step.event.touches tenant →
      gauge.current = 0 ∨ MILLI ∣ step.time - gauge.since

def Within (slack a b : Nat) : Prop := a ≤ b + slack ∧ b ≤ a + slack

end Statement

variable {tenant : String}

section Integral

theorem openAt_cons_of_lt {step : Step} {history : History} (h : time < step.time) :
    openAt tenant (step :: history) time = openAt tenant history time := by
  rw [openAt, List.dropWhile_cons_of_pos (by simpa using h), openAt]

theorem openAt_of_le {history : History} (h : clock history ≤ time) :
    openAt tenant history time = sessions tenant history := by
  cases history with
  | nil => rfl
  | cons step earlier =>
    have hk : ¬time < step.time := not_lt.mpr h
    rw [openAt, List.dropWhile_cons_of_neg (by simpa using hk)]

theorem integral_cons {step : Step} {history : History} {stop : Nat} (h : stop ≤ step.time) :
    integral tenant (step :: history) start stop = integral tenant history start stop :=
  Finset.sum_congr rfl fun _ ht =>
    openAt_cons_of_lt (lt_of_lt_of_le (Finset.mem_Ico.mp ht).2 h)

theorem integral_extend {history : History} {stop : Nat} (hs : start ≤ clock history)
    (hst : clock history ≤ stop) : integral tenant history start stop =
      integral tenant history start (clock history) +
        (stop - clock history) * sessions tenant history := by
  have hc : ∀ time ∈ Finset.Ico (clock history) stop,
      openAt tenant history time = sessions tenant history := fun time ht =>
    openAt_of_le (Finset.mem_Ico.mp ht).1
  rw [integral, ← Finset.sum_Ico_consecutive _ hs hst, Finset.sum_const_nat hc,
    Nat.card_Ico, integral]

theorem integral_step {step : Step} {history : History}
    (hs : start ≤ clock history) (ho : clock history ≤ step.time) :
    integral tenant (step :: history) start step.time =
      integral tenant history start (clock history) +
        (step.time - clock history) * sessions tenant history := by
  rw [integral_cons le_rfl, integral_extend hs ho]

end Integral

section WellFormed

variable {history : History} {step : Step}

theorem WellFormed.tail (h : WellFormed tenant (step :: history)) : WellFormed tenant history where
  ordered step' earlier hs := h.ordered step' earlier (hs.trans (List.suffix_cons _ _))
  closes step' earlier hs := h.closes step' earlier (hs.trans (List.suffix_cons _ _))
  fits moment hs := h.fits moment (hs.trans (List.suffix_cons _ _))

theorem WellFormed.clock_le (h : WellFormed tenant (step :: history)) :
    clock history ≤ step.time :=
  h.ordered step history (List.suffix_refl _)

theorem WholeMillis.tail (h : WholeMillis tenant (step :: history)) :
    WholeMillis tenant history := fun step' earlier gauge hs =>
  h step' earlier gauge (hs.trans (List.suffix_cons _ _))

end WellFormed

section Gauges

variable {gauge : ConnectionGauge} {now : Nat}

-- The session nanoseconds that are not yet reported, if the gauge is advanced to a time.
def ConnectionGauge.owed (gauge : ConnectionGauge) (now : Nat) : Nat :=
  MILLI * gauge.connectedMs + gauge.current * (now - gauge.since)

end Gauges

section Sound

-- The gauge of a tenant, or the one a session would make.
def gaugeOf (connections : Connections) (tenant : String) (now : Nat) : ConnectionGauge :=
  (connections tenant).getD (newGauge now)

structure Sound (tenant : String) (history : History) : Prop where
  current : ∀ now, (gaugeOf (connectionsAfter history) tenant now).current =
    sessions tenant history
  since : ∀ gauge, connectionsAfter history tenant = some gauge → gauge.since ≤ clock history
  owed : ∀ now, clock history ≤ now →
    (gaugeOf (connectionsAfter history) tenant now).owed now ≤
      integral tenant history 0 (clock history) + (now - clock history) * sessions tenant history

variable {history : History} {step : Step}

end Sound

section Readings

variable {history : History} {now : Nat}

end Readings

section Balance

variable {history : History} {step : Step}

end Balance

section Runs

variable {earlier : History}

end Runs

section Peaks

variable {history : History} {step : Step}

end Peaks

section Windows

variable {later earlier : History}

end Windows

section Samples

-- The integral, step by step.
def area (tenant : String) : History → Nat
  | [] => 0
  | step :: earlier => area tenant earlier + (step.time - clock earlier) * sessions tenant earlier

variable {history : History} {step : Step}

theorem integral_eq_area (hw : WellFormed tenant history) :
    integral tenant history 0 (clock history) = area tenant history := by
  induction history with
  | nil => rfl
  | cons step earlier ih =>
    change integral tenant (step :: earlier) 0 step.time = _
    rw [integral_step (Nat.zero_le _) hw.clock_le, ih hw.tail, area]

theorem WellFormed.cons (h : WellFormed tenant history) (ho : clock history ≤ step.time)
    (hc : step.event = .closed tenant → 0 < sessions tenant history)
    (hse : sessions tenant (step :: history) < 2 ^ 64)
    (ha : area tenant (step :: history) + MILLI * (MINUTE_MS / 2) < MILLI * 2 ^ 64) :
    WellFormed tenant (step :: history) where
  ordered first earlier hs := by
    rcases List.suffix_cons_iff.mp hs with heq | hs
    · obtain ⟨rfl, rfl⟩ := List.cons.inj heq
      exact ho
    · exact h.ordered first earlier hs
  closes first earlier hs := by
    rcases List.suffix_cons_iff.mp hs with heq | hs
    · obtain ⟨rfl, rfl⟩ := List.cons.inj heq
      exact hc
    · exact h.closes first earlier hs
  fits moment hs := by
    rcases List.suffix_cons_iff.mp hs with rfl | hs
    · refine ⟨hse, ?_⟩
      change integral tenant (step :: history) 0 step.time + _ < _
      rw [integral_step (Nat.zero_le _) ho, integral_eq_area h]
      exact ha
    · exact h.fits moment hs

theorem WholeMillis.cons (h : WholeMillis tenant history)
    (hs : (connectionsAfter history tenant).all (fun gauge =>
      gauge.current = 0 ∨ MILLI ∣ step.time - gauge.since) = true) :
    WholeMillis tenant (step :: history) := by
  intro first earlier gauge hsu hg ht
  rcases List.suffix_cons_iff.mp hsu with heq | hsu
  · obtain ⟨rfl, rfl⟩ := List.cons.inj heq
    rw [hg] at hs
    exact of_decide_eq_true hs
  · exact h first earlier gauge hsu hg ht

end Samples

end FlareIm.ConnectionUsage
