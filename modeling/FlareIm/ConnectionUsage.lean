import FlareIm.UsageReporter
import Mathlib.Algebra.BigOperators.Intervals
import Mathlib.Logic.Function.Basic

namespace FlareIm.ConnectionUsage

open UsageReporter (CONNECTIONS_PEAK CONNECTION_MINUTES ConnectionReading MeterReading U64_MAX)

section Gauges

def MINUTE_MS : Nat := 60000

-- An instant is in nanoseconds.
def MILLI : Nat := 1000000

structure ConnectionGauge where
  current : Nat
  peak : Nat
  since : Nat
  -- connected milliseconds not yet reported as whole minutes
  connectedMs : Nat

def saturatingAdd (a b : Nat) : Nat := min (a + b) U64_MAX

def saturatingMul (a b : Nat) : Nat := min (a * b) U64_MAX

-- The sum wraps in a release build.
def add (a b : Nat) : Nat := (a + b) % 2 ^ 64

variable (gauge : ConnectionGauge) (now : Nat)

def ConnectionGauge.elapsed : Nat := min ((now - gauge.since) / MILLI) U64_MAX

def ConnectionGauge.advance : ConnectionGauge :=
  { gauge with
    connectedMs := saturatingAdd gauge.connectedMs
      (saturatingMul gauge.current (gauge.elapsed now))
    since := now }

def ConnectionGauge.opened : ConnectionGauge :=
  let advanced := gauge.advance now
  let current := add advanced.current 1
  { advanced with
    current
    peak := max advanced.peak current }

def ConnectionGauge.closed : ConnectionGauge :=
  let advanced := gauge.advance now
  { advanced with current := advanced.current - 1 }

-- The remainder of an idle tenant is rounded, so that it leaves nothing behind.
def ConnectionGauge.minutes : Nat :=
  if gauge.current = 0 then add gauge.connectedMs (MINUTE_MS / 2) / MINUTE_MS
  else gauge.connectedMs / MINUTE_MS

def ConnectionGauge.reading (tenant : String) : ConnectionReading :=
  ⟨tenant, gauge.peak, gauge.minutes⟩

def ConnectionGauge.kept : Option ConnectionGauge :=
  if gauge.current = 0 then none
  else
    some { gauge with
      connectedMs := gauge.connectedMs - min (gauge.minutes * MINUTE_MS) gauge.connectedMs
      peak := gauge.current }

end Gauges

section Recorder

abbrev Connections := String → Option ConnectionGauge

variable (connections : Connections) (tenant : String) (now : Nat)

def newGauge : ConnectionGauge := ⟨0, 0, now, 0⟩

def connectionOpened : Connections :=
  Function.update connections tenant
    (some (((connections tenant).getD (newGauge now)).opened now))

-- A close without an open has nothing to undo.
def connectionClosed : Connections :=
  match connections tenant with
  | none => connections
  | some gauge => Function.update connections tenant (some (gauge.closed now))

-- What the gauges add to the window that is taken, and the gauges that are kept.
def takenMeters : List MeterReading :=
  match connections tenant with
  | none => []
  | some gauge => ((gauge.advance now).reading tenant).meters

def takeWindow : Connections := fun tenant =>
  (connections tenant).bind fun gauge => (gauge.advance now).kept

end Recorder

section Histories

inductive Event where
  | opened (tenant : String)
  | closed (tenant : String)
  | windowTaken
  deriving DecidableEq

structure Step where
  time : Nat
  event : Event

-- A history names the latest step first.
abbrev History := List Step

def apply (connections : Connections) (step : Step) : Connections :=
  match step.event with
  | .opened tenant => connectionOpened connections tenant step.time
  | .closed tenant => connectionClosed connections tenant step.time
  | .windowTaken => takeWindow connections step.time

def connectionsAfter : History → Connections
  | [] => fun _ => none
  | step :: earlier => apply (connectionsAfter earlier) step

-- What the latest step reports of a tenant's connections.
def reported (tenant : String) : History → List MeterReading
  | [] => []
  | step :: earlier =>
    match step.event with
    | .windowTaken => takenMeters (connectionsAfter earlier) tenant step.time
    | .opened _ | .closed _ => []

end Histories

end FlareIm.ConnectionUsage
