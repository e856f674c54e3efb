/-! Emulated time, which says when an audio sample is due. -/
namespace Famicom

structure Config where
  sampleRate : Nat := 44100
  /-- In dots per second. -/
  clockRate : Float := 5369318

structure Pacer where
  ticks : Nat := 0
  /-- Seconds since the last sample. -/
  time : Float := 0
  /-- Seconds to a tick and to a sample. -/
  tickPeriod : Float
  samplePeriod : Float

namespace Pacer

/-- A rate of no samples counts as one a second. -/
def ofConfig (c : Config) : Pacer where
  tickPeriod := 1 / c.clockRate
  samplePeriod := 1 / Float.ofNat (max 1 c.sampleRate)

def clear (p : Pacer) : Pacer := { p with ticks := 0, time := 0 }

def advance (p : Pacer) : Bool × Pacer :=
  let time := p.time + p.tickPeriod
  if p.samplePeriod ≤ time then (true, { p with time := time - p.samplePeriod })
  else (false, { p with time })

end Pacer
end Famicom
