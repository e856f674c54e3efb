/-! The nonlinear mixer. -/
namespace Famicom.Apu.Mixer

/-- Each group of channels drives its own resistor ladder. -/
def mix (pulse1 pulse2 triangle noise dmc : Nat) : Float32 :=
  let pulses := Float32.ofNat pulse1 + Float32.ofNat pulse2
  let pulseOut := if 0 < pulses then 95.88 / (8128.0 / pulses + 100.0) else 0
  let others := Float32.ofNat triangle / 8227.0 + Float32.ofNat noise / 12241.0
    + Float32.ofNat dmc / 22638.0
  let othersOut := if 0 < others then 159.79 / (1.0 / others + 100.0) else 0
  pulseOut + othersOut

/-- Full scale is the largest sample; values beyond are clipped and fractions cut off. -/
def toSample (level : Float32) : Int16 :=
  (level * 32767.0).toInt16

end Famicom.Apu.Mixer
