import Famicom.Byte

/-! The standard controller: eight buttons latched by a strobe, then shifted out serially. -/
namespace Famicom

/-! Bits of a button mask, in the order they are shifted out. -/
namespace Button

def a : UInt8 := 0x01
def b : UInt8 := 0x02
def select : UInt8 := 0x04
def start : UInt8 := 0x08
def up : UInt8 := 0x10
def down : UInt8 := 0x20
def left : UInt8 := 0x40
def right : UInt8 := 0x80

end Button

structure Controller where
  /-- What is pressed now. -/
  buttons : UInt8 := 0
  /-- What was pressed at the last latch. -/
  latched : UInt8 := 0
  strobe : Bool := false
  /-- Bits shifted out since the last latch, up to 8. -/
  shifted : UInt8 := 0
deriving DecidableEq

namespace Controller

def setButtons (c : Controller) (mask : UInt8) : Controller := { c with buttons := mask }

def setButton (c : Controller) (mask : UInt8) (pressed : Bool) : Controller :=
  { c with buttons := Byte.put c.buttons mask pressed }

def latch (c : Controller) : Controller := { c with latched := c.buttons, shifted := 0 }

def writeStrobe (c : Controller) (v : UInt8) : Controller :=
  let c := { c with strobe := Byte.has v 1 }
  if c.strobe then c.latch else c

/-- The bit that the next read returns. Past the eighth the line stays high. -/
def peek (c : Controller) : UInt8 :=
  if c.strobe then c.buttons &&& 1
  else if c.shifted < 8 then c.latched >>> c.shifted &&& 1
  else 1

def read (c : Controller) : UInt8 × Controller :=
  if c.strobe then
    let c := c.latch
    (c.latched &&& 1, c)
  else if c.shifted < 8 then
    (c.latched >>> c.shifted &&& 1, { c with shifted := c.shifted + 1 })
  else (1, c)

end Controller
end Famicom
