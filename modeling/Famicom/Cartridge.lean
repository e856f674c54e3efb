import Famicom.Cartridge.Board
import Famicom.Cartridge.Fingerprint
import Famicom.Cartridge.Header

/-! A cartridge: a header, memory chips and a board that decodes addresses for them. -/
namespace Famicom

open Cartridge in
structure Cartridge where
  header : Header
  storage : Storage
  board : Board

namespace Cartridge

/-- An image may be longer than its header declares; bytes past that are not looked at. Without
character ROM the board carries 8 KiB of character RAM. -/
def load (image : Array UInt8) : Except LoadError Cartridge := do
  let h ← Header.parse image
  if image.size < h.imageSize then .error (.truncated h.imageSize image.size)
  else
    let chrStart := h.prgStart + h.prgSize
    let storage : Storage := {
      prgRom := image.extract h.prgStart chrStart
      chr := if h.chrBanks = 0 then Array.replicate 0x2000 0
        else image.extract chrStart (chrStart + h.chrSize)
      chrWritable := h.chrBanks == 0 }
    match Board.ofMapper? h.mapperId h.mirroring storage.prgRom.size with
    | none => .error (.unsupportedMapper h.mapperId)
    | some board => .ok { header := h, storage, board }

/-- Character RAM is not part of what a cartridge is known by. -/
def fingerprint (c : Cartridge) : Fingerprint :=
  .ofChips c.storage.prgRom (if c.storage.chrWritable then #[] else c.storage.chr)

def reset (c : Cartridge) : Cartridge := { c with board := c.board.reset c.storage.prgRom.size }

/-- A cartridge with four pages of its own ignores what the board selects. -/
def mirroring (c : Cartridge) : Mirroring :=
  if c.header.fourScreen then .fourScreen else c.board.mirroring

/-- `none` where nothing on the cartridge drives the bus. -/
def cpuRead (c : Cartridge) (a : UInt16) : Option UInt8 :=
  if a < 0x6000 then none
  else if a < 0x8000 then
    if c.board.ramReadable then some (c.storage.readRam a) else none
  else some (c.storage.readPrg (c.board.prgOffset c.storage.prgRom.size a))

def cpuTakes (c : Cartridge) (a : UInt16) : Bool :=
  if a < 0x6000 then false
  else if a < 0x8000 then c.board.decodesRam
  else c.board.decodesRegisters

def cpuWrite (c : Cartridge) (a : UInt16) (v : UInt8) : Cartridge :=
  if a < 0x6000 then c
  else if a < 0x8000 then
    if c.board.ramWritable then { c with storage := c.storage.writeRam a v } else c
  else { c with board := c.board.write c.storage.prgRom.size a v }

/-- Every access of the picture bus passes the board before it is answered. -/
@[inline] def observe (c : Cartridge) (a : Nat) : Cartridge :=
  match c.board with
  | .mmc3 _ => { c with board := c.board.observe a }
  | _ => c

@[inline] def chrRead (c : Cartridge) (a : Nat) : Option UInt8 :=
  if a < 0x2000 then some (c.storage.readChr (c.board.chrOffset c.storage.chr.size a)) else none

def chrWrite (c : Cartridge) (a : Nat) (v : UInt8) : Cartridge :=
  if a < 0x2000 then
    { c with storage := c.storage.writeChr (c.board.chrOffset c.storage.chr.size a) v }
  else c

def ppuTakes (a : Nat) : Bool := a < 0x2000

def ppuRead (c : Cartridge) (a : Nat) : Option UInt8 × Cartridge :=
  let c := c.observe a
  (c.chrRead a, c)

def ppuWrite (c : Cartridge) (a : Nat) (v : UInt8) : Cartridge := (c.observe a).chrWrite a v

@[inline] def clock (c : Cartridge) : Cartridge :=
  match c.board with
  | .mmc3 _ => { c with board := c.board.clock }
  | _ => c

def irq (c : Cartridge) : Bool := c.board.irq

def describe (c : Cartridge) : String := c.board.describe c.storage

def summary (c : Cartridge) : String :=
  s!"mapper={c.header.mapperId} prg={c.storage.prgRom.size} chr={c.storage.chr.size} "
    ++ s!"fingerprint={c.fingerprint.text}"

end Cartridge
end Famicom
