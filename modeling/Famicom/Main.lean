import Famicom.Console
import Famicom.Options

/-! The command line: runs an image without a screen and prints where it got to. -/
namespace Famicom

def during (doing : String) (act : IO α) : IO α := do
  try act
  catch e => throw (IO.userError s!"{doing}: {e}")

def runFrames (log : Option IO.FS.Handle) (c : Console) : (n : Nat) → IO Console
  | 0 => pure c
  | n + 1 =>
    match log with
    | none => runFrames log c.runFrame.2 n
    | some h => do
      let (lines, c) := c.traceFrame
      lines.forM fun l => h.putStrLn l.text
      runFrames log c n

def loadFile (path : String) : IO Cartridge :=
  during "failed to load ROM" do
    let image ← during "failed to read ROM file" (IO.FS.readBinFile path)
    IO.ofExcept ((Cartridge.load image.data).mapError LoadError.message)

def run (path : String) (o : Options) : IO Unit := do
  let cartridge ← loadFile path
  IO.println s!"loaded {path}: {cartridge.summary}"
  let console := (Console.ofConfig o.config).insert cartridge
  let console := o.start.elim console console.startAt
  let log ← during "failed to open trace file" (o.log.mapM (IO.FS.Handle.mk · .write))
  let console ← runFrames log console o.frames
  IO.println console.summary
  console.bus.cartridge.forM fun c => IO.println c.describe

end Famicom

def main (args : List String) : IO UInt32 := do
  match Famicom.Options.parse args with
  | .error e =>
    IO.eprintln e.message
    IO.eprintln Famicom.Options.usage
    return 2
  | .ok (path, options) =>
    try
      Famicom.run path options
      return 0
    catch e =>
      IO.eprintln s!"{e}"
      return 1
