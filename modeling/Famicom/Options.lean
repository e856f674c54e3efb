import Famicom.Console.Pacer

/-! The options of a run, and how they are written on a command line. -/
namespace Famicom

structure Options where
  frames : Nat := 60
  /-- The file that takes the instruction log. -/
  log : Option String := none
  /-- Where to start in place of the reset vector. -/
  start : Option UInt16 := none
  config : Config := {}

inductive OptionError where
  | missingImage
  | extra (arg : String)
  | unknown (option : String)
  | missingValue (option : String)
  | badValue (option value : String)
deriving DecidableEq

def OptionError.message : OptionError → String
  | missingImage => "no image given"
  | extra arg => s!"unexpected argument {arg}"
  | unknown option => s!"unknown option {option}"
  | missingValue option => s!"no value given for {option}"
  | badValue option value => s!"invalid value {value} for {option}"

namespace Options

def usage : String :=
  "usage: famicom IMAGE [-f|--frames N] [--trace FILE] [--start-pc HEX] [--sample-rate HZ]"

def digitValue? (base : Nat) (c : Char) : Option Nat :=
  let d :=
    if '0' ≤ c ∧ c ≤ '9' then some (c.toNat - 48)
    else if 'A' ≤ c ∧ c ≤ 'F' then some (c.toNat - 55)
    else if 'a' ≤ c ∧ c ≤ 'f' then some (c.toNat - 87)
    else none
  d.filter (· < base)

def numeral? (base limit : Nat) : List Char → Option Nat
  | [] => none
  | cs =>
    let n := cs.foldlM (fun n c => (digitValue? base c).map (base * n + ·)) 0
    n.filter (· < limit)

/-- Hexadecimal marks may stand before an address, as `0xC000` or `$C000`. -/
def withoutMarks : List Char → List Char
  | '0' :: 'x' :: cs => withoutMarks cs
  | cs => cs.dropWhile (· == '$')

def count? (value : String) : Option Nat := numeral? 10 0x100000000 value.toList

def address? (value : String) : Option UInt16 :=
  (numeral? 16 0x10000 (withoutMarks value.toList)).map UInt16.ofNat

def isOption (arg : String) : Bool := arg.startsWith "-"

def set (o : Options) (option value : String) : Except OptionError Options :=
  let valid (r : Option Options) := r.elim (.error (.badValue option value)) .ok
  match option with
  | "-f" | "--frames" => valid ((count? value).map fun n => { o with frames := n })
  | "--trace" => .ok { o with log := some value }
  | "--start-pc" => valid ((address? value).map fun a => { o with start := some a })
  | "--sample-rate" => valid ((count? value).map fun n => { o with config.sampleRate := n })
  | _ => .error (.unknown option)

/-- A value may also be joined to a long option by an equals sign. -/
def separate (arg : String) : List String :=
  if arg.startsWith "--" then
    match arg.splitOn "=" with
    | option :: first :: rest => [option, String.intercalate "=" (first :: rest)]
    | _ => [arg]
  else [arg]

def parseFrom (image : Option String) (o : Options) :
    List String → Except OptionError (String × Options)
  | [] => image.elim (.error .missingImage) fun i => .ok (i, o)
  | arg :: rest =>
    if isOption arg then
      match rest with
      | [] => .error (.missingValue arg)
      | value :: rest =>
        match o.set arg value with
        | .ok o => parseFrom image o rest
        | .error e => .error e
    else
      match image with
      | some _ => .error (.extra arg)
      | none => parseFrom (some arg) o rest

def parse (args : List String) : Except OptionError (String × Options) :=
  parseFrom none {} (args.flatMap separate)

end Options
end Famicom
