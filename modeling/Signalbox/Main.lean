import Signalbox.Yard.Walkthrough

/-!
# The walk on a console

Reads the settings from the file that is named, if one is, walks through the yard, writes down the
tables of the archive, and tells what there is to tell.
-/

set_option autoImplicit false

open Signalbox

/-- The settings from a file, or the standard ones if none is named. -/
def readSettings : List String → IO (Except Yard.Fault Settings)
  | [] => return .ok {}
  | file :: _ => do
    let text ← try pure (some (← IO.FS.readFile file)) catch _ => pure none
    return Yard.settings file text

/-- Write the tables of the yard to the folder of its region. -/
def writeTables (a : Archive) : IO Unit := do
  let folder := Yard.outputFolder ++ "/" ++ Yard.region.text
  IO.FS.createDirAll folder
  for name in [Archive.nodeFile, Archive.edgeFile] do
    match a.file? Yard.region name with
    | some text => IO.FS.writeFile (folder ++ "/" ++ name) text
    | none => pure ()

/-- A number of milliseconds as seconds with three places. -/
def secondsText (ms : Nat) : String :=
  let thousandths := Decimal.ofNat (ms % 1000)
  Decimal.ofNat (ms / 1000) ++ "." ++ String.ofList (List.replicate (3 - thousandths.length) '0')
    ++ thousandths

/-- Report a fault and fail. -/
def refuse (f : Yard.Fault) : IO UInt32 := do
  IO.eprintln ("Error: " ++ f.message)
  return 1

def main (args : List String) : IO UInt32 := do
  match ← readSettings args with
  | .error f => refuse f
  | .ok c =>
    let before ← IO.monoMsNow
    match Yard.walk c with
    | .error f => refuse f
    | .ok t =>
      let after ← IO.monoMsNow
      writeTables t.archive
      for line in t.lines do
        IO.println (line.render (some (secondsText (after - before))))
      for text in t.complaints do
        IO.eprintln text
      return 0
