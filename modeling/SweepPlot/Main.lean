import SweepPlot.Disk
set_option autoImplicit false

namespace SweepPlot

def runOnDisk (args : List String) : IO UInt32 := do
  let files ← Disk.filesFor args
  let outcome := CommandLine.run files args
  Disk.bring "/" (some files.root) outcome.files.root
  IO.print outcome.out
  IO.eprint outcome.err
  return outcome.code.toUInt32

end SweepPlot

def main (args : List String) : IO UInt32 := do
  try SweepPlot.runOnDisk args
  catch cause =>
    IO.eprintln s!"Error: {cause}"
    return 1
