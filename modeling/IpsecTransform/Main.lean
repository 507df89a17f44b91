import IpsecTransform.Report

/-- Prints the report on the reference vectors. Keys are revealed only where the
environment allows it. -/
def main : IO UInt32 := do
  let value ← IO.getEnv "ALGORITHM_DEBUGGABLE"
  let settings := IpsecTransform.Settings.load (value.map IpsecTransform.Text.ofString)
  let printout := IpsecTransform.Report.printout settings
  for line in printout.lines do
    IO.println line.toString
  for line in printout.ending.complaint settings.debuggable do
    IO.eprintln line.toString
  return printout.ending.exitCode
