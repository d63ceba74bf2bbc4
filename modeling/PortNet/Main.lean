import PortNet.Cli.FileSystem
import PortNet.Cli.Run

namespace PortNet.Cli

/-- An error by its number, which may come with its sign turned. -/
def reasonOf (e : IO.Error) : String :=
  match e with
  | .noFileOrDirectory _ code _ | .inappropriateType _ code _ | .invalidArgument _ code _
  | .resourceExhausted _ code _ =>
    ((FileError.ofCode? (min code (0 - code)).toNat).map FileError.message).getD (toString e)
  | _ => toString e

/-- Reads a file, or the standard input under the name of a lone dash. -/
def readSource (path : String) : IO (Except String String) := do
  try
    if path = "-" then return .ok (← (← IO.getStdin).readToEnd)
    else return .ok (← IO.FS.readFile path)
  catch e => return .error (reasonOf e)

/-- Runs the passes one at a time and notes how many nanoseconds each takes. -/
def measured (options : Options) (g : Graph) : IO (Report × List (Pass × Nat)) := do
  let mut report := g.report ⟨false, false, false⟩ .structural
  let mut times := []
  for pass in options.passes do
    if let .ok reached := report.result then
      let start ← IO.monoNanosNow
      report ← IO.lazyPure (fun _ => runPasses reached report.completed [pass])
      times := (pass, (← IO.monoNanosNow) - start) :: times
  return (report, times)

/-- Nanoseconds as milliseconds with three places. -/
def milliseconds (nanos : Nat) : String :=
  let places := Nat.repr (nanos / 1000 % 1000)
  Nat.repr (nanos / 1000000) ++ "." ++ String.ofList (List.replicate (3 - places.length) '0') ++
    places

def refuse (refusal : Refusal) : IO UInt32 := do
  IO.eprintln refusal.text
  return UInt32.ofNat refusal.code

def deliverText (output : Option String) (text : String) : IO UInt32 := do
  try
    match output with
    | none => IO.print text
    | some path => IO.FS.writeFile path text
    return 0
  catch e => refuse (.unwritable (reasonOf e))

def runCall (call : Invocation) : IO UInt32 := do
  match ← (call.load readSource).run with
  | .error refusal => refuse refusal
  | .ok (options, g) =>
    IO.eprint (Wording.plain.log call.verbose options g)
    let (report, times) ← measured options g
    match call.render report (fun pass => milliseconds ((times.lookup pass).getD 0)) with
    | .error refusal => refuse refusal
    | .ok text => deliverText call.output text

end PortNet.Cli

open PortNet.Cli in
def main (arguments : List String) : IO UInt32 := do
  match parse arguments with
  | .error usage =>
    IO.eprint (Wording.plain.usage usage)
    return 2
  | .ok (.page page) =>
    IO.print (Wording.plain.page page)
    return 0
  | .ok (.normalize call) => runCall call
