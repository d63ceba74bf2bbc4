import PortNet.Cli.System
import PortNet.Digest.Sha256
import PortNet.Drawing
import PortNet.Normalization.Report

namespace PortNet.Cli

/-- Why a call ends without output. -/
inductive Refusal where
  | unreadable (path : String) (reason : String)
  | undecodable (path : String) (cause : Json.LoadError)
  | failed (failure : Failure)
  | unwritable (reason : String)

namespace Refusal

/-- Failures of the normalization itself are told apart from everything around it. -/
def code : Refusal → Nat
  | failed _ => 1
  | _ => 2

def text : Refusal → String
  | unreadable path reason => "npgn: error: " ++ path ++ ": " ++ reason
  | undecodable path cause => "npgn: error: " ++ path ++ ": " ++ cause.message
  | failed failure => "npgn: " ++ failure.text
  | unwritable reason => "npgn: error: cannot write output: " ++ reason

end Refusal

section Loading
variable {m : Type → Type} [Monad m]

/-- Reads a path and makes a value of the text. -/
def readValue {α : Type} (read : String → m (Except String String))
    (ofText : String → Except Json.LoadError α) (path : String) : ExceptT Refusal m α :=
  ExceptT.mk do
    match ← read path with
    | .error reason => return .error (.unreadable path reason)
    | .ok text => return (ofText text).mapError (.undecodable path)

namespace Invocation

/-- Without a document all passes are on. -/
def readOptions (call : Invocation) (read : String → m (Except String String)) :
    ExceptT Refusal m Options :=
  match call.options with
  | none => pure {}
  | some path => readValue read Options.ofText path

/-- The options are read and understood before the input is touched. A pass runs if neither they nor
a switch turn it off. -/
def load (call : Invocation) (read : String → m (Except String String)) :
    ExceptT Refusal m (Options × Graph) := do
  let given ← call.readOptions read
  let g ← readValue read Graph.ofText call.input
  return (call.skipped.foldl (fun o p => o.set p false) given, g)

end Invocation
end Loading

/-- A line for every completed pass and one for the result. -/
def statsLines (g : Graph) (completed : List (Pass × Change)) (elapsed : Pass → String) :
    List String :=
  let number (n : Nat) : String := Nat.repr n
  completed.map (fun (pass, change) =>
    pass.name ++ String.ofList (List.replicate (20 - pass.name.length) ' ') ++
      " +" ++ number change.nodesAdded ++ " nodes  -" ++ number change.edgesRemoved ++
      " edges  +" ++ number change.edgesAdded ++ " edges  " ++ elapsed pass ++ " ms")
    ++ ["result: " ++ number g.nodes.toList.length ++ " nodes, " ++ number g.edges.length ++
      " edges"]

/-- The text that a call delivers, given the outcome of its passes and the time each took. -/
def Invocation.render (call : Invocation) (report : Report) (elapsed : Pass → String) :
    Except Refusal String :=
  match report.result with
  | .error failure => .error (.failed failure)
  | .ok g => .ok (match call.emit with
      | .json => g.prettyText ++ "\n"
      | .dot => g.dot
      | .fingerprint => Digest.fingerprint g.canonicalText ++ "\n"
      | .stats => Text.ofLines (statsLines g report.completed elapsed))

/-- The standard input as far as it has not been read, or the reason why it cannot be. -/
abbrev Rest := Except String String

/-- What reads the standard input along with other sources, and may be refused. -/
abbrev Reading (α : Type) := ExceptT Refusal (StateM Rest) α

/-- What comes of it, and what is left of the standard input. -/
def Reading.on {α : Type} (x : Reading α) (rest : Rest) : Except Refusal α × Rest := x.run.run rest

namespace System
variable (system : System)

/-- A lone dash is the standard input. -/
def sourceOf (files : system.Files) (path : String) : Except String Source :=
  if path = "-" then .ok .stdin else system.source files path

/-- The standard input is used up by the first that reads it. -/
def read (files : system.Files) (path : String) (rest : Rest) : Except String String × Rest :=
  match system.sourceOf files path with
  | .error reason => (.error reason, rest)
  | .ok (.text text) => (.ok text, rest)
  | .ok .stdin => (rest, .ok "")

end System

/-- How a run ends: exit code, what it wrote to its two streams, and the files afterwards. -/
structure Ending (system : System) where
  code : Nat
  stdout : String
  stderr : String
  files : system.Files

namespace Ending
variable {system : System}

/-- A run that does nothing. -/
def idle (files : system.Files) : Ending system := ⟨0, "", "", files⟩

/-- Adds to what has been written what a sink takes. -/
def take (ending : Ending system) (text : String) : Sink system.Place → Ending system
  | .file place => { ending with files := system.put ending.files place text }
  | .nowhere => ending
  | .stdout => { ending with stdout := ending.stdout ++ text }
  | .stderr => { ending with stderr := ending.stderr ++ text }

/-- Writes a text to a sink that has been opened, as far as that goes. The reason for a break comes
with it. -/
def write (ending : Ending system) (sink : Sink system.Place) (text : String) :
    Ending system × Option String :=
  match system.break? ending.files sink text with
  | none => (ending.take text sink, none)
  | some stop => (ending.take stop.taken sink, some stop.reason)

def refuse (ending : Ending system) (refusal : Refusal) : Ending system :=
  { ending with code := refusal.code, stderr := ending.stderr ++ (refusal.text ++ "\n") }

end Ending

namespace Invocation
variable {system : System}

/-- The sink that a call names; it is the standard output if it names none. -/
def sink (call : Invocation) (files : system.Files) : Except String (Sink system.Place) :=
  match call.output with
  | none => .ok .stdout
  | some path => system.sink files path

def deliver (call : Invocation) (ending : Ending system) (text : String) : Ending system :=
  match call.sink ending.files with
  | .error reason => ending.refuse (.unwritable reason)
  | .ok sink =>
    match ending.write sink text with
    | (written, none) => written
    | (written, some reason) => written.refuse (.unwritable reason)

def run (call : Invocation) (files : system.Files) (stdin : Rest) (elapsed : Pass → String) :
    Ending system :=
  match (Reading.on (call.load (system.read files)) stdin).1 with
  | .error refusal => (Ending.idle files).refuse refusal
  | .ok (options, g) =>
    let logged := { Ending.idle files with stderr := system.log call.verbose options g }
    match call.render (g.report options .structural) elapsed with
    | .error refusal => logged.refuse refusal
    | .ok text => call.deliver logged text

end Invocation

/-- Runs the program. A page is shown as far as the standard output takes it. -/
def run (system : System) (arguments : List String) (files : system.Files) (stdin : Rest)
    (elapsed : Pass → String) : Ending system :=
  match parse arguments with
  | .error usage => ⟨2, "", system.usage usage, files⟩
  | .ok (.page page) => ((Ending.idle files).write .stdout (system.page page)).1
  | .ok (.normalize call) => call.run files stdin elapsed

end PortNet.Cli
