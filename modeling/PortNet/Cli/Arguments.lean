import PortNet.Normalization.Options

namespace PortNet.Cli

/-- What is made of the normalized graph. -/
inductive Emit where
  | json
  | dot
  | fingerprint
  | stats
deriving DecidableEq, Repr

namespace Emit

def name : Emit → String
  | json => "json"
  | dot => "dot"
  | fingerprint => "fingerprint"
  | stats => "stats"

def ofName? (name : String) : Option Emit :=
  [json, dot, fingerprint, stats].find? (fun e => e.name = name)

end Emit

/-- What is shown instead of a run. The summary is the help in short. -/
inductive Page where
  | summary
  | help
  | version
deriving DecidableEq, Repr

/-- Arguments that stand for themselves. -/
inductive Switch where
  | skip (pass : Pass)
  | verbose
  | page (page : Page)
deriving DecidableEq

namespace Switch

/-- The summary goes by a letter, which is no name for the other way of writing switches. -/
def name : Switch → String
  | skip .expandFans => "no-duplicates-and-joins"
  | skip .bridgeLoops => "no-id-nodes"
  | skip .addSinks => "no-consume-nodes"
  | verbose => "verbose"
  | page .summary => "h"
  | page .help => "help"
  | page .version => "version"

def ofName? (name : String) : Option Switch :=
  (Pass.all.map skip ++ [verbose, page .help, page .version]).find? (fun s => s.name = name)

end Switch

/-- Arguments with a value. -/
inductive Setting where
  | output
  | emit
  | options
deriving DecidableEq

namespace Setting

def name : Setting → String
  | output => "output"
  | emit => "emit"
  | options => "options"

def ofName? (name : String) : Option Setting :=
  [output, emit, options].find? (fun s => s.name = name)

end Setting

/-- Ways in which arguments do not fit. -/
inductive UsageError where
  | unknown (argument : String)
  | repeated (name : String)
  | valueMissing (name : String)
  | valueNotAllowed (name : String)
  | valueInvalid (name value : String)
  | surplusInput (argument : String)
  | noInput
deriving DecidableEq

/-- A call of the program with arguments that fit. -/
structure Invocation where
  input : String
  output : Option String
  emit : Emit
  options : Option String
  skipped : List Pass
  verbose : Bool
deriving DecidableEq

inductive Command where
  | page (page : Page)
  | normalize (call : Invocation)
deriving DecidableEq

/-- The arguments taken in so far. -/
structure Taken where
  input : Option String := none
  settings : List (Setting × String) := []
  switches : List Switch := []

namespace Taken

def value? (t : Taken) (s : Setting) : Option String := t.settings.lookup s

def addInput (t : Taken) (argument : String) : Except UsageError Taken :=
  if t.input.isSome then .error (.surplusInput argument)
  else if argument = "" then .error (.valueInvalid "input" argument)
  else .ok { t with input := some argument }

/-- A setting comes once and its value is never empty. -/
def addSetting (t : Taken) (s : Setting) (value : String) : Except UsageError Taken :=
  if (t.value? s).isSome then .error (.repeated s.name)
  else if value = "" ∨ (s = .emit ∧ (Emit.ofName? value).isNone) then
    .error (.valueInvalid s.name value)
  else .ok { t with settings := (s, value) :: t.settings }

def addSwitch (t : Taken) (s : Switch) : Except UsageError Taken :=
  if t.switches.contains s then .error (.repeated s.name)
  else .ok { t with switches := s :: t.switches }

def finish (t : Taken) : Except UsageError Command :=
  match t.input with
  | none => .error .noInput
  | some input => .ok (.normalize {
      input
      output := t.value? .output
      emit := ((t.value? .emit).bind Emit.ofName?).getD .json
      options := t.value? .options
      skipped := Pass.all.filter (fun p => t.switches.contains (.skip p))
      verbose := t.switches.contains .verbose })

end Taken

/-- What a single argument is by its looks. -/
inductive Argument where
  | input (path : String)
  | inputsOnly
  | switch (s : Switch)
  | setting (s : Setting) (attached : Option String)
deriving DecidableEq

namespace Argument

/-- A long name ends at the first equals sign, behind which its value may be attached. -/
def ofLong (long : List Char) : Except UsageError Argument :=
  let name := String.ofList (long.takeWhile (fun c => c ≠ '='))
  let attached := match long.dropWhile (fun c => c ≠ '=') with
    | [] => none
    | _ :: value => some (String.ofList value)
  match Setting.ofName? name, Switch.ofName? name with
  | some s, _ => .ok (.setting s attached)
  | none, none => .error (.unknown name)
  | none, some s => if attached.isSome then .error (.valueNotAllowed name) else .ok (.switch s)

/-- A lone dash is an input. A value may be attached to a letter with or without an equals sign. -/
def of (a : String) : Except UsageError Argument :=
  match a.toList with
  | ['-', '-'] => .ok .inputsOnly
  | '-' :: '-' :: long => ofLong long
  | ['-', 'o'] => .ok (.setting .output none)
  | '-' :: 'o' :: '=' :: value => .ok (.setting .output (some (String.ofList value)))
  | '-' :: 'o' :: value => .ok (.setting .output (some (String.ofList value)))
  | '-' :: 'h' :: _ => .ok (.switch (.page .summary))
  | '-' :: 'V' :: _ => .ok (.switch (.page .version))
  | '-' :: _ :: _ => .error (.unknown a)
  | _ => .ok (.input a)

end Argument

/-- An argument that looks like a switch is no value, a lone dash is one. -/
def canBeValue (a : String) : Bool := a = "-" || a.toList.head? ≠ some '-'

def takeInputs (t : Taken) : List String → Except UsageError Command
  | [] => t.finish
  | a :: rest => do takeInputs (← t.addInput a) rest

/-- Takes arguments in one by one; a setting whose value comes next is held on to. A page is shown
as soon as it is asked for, whatever would be wrong later on. -/
def take (t : Taken) : Option Setting → List String → Except UsageError Command
  | some s, [] => .error (.valueMissing s.name)
  | none, [] => t.finish
  | some s, a :: rest =>
    if canBeValue a then do take (← t.addSetting s a) none rest else .error (.valueMissing s.name)
  | none, a :: rest => do
    match ← Argument.of a with
    | .input path => take (← t.addInput path) none rest
    | .inputsOnly => takeInputs t rest
    | .switch (.page page) => .ok (.page page)
    | .switch s => take (← t.addSwitch s) none rest
    | .setting s (some value) => take (← t.addSetting s value) none rest
    | .setting s none => take t (some s) rest

def parse (arguments : List String) : Except UsageError Command := take {} none arguments

end PortNet.Cli
