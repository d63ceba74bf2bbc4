import PortNet.Normalization.Options
import PortNet.Structure

namespace PortNet

/-- Why a graph was not normalized: what was wrong, and in which pass it came up, unless the graph
was turned away before the first one. -/
structure Failure where
  pass : Option Pass
  diagnostics : List Diagnostic

namespace Failure

def inPass (pass : Pass) (problem : Problem) : Failure := ⟨some pass, [problem.diagnostic]⟩

def hasCode (f : Failure) (code : Code) : Bool := f.diagnostics.any (fun d => d.code = some code)

def text (f : Failure) : String :=
  let head := match f.pass with
    | some pass => "normalization failed in " ++ pass.name
    | none => "cannot normalize input"
  String.join (head :: f.diagnostics.map (fun d => "\n" ++ d.text))

end Failure

/-- The passes that were completed, with their changes, and how it all ended. -/
structure Report where
  completed : List (Pass × Change)
  result : Except Failure Graph

/-- Runs passes one after another, each on what the one before it left, until one fails. -/
def runPasses (g : Graph) (completed : List (Pass × Change)) : List Pass → Report
  | [] => ⟨completed, .ok g⟩
  | pass :: passes =>
    match pass.run g with
    | ⟨_, .error problem⟩ => ⟨completed, .error (.inPass pass problem)⟩
    | ⟨changed, .ok change⟩ => runPasses changed (completed ++ [(pass, change)]) passes

/-- Runs the passes that the options leave on. A graph that the validator turns away runs none. -/
def Graph.report (g : Graph) (options : Options) (validator : Validator) : Report :=
  if validator.accepts g then runPasses g [] options.passes
  else ⟨[], .error ⟨none, (Problem.notPortGraph :: validator.problems g).map Problem.diagnostic⟩⟩

def Graph.normalize (g : Graph) (options : Options) : Except Failure Graph :=
  (g.report options .structural).result

end PortNet
