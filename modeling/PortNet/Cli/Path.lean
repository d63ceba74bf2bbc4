namespace PortNet.Cli

/-- A path cut at its slashes. Doubled slashes count as one. -/
structure Path where
  fromRoot : Bool
  steps : List String
  slashed : Bool
deriving DecidableEq, Repr

namespace Path

/-- Bytes that a path can have. -/
def lengthLimit : Nat := 4095

/-- Bytes that one name on a path can have. -/
def nameLimit : Nat := 255

/-- Links that can be followed on the way along a path. -/
def linkLimit : Nat := 40

def ofText (text : String) : Path where
  fromRoot := text.toList.head? = some '/'
  steps := ((text.toList.splitOn '/').map String.ofList).filter (fun step => step ≠ "")
  slashed := text.toList.getLast? = some '/'

end Path

/-- Whether a step goes by dots and not by a name. -/
def isDotted (step : String) : Bool := step = "." || step = ".."

end PortNet.Cli
