import PortNet.Port

namespace PortNet

/-- The meanings that a diagnostic can carry as a code. -/
inductive Code where
  | notPortGraph
  | malformed
  | noPeers
  | noScope
  | idInUse
  | untyped
deriving DecidableEq, Repr

namespace Code

def text : Code → String
  | notPortGraph => "E0001"
  | malformed => "E0002"
  | noPeers => "E0100"
  | noScope => "E0101"
  | idInUse => "E0102"
  | untyped => "E0103"

def all : List Code := [notPortGraph, malformed, noPeers, noScope, idInUse, untyped]

def ofText? (text : String) : Option Code := all.find? (fun c => c.text = text)

end Code

inductive Level where
  | error
  | warning
deriving DecidableEq, Repr

def Level.text : Level → String
  | .error => "error"
  | .warning => "warning"

/-- The node, or the port of it, that a diagnostic is about. -/
structure Location where
  node : NodeId
  port : Option PortName := none
deriving DecidableEq

def Location.text (l : Location) : String :=
  match l.port with
  | some port => l.node ++ ":" ++ port
  | none => l.node

structure Diagnostic where
  code : Option Code := none
  level : Level
  location : Option Location := none
  message : String
  hint : Option String := none
deriving DecidableEq

def Diagnostic.text (d : Diagnostic) : String :=
  d.level.text ++ (d.code.elim "" (fun c => "[" ++ c.text ++ "]")) ++ ": " ++ d.message ++
    (d.location.elim "" (fun l => "\n  at: " ++ l.text)) ++
    (d.hint.elim "" (fun h => "\n  hint: " ++ h))

/-- Everything that can be wrong with a graph or stop a pass. -/
inductive Problem where
  | notPortGraph
  | unknownParent (node parent : NodeId)
  | ownAncestor (node : NodeId)
  | unknownEnd (route : Route) (node : NodeId)
  | undeclaredEnd (route : Route) (port : Port)
  | noSuccessors (anchor : Port)
  | noPredecessors (anchor : Port)
  | unplaced (node : NodeId)
  | idInUse (id : NodeId)
  | untyped (port : Port)
  | undeclaredLoop (port : Port) (side : Side)
deriving DecidableEq

namespace Problem

def code : Problem → Code
  | notPortGraph => .notPortGraph
  | unknownParent _ _ | ownAncestor _ | unknownEnd _ _ | undeclaredEnd _ _ => .malformed
  | noSuccessors _ | noPredecessors _ => .noPeers
  | unplaced _ => .noScope
  | idInUse _ => .idInUse
  | untyped _ | undeclaredLoop _ _ => .untyped

def message : Problem → String
  | notPortGraph => "cannot normalize a graph that is not a network port graph"
  | unknownParent node parent => "node '" ++ node ++ "' has unknown parent '" ++ parent ++ "'"
  | ownAncestor node => "node '" ++ node ++ "' is its own ancestor"
  | unknownEnd route node => "edge " ++ route.text ++ " references unknown node '" ++ node ++ "'"
  | undeclaredEnd route port =>
    "edge " ++ route.text ++ " uses undeclared port '" ++ port.name ++ "'"
  | noSuccessors anchor => "fan bundle at " ++ anchor.text ++ " has no successors"
  | noPredecessors anchor => "fan bundle at " ++ anchor.text ++ " has no predecessors"
  | unplaced node => "cannot place tree: node '" ++ node ++ "' is not in the graph"
  | idInUse id => "synthesized node id '" ++ id ++ "' is already in use"
  | untyped port => "port " ++ port.text ++ " has no declared type"
  | undeclaredLoop port side =>
    "self-loop on '" ++ port.node ++ "' names '" ++ port.name ++
      "', which is not a declared " ++ side.name ++ " port"

def location : Problem → Option Location
  | notPortGraph => none
  | unknownParent node _ | ownAncestor node | unknownEnd _ node | unplaced node => some ⟨node, none⟩
  | idInUse id => some ⟨id, none⟩
  | undeclaredEnd _ port | noSuccessors port | noPredecessors port | untyped port
  | undeclaredLoop port _ => some ⟨port.node, some port.name⟩

def hint : Problem → Option String
  | noSuccessors _ | noPredecessors _ =>
    some "fan detection and tree synthesis disagree about this port"
  | _ => none

def diagnostic (p : Problem) : Diagnostic := ⟨some p.code, .error, p.location, p.message, p.hint⟩

end Problem
end PortNet
