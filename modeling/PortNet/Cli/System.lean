import PortNet.Cli.Wording

namespace PortNet.Cli

/-- What a path leads to when it is read. -/
inductive Source where
  | text (text : String)
  | stdin
deriving DecidableEq, Repr

/-- What a path leads to when it is written. -/
inductive Sink (Place : Type) where
  | file (place : Place)
  | nowhere
  | stdout
  | stderr
deriving DecidableEq, Repr

/-- A write that was begun and came to a stop: what had been taken by then, and the reason. -/
structure Break where
  taken : String
  reason : String
deriving DecidableEq, Repr

/-- What a run finds around it. How paths are looked up, what they may lead to and why they may not
be opened is left to the system. Reading changes no file, and neither does a write that cannot open
its path. -/
structure System extends Wording where
  Files : Type
  Place : Type
  Item : Type
  /-- What a file is that has a text in it. -/
  file : String → Item
  item? : Files → Place → Option Item
  /-- What is opened when a path is read, or the reason why that cannot be. -/
  source : Files → String → Except String Source
  /-- What is opened when a path is written, or the reason why that cannot be. -/
  sink : Files → String → Except String (Sink Place)
  /-- The files when a text has been written over what was at a place. -/
  put : Files → Place → String → Files
  /-- Whether a sink takes less than the whole text. -/
  break? : Files → Sink Place → String → Option Break
  item?_put_self {files : Files} {path : String} {place : Place}
    (h : sink files path = .ok (.file place)) (text : String) :
    item? (put files place text) place = some (file text)
  item?_put_of_ne {files : Files} {path : String} {place other : Place}
    (h : sink files path = .ok (.file place)) (hne : other ≠ place) (text : String) :
    item? (put files place text) other = item? files other

end PortNet.Cli
