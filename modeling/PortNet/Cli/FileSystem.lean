import PortNet.Cli.Path
import PortNet.Cli.System

namespace PortNet.Cli

/-- Why a file cannot be read or written. -/
inductive FileError where
  | missing
  | notDirectory
  | isDirectory
  | deviceFull
  | nameTooLong
  | tooManyLinks
deriving DecidableEq, Repr

namespace FileError

/-- The number by which the system reports the error. -/
def code : FileError → Nat
  | missing => 2
  | notDirectory => 20
  | isDirectory => 21
  | deviceFull => 28
  | nameTooLong => 36
  | tooManyLinks => 40

def reason : FileError → String
  | missing => "No such file or directory"
  | notDirectory => "Not a directory"
  | isDirectory => "Is a directory"
  | deviceFull => "No space left on device"
  | nameTooLong => "File name too long"
  | tooManyLinks => "Too many levels of symbolic links"

def ofCode? (code : Nat) : Option FileError :=
  [missing, notDirectory, isDirectory, deviceFull, nameTooLong, tooManyLinks].find?
    (fun e => e.code = code)

def message (e : FileError) : String := e.reason ++ " (os error " ++ Nat.repr e.code ++ ")"

end FileError

/-- Files that stand for something else: the empty file and the streams of the program itself. -/
inductive Device where
  | null
  | stdin
  | stdout
  | stderr
deriving DecidableEq, Repr

/-- What stands at a place. A link has the path that it leads to. -/
inductive Item where
  | file (text : String)
  | directory
  | link (target : String)
  | device (device : Device)
deriving DecidableEq, Repr

/-- A place is the list of the names that lead to it from the root. -/
abbrev Place := List String

/-- A tree of files, the directory that a run works in, and the places below which there is no space
for texts, or in which no file can be made. -/
structure FileSystem where
  items : List (Place × Item)
  working : Place := []
  full : List Place := []
  closed : List Place := []
deriving DecidableEq, Repr

namespace FileSystem

def item? (fs : FileSystem) (place : Place) : Option Item := fs.items.lookup place

/-- Goes from directory to directory. What comes last on the way may be anything, or nothing that is
there yet. What to do at a link, with the steps behind it, is left open. -/
def walkWith (fs : FileSystem) (follow : Place → Path → List String → Except FileError Place)
    (place : Place) : List String → Except FileError Place
  | [] => .ok place
  | step :: rest =>
    if step = "." then fs.walkWith follow place rest
    else if step = ".." then fs.walkWith follow place.dropLast rest
    else if Path.nameLimit < step.utf8ByteSize then .error .nameTooLong
    else
      let next := place ++ [step]
      match fs.item? next with
      | some .directory => fs.walkWith follow next rest
      | some (.link target) => follow place (.ofText target) rest
      | some _ => if rest.isEmpty then .ok next else .error .notDirectory
      | none => if rest.isEmpty then .ok next else .error .missing

/-- Goes along a path from a place, through so many links at most. -/
def walk (fs : FileSystem) : Nat → Place → List String → Except FileError Place
  | 0 => fs.walkWith fun _ _ _ => .error .tooManyLinks
  | links + 1 => fs.walkWith fun place target rest =>
    fs.walk links (if target.fromRoot then [] else place) (target.steps ++ rest)

def reach (fs : FileSystem) (path : Path) (steps : List String) : Except FileError Place :=
  fs.walk Path.linkLimit (if path.fromRoot then [] else fs.working) steps

def checked (text : String) : Except FileError Path :=
  if text = "" then .error .missing
  else if Path.lengthLimit < text.utf8ByteSize then .error .nameTooLong
  else .ok (.ofText text)

/-- What a path leads to when it is read. -/
def source (fs : FileSystem) (text : String) : Except FileError Source := do
  let path ← checked text
  match fs.item? (← fs.reach path path.steps) with
  | none => .error .missing
  | some .directory => .error .isDirectory
  | some (.link _) => .error .tooManyLinks
  | some (.file text) => if path.slashed then .error .notDirectory else .ok (.text text)
  | some (.device device) =>
    if path.slashed then .error .notDirectory
    else .ok (if device = .stdin then .stdin else .text "")

/-- Where a text goes that is written at a place. -/
def sinkAt (fs : FileSystem) (place : Place) : Except FileError (Sink Place) :=
  match fs.item? place with
  | some .directory => .error .isDirectory
  | some (.link _) => .error .tooManyLinks
  | some (.file _) => .ok (.file place)
  | some (.device .stdout) => .ok .stdout
  | some (.device .stderr) => .ok .stderr
  | some (.device _) => .ok .nowhere
  | none => if fs.closed.contains place.dropLast then .error .missing else .ok (.file place)

/-- What a path leads to when it is written. One that asks for a directory, by a slash or by dots at
its end, is refused as soon as the way up to its last step has been gone. -/
def sink (fs : FileSystem) (text : String) : Except FileError (Sink Place) := do
  let path ← checked text
  if path.slashed || path.steps.getLast?.all isDotted then
    let _ ← fs.reach path (path.steps.dropLast ++ ["."])
    .error .isDirectory
  else fs.sinkAt (← fs.reach path path.steps)

def put (fs : FileSystem) (place : Place) (text : String) : FileSystem :=
  { fs with items := (place, .file text) :: fs.items.filter (fun entry => entry.1 ≠ place) }

/-- Where there is no space, nothing of a text is taken. -/
def break? (fs : FileSystem) (sink : Sink Place) (text : String) : Option Break :=
  match sink with
  | .file place => if text ≠ "" ∧ fs.full.any (fun above => above.isPrefixOf place) then
      some ⟨"", FileError.deviceFull.message⟩ else none
  | _ => none

variable {fs : FileSystem} {place other : Place}

theorem item?_put_self (text : String) : (fs.put place text).item? place = some (.file text) :=
  List.lookup_cons_self

theorem lookup_filter_ne {items : List (Place × Item)} (h : other ≠ place) :
    (items.filter (fun entry => entry.1 ≠ place)).lookup other = items.lookup other := by
  induction items with
  | nil => rfl
  | cons entry items ih =>
    by_cases hplace : entry.1 = place
    · have hother : (other == entry.1) = false := by simpa [hplace] using h
      rw [List.filter_cons_of_neg (by simpa using hplace), ih, List.lookup_cons, hother]
    · rw [List.filter_cons_of_pos (by simpa using hplace), List.lookup_cons, List.lookup_cons, ih]

theorem item?_put_of_ne (h : other ≠ place) (text : String) :
    (fs.put place text).item? other = fs.item? other := by
  have hother : (other == place) = false := by simpa using h
  rw [item?, item?, put, List.lookup_cons, hother, lookup_filter_ne h]

/-- A tree of files is one of the systems that the program can run on. -/
def system (wording : Wording) : System where
  toWording := wording
  Files := FileSystem
  Place := Place
  Item := Item
  file := .file
  item? := item?
  source fs path := (fs.source path).mapError FileError.message
  sink fs path := (fs.sink path).mapError FileError.message
  put := put
  break? := break?
  item?_put_self _ := item?_put_self
  item?_put_of_ne _ := item?_put_of_ne

end FileSystem
end PortNet.Cli
