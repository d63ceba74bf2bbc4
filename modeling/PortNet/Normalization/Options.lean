import PortNet.Normalization.Pass

namespace PortNet

/-- Which passes run. A pass is on unless it is switched off. -/
structure Options where
  expandFans : Bool := true
  bridgeLoops : Bool := true
  addSinks : Bool := true
deriving DecidableEq, Repr

namespace Options
open Json

def enables (o : Options) : Pass → Bool
  | .expandFans => o.expandFans
  | .bridgeLoops => o.bridgeLoops
  | .addSinks => o.addSinks

def passes (o : Options) : List Pass := Pass.all.filter o.enables

def set (o : Options) (pass : Pass) (on : Bool) : Options :=
  match pass with
  | .expandFans => { o with expandFans := on }
  | .bridgeLoops => { o with bridgeLoops := on }
  | .addSinks => { o with addSinks := on }

def fields : List String := Pass.all.map Pass.option

def recordType : RecordType := ⟨"NormalizeOptions", fields, []⟩

/-- Members that name no option are passed over, if they could be read. -/
def add (o : Options) (name : String) (doc : Document) : Except LoadError Options :=
  match Pass.all.find? (fun p => p.option = name), doc with
  | some pass, doc => do .ok (o.set pass (← Decoder.boolean doc))
  | none, .broken fault => .error (.malformed fault)
  | none, _ => .ok o

/-- Reads the options of the given passes by their position in a list, as far as it goes; what is
left of the list is returned. -/
def addInOrder (o : Options) : List Pass → List Document →
    Except LoadError (Options × List Document)
  | [], docs => .ok (o, docs)
  | _, [] => .ok (o, [])
  | pass :: passes, doc :: docs => do
    addInOrder (o.set pass (← Decoder.boolean doc)) passes docs

/-- The fault in a list of options at the place where it should close. -/
def closingFault (read : Nat) : Fault → Fault
  | .commaOrBracketExpected => if read < Pass.all.length then .commaOrBracketExpected
    else .trailingCharacters
  | fault => fault

/-- Options are an object, or a list of them in the order of the passes. `surplus` is the complaint
about a list that goes on after the last of them. -/
def decode (surplus : Nat → LoadError) : Decoder Options
  | .arr items tail => do
    match ← addInOrder {} Pass.all items with
    | (_, _ :: _) => .error (surplus items.length)
    | (options, []) => Decoder.close options (tail.map (closingFault items.length))
  | doc => Decoder.record recordType {} add doc

def ofText (text : String) : Except LoadError Options :=
  decodeWith (fun limit => readWanted limit fields.contains)
    (decode (fun _ => .malformed .trailingCharacters)) text

def ofJson (j : Json) : Except LoadError Options := decodeJson (decode .surplus) j

end Options
end PortNet
