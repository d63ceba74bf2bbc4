import PortNet.Cli.Arguments
import PortNet.Graph.Exchange
import PortNet.Normalization.Report

namespace PortNet.Cli

/-- Texts that a run shows and that are not of its own making: pages, complaints about the
arguments, and what is logged about a graph from its loading to the end of its passes. -/
structure Wording where
  page : Page → String
  usage : UsageError → String
  log : (verbose : Bool) → Options → Graph → String

def UsageError.text : UsageError → String
  | unknown argument => "unexpected argument '" ++ argument ++ "' found"
  | repeated name => "the argument '" ++ name ++ "' cannot be used multiple times"
  | valueMissing name => "a value is required for '" ++ name ++ "' but none was supplied"
  | valueNotAllowed name => "unexpected value for '" ++ name ++ "' found; no more were expected"
  | valueInvalid name value => "invalid value '" ++ value ++ "' for '" ++ name ++ "'"
  | surplusInput argument => "unexpected argument '" ++ argument ++ "' found"
  | noInput => "the following required arguments were not provided: <INPUT>"

namespace Wording

def usageLine : String := "Usage: npgn [OPTIONS] <INPUT>"

def helpLines : List String := [
  "Network port graph normalizer",
  "",
  usageLine,
  "",
  "Arguments:",
  "  <INPUT>  Input graph (JSON); - reads stdin",
  "",
  "Options:",
  "  -o, --output <OUTPUT>          Output file path (stdout when omitted)",
  "      --emit <EMIT>              Output format [default: json] [possible values: " ++
    ", ".intercalate ([Emit.json, .dot, .fingerprint, .stats].map Emit.name) ++ "]",
  "      --options <OPTIONS>        JSON options document",
  "      --no-duplicates-and-joins  Skip fan resolution",
  "      --no-id-nodes              Skip identity bridges for pass-through edges",
  "      --no-consume-nodes         Skip sinks for unconsumed ports",
  "      --verbose                  Log pass details to stderr",
  "  -h, --help                     Print help",
  "  -V, --version                  Print version"]

def logLines (options : Options) (g : Graph) : List String :=
  let passLine (pass : Pass) (change : Change) : String :=
    " INFO pass complete pass=" ++ pass.name ++ " nodes_added=" ++ Nat.repr change.nodesAdded ++
      " edges_removed=" ++ Nat.repr change.edgesRemoved ++
      " edges_added=" ++ Nat.repr change.edgesAdded
  ("DEBUG graph loaded nodes=" ++ Nat.repr g.nodes.toList.length ++
    " edges=" ++ Nat.repr g.edges.length) ::
      (g.report options .structural).completed.map fun (pass, change) => passLine pass change

/-- A wording of few words, which logs nothing unless it is asked to. -/
def plain : Wording where
  page
    | .version => "npgn 0.1.0\n"
    | _ => Text.ofLines helpLines
  usage e := Text.ofLines ["error: " ++ e.text, "", usageLine, "",
    "For more information, try '--help'."]
  log verbose options g := if verbose then Text.ofLines (logLines options g) else ""

end Wording
end PortNet.Cli
