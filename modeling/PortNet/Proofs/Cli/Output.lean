import PortNet.Cli.FileSystem
import PortNet.Proofs.Cli.Loading

namespace PortNet.Cli

/-- What comes to the standard output if a text is written to a sink. -/
def Sink.onStdout {Place : Type} : Sink Place → String → String
  | .stdout, text => text
  | _, _ => ""

def Sink.onStderr {Place : Type} : Sink Place → String → String
  | .stderr, text => text
  | _, _ => ""

/-- The text that stands for a normalized graph in each form. A table also has what each completed
pass has changed and how long it took. -/
inductive Rendered (g : Graph) (completed : List (Pass × Change)) (elapsed : Pass → String) :
    Emit → String → Prop
  | json : Rendered g completed elapsed .json (g.prettyText ++ "\n")
  | dot : Rendered g completed elapsed .dot g.dot
  | fingerprint :
      Rendered g completed elapsed .fingerprint (Digest.fingerprint g.canonicalText ++ "\n")
  | stats : Rendered g completed elapsed .stats (Text.ofLines (statsLines g completed elapsed))

/-- A text in which nothing depends on the time that passes took, unless it is a table of them. -/
def UpToTimes (emit : Emit) (rendering : (Pass → String) → String) : Prop :=
  (∀ elapsed elapsed', rendering elapsed = rendering elapsed') ∨
    (emit = .stats ∧ ∃ g completed, ∀ elapsed,
      rendering elapsed = Text.ofLines (statsLines g completed elapsed))

/-- A run that has written a text to a sink and has changed nothing else. On the standard error
there is what it logged before that and what it reported after that. -/
structure Wrote {system : System} (files : system.Files) (sink : Sink system.Place)
    (text log report : String) (ending : Ending system) : Prop where
  stdout : ending.stdout = sink.onStdout text
  stderr : ending.stderr = log ++ sink.onStderr text ++ report
  written : ∀ p, sink = .file p → system.item? ending.files p = some (system.file text)
  others : ∀ p, sink ≠ .file p → system.item? ending.files p = system.item? files p
  same : (∀ p, sink ≠ .file p) → ending.files = files

/-- A report comes behind all that is on the standard error. -/
theorem Wrote.refuse {system : System} {files : system.Files} {sink : Sink system.Place}
    {text log : String} {ending : Ending system} (h : Wrote files sink text log "" ending)
    (refusal : Refusal) :
    Wrote files sink text log (refusal.text ++ "\n") (ending.refuse refusal) where
  stdout := h.stdout
  stderr := by rw [Ending.refuse, h.stderr, String.append_empty]
  written := h.written
  others := h.others
  same := h.same

/-- A run that has handed the whole text over. -/
structure Delivered {system : System} (files : system.Files) (sink : Sink system.Place)
    (text log : String) (ending : Ending system) : Prop
    extends Wrote files sink text log "" ending where
  code : ending.code = 0

namespace Invocation
variable (call : Invocation) (system : System) (files : system.Files) (stdin : Rest)
  (elapsed : Pass → String)

/-- Where a call sends its text. -/
def SendsTo (sink : Sink system.Place) : Prop :=
  match call.output with
  | none => sink = .stdout
  | some path => system.sink files path = .ok sink

/-- What a call makes of its options and its graph: a text that stands for the normalized graph. -/
structure Makes (options : Options) (g : Graph) (text : String) : Prop where
  loads : call.Loads system files stdin options g
  renders : ∃ g', g.normalize options = .ok g' ∧
    Rendered g' (g.report options .structural).completed elapsed call.emit text

/-- A call whose sink was opened and did not take the text to its end. The sink has the part that it
took, and nothing else has changed. -/
def BrokeOff (ending : Ending system) : Prop :=
  ∃ options g text sink stop, call.Makes system files stdin elapsed options g text ∧
    call.SendsTo system files sink ∧ system.break? files sink text = some stop ∧
    ending.code = 2 ∧ Wrote files sink stop.taken (system.log call.verbose options g)
      ((Refusal.unwritable stop.reason).text ++ "\n") ending

/-- A run that has logged what it does with a graph, so far. -/
def logged (options : Options) (g : Graph) : Ending system :=
  { Ending.idle files with stderr := system.log call.verbose options g }

/-- All courses that a call can take, each with its ending. -/
inductive Course : Ending system → Prop
  | unloaded {refusal : Refusal}
      (hload : (Reading.on (call.load (m := StateM Rest) (system.read files)) stdin).1 =
        .error refusal) : Course ((Ending.idle files).refuse refusal)
  | failed {options : Options} {g : Graph} {failure : Failure}
      (hloads : call.Loads system files stdin options g)
      (hfailed : g.normalize options = .error failure) :
      Course ((call.logged system files options g).refuse (.failed failure))
  | unopened {options : Options} {g : Graph} {text reason : String}
      (hmakes : call.Makes system files stdin elapsed options g text)
      (hsink : call.sink files = .error reason) :
      Course ((call.logged system files options g).refuse (.unwritable reason))
  | broken {options : Options} {g : Graph} {text : String} {sink : Sink system.Place} {stop : Break}
      (hmakes : call.Makes system files stdin elapsed options g text)
      (hsends : call.SendsTo system files sink)
      (hbreak : system.break? files sink text = some stop) :
      Course (((call.logged system files options g).take stop.taken sink).refuse
        (.unwritable stop.reason))
  | delivered {options : Options} {g : Graph} {text : String} {sink : Sink system.Place}
      (hmakes : call.Makes system files stdin elapsed options g text)
      (hsends : call.SendsTo system files sink) (hbreak : system.break? files sink text = none) :
      Course ((call.logged system files options g).take text sink)

variable {call system files stdin elapsed}

theorem sink_eq_ok {sink : Sink system.Place} :
    call.sink files = .ok sink ↔ call.SendsTo system files sink := by
  rw [Invocation.sink, SendsTo]
  cases call.output with
  | none => simp [eq_comm]
  | some path => exact Iff.rfl

theorem render_eq_ok {report : Report} {text : String} : call.render report elapsed = .ok text ↔
    ∃ g, report.result = .ok g ∧ Rendered g report.completed elapsed call.emit text := by
  rw [Invocation.render]
  cases report.result with
  | error failure => exact iff_of_false nofun (fun ⟨_, h, _⟩ => nomatch h)
  | ok g =>
    rw [Except.ok.injEq]
    constructor
    · rintro rfl
      refine ⟨g, rfl, ?_⟩
      cases call.emit with
      | json => exact .json
      | dot => exact .dot
      | fingerprint => exact .fingerprint
      | stats => exact .stats
    · rintro ⟨_, hg, h⟩
      cases hg
      generalize call.emit = emit at h ⊢
      cases h <;> rfl

/-- In the text for a graph at most the times are left open. -/
theorem exists_rendering (emit : Emit) (g : Graph) (completed : List (Pass × Change)) :
    ∃ rendering, UpToTimes emit rendering ∧
      ∀ elapsed, Rendered g completed elapsed emit (rendering elapsed) := by
  cases emit with
  | json => exact ⟨fun _ => _, .inl fun _ _ => rfl, fun _ => .json⟩
  | dot => exact ⟨fun _ => _, .inl fun _ _ => rfl, fun _ => .dot⟩
  | fingerprint => exact ⟨fun _ => _, .inl fun _ _ => rfl, fun _ => .fingerprint⟩
  | stats => exact ⟨_, .inr ⟨rfl, g, completed, fun _ => rfl⟩, fun _ => .stats⟩

theorem render_of_error {report : Report} {failure : Failure}
    (h : report.result = .error failure) (elapsed : Pass → String) :
    call.render report elapsed = .error (.failed failure) := by
  rw [Invocation.render, h]

theorem course_deliver {options : Options} {g : Graph} {text : String}
    (hmakes : call.Makes system files stdin elapsed options g text) :
    call.Course system files stdin elapsed
      (call.deliver (call.logged system files options g) text) := by
  have hfiles : (call.logged system files options g).files = files := rfl
  simp only [deliver, Ending.write, hfiles]
  cases hsink : call.sink files with
  | error reason => exact .unopened hmakes hsink
  | ok sink =>
    have hsends := sink_eq_ok.mp hsink
    cases hbreak : system.break? files sink text with
    | none =>
      simp only [hbreak]
      exact .delivered hmakes hsends hbreak
    | some stop =>
      simp only [hbreak]
      exact .broken hmakes hsends hbreak

/-- Every call takes one of the courses. -/
theorem course_run (call : Invocation) (system : System) (files : system.Files) (stdin : Rest)
    (elapsed : Pass → String) :
    call.Course system files stdin elapsed (call.run files stdin elapsed) := by
  rw [run]
  cases hload : (Reading.on (call.load (m := StateM Rest) (system.read files)) stdin).1 with
  | error refusal => exact .unloaded hload
  | ok loaded =>
    obtain ⟨options, g⟩ := loaded
    have hloads := load_eq_ok.mp hload
    cases hresult : g.normalize options with
    | error failure =>
      simp only [render_of_error hresult]
      exact .failed hloads hresult
    | ok g' =>
      obtain ⟨rendering, _, hrendered⟩ :=
        exists_rendering call.emit g' (g.report options .structural).completed
      simp only [render_eq_ok.mpr ⟨g', hresult, hrendered elapsed⟩]
      exact course_deliver ⟨hloads, g', hresult, hrendered elapsed⟩

theorem wrote_take {options : Options} {g : Graph} {sink : Sink system.Place}
    (hsends : call.SendsTo system files sink) (text : String) :
    Wrote files sink text (system.log call.verbose options g) ""
      ((call.logged system files options g).take text sink) := by
  have hquiet : ∀ log : String, log = log ++ "" ++ "" := fun log => by simp
  cases sink with
  | file place =>
    -- Only a path can lead to a file, which is what the laws of the system are about.
    obtain ⟨path, hsink⟩ : ∃ path, system.sink files path = .ok (.file place) := by
      unfold SendsTo at hsends
      split at hsends
      · cases hsends
      · exact ⟨_, hsends⟩
    refine ⟨rfl, hquiet _, fun p hp => ?_, fun p hp => ?_, fun h => absurd rfl (h place)⟩
    · cases hp
      exact system.item?_put_self hsink text
    · exact system.item?_put_of_ne hsink (fun heq => hp (heq ▸ rfl)) text
  | nowhere => exact ⟨rfl, hquiet _, nofun, fun _ _ => rfl, fun _ => rfl⟩
  | stdout => exact ⟨String.empty_append, hquiet _, nofun, fun _ _ => rfl, fun _ => rfl⟩
  | stderr => exact ⟨rfl, String.append_empty.symm, nofun, fun _ _ => rfl, fun _ => rfl⟩

theorem SendsTo.unique {sink sink' : Sink system.Place} (h : call.SendsTo system files sink)
    (h' : call.SendsTo system files sink') : sink' = sink :=
  Except.ok.inj ((sink_eq_ok.mpr h').symm.trans (sink_eq_ok.mpr h))

theorem Makes.unique {options options' : Options} {g g' : Graph} {text text' : String}
    (h : call.Makes system files stdin elapsed options g text)
    (h' : call.Makes system files stdin elapsed options' g' text') :
    options' = options ∧ g' = g ∧ text' = text := by
  obtain ⟨rfl, rfl⟩ := h.loads.unique h'.loads
  exact ⟨rfl, rfl, Except.ok.inj ((render_eq_ok.mpr h'.renders).symm.trans
    (render_eq_ok.mpr h.renders))⟩

theorem Makes.not_failed {options : Options} {g : Graph} {text : String}
    (h : call.Makes system files stdin elapsed options g text) :
    ¬ ∃ options g failure, call.Loads system files stdin options g ∧
      g.normalize options = .error failure := by
  rintro ⟨options', g', failure, hloads, hfailed⟩
  obtain ⟨rfl, rfl⟩ := h.loads.unique hloads
  obtain ⟨g'', hresult, _⟩ := h.renders
  rw [hresult] at hfailed
  cases hfailed

/-- The text that a call makes is known up to the times before its sink is. -/
theorem exists_rendering_of_call (call : Invocation) (system : System) (files : system.Files)
    (stdin : Rest) : ∃ rendering, UpToTimes call.emit rendering ∧ ∀ elapsed options g text,
      call.Makes system files stdin elapsed options g text → text = rendering elapsed := by
  by_cases hall : ∃ options g g', call.Loads system files stdin options g ∧
      g.normalize options = .ok g'
  · obtain ⟨options, g, g', hloads, hresult⟩ := hall
    obtain ⟨rendering, htimes, hrendered⟩ :=
      exists_rendering call.emit g' (g.report options .structural).completed
    refine ⟨rendering, htimes, fun elapsed options' g'' text h => ?_⟩
    have hmakes : call.Makes system files stdin elapsed options g (rendering elapsed) :=
      ⟨hloads, g', hresult, hrendered elapsed⟩
    exact (hmakes.unique h).2.2
  · -- Nothing is made, so that any text will do.
    refine ⟨fun _ => "", .inl fun _ _ => rfl, fun elapsed options g text h => ?_⟩
    obtain ⟨g', hresult, _⟩ := h.renders
    exact absurd ⟨options, g, g', h.loads, hresult⟩ hall

end Invocation

namespace Ending
variable {system : System}

theorem code_refuse_ne_zero (ending : Ending system) (refusal : Refusal) :
    (ending.refuse refusal).code ≠ 0 := by
  cases refusal <;> exact nofun

theorem code_take (ending : Ending system) (text : String) (sink : Sink system.Place) :
    (ending.take text sink).code = ending.code := by
  cases sink <;> rfl

end Ending

namespace Invocation.Course
variable {call : Invocation} {system : System} {files : system.Files} {stdin : Rest}
  {elapsed : Pass → String} {ending : Ending system}

/-- A call that does not end with code 0 has had no effect but that of a write that broke off. -/
theorem silent_or_brokeOff (h : call.Course system files stdin elapsed ending)
    (hcode : ending.code ≠ 0) : (ending.stdout = "" ∧ ending.files = files) ∨
      call.BrokeOff system files stdin elapsed ending := by
  cases h with
  | unloaded => exact .inl ⟨rfl, rfl⟩
  | failed => exact .inl ⟨rfl, rfl⟩
  | unopened => exact .inl ⟨rfl, rfl⟩
  | broken hmakes hsends hbreak =>
    exact .inr ⟨_, _, _, _, _, hmakes, hsends, hbreak, rfl, (wrote_take hsends _).refuse _⟩
  | delivered => exact absurd (Ending.code_take _ _ _) hcode

theorem delivered_of_code (h : call.Course system files stdin elapsed ending)
    (hcode : ending.code = 0) : ∃ options g text sink,
      call.Makes system files stdin elapsed options g text ∧ call.SendsTo system files sink ∧
        Delivered files sink text (system.log call.verbose options g) ending := by
  cases h with
  | unloaded => exact absurd hcode (Ending.code_refuse_ne_zero _ _)
  | failed => exact absurd hcode (Ending.code_refuse_ne_zero _ _)
  | unopened => exact absurd hcode (Ending.code_refuse_ne_zero _ _)
  | broken => exact absurd hcode (Ending.code_refuse_ne_zero _ _)
  | delivered hmakes hsends => exact ⟨_, _, _, _, hmakes, hsends, wrote_take hsends _, hcode⟩

theorem code_eq_zero (h : call.Course system files stdin elapsed ending) {options : Options}
    {g : Graph} {text : String} {sink : Sink system.Place}
    (hmakes : call.Makes system files stdin elapsed options g text)
    (hsends : call.SendsTo system files sink) (hbreak : system.break? files sink text = none) :
    ending.code = 0 := by
  obtain ⟨g', hresult, _⟩ := hmakes.renders
  cases h with
  | unloaded hload =>
    rw [load_eq_ok.mpr hmakes.loads] at hload
    cases hload
  | failed hloads hfailed =>
    obtain ⟨rfl, rfl⟩ := hmakes.loads.unique hloads
    rw [hresult] at hfailed
    cases hfailed
  | unopened _ hsink =>
    rw [sink_eq_ok.mpr hsends] at hsink
    cases hsink
  | broken hmakes' hsends' hbreak' =>
    obtain ⟨_, _, rfl⟩ := hmakes.unique hmakes'
    rw [hsends.unique hsends', hbreak] at hbreak'
    cases hbreak'
  | delivered => exact Ending.code_take _ _ _

/-- A call ends with code 1 if it gets at its options and its graph and normalizing the graph
fails. -/
theorem code_eq_one_iff (h : call.Course system files stdin elapsed ending) : ending.code = 1 ↔
    ∃ options g failure, call.Loads system files stdin options g ∧
      g.normalize options = .error failure := by
  cases h with
  | @unloaded refusal hload =>
    have hcode : refusal.code = 2 := code_of_load hload
    refine iff_of_false (fun hone => by cases hcode.symm.trans hone) ?_
    rintro ⟨options, g, failure, hloads, _⟩
    rw [load_eq_ok.mpr hloads] at hload
    cases hload
  | failed hloads hfailed => exact iff_of_true rfl ⟨_, _, _, hloads, hfailed⟩
  | unopened hmakes => exact iff_of_false nofun hmakes.not_failed
  | broken hmakes => exact iff_of_false nofun hmakes.not_failed
  | delivered hmakes =>
    rw [Ending.code_take]
    exact iff_of_false nofun hmakes.not_failed

end Invocation.Course

section Runs
variable {system : System} {arguments : List String} {call : Invocation}

theorem run_of_usage {usage : UsageError} (h : parse arguments = .error usage)
    (files : system.Files) (stdin : Rest) (elapsed : Pass → String) :
    run system arguments files stdin elapsed = ⟨2, "", system.usage usage, files⟩ := by
  rw [run, h]

theorem code_of_page {page : Page} (h : parse arguments = .ok (.page page))
    (files : system.Files) (stdin : Rest) (elapsed : Pass → String) :
    (run system arguments files stdin elapsed).code = 0 := by
  simp only [run, h, Ending.write]
  split <;> rfl

/-- A page is shown whatever else is wrong with the arguments behind it. -/
example (files : system.Files) (stdin : Rest) (elapsed : Pass → String) :
    (run system ["in.json", "--help", "--emit"] files stdin elapsed).code = 0 :=
  code_of_page (show parse _ = .ok (.page .help) by decide +kernel) files stdin elapsed

theorem run_of_call (h : parse arguments = .ok (.normalize call)) (files : system.Files)
    (stdin : Rest) (elapsed : Pass → String) :
    run system arguments files stdin elapsed = call.run files stdin elapsed := by
  rw [run, h]

end Runs

/-- An empty graph in the directory that is worked in, and a disk on which no space is left. -/
def oneGraph : FileSystem where
  items := [([], .directory), (["tmp"], .directory), (["work"], .directory),
    (["work", "in.json"], .file "\x7b\"nodes\": [], \"edges\": []\x7d"),
    (["disk"], .directory), (["disk", "old"], .file "old")]
  working := ["work"]
  full := [["disk"]]

def desk : System := FileSystem.system .plain

theorem sink_desk {path : String} {place : Place} (h : oneGraph.sink path = .ok (.file place)) :
    desk.sink oneGraph path = .ok (.file place) :=
  congrArg (Except.mapError FileError.message) h

example : (run desk ["in.json", "--no-id-nodes", "--emit=stats"] oneGraph (.ok "")
    fun _ => "0.001").stdout = Text.ofLines [
      "resolve_fans         +0 nodes  -0 edges  +0 edges  0.001 ms",
      "drain_ports          +0 nodes  -0 edges  +0 edges  0.001 ms",
      "result: 0 nodes, 0 edges"] := by decide +kernel

example : (run desk ["--output", "/disk", "--", "in.json"] oneGraph (.ok "")
    fun _ => "0.001").stderr =
      "npgn: error: cannot write output: Is a directory (os error 21)\n" := by decide +kernel

end PortNet.Cli
