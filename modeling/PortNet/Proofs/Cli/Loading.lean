import PortNet.Cli.Run
import PortNet.Proofs.Except

namespace PortNet

namespace Options
variable {o o' : Options}

theorem enables_set (o : Options) (pass other : Pass) (on : Bool) :
    (o.set pass on).enables other = if other = pass then on else o.enables other := by
  cases pass <;> cases other <;> rfl

theorem eq_of_enables (h : ∀ pass, o.enables pass = o'.enables pass) : o = o' := by
  have hfans := h .expandFans
  have hloops := h .bridgeLoops
  have hsinks := h .addSinks
  cases o
  cases o'
  simp_all [enables]

/-- A pass that is switched off once is off. -/
theorem enables_foldl_set (o : Options) (skipped : List Pass) (pass : Pass) :
    (skipped.foldl (fun o p => o.set p false) o).enables pass = true ↔
      o.enables pass = true ∧ pass ∉ skipped := by
  induction skipped generalizing o with
  | nil => simp
  | cons p skipped ih =>
    rw [List.foldl_cons, ih, enables_set, List.mem_cons, not_or]
    by_cases hp : pass = p
    · simp [hp]
    · simp [hp]

end Options

namespace Cli

namespace Reading
variable {α β : Type} {x : Reading α} {f : α → Reading β} {rest left : Rest} {b : β}
  {refusal : Refusal}

theorem on_bind : (x >>= f).on rest = match x.on rest with
    | (.ok a, left) => (f a).on left
    | (.error refusal, left) => (.error refusal, left) := by
  simp only [on, ExceptT.run_bind, StateT.run_bind]
  rcases StateT.run (ExceptT.run x) rest with ⟨result, left⟩
  cases result <;> rfl

theorem on_bind_eq_ok : (x >>= f).on rest = (.ok b, left) ↔
    ∃ a next, x.on rest = (.ok a, next) ∧ (f a).on next = (.ok b, left) := by
  rw [on_bind]
  rcases x.on rest with ⟨_ | a, next⟩ <;> simp

theorem on_bind_eq_error : (x >>= f).on rest = (.error refusal, left) ↔
    x.on rest = (.error refusal, left) ∨
      ∃ a next, x.on rest = (.ok a, next) ∧ (f a).on next = (.error refusal, left) := by
  rw [on_bind]
  rcases x.on rest with ⟨_ | a, next⟩ <;> simp

end Reading

namespace System
variable (system : System) (files : system.Files)

/-- What is read under a path is the standard input. -/
def FromStdin (path : String) : Prop := path = "-" ∨ system.source files path = .ok .stdin

/-- The text that is read under a path, when so much is left of the standard input. -/
def Reads (rest : Rest) (path text : String) : Prop :=
  (system.FromStdin files path ∧ rest = .ok text) ∨
    (path ≠ "-" ∧ system.source files path = .ok (.text text))

/-- What is left of the standard input when a path has been read. -/
def Leaves (rest : Rest) (path : String) (left : Rest) : Prop :=
  (system.FromStdin files path ∧ left = .ok "") ∨ (¬ system.FromStdin files path ∧ left = rest)

theorem exists_leaves (rest : Rest) (path : String) :
    ∃ left, system.Leaves files rest path left := by
  by_cases h : system.FromStdin files path
  · exact ⟨_, .inl ⟨h, rfl⟩⟩
  · exact ⟨_, .inr ⟨h, rfl⟩⟩

variable {system files} {rest left : Rest} {path text : String}

theorem sourceOf_eq_stdin : system.sourceOf files path = .ok .stdin ↔
    system.FromStdin files path := by
  rw [sourceOf, FromStdin]
  split
  · simp [*]
  · simp [*]

theorem sourceOf_eq_text : system.sourceOf files path = .ok (.text text) ↔
    path ≠ "-" ∧ system.source files path = .ok (.text text) := by
  rw [sourceOf]
  split
  · simp [*]
  · simp [*]

theorem read_eq_ok : system.read files path rest = (.ok text, left) ↔
    system.Reads files rest path text ∧ system.Leaves files rest path left := by
  rw [Reads, Leaves, ← sourceOf_eq_stdin, ← sourceOf_eq_text, read]
  split <;> rename_i hsource <;> simp [hsource, eq_comm]

end System

section Values
variable {system : System} {files : system.Files} {α : Type}
  {ofText : String → Except Json.LoadError α} {path text reason : String} {rest left : Rest} {a : α}
  {refusal : Refusal}

theorem on_readValue_of_ok (h : system.read files path rest = (.ok text, left)) :
    Reading.on (readValue (m := StateM Rest) (system.read files) ofText path) rest =
      ((ofText text).mapError (.undecodable path), left) := by
  have hrun : StateT.run (m := Id) (system.read files path) rest = (.ok text, left) := h
  simp only [Reading.on, readValue, ExceptT.run_mk, StateT.run_bind, hrun]
  rfl

theorem on_readValue_of_error (h : system.read files path rest = (.error reason, left)) :
    Reading.on (readValue (m := StateM Rest) (system.read files) ofText path) rest =
      (.error (.unreadable path reason), left) := by
  have hrun : StateT.run (m := Id) (system.read files path) rest = (.error reason, left) := h
  simp only [Reading.on, readValue, ExceptT.run_mk, StateT.run_bind, hrun]
  rfl

theorem readValue_eq_ok :
    Reading.on (readValue (m := StateM Rest) (system.read files) ofText path) rest = (.ok a, left) ↔
      (∃ text, system.Reads files rest path text ∧ ofText text = .ok a) ∧
        system.Leaves files rest path left := by
  rcases hread : system.read files path rest with ⟨reason | text, next⟩
  · rw [on_readValue_of_error hread]
    refine iff_of_false nofun ?_
    rintro ⟨⟨text, hreads, _⟩, hleaves⟩
    have hok := System.read_eq_ok.mpr ⟨hreads, hleaves⟩
    rw [hread] at hok
    cases hok
  · obtain ⟨hreads, hleaves⟩ := System.read_eq_ok.mp hread
    rw [on_readValue_of_ok hread, Prod.mk.injEq, mapError_eq_ok]
    constructor
    · rintro ⟨hvalue, rfl⟩
      exact ⟨⟨text, hreads, hvalue⟩, hleaves⟩
    · rintro ⟨⟨text', hreads', hvalue⟩, hleaves'⟩
      have hok := System.read_eq_ok.mpr ⟨hreads', hleaves'⟩
      rw [hread] at hok
      cases hok
      exact ⟨hvalue, rfl⟩

/-- What keeps a value from being read is never a failure of the normalization. -/
theorem code_of_readValue
    (h : Reading.on (readValue (m := StateM Rest) (system.read files) ofText path) rest =
      (.error refusal, left)) : refusal.code = 2 := by
  rcases hread : system.read files path rest with ⟨reason | text, next⟩
  · rw [on_readValue_of_error hread] at h
    cases h
    rfl
  · rw [on_readValue_of_ok hread] at h
    obtain ⟨cause, _, rfl⟩ := mapError_eq_error.mp (Prod.mk.inj h).1
    rfl

end Values

namespace Invocation
variable {system : System} {files : system.Files} {call : Invocation} {stdin left : Rest}
  {options given : Options} {g : Graph} {refusal : Refusal}

/-- The options as the named document has them, and what it leaves of the standard input. Without a
document all passes are on. -/
def Given (call : Invocation) (system : System) (files : system.Files) (stdin : Rest)
    (given : Options) (left : Rest) : Prop :=
  match call.options with
  | none => given = {} ∧ left = stdin
  | some path => (∃ text, system.Reads files stdin path text ∧ Options.ofText text = .ok given) ∧
      system.Leaves files stdin path left

/-- The options and the graph that a call is about. A pass is on if it is in the options that are
given and no switch turns it off; the graph is in what the input then has. -/
def Loads (call : Invocation) (system : System) (files : system.Files) (stdin : Rest)
    (options : Options) (g : Graph) : Prop :=
  ∃ given left, call.Given system files stdin given left ∧
    (∀ pass, options.enables pass = true ↔ given.enables pass = true ∧ pass ∉ call.skipped) ∧
    ∃ text, system.Reads files left call.input text ∧ Graph.ofText text = .ok g

theorem readOptions_eq_ok :
    Reading.on (call.readOptions (m := StateM Rest) (system.read files)) stdin = (.ok given, left) ↔
      call.Given system files stdin given left := by
  rw [readOptions, Given]
  cases call.options with
  | none =>
    have hpure : Reading.on (pure ({} : Options)) stdin = (.ok {}, stdin) := rfl
    simp [hpure, eq_comm]
  | some path => exact readValue_eq_ok

theorem code_of_readOptions
    (h : Reading.on (call.readOptions (m := StateM Rest) (system.read files)) stdin =
      (.error refusal, left)) : refusal.code = 2 := by
  rw [readOptions] at h
  cases hoptions : call.options with
  | none =>
    rw [hoptions] at h
    cases h
  | some path =>
    rw [hoptions] at h
    exact code_of_readValue h

/-- A call gets at its options and its graph exactly if these can be read and understood. -/
theorem load_eq_ok :
    (Reading.on (call.load (m := StateM Rest) (system.read files)) stdin).1 = .ok (options, g) ↔
      call.Loads system files stdin options g := by
  constructor
  · intro h
    obtain ⟨given, left, hgiven, h⟩ := Reading.on_bind_eq_ok.mp (Prod.ext h rfl)
    obtain ⟨g', next, hgraph, h⟩ := Reading.on_bind_eq_ok.mp h
    cases h
    exact ⟨given, left, readOptions_eq_ok.mp hgiven, Options.enables_foldl_set given call.skipped,
      (readValue_eq_ok.mp hgraph).1⟩
  · rintro ⟨given, left, hgiven, henables, hgraph⟩
    have hoptions : options = call.skipped.foldl (fun o p => o.set p false) given :=
      Options.eq_of_enables fun pass => Bool.eq_iff_iff.mpr
        ((henables pass).trans (Options.enables_foldl_set given call.skipped pass).symm)
    obtain ⟨next, hnext⟩ := system.exists_leaves files left call.input
    have hvalue := readValue_eq_ok.mpr ⟨hgraph, hnext⟩
    have hload : Reading.on (call.load (m := StateM Rest) (system.read files)) stdin =
        (.ok (options, g), next) := by
      rw [hoptions]
      exact Reading.on_bind_eq_ok.mpr ⟨given, left, readOptions_eq_ok.mpr hgiven,
        Reading.on_bind_eq_ok.mpr ⟨g, next, hvalue, rfl⟩⟩
    rw [hload]

theorem Loads.unique {options' : Options} {g' : Graph} (h : call.Loads system files stdin options g)
    (h' : call.Loads system files stdin options' g') : options' = options ∧ g' = g := by
  have heq := (load_eq_ok.mpr h').symm.trans (load_eq_ok.mpr h)
  cases heq
  exact ⟨rfl, rfl⟩

/-- What keeps a call from its options or its graph is never a failure of the normalization. -/
theorem code_of_load
    (h : (Reading.on (call.load (m := StateM Rest) (system.read files)) stdin).1 = .error refusal) :
    refusal.code = 2 := by
  rcases Reading.on_bind_eq_error.mp (Prod.ext h rfl) with h | ⟨given, left, _, h⟩
  · exact code_of_readOptions h
  · rcases Reading.on_bind_eq_error.mp h with h | ⟨g, next, _, h⟩
    · exact code_of_readValue h
    · cases h

end Invocation
end Cli
end PortNet
