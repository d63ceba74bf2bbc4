import PortNet.Proofs.Drawing.Forest

namespace PortNet.Drawing

/-- What a drawing is read as: a quoted text is one token, and outside of quotes every character is
one that is not a blank. -/
inductive Token where
  | mark (c : Char)
  | text (s : String)
deriving DecidableEq

/-- Where a reader stands: outside of quotes, in quotes, or behind a backslash in quotes. In quotes
it has what it has read there, the last character first. -/
inductive Mode where
  | outside
  | inside (read : List Char)
  | escaped (read : List Char)

def isBlank (c : Char) : Bool := c = ' ' || c = '\n'

/-- Cuts a text into tokens, unless a quote is left open. In quotes a backslash before a quote or a
backslash is taken away, any other stays. -/
def scan : Mode → List Char → Option (List Token)
  | .outside, [] => some []
  | .inside _, [] => none
  | .escaped _, [] => none
  | .outside, c :: cs =>
    if c = '"' then scan (.inside []) cs
    else if isBlank c then scan .outside cs
    else (scan .outside cs).map (List.cons (.mark c))
  | .inside read, c :: cs =>
    if c = '"' then (scan .outside cs).map (List.cons (.text (String.ofList read.reverse)))
    else if c = '\\' then scan (.escaped read) cs
    else scan (.inside (c :: read)) cs
  | .escaped read, c :: cs =>
    scan (.inside (if c = '"' ∨ c = '\\' then c :: read else c :: '\\' :: read)) cs

/-- Wherever a piece of text stands, it is read as the same tokens and leads from one mode to the
other. -/
def Scans (m : Mode) (cs : List Char) (m' : Mode) (ts : List Token) : Prop :=
  ∀ rest, scan m (cs ++ rest) = (scan m' rest).map (ts ++ ·)

section Scans
variable {m m' m'' : Mode} {cs ds : List Char} {ts us : List Token} {read : List Char}

theorem Scans.append (h : Scans m cs m' ts) (h' : Scans m' ds m'' us) :
    Scans m (cs ++ ds) m'' (ts ++ us) := by
  intro rest
  rw [List.append_assoc, h, h', Option.map_map]
  simp [Function.comp_def]

theorem Scans.cons {c : Char} (h : Scans m [c] m' ts) (h' : Scans m' cs m'' us) :
    Scans m (c :: cs) m'' (ts ++ us) :=
  h.append h'

theorem scans_nil (m : Mode) : Scans m [] m [] := by
  intro rest
  simp

theorem scans_open : Scans .outside ['"'] (.inside []) [] := by
  intro rest
  simp [scan]

theorem scans_close (read : List Char) :
    Scans (.inside read) ['"'] .outside [.text (String.ofList read.reverse)] := by
  intro rest
  simp [scan]

theorem scans_blank {c : Char} (h : isBlank c = true) : Scans .outside [c] .outside [] := by
  have hquote : c ≠ '"' := fun hc => by simp [hc, isBlank] at h
  intro rest
  simp [scan, hquote, h]

theorem scans_mark {c : Char} (hquote : c ≠ '"') (h : isBlank c = false) :
    Scans .outside [c] .outside [.mark c] := by
  intro rest
  simp [scan, hquote, h]

/-- The tokens of a text without quotes. -/
def marks (s : String) : List Token := (s.toList.filter (fun c => !isBlank c)).map .mark

/-- Text without quotes is read character by character. -/
theorem scans_bare {s : String} (h : '"' ∉ s.toList) :
    Scans .outside s.toList .outside (marks s) := by
  rw [marks]
  generalize s.toList = cs at h ⊢
  induction cs with
  | nil => exact scans_nil _
  | cons c cs ih =>
    obtain ⟨hc, hcs⟩ := not_or.mp (mt List.mem_cons.mpr h)
    cases hblank : isBlank c with
    | true =>
      rw [List.filter_cons_of_neg (by simp [hblank])]
      exact (scans_blank hblank).cons (ih hcs)
    | false =>
      rw [List.filter_cons_of_pos (by simp [hblank])]
      exact (scans_mark (Ne.symm hc) hblank).cons (ih hcs)

theorem scans_plain (cs : List Char) (hquote : '"' ∉ cs) (hbackslash : '\\' ∉ cs) :
    Scans (.inside read) cs (.inside (cs.reverse ++ read)) [] := by
  induction cs generalizing read with
  | nil => exact scans_nil _
  | cons c cs ih =>
    obtain ⟨hq, hquotes⟩ := not_or.mp (mt List.mem_cons.mpr hquote)
    obtain ⟨hb, hbackslashes⟩ := not_or.mp (mt List.mem_cons.mpr hbackslash)
    intro rest
    have hrest : Scans (.inside (c :: read)) cs _ [] := ih hquotes hbackslashes
    simp [scan, Ne.symm hq, Ne.symm hb, hrest rest]

/-- What is read as a whole is read in the same way when something follows. -/
theorem scans_of_scan (h : scan m cs = some ts) : Scans m cs .outside ts := by
  intro rest
  induction cs generalizing m ts with
  | nil =>
    cases m with
    | outside =>
      cases h
      simp
    | inside read => cases h
    | escaped read => cases h
  | cons c cs ih =>
    have hmap : ∀ {m us t}, (scan m cs).map (List.cons t) = some us →
        (scan m (cs ++ rest)).map (List.cons t) = (scan .outside rest).map (us ++ ·) := by
      intro m us t hus
      obtain ⟨vs, hvs, rfl⟩ := Option.map_eq_some_iff.mp hus
      rw [ih hvs, Option.map_map]
      rfl
    cases m with
    | outside =>
      simp only [List.cons_append, scan] at h ⊢
      split_ifs at h ⊢
      · exact ih h
      · exact ih h
      · exact hmap h
    | inside read =>
      simp only [List.cons_append, scan] at h ⊢
      split_ifs at h ⊢
      · exact hmap h
      · exact ih h
      · exact ih h
    | escaped read => exact ih h

/-- Behind an open quote an escaped text is read as what it was. -/
theorem scans_escape (s : String) :
    Scans (.inside read) (escape s).toList (.inside (s.toList.reverse ++ read)) [] := by
  rw [escape, String.toList_ofList]
  induction s.toList generalizing read with
  | nil => exact scans_nil _
  | cons c cs ih =>
    intro rest
    have hrest := @ih (c :: read) rest
    by_cases hc : c = '"' ∨ c = '\\'
    · simp [scan, hc, hrest]
    · obtain ⟨hquote, hbackslash⟩ := not_or.mp hc
      simp [scan, hquote, hbackslash, hrest]

theorem scans_quoted (s : String) : Scans .outside (quoted s).toList .outside [.text s] := by
  have htext := scans_open.append ((scans_escape s).append (scans_close _))
  simpa [quoted] using htext

/-- Different names stay different in quotes, since a reader tells them apart. -/
theorem quoted_injective : Function.Injective quoted := by
  intro s t h
  have hs := scans_quoted s []
  have ht := scans_quoted t []
  rw [h, ht] at hs
  simpa [scan] using hs.symm

end Scans

/-- What separates statements from each other: the end of one, and both ends of a block. -/
def separators : List Char := [';', '\x7b', '\x7d']

/-- Tokens that do not end a statement. -/
def Quiet (ts : List Token) : Prop := ∀ c ∈ separators, Token.mark c ∉ ts

instance (ts : List Token) : Decidable (Quiet ts) := List.decidableBAll _ _

theorem Quiet.append {ts us : List Token} (h : Quiet ts) (h' : Quiet us) : Quiet (ts ++ us) :=
  fun c hc hm => (List.mem_append.mp hm).elim (h c hc) (h' c hc)

/-- A text without quotes and separators. -/
def Bare (s : String) : Prop := '"' ∉ s.toList ∧ Quiet (marks s)

instance (s : String) : Decidable (Bare s) := inferInstanceAs (Decidable (_ ∧ _))

theorem marks_append (s t : String) : marks (s ++ t) = marks s ++ marks t := by simp [marks]

theorem Bare.append {s t : String} (h : Bare s) (h' : Bare t) : Bare (s ++ t) := by
  refine ⟨?_, ?_⟩
  · rw [String.toList_append, List.mem_append, not_or]
    exact ⟨h.1, h'.1⟩
  · rw [marks_append]
    exact h.2.append h'.2

theorem quiet_text (s : String) : Quiet [.text s] := by
  intro c _ hm
  cases List.mem_singleton.mp hm

inductive Statement where
  | node (id : String)
  | edge (source target : String)
  | label (text : String)
  | setting
deriving DecidableEq

def Statement.isEdge : Statement → Bool
  | .edge _ _ => true
  | _ => false

/-- The names of nodes stand in quotes. An edge statement begins with two of them and an arrow in
between, a node statement with one; all other statements set an attribute. -/
def Statement.of : List Token → Statement
  | .text s :: .mark '-' :: .mark '>' :: .text t :: _ => .edge s t
  | .text id :: _ => .node id
  | [.mark 'l', .mark 'a', .mark 'b', .mark 'e', .mark 'l', .mark '=', .text s] => .label s
  | _ => .setting

/-- A block in braces, with the name in its head and the label that is set in it. -/
structure Block where
  name : Option String
  label : Option String
deriving DecidableEq

/-- A node or edge statement, with the blocks around it, the innermost first. -/
structure Located where
  within : List Block
  statement : Statement
deriving DecidableEq

/-- What has been read of a statement, the blocks that are open, and the statements before. -/
structure Reader where
  pending : List Token := []
  blocks : List Block := []
  found : List Located := []

def Token.text? : Token → Option String
  | .text s => some s
  | .mark _ => none

namespace Reader

/-- The end of a statement. A label belongs to the block that it is set in. -/
def finish (r : Reader) : Reader :=
  match Statement.of r.pending, r.blocks with
  | .label s, b :: bs => { r with pending := [], blocks := { b with label := some s } :: bs }
  | .label _, [] => { r with pending := [] }
  | .setting, _ => { r with pending := [] }
  | st, bs => { r with pending := [], found := r.found ++ [⟨bs, st⟩] }

/-- The end of a block; there must be one, and no statement may be open in it. -/
def leave (r : Reader) : Option Reader :=
  match r.pending, r.blocks with
  | [], _ :: bs => some { r with blocks := bs }
  | _, _ => none

def step (r : Reader) (t : Token) : Option Reader :=
  if t = .mark ';' then some r.finish
  else if t = .mark '\x7b' then
    some { r with pending := [], blocks := ⟨r.pending.findSome? Token.text?, none⟩ :: r.blocks }
  else if t = .mark '\x7d' then r.leave
  else some { r with pending := r.pending ++ [t] }

def run (r : Reader) (ts : List Token) : Option Reader := ts.foldlM step r

end Reader

/-- Reads the node and edge statements of a drawing, if all quotes are closed and all braces are
balanced. -/
def read (s : String) : Option (List Located) := do
  let r ← Reader.run {} (← scan .outside s.toList)
  if r.pending = [] ∧ r.blocks = [] then some r.found else none

namespace Reader
variable {r : Reader} {ts us : List Token}

theorem run_append (r : Reader) (ts us : List Token) :
    r.run (ts ++ us) = (r.run ts).bind (fun r => r.run us) :=
  List.foldlM_append

/-- Tokens without separators become part of the statement that is read. -/
theorem run_quiet (r : Reader) (h : Quiet ts) :
    r.run ts = some { r with pending := r.pending ++ ts } := by
  induction ts generalizing r with
  | nil => simp [run]
  | cons t ts ih =>
    have ht : ∀ c ∈ separators, t ≠ .mark c := fun c hc heq => h c hc (heq ▸ List.mem_cons_self)
    have hstep : r.step t = some { r with pending := r.pending ++ [t] } := by
      rw [step, if_neg (ht _ (by decide)), if_neg (ht _ (by decide)), if_neg (ht _ (by decide))]
    rw [run, List.foldlM_cons, hstep]
    have hrest := ih { r with pending := r.pending ++ [t] }
      fun c hc hm => h c hc (List.mem_cons_of_mem _ hm)
    rw [List.append_assoc] at hrest
    exact hrest

end Reader

end PortNet.Drawing
