import PortNet.Proofs.Drawing.Language

namespace PortNet.Drawing

/-- Some lines, read between two statements, lead from some open blocks to others and hold some
statements. -/
def ReadsLines (lines : List String) (bs bs' : List Block) (es : List Located) : Prop :=
  ∃ ts, Scans .outside (Text.ofLines lines).toList .outside ts ∧
    ∀ old, Reader.run ⟨[], bs, old⟩ ts = some ⟨[], bs', old ++ es⟩

section Lines
variable {lines lines' : List String} {line : String} {bs bs' bs'' : List Block}
  {es es' : List Located} {ts : List Token} {b : Block}

theorem toList_ofLines (lines : List String) :
    (Text.ofLines lines).toList = lines.flatMap (fun line => line.toList ++ ['\n']) := by
  rw [Text.ofLines, String.toList_join, List.flatMap_map]
  simp

theorem indent_zero (line : String) : indent 0 line = line := by simp [indent]

theorem readsLines_nil (bs : List Block) : ReadsLines [] bs bs [] :=
  ⟨[], scans_nil _, fun old => by rw [List.append_nil]; rfl⟩

theorem ReadsLines.append (h : ReadsLines lines bs bs' es) (h' : ReadsLines lines' bs' bs'' es') :
    ReadsLines (lines ++ lines') bs bs'' (es ++ es') := by
  obtain ⟨ts, hts, hrun⟩ := h
  obtain ⟨us, hus, hrun'⟩ := h'
  refine ⟨ts ++ us, ?_, fun old => ?_⟩
  · rw [toList_ofLines] at hts hus ⊢
    rw [List.flatMap_append]
    exact hts.append hus
  · rw [Reader.run_append, hrun, Option.bind_some, hrun', List.append_assoc]

theorem ReadsLines.cons (h : ReadsLines [line] bs bs' es) (h' : ReadsLines lines bs' bs'' es') :
    ReadsLines (line :: lines) bs bs'' (es ++ es') :=
  h.append h'

/-- How far a line is indented makes no difference. -/
theorem readsLines_singleton (depth : Nat) (hts : Scans .outside line.toList .outside ts)
    (hrun : ∀ old, Reader.run ⟨[], bs, old⟩ ts = some ⟨[], bs', old ++ es⟩) :
    ReadsLines [indent depth line] bs bs' es := by
  have hblanks : Scans .outside (List.replicate (4 * depth) ' ') .outside [] := by
    induction 4 * depth with
    | zero => exact scans_nil _
    | succ k ih => exact (scans_blank rfl).cons ih
  refine ⟨ts, ?_, hrun⟩
  have hall := hblanks.append (hts.append (scans_blank (c := '\n') rfl))
  simpa [toList_ofLines, indent] using hall

/-- A line with a brace opens or closes a block. -/
theorem readsLines_brace (depth : Nat) (hts : Scans .outside line.toList .outside ts)
    (hrun : ∀ old, Reader.run ⟨[], bs, old⟩ ts = some ⟨[], bs', old⟩) :
    ReadsLines [indent depth line] bs bs' [] :=
  readsLines_singleton depth hts fun old => by rw [hrun, List.append_nil]

/-- A statement on a line of its own does what finishing it does. -/
theorem readsLines_statement (depth : Nat) (ts : List Token)
    (hts : Scans .outside line.toList .outside (ts ++ [.mark ';'])) (hquiet : Quiet ts)
    (hfinish : ∀ old, Reader.finish ⟨ts, bs, old⟩ = ⟨[], bs', old ++ es⟩) :
    ReadsLines [indent depth line] bs bs' es := by
  refine readsLines_singleton depth hts fun old => ?_
  rw [Reader.run_append, Reader.run_quiet _ hquiet, Option.bind_some, List.nil_append,
    ← hfinish old]
  rfl

/-- A line that sets attributes opens no block, closes none and holds no statement. -/
theorem readsLines_setting (depth : Nat) (bs : List Block) (line : String) (ts : List Token)
    (hts : scan .outside line.toList = some (ts ++ [.mark ';'])) (hquiet : Quiet ts)
    (hsetting : Statement.of ts = .setting) :
    ReadsLines [indent depth line] bs bs [] := by
  refine readsLines_statement depth ts (scans_of_scan hts) hquiet fun old => ?_
  rw [Reader.finish, hsetting, List.append_nil]

theorem readsLines_graphHead (depth : Nat) (bs : List Block) :
    ReadsLines (graphHead.map (indent depth)) bs bs [] := by
  have hrankdir := readsLines_setting depth bs "rankdir=LR;" (marks "rankdir=LR") rfl (by decide)
    rfl
  have hcompound := readsLines_setting depth bs "compound=true;" (marks "compound=true") rfl
    (by decide) rfl
  have hnode := readsLines_setting depth bs "node [fontname=\"Helvetica\", fontsize=10];"
    (marks "node [fontname=" ++ .text "Helvetica" :: marks ", fontsize=10]") rfl (by decide) rfl
  have hedge := readsLines_setting depth bs "edge [fontname=\"Helvetica\", fontsize=9];"
    (marks "edge [fontname=" ++ .text "Helvetica" :: marks ", fontsize=9]") rfl (by decide) rfl
  exact hrankdir.cons (hcompound.cons (hnode.cons hedge))

/-- The attributes of a node before its label. -/
def attributes (look : String × String) : String :=
  "[shape=" ++ look.1 ++ ", style=filled, fillcolor=" ++ look.2 ++ ", label="

theorem bare_look (n : Node) : Bare (look n).1 ∧ Bare (look n).2 := by
  have hall : ∀ l ∈ [("diamond", "lightyellow"), ("invtriangle", "lightyellow"),
      ("circle", "lightgreen"), ("octagon", "lightsalmon"), ("box3d", "lightblue"),
      ("box", "lightblue"), ("component", "white")], Bare l.1 ∧ Bare l.2 := by decide
  apply hall
  unfold look
  dsimp only
  split_ifs <;> decide

theorem bare_attributes (n : Node) : Bare (attributes (look n)) := by
  obtain ⟨hshape, hcolor⟩ := bare_look n
  exact ((((by decide : Bare "[shape=").append hshape).append
    (by decide : Bare ", style=filled, fillcolor=")).append hcolor).append
      (by decide : Bare ", label=")

/-- What comes after the name of a node is no arrow. -/
theorem marks_attributes (look : String × String) :
    ∃ rest, marks (attributes look) = .mark '[' :: rest := by
  simp only [attributes, marks_append]
  exact ⟨_, rfl⟩

theorem marks_end : marks "];" = [.mark ']', .mark ';'] := rfl

/-- A label of two lines. -/
theorem scans_label (s t : String) : ∃ text, Scans .outside
    ('"' :: ((escape s).toList ++ ['\\', 'n'] ++ (escape t).toList ++ ['"'])) .outside
      [.text text] := by
  have hbreak : ∀ read, Scans (.inside read) ['\\', 'n'] (.inside ('n' :: '\\' :: read)) [] := by
    intro read rest
    simp [scan]
  exact ⟨_, scans_open.cons ((((scans_escape s).append (hbreak _)).append
    (scans_escape t)).append (scans_close _))⟩

theorem readsLines_nodeStatement (depth : Nat) (bs : List Block) (n : Node) :
    ReadsLines [indent depth (nodeStatement n)] bs bs [⟨bs, .node n.id⟩] := by
  obtain ⟨hquote, hquiet⟩ := bare_attributes n
  obtain ⟨rest, hrest⟩ := marks_attributes (look n)
  obtain ⟨text, htext⟩ := scans_label n.id n.value.componentName
  have hchars : (nodeStatement n).toList = (quoted n.id).toList ++ ([' '] ++
      ((attributes (look n)).toList ++ ('"' :: ((escape n.id).toList ++ ['\\', 'n'] ++
        (escape n.value.componentName).toList ++ ['"']) ++ "];".toList))) := by
    simp [nodeStatement, attributes]
  have hts := (scans_quoted n.id).append ((scans_blank (c := ' ') rfl).append
    ((scans_bare hquote).append (htext.append (scans_bare (s := "];") (by decide)))))
  refine readsLines_statement depth
    ([.text n.id] ++ (marks (attributes (look n)) ++ ([.text text] ++ [.mark ']']))) ?_ ?_ ?_
  · rw [hchars]
    simpa [marks_end] using hts
  · exact (quiet_text _).append (hquiet.append ((quiet_text _).append (by decide)))
  · intro old
    rw [hrest]
    rfl

/-- A label with an arrow. -/
theorem scans_arrow (s t : String) : ∃ text, Scans .outside
    ('"' :: ((escape s).toList ++ " → ".toList ++ (escape t).toList ++ ['"'])) .outside
      [.text text] :=
  ⟨_, scans_open.cons ((((scans_escape s).append (scans_plain _ (by decide) (by decide))).append
    (scans_escape t)).append (scans_close _))⟩

/-- How an edge is drawn after its label. -/
def stroke (e : Edge) : String := if e.isContinuation then ", style=dashed, color=gray50" else ""

theorem bare_stroke (e : Edge) : Bare (stroke e) := by
  unfold stroke
  split <;> decide

theorem readsLines_edgeStatement (depth : Nat) (bs : List Block) (e : Edge) :
    ReadsLines [indent depth (edgeStatement e)] bs bs
      [⟨bs, .edge e.source.node e.target.node⟩] := by
  obtain ⟨hquote, hquiet⟩ := bare_stroke e
  obtain ⟨text, htext⟩ := scans_arrow e.source.name e.target.name
  have hchars : (edgeStatement e).toList = (quoted e.source.node).toList ++ (" -> ".toList ++
      ((quoted e.target.node).toList ++ (" [label=".toList ++ ('"' :: (
        (escape e.source.name).toList ++ " → ".toList ++ (escape e.target.name).toList ++ ['"']) ++
          ((stroke e).toList ++ "];".toList))))) := by
    simp [edgeStatement, stroke]
  have hts := (scans_quoted e.source.node).append ((scans_bare (s := " -> ") (by decide)).append
    ((scans_quoted e.target.node).append ((scans_bare (s := " [label=") (by decide)).append
      (htext.append ((scans_bare hquote).append (scans_bare (s := "];") (by decide)))))))
  refine readsLines_statement depth ([.text e.source.node] ++ (marks " -> " ++
    ([.text e.target.node] ++ (marks " [label=" ++ ([.text text] ++
      (marks (stroke e) ++ [.mark ']'])))))) ?_ ?_ fun old => rfl
  · rw [hchars]
    simpa [marks_end] using hts
  · exact (quiet_text _).append (Quiet.append (by decide) ((quiet_text _).append
      (Quiet.append (by decide) ((quiet_text _).append (hquiet.append (by decide))))))

/-- The block that the cluster of a node is, once its label is set. -/
def cluster (id : NodeId) : Block := ⟨some ("cluster_" ++ sanitized id), some id⟩

theorem scans_clusterName (id : NodeId) : Scans .outside (clusterName id).toList .outside
    [.text ("cluster_" ++ sanitized id)] := by
  have hts := scans_open.append ((scans_plain "cluster_".toList (by decide) (by decide)).append
    ((scans_escape (sanitized id)).append (scans_close _)))
  have hname : String.ofList
      ((sanitized id).toList.reverse ++ ("cluster_".toList.reverse ++ [])).reverse =
        "cluster_" ++ sanitized id := by
    rw [← String.ofList_toList (s := "cluster_" ++ sanitized id)]
    simp
  rw [hname] at hts
  simpa [clusterName] using hts

theorem readsLines_open (depth : Nat) (bs : List Block) (id : NodeId) :
    ReadsLines [indent depth ("subgraph " ++ clusterName id ++ " \x7b")] bs
      (⟨some ("cluster_" ++ sanitized id), none⟩ :: bs) [] := by
  have hts := (scans_bare (s := "subgraph ") (by decide)).append
    ((scans_clusterName id).append (scans_bare (s := " \x7b") (by decide)))
  exact readsLines_brace depth (by simpa using hts) fun old => rfl

theorem readsLines_close (depth : Nat) (bs : List Block) (b : Block) :
    ReadsLines [indent depth "\x7d"] (b :: bs) bs [] :=
  readsLines_brace depth (scans_bare (by decide)) fun old => rfl

theorem readsLines_label (depth : Nat) (bs : List Block) (b : Block) (id : NodeId) :
    ReadsLines [indent depth ("label=\"" ++ escape id ++ "\";")] (b :: bs)
      ({ b with label := some id } :: bs) [] := by
  have hts := (scans_bare (s := "label=") (by decide)).append
    ((scans_quoted id).append (scans_bare (s := ";") (by decide)))
  refine readsLines_statement depth (marks "label=" ++ [.text id]) ?_
    (Quiet.append (by decide) (quiet_text _)) fun old => ?_
  · have hend : marks ";" = [.mark ';'] := rfl
    simpa [quoted, hend] using hts
  · rw [List.append_nil]
    rfl

/-- The head of a cluster names the node that it is for, and holds that node. -/
theorem readsLines_clusterHead (depth : Nat) (bs : List Block) (n : Node) :
    ReadsLines (indent depth ("subgraph " ++ clusterName n.id ++ " \x7b") ::
      (clusterHead n).map (indent (depth + 1))) bs (cluster n.id :: bs)
        [⟨cluster n.id :: bs, .node n.id⟩] := by
  have hstyle := readsLines_setting (depth + 1) (cluster n.id :: bs) "style=rounded;"
    (marks "style=rounded") rfl (by decide) rfl
  have hcolor : ReadsLines
      [indent (depth + 1) ("color=" ++ (if n.kind.lambda then "purple" else "gray50") ++ ";")]
        (cluster n.id :: bs) (cluster n.id :: bs) [] := by
    cases n.kind.lambda with
    | true => exact readsLines_setting _ _ _ (marks "color=purple") rfl (by decide) rfl
    | false => exact readsLines_setting _ _ _ (marks "color=gray50") rfl (by decide) rfl
  exact (readsLines_open depth bs n.id).cons ((readsLines_label _ bs _ n.id).cons (hstyle.cons
    (hcolor.cons (readsLines_nodeStatement _ _ n))))

end Lines

/-- The block of the whole drawing. -/
def whole : Block := ⟨none, none⟩

/-- The clusters of nodes in the whole drawing. -/
def blocksOf (within : List Node) : List Block :=
  within.map (fun n => cluster n.id) ++ [whole]

/-- The statement of a node that is drawn in the clusters of some others. -/
def locatedNode (p : List Node × Node) : Located := ⟨blocksOf p.1, .node p.2.id⟩

def locatedEdge (e : Edge) : Located := ⟨[whole], .edge e.source.node e.target.node⟩

mutual

/-- The lines of an outline hold the statements of its nodes where they are placed. -/
theorem readsLines_outlineLines (depth : Nat) (within : List Node) : ∀ o : Outline,
    ReadsLines (outlineLines depth o) (blocksOf within) (blocksOf within)
      ((o.placed within).map locatedNode)
  | .item n [] => by
    rw [outlineLines, Outline.placed]
    exact readsLines_nodeStatement depth _ n
  | .item n (child :: children) => by
    have hhead := readsLines_clusterHead depth (blocksOf within) n
    have hchild := readsLines_outlineLines (depth + 1) (n :: within) child
    have hchildren := readsLines_forestLines (depth + 1) (n :: within) children
    have hclose := readsLines_close depth (blocksOf within) (cluster n.id)
    have hall := hhead.append ((hchild.append hchildren).append hclose)
    rw [outlineLines, Outline.placed]
    simpa [locatedNode, blocksOf] using hall

theorem readsLines_forestLines (depth : Nat) (within : List Node) : ∀ os : List Outline,
    ReadsLines (forestLines depth os) (blocksOf within) (blocksOf within)
      ((placedAll within os).map locatedNode)
  | [] => by
    rw [forestLines, placedAll]
    exact readsLines_nil _
  | o :: os => by
    rw [forestLines, placedAll, List.map_append]
    exact (readsLines_outlineLines depth within o).append
      (readsLines_forestLines depth within os)

end

theorem readsLines_edges (edges : List Edge) :
    ReadsLines ((edges.map edgeStatement).map (indent 1)) [whole] [whole]
      (edges.map locatedEdge) := by
  induction edges with
  | nil => exact readsLines_nil _
  | cons e edges ih => exact (readsLines_edgeStatement 1 [whole] e).cons ih

/-- A drawing is read as the statements of the nodes where they are placed, and then those of the
edges in their order. -/
theorem read_dot (g : Graph) :
    read g.dot = some (g.placements.map locatedNode ++ g.edges.map locatedEdge) := by
  have hopen : ReadsLines ["digraph npg \x7b"] [] [whole] [] := by
    rw [← indent_zero "digraph npg \x7b"]
    exact readsLines_brace 0 (scans_bare (by decide)) fun old => rfl
  have hempty : ReadsLines [""] [whole] [whole] [] :=
    ⟨[], scans_blank rfl, fun old => by rw [List.append_nil]; rfl⟩
  have hclose : ReadsLines ["\x7d"] [whole] [] [] := by
    rw [← indent_zero "\x7d"]
    exact readsLines_close 0 [] whole
  have hall := hopen.cons ((((readsLines_graphHead 1 [whole]).append
    (readsLines_forestLines 1 [] g.forest)).append (hempty.cons (readsLines_edges g.edges))).append
      hclose)
  obtain ⟨ts, hts, hrun⟩ := hall
  have hscan : scan .outside g.dot.toList = some ts := by
    have htext := hts []
    rw [List.append_nil, scan, Option.map_some, List.append_nil] at htext
    exact htext
  have hread := hrun []
  simp only [List.nil_append, List.append_nil] at hread
  rw [read, hscan, Option.bind_eq_bind, Option.bind_some, hread]
  rfl

end PortNet.Drawing
