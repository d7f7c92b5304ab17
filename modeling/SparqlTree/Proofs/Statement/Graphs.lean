import SparqlTree.Statement.Outline

/-!
# Changing the graphs of a tree

A node that can name a graph has a field for it. `mapGraph` changes every such field of a tree, at
any depth, in templates and in attached WHERE bodies as well (`outline_mapGraph`), and nothing else:
without its graphs the tree is the one it was (`withoutGraphs_mapGraph`), so it mentions the same
variables.
-/

namespace SparqlTree

/-- The graph field of a head, if it has one. -/
def Head.graphField? : Head → Option (Option Text)
  | group graph _ => some graph
  | select p | describe p => some p.graph
  | _ => none

/-- The head with its graph field emptied. -/
def Head.withoutGraph : Head → Head
  | group _ optional => group none optional
  | select p => select { p with graph := none }
  | describe p => describe { p with graph := none }
  | head => head

/-- The graph field of a node, if it has one. -/
def Node.graphField? : Node → Option (Option Text)
  | block head => head.graphField?
  | _ => none

/-- The node with its graph changed, if it is of a sort that can name one. -/
def Node.mapGraph (f : Option Text → Option Text) : Node → Node
  | block head => block (head.mapGraph f)
  | node => node

/-- The graph fields of the nodes in an outline. -/
def graphFieldsOf (entries : List OutlineEntry) : List (Option Text) :=
  entries.filterMap fun entry => entry.node.graphField?

namespace Head

variable (f : Option Text → Option Text) (head : Head)

@[simp] theorem graphField?_mapGraph : (head.mapGraph f).graphField? = head.graphField?.map f := by
  cases head <;> rfl

@[simp] theorem withoutGraph_mapGraph : (head.mapGraph f).withoutGraph = head.withoutGraph := by
  cases head <;> rfl

@[simp] theorem variableNames_mapGraph : (head.mapGraph f).variableNames = head.variableNames := by
  cases head <;> rfl

theorem mapGraph_mapGraph (g : Option Text → Option Text) :
    (head.mapGraph f).mapGraph g = head.mapGraph (g ∘ f) := by
  cases head <;> rfl

theorem mapGraph_id : head.mapGraph id = head := by
  cases head <;> rfl

/-- Two changes agree on a head if they agree on its graph field. -/
theorem mapGraph_congr {f g : Option Text → Option Text}
    (h : ∀ field ∈ head.graphField?, f field = g field) : head.mapGraph f = head.mapGraph g := by
  cases head with
  | group graph optional => exact congrArg (group · optional) (h graph rfl)
  | select p => exact congrArg (fun graph => select { p with graph }) (h p.graph rfl)
  | describe p => exact congrArg (fun graph => describe { p with graph }) (h p.graph rfl)
  | _ => rfl

theorem graphField?_eq_some {graph : Text} :
    head.graphField? = some (some graph) ↔ head.graph? = some graph := by
  cases head <;> simp [graphField?, graph?]

end Head

theorem Node.graphField?_mapGraph (f : Option Text → Option Text) (node : Node) :
    (node.mapGraph f).graphField? = node.graphField?.map f := by
  cases node with
  | block head => exact head.graphField?_mapGraph f
  | _ => rfl

namespace Statement

mutual

/-- The tree with the graph field of every node emptied. -/
def withoutGraphs : Statement → Statement
  | simple text => simple text
  | block head body => block head.withoutGraph (withoutGraphsAll body)
  | update head template attached =>
    update head (withoutGraphsAll template)
      (match attached with
      | some body => some (withoutGraphsAll body)
      | none => none)

/-- The trees with the graph field of every node emptied. -/
def withoutGraphsAll : List Statement → List Statement
  | [] => []
  | s :: ss => withoutGraphs s :: withoutGraphsAll ss

end

theorem withoutGraphsAll_map {f : Statement → Statement} {ss : List Statement}
    (h : ∀ s ∈ ss, (f s).withoutGraphs = s.withoutGraphs) :
    withoutGraphsAll (ss.map f) = withoutGraphsAll ss := by
  induction ss with
  | nil => rfl
  | cons s ss ih =>
    rw [List.map_cons, withoutGraphsAll, withoutGraphsAll, h s (by simp),
      ih fun t ht => h t (List.mem_cons_of_mem _ ht)]

variable (f : Option Text → Option Text)

theorem mapGraph_block (head : Head) (body : List Statement) :
    (block head body).mapGraph f = block (head.mapGraph f) (body.map (mapGraph f)) := by
  rw [mapGraph, mapGraphAll_eq_map]

theorem mapGraph_update (head : UpdateHead) (template : List Statement)
    (attached : Option (List Statement)) : (update head template attached).mapGraph f =
      update head (template.map (mapGraph f)) (attached.map (·.map (mapGraph f))) := by
  cases attached <;> simp [mapGraph]

theorem outline_update (depth : Nat) (head : UpdateHead) (template : List Statement)
    (attached : Option (List Statement)) : (update head template attached).outline depth =
      ⟨depth, .update head attached.isSome⟩ :: outlineAll (depth + 1) template ++
        attached.elim [] fun body => ⟨depth + 1, .attached⟩ :: outlineAll (depth + 2) body := by
  cases attached <;> rw [outline] <;> rfl

/-- Nothing but graph fields is changed. -/
theorem withoutGraphs_mapGraph (s : Statement) :
    (s.mapGraph f).withoutGraphs = s.withoutGraphs := by
  induction s using Statement.induct with
  | simple text => rfl
  | block head body ih =>
    rw [mapGraph_block, withoutGraphs, withoutGraphs, head.withoutGraph_mapGraph,
      withoutGraphsAll_map ih]
  | update head template attached ih₁ ih₂ =>
    rw [mapGraph_update]
    cases attached with
    | none => simp [withoutGraphs, withoutGraphsAll_map ih₁]
    | some body =>
      simp [withoutGraphs, withoutGraphsAll_map ih₁, withoutGraphsAll_map (ih₂ body rfl)]

theorem unknowns_mapGraph (s : Statement) : (s.mapGraph f).unknowns = s.unknowns := by
  induction s using Statement.induct with
  | simple text => rfl
  | block head body ih =>
    rw [mapGraph_block, unknowns, unknowns, head.variableNames_mapGraph, unknownsAll_map ih]
  | update head template attached ih₁ ih₂ =>
    rw [mapGraph_update]
    cases attached with
    | none => simp [unknowns, unknownsAll_map ih₁]
    | some body => simp [unknowns, unknownsAll_map ih₁, unknownsAll_map (ih₂ body rfl)]

/-! ## The outline of a changed tree -/

/-- Changes the graph fields of the nodes in an outline. -/
def mapGraphOutline (entries : List OutlineEntry) : List OutlineEntry :=
  entries.map fun entry => ⟨entry.depth, entry.node.mapGraph f⟩

theorem outlineAll_map {g : Statement → Statement} {ss : List Statement}
    (h : ∀ s ∈ ss, ∀ depth, (g s).outline depth = mapGraphOutline f (s.outline depth))
    (depth : Nat) : outlineAll depth (ss.map g) = mapGraphOutline f (outlineAll depth ss) := by
  induction ss with
  | nil => rfl
  | cons s ss ih =>
    rw [List.map_cons, outlineAll, outlineAll, h s (by simp),
      ih fun t ht => h t (List.mem_cons_of_mem _ ht), mapGraphOutline, mapGraphOutline,
      mapGraphOutline, List.map_append]

/-- The graph field of every node is changed, wherever the node stands. -/
theorem outline_mapGraph (s : Statement) (depth : Nat) :
    (s.mapGraph f).outline depth = mapGraphOutline f (s.outline depth) := by
  induction s using Statement.induct generalizing depth with
  | simple text => rfl
  | block head body ih =>
    rw [mapGraph_block, outline, outline, outlineAll_map f ih]
    rfl
  | update head template attached ih₁ ih₂ =>
    rw [mapGraph_update]
    cases attached with
    | none => simp [outline, outlineAll_map f ih₁, mapGraphOutline, Node.mapGraph]
    | some body =>
      simp [outline, outlineAll_map f ih₁, outlineAll_map f (ih₂ body rfl), mapGraphOutline,
        Node.mapGraph]

theorem graphFieldsOf_mapGraphOutline (entries : List OutlineEntry) :
    graphFieldsOf (mapGraphOutline f entries) = (graphFieldsOf entries).map f := by
  simp only [graphFieldsOf, mapGraphOutline, List.filterMap_map, List.map_filterMap,
    Node.graphField?_mapGraph, Function.comp_def]

theorem mem_graphFieldsOf_append {entries others : List OutlineEntry} {field : Option Text} :
    field ∈ graphFieldsOf (entries ++ others) ↔
      field ∈ graphFieldsOf entries ∨ field ∈ graphFieldsOf others := by
  simp [graphFieldsOf, List.filterMap_append]

theorem mem_graphFieldsOf_block {depth : Nat} {head : Head} {field : Option Text} :
    field ∈ graphFieldsOf [⟨depth, .block head⟩] ↔ field ∈ head.graphField? := by
  simp [graphFieldsOf, Node.graphField?]

/-! ## One change after another -/

theorem mapGraph_mapGraph (g : Option Text → Option Text) (s : Statement) :
    (s.mapGraph f).mapGraph g = s.mapGraph (g ∘ f) := by
  induction s using Statement.induct with
  | simple text => rfl
  | block head body ih =>
    rw [mapGraph_block, mapGraph_block, mapGraph_block, head.mapGraph_mapGraph, List.map_map]
    exact congrArg (block _) (List.map_congr_left ih)
  | update head template attached ih₁ ih₂ =>
    have htemplate :
        (template.map (mapGraph f)).map (mapGraph g) = template.map (mapGraph (g ∘ f)) :=
      List.map_map.trans (List.map_congr_left ih₁)
    rw [mapGraph_update, mapGraph_update, mapGraph_update, htemplate]
    cases attached with
    | none => rfl
    | some body =>
      have hbody : (body.map (mapGraph f)).map (mapGraph g) = body.map (mapGraph (g ∘ f)) :=
        List.map_map.trans (List.map_congr_left (ih₂ body rfl))
      exact congrArg (fun body => update head _ (some body)) hbody

theorem mapGraph_id (s : Statement) : s.mapGraph id = s := by
  induction s using Statement.induct with
  | simple text => rfl
  | block head body ih =>
    rw [mapGraph_block, head.mapGraph_id, List.map_congr_left ih, List.map_id']
  | update head template attached ih₁ ih₂ =>
    rw [mapGraph_update, List.map_congr_left ih₁, List.map_id']
    cases attached with
    | none => rfl
    | some body => rw [Option.map_some, List.map_congr_left (ih₂ body rfl), List.map_id']

/-- Two changes agree on a list of trees if they agree on the graph fields in it. -/
theorem map_mapGraph_congr {f g : Option Text → Option Text} {ss : List Statement}
    (h : ∀ s ∈ ss, ∀ depth, (∀ field ∈ graphFieldsOf (s.outline depth), f field = g field) →
      s.mapGraph f = s.mapGraph g)
    (depth : Nat) (hfields : ∀ field ∈ graphFieldsOf (outlineAll depth ss), f field = g field) :
    ss.map (mapGraph f) = ss.map (mapGraph g) := by
  induction ss with
  | nil => rfl
  | cons s ss ih =>
    have hs : s.mapGraph f = s.mapGraph g := h s (by simp) depth fun field hfield =>
      hfields field (mem_graphFieldsOf_append.2 (.inl hfield))
    have hss := ih (fun t ht => h t (List.mem_cons_of_mem _ ht)) fun field hfield =>
      hfields field (mem_graphFieldsOf_append.2 (.inr hfield))
    rw [List.map_cons, List.map_cons, hs, hss]

/-- What a change does to a tree is what it does to the graph fields in it. -/
theorem mapGraph_congr {f g : Option Text → Option Text} (s : Statement) (depth : Nat)
    (h : ∀ field ∈ graphFieldsOf (s.outline depth), f field = g field) :
    s.mapGraph f = s.mapGraph g := by
  induction s using Statement.induct generalizing depth with
  | simple text => rfl
  | block head body ih =>
    rw [outline, ← List.singleton_append] at h
    have hhead : head.mapGraph f = head.mapGraph g := head.mapGraph_congr fun field hfield =>
      h field (mem_graphFieldsOf_append.2 (.inl (mem_graphFieldsOf_block.2 hfield)))
    have hbody := map_mapGraph_congr ih (depth + 1) fun field hfield =>
      h field (mem_graphFieldsOf_append.2 (.inr hfield))
    rw [mapGraph_block, mapGraph_block, hhead, hbody]
  | update head template attached ih₁ ih₂ =>
    -- An update and an attached WHERE body have no graph fields of their own.
    rw [outline_update] at h
    have htemplate := map_mapGraph_congr ih₁ (depth + 1) fun field hfield =>
      h field (mem_graphFieldsOf_append.2 (.inl hfield))
    rw [mapGraph_update, mapGraph_update, htemplate]
    cases attached with
    | none => rfl
    | some body =>
      have hbody := map_mapGraph_congr (ih₂ body rfl) (depth + 2) fun field hfield =>
        h field (mem_graphFieldsOf_append.2 (.inr hfield))
      exact congrArg (fun body => update head _ (some body)) hbody

/-! ## Graphs and graph fields -/

theorem mem_graphsAll_outline {x : Text} {ss : List Statement}
    (h : ∀ s ∈ ss, ∀ depth, x ∈ s.graphs ↔ some x ∈ graphFieldsOf (s.outline depth))
    (depth : Nat) : x ∈ graphsAll ss ↔ some x ∈ graphFieldsOf (outlineAll depth ss) := by
  induction ss with
  | nil => simp [graphsAll, outlineAll, graphFieldsOf]
  | cons s ss ih =>
    rw [graphsAll, outlineAll, NameSet.mem_union, mem_graphFieldsOf_append, h s (by simp) depth,
      ih fun t ht => h t (List.mem_cons_of_mem _ ht)]

/-- The graphs of a tree are those that stand in the graph fields of its nodes. -/
theorem mem_graphs_outline {x : Text} (s : Statement) (depth : Nat) :
    x ∈ s.graphs ↔ some x ∈ graphFieldsOf (s.outline depth) := by
  induction s using Statement.induct generalizing depth with
  | simple text => simp [graphs, outline, graphFieldsOf, Node.graphField?]
  | block head body ih =>
    -- A field that is there and empty names no graph.
    have hhead : some (some x) = head.graphField? ↔ head.graph? = some x := by
      rw [← head.graphField?_eq_some, eq_comm]
    rw [graphs, outline, NameSet.mem_union, NameSet.mem_ofOption,
      mem_graphsAll_outline ih (depth + 1), ← hhead]
    cases hfield : head.graphField? <;> simp [graphFieldsOf, Node.graphField?, hfield]
  | update head template attached ih₁ ih₂ =>
    cases attached with
    | none =>
      simp [graphs, outline, graphFieldsOf, Node.graphField?, mem_graphsAll_outline ih₁ (depth + 1)]
    | some body =>
      simp [graphs, outline, graphFieldsOf, Node.graphField?, mem_graphsAll_outline ih₁ (depth + 1),
        mem_graphsAll_outline (ih₂ body rfl) (depth + 2)]

end Statement

end SparqlTree
