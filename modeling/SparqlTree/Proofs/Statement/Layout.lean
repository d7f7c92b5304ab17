import SparqlTree.Query.Basic
import SparqlTree.Proofs.Text.Caseless

/-!
# The lines of a statement

A statement is written on lines: those that open a block, those of the statements in its body, and
those that close it. `Statement.layout` lists them, and the text of a statement is its lines with
line feeds between (`cons_render`). No line but the last one leaves a string or IRI reference open
in the queries that are of interest here, so the tokens of the text are those of its lines.
-/

namespace SparqlTree

/-! ## 1. Lines -/

/-- The line that begins a WHERE body. -/
def whereLine : Text := Text.spaced [Keyword.whereClause.name, ['\x7b']]

/-- The line that begins the body of an optional group. -/
def optionalLine : Text := Text.spaced [Keyword.optional.name, ['\x7b']]

/-- The line that begins the body of a group in a graph. -/
def graphLine (graph : Text) : Text :=
  Text.spaced [Keyword.graph.name, Text.angled graph, ['\x7b']]

/-- The line that ends a body. -/
def closeLine : Text := ['\x7d']

namespace Projection

/-- The keyword and what is projected. -/
def firstLine (k : Keyword) (p : Projection) : Text :=
  Text.spaced (k.name :: p.quantifier.toList.map SetQuantifier.name
    ++ if p.projected = [] then [] else [p.projected])

/-- The line of the FROM clause. -/
def datasetLine (p : Projection) : List Text :=
  p.graph.toList.map fun graph => Text.spaced (Keyword.fromClause.name ::
    (if p.fromNamed then [Keyword.named.name] else []) ++ [Text.angled graph])

/-- The lines before the body. -/
def opening (k : Keyword) (p : Projection) : List Text :=
  (if p.inBlock then [['\x7b']] else []) ++ p.firstLine k :: p.datasetLine ++ [whereLine]

/-- The lines behind the body. -/
def closing (p : Projection) : List Text :=
  closeLine :: p.modifiers ++ if p.inBlock then [closeLine] else []

end Projection

namespace Head

/-- The lines before the body. -/
def opening : Head → List Text
  | group none false => [['\x7b']]
  | group none true => [optionalLine]
  | group (some graph) false => [graphLine graph]
  | group (some graph) true => [optionalLine, graphLine graph]
  | pattern => [whereLine]
  | select p => p.opening .select
  | describe p => p.opening .describe
  | construct template _ =>
    Text.spaced [Keyword.construct.name, ['\x7b']] ::
      (if template.trim = [] then [] else [template.trim]) ++ [closeLine, whereLine]
  | ask => [Text.spaced [Keyword.ask.name, ['\x7b']]]

/-- The lines behind the body. -/
def closing : Head → List Text
  | group (some _) true => [closeLine, closeLine]
  | group .. | pattern | ask => [closeLine]
  | select p | describe p => p.closing
  | construct _ modifiers => closeLine :: modifiers

end Head

/-- The keyword of an operation. -/
def Operation.keyword : Operation → Keyword
  | insert => .insert
  | delete => .delete

/-- The line before the template of an update. -/
def UpdateHead.opening (head : UpdateHead) : Text :=
  Text.spaced (head.operation.keyword.name ::
    (if head.data then [Keyword.data.name] else []) ++ [['\x7b']])

namespace Statement

mutual

/-- The lines of a statement. -/
def layout : Statement → List Text
  | simple text => [text]
  | block head body => head.opening ++ layoutAll body ++ head.closing
  | update head template attached =>
    head.opening :: layoutAll template ++ closeLine ::
      match attached with
      | some body => whereLine :: layoutAll body ++ [closeLine]
      | none => []

/-- The lines of several statements. -/
def layoutAll : List Statement → List Text
  | [] => []
  | s :: ss => layout s ++ layoutAll ss

end

theorem layoutAll_append (ss ts : List Statement) :
    layoutAll (ss ++ ts) = layoutAll ss ++ layoutAll ts := by
  induction ss with
  | nil => rfl
  | cons s ss ih => rw [List.cons_append, layoutAll, layoutAll, ih, List.append_assoc]

/-- A simple statement is one line. -/
theorem lineTokens_layoutAll_simple (t : Text) (ss : List Statement) :
    Text.lineTokens (layoutAll (.simple t :: ss)) =
      ['\n'] :: (Text.tokens t ++ Text.lineTokens (layoutAll ss)) := by
  rw [layoutAll, layout, List.singleton_append, Text.lineTokens_cons]

theorem lineTokens_layout_block (head : Head) (body : List Statement) :
    Text.lineTokens (layout (.block head body)) =
      Text.lineTokens head.opening ++ Text.lineTokens (layoutAll body) ++
        Text.lineTokens head.closing := by
  rw [layout, Text.lineTokens_append, Text.lineTokens_append]

theorem lineTokens_layoutAll_block (head : Head) (body ss : List Statement) :
    Text.lineTokens (layoutAll (.block head body :: ss)) =
      Text.lineTokens head.opening ++ Text.lineTokens (layoutAll body) ++
        Text.lineTokens head.closing ++ Text.lineTokens (layoutAll ss) := by
  rw [layoutAll, Text.lineTokens_append, lineTokens_layout_block]

end Statement

/-! ## 2. The text of the lines -/

namespace Text

theorem onNewLines_cons (l : Text) (ls : List Text) :
    onNewLines (l :: ls) = '\n' :: l ++ onNewLines ls := rfl

theorem onNewLines_append (ls ms : List Text) :
    onNewLines (ls ++ ms) = onNewLines ls ++ onNewLines ms := List.flatMap_append

theorem cons_lines (l : Text) (ls : List Text) :
    '\n' :: lines (l :: ls) = onNewLines (l :: ls) := by
  induction ls generalizing l with
  | nil => simp [lines, onNewLines]
  | cons m ls ih =>
    rw [onNewLines_cons, ← ih]
    simp [lines]

/-- The tokens of several lines are those of one line after the other; only in the last line may a
string or IRI reference stay open. -/
theorem tokens_onNewLines {ls : List Text} {l : Text} (h : ∀ m ∈ ls, Closed m) :
    tokens (onNewLines (ls ++ [l])) = lineTokens (ls ++ [l]) := by
  cases hls : ls ++ [l] with
  | nil => simp at hls
  | cons k ks => rw [← cons_lines, tokens_newline, ← hls, tokens_lines h]

theorem tokens_onNewLines_of_closed {ls : List Text} (h : ∀ l ∈ ls, Closed l) :
    tokens (onNewLines ls) = lineTokens ls := by
  rcases List.eq_nil_or_concat ls with rfl | ⟨ls, l, rfl⟩
  · exact tokens_nil
  · rw [List.concat_eq_append] at h ⊢
    exact tokens_onNewLines fun m hm => h m (List.mem_append_left _ hm)

end Text

/-- The keywords that stand in the lines, letter by letter. -/
theorem Keyword.names_in_lines :
    whereClause.name = "WHERE".toList ∧ optional.name = "OPTIONAL".toList ∧
    graph.name = "GRAPH".toList ∧ fromClause.name = "FROM".toList ∧ named.name = "NAMED".toList ∧
    construct.name = "CONSTRUCT".toList ∧ ask.name = "ASK".toList ∧
    insert.name = "INSERT".toList ∧ delete.name = "DELETE".toList ∧ data.name = "DATA".toList :=
  ⟨rfl, rfl, rfl, rfl, rfl, rfl, rfl, rfl, rfl, rfl⟩

namespace Projection

theorem firstLine_text (k : Keyword) (p : Projection) :
    p.firstLine k = k.name ++ (match p.quantifier with
      | some q => ' ' :: q.name
      | none => []) ++ if p.projected = [] then [] else ' ' :: p.projected := by
  rw [firstLine]
  by_cases hp : p.projected = [] <;> cases p.quantifier <;> simp [Text.spaced, hp]

theorem onNewLines_datasetLine (p : Projection) :
    Text.onNewLines p.datasetLine = match p.graph with
      | some graph =>
        "\nFROM ".toList ++ (if p.fromNamed then "NAMED ".toList else []) ++ Text.angled graph
      | none => [] := by
  rw [datasetLine]
  cases p.graph with
  | none => rfl
  | some graph =>
    cases p.fromNamed <;> simp [Text.onNewLines, Text.spaced, Keyword.names_in_lines]

/-- A projection is written as its lines before the body, the body, and its lines behind it. -/
theorem render_eq (k : Keyword) (p : Projection) (body : Text) :
    p.render k.name body =
      let form := p.firstLine k ++ Text.onNewLines p.datasetLine ++ "\nWHERE ".toList ++ body
        ++ Text.onNewLines p.modifiers
      if p.inBlock then "\x7b\n".toList ++ form ++ "\n\x7d".toList else form := by
  rw [firstLine_text, onNewLines_datasetLine]
  rfl

theorem cons_render (k : Keyword) (p : Projection) (ls : List Text) :
    '\n' :: p.render k.name ('\x7b' :: Text.onNewLines ls ++ ['\n', '\x7d'])
      = Text.onNewLines (p.opening k ++ ls ++ p.closing) := by
  rw [render_eq]
  cases hin : p.inBlock <;>
    simp [opening, closing, hin, Text.onNewLines, whereLine, closeLine, Text.spaced,
      Keyword.names_in_lines]

end Projection

theorem Head.cons_render (head : Head) (ls : List Text) :
    '\n' :: head.render ('\x7b' :: Text.onNewLines ls ++ ['\n', '\x7d'])
      = Text.onNewLines (head.opening ++ ls ++ head.closing) := by
  rw [Text.onNewLines_append, Text.onNewLines_append]
  -- The text of each head is broken at the line breaks that it has around the body.
  cases head with
  | group graph optional =>
    cases graph with
    | none =>
      cases optional with
      | false =>
        show '\n' :: ('\x7b' :: Text.onNewLines ls ++ ['\n', '\x7d']) = _
        simp [opening, closing, Text.onNewLines, closeLine]
      | true =>
        show '\n' :: ("OPTIONAL ".toList ++ _) = _
        simp [opening, closing, Text.onNewLines, closeLine, optionalLine, Text.spaced,
          Keyword.names_in_lines]
    | some graph =>
      cases optional with
      | false =>
        show '\n' :: ("GRAPH ".toList ++ Text.angled graph ++ ' ' :: _) = _
        simp [opening, closing, Text.onNewLines, closeLine, graphLine, Text.spaced,
          Keyword.names_in_lines]
      | true =>
        show '\n' :: ("OPTIONAL \x7b\nGRAPH ".toList ++ Text.angled graph ++ ' ' :: _
          ++ "\n\x7d".toList) = _
        simp [opening, closing, Text.onNewLines, closeLine, graphLine, optionalLine, Text.spaced,
          Keyword.names_in_lines]
  | select p =>
    rw [← Text.onNewLines_append, ← Text.onNewLines_append]
    exact p.cons_render .select ls
  | describe p =>
    rw [← Text.onNewLines_append, ← Text.onNewLines_append]
    exact p.cons_render .describe ls
  | construct template modifiers =>
    show '\n' :: ("CONSTRUCT \x7b".toList
      ++ (if template.trim = [] then [] else '\n' :: template.trim)
      ++ "\n\x7d\nWHERE ".toList ++ _ ++ Text.onNewLines modifiers) = _
    by_cases ht : template.trim = [] <;>
      simp [opening, closing, Text.onNewLines, whereLine, closeLine, Text.spaced,
        Keyword.names_in_lines, ht]
  | pattern =>
    show '\n' :: ("WHERE ".toList ++ _) = _
    simp [opening, closing, Text.onNewLines, whereLine, closeLine, Text.spaced,
      Keyword.names_in_lines]
  | ask =>
    show '\n' :: ("ASK ".toList ++ _) = _
    simp [opening, closing, Text.onNewLines, closeLine, Text.spaced, Keyword.names_in_lines]

theorem Operation.name_eq (operation : Operation) : operation.name = operation.keyword.name := by
  cases operation <;> rfl

theorem UpdateHead.cons_render (head : UpdateHead) (ls : List Text) :
    '\n' :: head.render ('\x7b' :: Text.onNewLines ls ++ ['\n', '\x7d'])
      = Text.onNewLines (head.opening :: ls ++ [closeLine]) := by
  rw [render, opening, Operation.name_eq]
  cases head.data <;> simp [Text.onNewLines, closeLine, Text.spaced, Keyword.names_in_lines]

namespace Statement

/-- A statement on a new line is its lines on new lines. -/
theorem cons_render (s : Statement) : '\n' :: s.render = Text.onNewLines s.layout := by
  have all : ∀ ss : List Statement, (∀ s ∈ ss, '\n' :: s.render = Text.onNewLines s.layout) →
      Text.onNewLines (renderAll ss) = Text.onNewLines (layoutAll ss) := by
    intro ss h
    induction ss with
    | nil => rfl
    | cons s ss ih =>
      rw [renderAll, layoutAll, Text.onNewLines_cons, Text.onNewLines_append, ← h s (by simp),
        ih fun t ht => h t (List.mem_cons_of_mem _ ht)]
  induction s using Statement.induct with
  | simple text => simp [render, layout, Text.onNewLines]
  | block head body ih =>
    rw [render, Text.braced, all body ih, Head.cons_render, layout]
  | update head template attached ih₁ ih₂ =>
    cases attached with
    | none =>
      show '\n' :: (head.render (Text.braced (renderAll template)) ++ []) = _
      rw [List.append_nil, Text.braced, all template ih₁, UpdateHead.cons_render]
      rfl
    | some body =>
      show '\n' :: head.render (Text.braced (renderAll template))
        ++ '\n' :: Head.pattern.render (Text.braced (renderAll body)) = _
      rw [Text.braced, Text.braced, all template ih₁, all body (ih₂ body rfl),
        UpdateHead.cons_render, Head.cons_render, ← Text.onNewLines_append]
      rw [layout, List.cons_append, List.cons_append, List.append_assoc, List.append_assoc]
      rfl

theorem onNewLines_renderAll (ss : List Statement) :
    Text.onNewLines (ss.map render) = Text.onNewLines (layoutAll ss) := by
  induction ss with
  | nil => rfl
  | cons s ss ih =>
    rw [List.map_cons, layoutAll, Text.onNewLines_cons, Text.onNewLines_append, ← cons_render, ih]

theorem layout_ne_nil (s : Statement) : s.layout ≠ [] := by
  intro h
  have := s.cons_render
  rw [h] at this
  nomatch this

end Statement

/-- The lines of a query. -/
def Query.layout (q : Query) : List Text := q.prologue ++ Statement.layoutAll q.statements

theorem Query.cons_render {q : Query} (h : q.layout ≠ []) :
    '\n' :: q.render = Text.onNewLines q.layout := by
  have hne : q.prologue ++ q.statements.map Statement.render ≠ [] := by
    intro hnil
    rw [List.append_eq_nil_iff, List.map_eq_nil_iff] at hnil
    rw [Query.layout, hnil.1, hnil.2] at h
    exact h rfl
  rw [Query.render]
  cases hls : q.prologue ++ q.statements.map Statement.render with
  | nil => exact absurd hls hne
  | cons l ls =>
    rw [Text.cons_lines, ← hls, Text.onNewLines_append, Statement.onNewLines_renderAll,
      ← Text.onNewLines_append]
    rfl

end SparqlTree
