import SparqlTree.Proofs.Statement.Shape

/-!
# The tokens of the lines of a statement

A line that is not text of a statement is put together from tokens with spaces between, and these
are what is read from it. The lines of shaped bodies leave no string or IRI reference open
(`closed_layoutAll`), so that bodies can be read line by line.
-/

namespace SparqlTree

open Text (isBreak IsToken Closed lineTokens)

/-! ## 1. Lines made of tokens -/

namespace Text

theorem tokens_line {ws : List Text} (h : ∀ w ∈ ws, Single w) : tokens (spaced ws) = ws :=
  tokens_spaced (.of_forall fun w hw => (h w hw).1)

theorem closed_line {ws : List Text} (h : ∀ w ∈ ws, Single w) : Closed (spaced ws) := by
  rw [Closed, tokens_line h]
  exact fun w hw => (h w hw).1

/-- Text that was put together from tokens can stand for them in a line. -/
theorem spaced_append_spaced (vs : List Text) {ws : List Text} (hne : ws ≠ []) :
    spaced (vs ++ [spaced ws]) = spaced (vs ++ ws) := by
  induction vs with
  | nil => simp [spaced]
  | cons v vs ih =>
    rw [List.cons_append, List.cons_append, spaced_cons (by simp), spaced_cons (by simp [hne]), ih]

end Text

theorem single_of_spells {k : Keyword} {w : Text} (h : k.spells w = true) : Single w :=
  ⟨Keyword.isToken_of_spells h, Keyword.isBreak_of_spells h⟩

theorem single_name (k : Keyword) : Single k.name := single_of_spells k.spells_name

theorem single_openBrace : Single ['\x7b'] := ⟨.openBrace, rfl⟩

theorem single_closeBrace : Single ['\x7d'] := ⟨.closeBrace, rfl⟩

theorem single_angled {iri : Text} (h : IsIri iri) : Single (Text.angled iri) :=
  ⟨.iri iri h, rfl⟩

theorem forall_single {w : Text} (h : Single w) : ∀ v ∈ [w], Single v := by
  intro v hv
  obtain rfl := List.mem_singleton.1 hv
  exact h

theorem single_keyword_brace (k : Keyword) : ∀ w ∈ [k.name, ['\x7b']], Single w := by
  intro w hw
  rcases List.mem_cons.1 hw with rfl | hw
  · exact single_name k
  · exact List.mem_singleton.1 hw ▸ single_openBrace

/-- A keyword, another one that may be left out, and the token behind them. -/
theorem single_keywords (k j : Keyword) (b : Bool) {last : Text} (h : Single last) :
    ∀ w ∈ k.name :: (if b then [j.name] else []) ++ [last], Single w := by
  intro w hw
  rw [List.cons_append, List.mem_cons, List.mem_append, List.mem_singleton] at hw
  rcases hw with rfl | hw | rfl
  · exact single_name k
  · split at hw
    · exact List.mem_singleton.1 hw ▸ single_name j
    · nomatch hw
  · exact h

/-- A keyword and the opening brace behind it. -/
theorem tokens_keyword_brace (k : Keyword) :
    Text.tokens (Text.spaced [k.name, ['\x7b']]) = [k.name, ['\x7b']] :=
  Text.tokens_line (single_keyword_brace k)

theorem tokens_closeLine : Text.tokens closeLine = [['\x7d']] :=
  Text.tokens_line (forall_single single_closeBrace)

theorem tokens_openBrace : Text.tokens ['\x7b'] = [['\x7b']] :=
  Text.tokens_line (forall_single single_openBrace)

theorem single_graphLine {graph : Text} (h : IsIri graph) :
    ∀ w ∈ [Keyword.graph.name, Text.angled graph, ['\x7b']], Single w := by
  intro w hw
  rcases List.mem_cons.1 hw with rfl | hw
  · exact single_name _
  · rcases List.mem_cons.1 hw with rfl | hw
    · exact single_angled h
    · exact List.mem_singleton.1 hw ▸ single_openBrace

theorem tokens_graphLine {graph : Text} (h : IsIri graph) :
    Text.tokens (graphLine graph) = [Keyword.graph.name, Text.angled graph, ['\x7b']] :=
  Text.tokens_line (single_graphLine h)

/-! ## 2. Projections -/

/-- The keyword of a set quantifier. -/
def SetQuantifier.keyword : SetQuantifier → Keyword
  | distinct => .distinct
  | reduced => .reduced

theorem SetQuantifier.name_eq (q : SetQuantifier) : q.name = q.keyword.name := by
  cases q <;> rfl

namespace Projection

/-- The tokens of the FROM clause. -/
def datasetTokens (p : Projection) : List Text :=
  match p.graph with
  | some graph => Keyword.fromClause.name ::
      (if p.fromNamed then [Keyword.named.name] else []) ++ [Text.angled graph]
  | none => []

variable {p : Projection} {ps : List Text}

theorem single_datasetTokens (h : ∀ iri ∈ p.graph, IsIri iri) :
    ∀ w ∈ p.datasetTokens, Single w := by
  rw [datasetTokens]
  split
  · next graph hg =>
    exact single_keywords .fromClause .named p.fromNamed (single_angled (h graph hg))
  · exact fun _ hw => absurd hw List.not_mem_nil

theorem lineTokens_datasetLine (h : ∀ iri ∈ p.graph, IsIri iri) :
    lineTokens p.datasetLine = if p.graph = none then [] else ['\n'] :: p.datasetTokens := by
  cases hg : p.graph with
  | none =>
    rw [datasetLine, hg]
    rfl
  | some graph =>
    have hline : p.datasetLine = [Text.spaced p.datasetTokens] := by
      rw [datasetLine, datasetTokens, hg]
      rfl
    rw [hline, Text.lineTokens_cons, Text.lineTokens_nil, List.append_nil,
      Text.tokens_line (single_datasetTokens h), if_neg (by simp)]

/-- The tokens of the first line: the keyword, the quantifier and what is projected. -/
theorem firstLine_eq (k : Keyword) (hne : ps ≠ []) (hps : p.projected = Text.spaced ps)
    (hs : ∀ w ∈ ps, Single w) :
    p.firstLine k =
      Text.spaced (k.name :: (p.quantifier.toList.map fun q => q.keyword.name) ++ ps) := by
  have hne' : p.projected ≠ [] := by
    intro hnil
    have hread := Text.tokens_line hs
    rw [← hps, hnil, Text.tokens_nil] at hread
    exact hne hread.symm
  have hq : SetQuantifier.name = fun q => q.keyword.name := funext SetQuantifier.name_eq
  rw [firstLine, if_neg hne', hps, hq, Text.spaced_append_spaced _ hne]

theorem single_firstLine (k : Keyword) (hs : ∀ w ∈ ps, Single w) :
    ∀ w ∈ k.name :: (p.quantifier.toList.map fun q => q.keyword.name) ++ ps, Single w := by
  intro w hw
  rw [List.cons_append, List.mem_cons, List.mem_append, List.mem_map] at hw
  rcases hw with rfl | ⟨q, -, rfl⟩ | hw
  · exact single_name k
  · exact single_name _
  · exact hs w hw

/-- The tokens of the lines before the body of a projection. -/
theorem lineTokens_opening (k : Keyword) (hne : ps ≠ []) (hps : p.projected = Text.spaced ps)
    (hs : ∀ w ∈ ps, Single w) (hg : ∀ iri ∈ p.graph, IsIri iri) :
    lineTokens (p.opening k) =
      (if p.inBlock then [['\n'], ['\x7b']] else []) ++
        ['\n'] :: k.name :: (p.quantifier.toList.map fun q => q.keyword.name) ++ ps ++
        (if p.graph = none then [] else ['\n'] :: p.datasetTokens) ++
        [['\n'], Keyword.whereClause.name, ['\x7b']] := by
  have hfirst := Text.tokens_line (single_firstLine (p := p) k hs)
  have hwhere : Text.tokens whereLine = [Keyword.whereClause.name, ['\x7b']] :=
    tokens_keyword_brace .whereClause
  rw [opening, Text.lineTokens_append, Text.lineTokens_append, Text.lineTokens_cons,
    firstLine_eq k hne hps hs, hfirst, lineTokens_datasetLine hg, Text.lineTokens_cons, hwhere]
  cases p.inBlock <;> simp [tokens_openBrace]

end Projection

/-- The tokens of solution modifiers. -/
theorem lineTokens_modifiers {mss : List (List Text)} (hs : Text.Scanned mss.flatten) :
    lineTokens (mss.map Text.spaced) = mss.flatMap (['\n'] :: ·) := by
  induction mss with
  | nil => rfl
  | cons ms mss ih =>
    rw [List.flatten_cons] at hs
    rw [List.map_cons, Text.lineTokens_cons, List.flatMap_cons,
      Text.tokens_spaced hs.of_append_left, ih hs.of_append]
    rfl

/-! ## 3. Updates -/

/-- The lines of the WHERE body of an update. -/
def attachedLines : Option (List Statement) → List Text
  | some body => whereLine :: Statement.layoutAll body ++ [closeLine]
  | none => []

theorem Statement.layout_update (head : UpdateHead) (template : List Statement)
    (attached : Option (List Statement)) : Statement.layout (.update head template attached)
      = head.opening :: Statement.layoutAll template ++ closeLine :: attachedLines attached := by
  cases attached <;> rfl

namespace UpdateHead

theorem single_opening (head : UpdateHead) : ∀ w ∈ head.operation.keyword.name ::
    (if head.data then [Keyword.data.name] else []) ++ [['\x7b']], Single w :=
  single_keywords head.operation.keyword .data head.data single_openBrace

theorem tokens_opening (head : UpdateHead) : Text.tokens head.opening =
    head.operation.keyword.name :: (if head.data then [Keyword.data.name] else []) ++ [['\x7b']] :=
  Text.tokens_line head.single_opening

end UpdateHead

/-! ## 4. Closed lines -/

theorem closed_keyword_brace (k : Keyword) : Closed (Text.spaced [k.name, ['\x7b']]) :=
  Text.closed_line (single_keyword_brace k)

theorem closed_closeLine : Closed closeLine :=
  Text.closed_line (forall_single single_closeBrace)

theorem closed_openBrace : Closed ['\x7b'] :=
  Text.closed_line (forall_single single_openBrace)

theorem Projection.Shaped.closed_opening {p : Projection} (h : p.Shaped) (k : Keyword) :
    ∀ l ∈ p.opening k, Closed l := by
  obtain ⟨ps, hne, hps, hs, -⟩ := h.projected
  have hs : ∀ w ∈ ps, Single w := fun w hw => (hs w hw).1
  intro l hl
  rw [opening, List.mem_append, List.mem_append, List.mem_cons, List.mem_singleton] at hl
  rcases hl with (hl | rfl | hl) | rfl
  · split at hl
    · exact List.mem_singleton.1 hl ▸ closed_openBrace
    · cases hl
  · rw [firstLine_eq k hne hps hs]
    exact Text.closed_line (single_firstLine k hs)
  · have hd := single_datasetTokens h.graph
    rw [datasetLine, List.mem_map] at hl
    obtain ⟨graph, hg, rfl⟩ := hl
    rw [datasetTokens, Option.mem_toList.1 hg] at hd
    exact Text.closed_line hd
  · exact closed_keyword_brace .whereClause

theorem closed_graphLine {graph : Text} (h : IsIri graph) : Closed (graphLine graph) :=
  Text.closed_line (single_graphLine h)

theorem Head.Nested.closed_opening {head : Head} (h : head.Nested) :
    ∀ l ∈ head.opening, Closed l := by
  cases h with
  | @group graph optional hiri hno =>
    cases graph with
    | none =>
      cases optional with
      | false => exact fun l hl => List.mem_singleton.1 hl ▸ closed_openBrace
      | true => exact fun l hl => List.mem_singleton.1 hl ▸ closed_keyword_brace .optional
    | some graph =>
      obtain rfl := hno rfl
      exact fun l hl => List.mem_singleton.1 hl ▸ closed_graphLine (hiri graph rfl)
  | select _ hp => exact hp.closed_opening .select

theorem Head.Nested.closed_closing {head : Head} (h : head.Nested) :
    ∀ l ∈ head.closing, Closed l := by
  cases h with
  | @group graph optional hiri hno =>
    cases graph with
    | none => exact fun l hl => List.mem_singleton.1 hl ▸ closed_closeLine
    | some graph =>
      obtain rfl := hno rfl
      exact fun l hl => List.mem_singleton.1 hl ▸ closed_closeLine
  | @select p hin _ hm =>
    intro l hl
    rw [closing, Projection.closing, if_pos hin, List.cons_append, List.mem_cons, List.mem_append,
      List.mem_singleton] at hl
    rcases hl with rfl | hl | rfl
    · exact closed_closeLine
    · exact hm l hl
    · exact closed_closeLine

/-- The lines of a shaped body leave nothing open. -/
theorem closed_layoutAll {style : BodyStyle} {body : List Statement} (h : ShapedBody style body) :
    ∀ l ∈ Statement.layoutAll body, Closed l := by
  induction h with
  | nil => exact fun l hl => absurd hl List.not_mem_nil
  | simple ht _ ih =>
    intro l hl
    rcases List.mem_cons.1 hl with rfl | hl
    · exact ht.1.closed
    · exact ih l hl
  | block hhead _ _ ih₁ ih₂ =>
    intro l hl
    rw [Statement.layoutAll, Statement.layout, List.mem_append, List.mem_append,
      List.mem_append] at hl
    rcases hl with ((hl | hl) | hl) | hl
    · exact Head.Nested.closed_opening hhead l hl
    · exact ih₁ l hl
    · exact Head.Nested.closed_closing hhead l hl
    · exact ih₂ l hl

end SparqlTree
