import SparqlTree.Query.Parse
import SparqlTree.Proofs.Grammar.Simulation

/-!
# Two queries side by side

Where two readings are alike token by token, so are the bodies, clauses and queries that they give
(`Simulation.parse`). Of two configurations only what they accept has to be the same.
-/

namespace SparqlTree

/-- Configurations under which the same texts are accepted: they differ in what errors quote, if in
anything. -/
structure Config.SameRules (cfg cfg' : Config) : Prop where
  maxDepth : cfg.maxDepth = cfg'.maxDepth
  strictUpdateWhere : cfg.strictUpdateWhere = cfg'.strictUpdateWhere

namespace Simulation

variable {S : Simulation} {c d : Cursor}

/-! ## 1. Bodies -/

/-- What two readings have in common of several statements. -/
abbrev Bodies (S : Simulation) (ss ts : List Statement) : Prop :=
  ss.map (Statement.mapText S.kept) = ts.map (Statement.mapText S.kept)

/-- What two readings have in common of the items of a body: the words at their heads, whatever
stands before them, and the statements behind. -/
structure Items (S : Simulation) (xs ys : List Item) : Prop where
  lead : ∀ v, S.kept (v ++ Item.leadingText xs) = S.kept (v ++ Item.leadingText ys)
  stops : Item.leadStops xs = Item.leadStops ys
  after : S.Bodies (Statement.afterLead xs) (Statement.afterLead ys)

variable {xs ys : List Item}

theorem Items.ofLead (h : S.Items xs ys) :
    S.Bodies (Statement.ofLead xs) (Statement.ofLead ys) := by
  have hlead := h.lead []
  rw [List.nil_append, List.nil_append] at hlead
  rw [Bodies, Statement.ofLead, Statement.ofLead]
  by_cases hx : (Item.leadingText xs).trim = []
  · have hy := (S.trim_eq_nil hlead).1 hx
    rw [if_pos hx, if_pos hy]
  · have hy := mt (S.trim_eq_nil hlead).2 hx
    rw [if_neg hx, if_neg hy, h.stops]
    refine congrArg (fun t => [Statement.simple t]) ?_
    split
    · exact S.kept_trim (S.kept_stop hlead)
    · exact S.kept_trim hlead

theorem Items.ofItems (h : S.Items xs ys) :
    S.Bodies (Statement.ofItems xs) (Statement.ofItems ys) := by
  rw [Bodies, Statement.ofItems, Statement.ofItems, List.map_append, List.map_append, h.ofLead,
    h.after]

theorem Items.nil : S.Items [] [] := ⟨fun _ => rfl, rfl, rfl⟩

theorem Items.word (h : S.Items xs ys) (hcd : S.Cursors c d) (w : Text) :
    S.Items (.word (breaksBefore c) w :: xs) (.word (breaksBefore d) w :: ys) where
  lead v := by
    rw [Item.leadingText, Item.leadingText, List.append_assoc, List.append_assoc]
    exact S.kept_breaks hcd (h.lead w) v
  stops := h.stops
  after := h.after

theorem Items.stop (h : S.Items xs ys) : S.Items (.stop :: xs) (.stop :: ys) where
  lead _ := rfl
  stops := rfl
  after := h.ofItems

theorem Items.nested (h : S.Items xs ys) {s t : Statement}
    (hst : s.mapText S.kept = t.mapText S.kept) : S.Items (.nested s :: xs) (.nested t :: ys) where
  lead _ := rfl
  stops := rfl
  after := by
    show _ :: _ = _ :: _
    rw [hst]
    exact congrArg _ h.ofItems

theorem ignoresPlace_begins : IgnoresPlace Head.begins := by
  intro t u h
  obtain ⟨hkind, htext⟩ := Token.bare_eq.1 h
  rw [Head.begins, Head.begins, hkind, htext]

theorem ignoresPlace_isStop (style : BodyStyle) : IgnoresPlace (isStop style) :=
  ignoresPlace_of_text fun w => style == .segmented && w.head? == some '.'

variable {cfg cfg' : Config}

theorem readItems (hcfg : cfg.SameRules cfg') (h : S.Cursors c d) (style : BodyStyle)
    (depth : Nat) :
    S.Both S.Items (SparqlTree.readItems cfg style depth c)
      (SparqlTree.readItems cfg' style depth d) := by
  induction c using Cursor.size_induction generalizing d style depth with
  | ind c ih =>
    -- The rest of the body is read from cursors that are closer to the end.
    have hrest : ∀ {c₁ d₁ : Cursor} {x y : Item}, c₁.size < c.size → S.Cursors c₁ d₁ →
        (∀ xs ys, S.Items xs ys → S.Items (x :: xs) (y :: ys)) →
        S.Both S.Items
          (SparqlTree.readItems cfg style depth c₁ >>= fun r => pure (x :: r.1, r.2))
          (SparqlTree.readItems cfg' style depth d₁ >>= fun r => pure (y :: r.1, r.2)) :=
      fun hlt h₁ hcons => (ih _ hlt h₁ style depth).bind fun _ _ hr =>
        .ok ⟨hcons _ _ hr.1, hr.2⟩
    rw [readItems_eq cfg style depth c, readItems_eq cfg' style depth d]
    rcases peek h with ⟨hc, hd⟩ | ⟨t, u, hc, hd, hbare⟩
    · rw [hc, hd]
      exact .error (S.ended h rfl)
    rw [hc, hd]
    dsimp only
    rw [(Token.bare_eq.1 hbare).1, ignoresPlace_begins hbare, ignoresPlace_isStop style hbare,
      (Token.bare_eq.1 hbare).2]
    split
    · exact .ok ⟨Items.nil, S.pass h hc⟩
    split
    · rw [hcfg.maxDepth]
      split
      · exact .error (S.helped (S.ahead h rfl) _)
      refine (readNested h).bind_of_eq ?_
      rintro ⟨head, c₁⟩ ⟨_, d₁⟩ hopen ⟨rfl, h₁⟩
      refine (ih _ (Head.size_readNested_lt hopen) h₁ head.bodyStyle (depth + 1)).bind_of_eq ?_
      rintro ⟨inner, c₂⟩ ⟨inner', d₂⟩ hinner ⟨hitems, h₂⟩
      refine (close h₂ rfl).bind_of_eq ?_
      rintro ⟨closed, c₃⟩ ⟨closed', d₃⟩ hclose ⟨hclosed, h₃⟩
      refine hrest (size_block_lt hopen hinner hclose) h₃ fun _ _ hr => hr.nested ?_
      rw [Statement.mapText_block, Statement.mapText_block, hclosed, hitems.ofItems]
    split
    · next hstop =>
      have hhead : IsHead t ['.'] := .stop ((ignoresPlace_isStop style hbare).trans hstop)
      exact hrest (Cursor.size_pass_breakOff_lt hc _) (S.cut h hc hhead) fun _ _ h => h.stop
    · exact hrest (Cursor.size_pass_lt hc) (S.pass h hc) fun _ _ hr => hr.word h u.text

theorem readBody (hcfg : cfg.SameRules cfg') (h : S.Cursors c d) (style : BodyStyle) :
    S.Both S.Bodies (SparqlTree.readBody cfg style c) (SparqlTree.readBody cfg' style d) :=
  (readItems hcfg h style 0).bind fun _ _ hr => .ok ⟨hr.1.ofItems, hr.2⟩

/-- What two readings have in common of a statement. -/
abbrev Statements (S : Simulation) (s t : Statement) : Prop := s.mapText S.kept = t.mapText S.kept

theorem readBlock (hcfg : cfg.SameRules cfg') (h : S.Cursors c d) {head head' : Head}
    (hhead : S.Heads head head') :
    S.Both S.Statements (head.readBlock cfg c) (head'.readBlock cfg' d) := by
  rw [Head.readBlock, Head.readBlock, bodyStyle_eq hhead]
  refine (readBody hcfg h _).bind ?_
  rintro ⟨body, c₁⟩ ⟨body', d₁⟩ ⟨hbody, h₁⟩
  refine (close h₁ hhead).bind ?_
  rintro ⟨closed, c₂⟩ ⟨closed', d₂⟩ ⟨hclosed, h₂⟩
  refine .ok ⟨?_, h₂⟩
  rw [Statements, Statement.mapText_block, Statement.mapText_block, hclosed, hbody]

/-! ## 2. Updates -/

theorem lacksWhere (hcfg : cfg.SameRules cfg') (h : S.Cursors c d) (data : Bool)
    {ss ts : List Statement} (hst : S.Bodies ss ts) :
    UpdateHead.lacksWhere cfg data ss c = UpdateHead.lacksWhere cfg' data ts d := by
  rw [UpdateHead.lacksWhere, UpdateHead.lacksWhere, UpdateHead.atUpdate, UpdateHead.atUpdate,
    hcfg.strictUpdateWhere, atGlued h, atKeyword h, atKeyword h,
    Statement.unknownsAll_eq_of_map S.variableNames_kept hst]

/-- What two readings have in common of a WHERE body that may be left out. -/
abbrev Attached (S : Simulation) (a b : Option (List Statement)) : Prop :=
  a.map (·.map (Statement.mapText S.kept)) = b.map (·.map (Statement.mapText S.kept))

theorem readAttached? (hcfg : cfg.SameRules cfg') (h : S.Cursors c d) :
    S.Both S.Attached (UpdateHead.readAttached? cfg c) (UpdateHead.readAttached? cfg' d) := by
  rw [UpdateHead.readAttached?, UpdateHead.readAttached?]
  rcases eatGlued? h .whereClause with ⟨hc, hd⟩ | ⟨c₁, d₁, hc, hd, h₁⟩
  · rw [hc, hd]
    exact .ok ⟨rfl, h⟩
  · rw [hc, hd]
    refine (readOpenBrace h₁).bind fun c₂ d₂ h₂ => ?_
    refine (readBody hcfg h₂ .segmented).bind ?_
    rintro ⟨body, c₃⟩ ⟨body', d₃⟩ ⟨hbody, h₃⟩
    exact .ok ⟨congrArg some hbody, h₃⟩

theorem readUpdateBlock (hcfg : cfg.SameRules cfg') (h : S.Cursors c d) (operation : Operation) :
    S.Both S.Statements (UpdateHead.read cfg operation c) (UpdateHead.read cfg' operation d) := by
  rw [UpdateHead.read, UpdateHead.read]
  refine (readOpenBrace (skipGlued h .data)).bind fun c₁ d₁ h₁ => ?_
  refine (readBody hcfg h₁ .whole).bind ?_
  rintro ⟨template, c₂⟩ ⟨template', d₂⟩ ⟨htemplate, h₂⟩
  dsimp only
  rw [atGlued h, lacksWhere hcfg h₂ _ htemplate]
  split
  · exact .error (S.helped (S.ahead h₂ rfl) _)
  · refine (readAttached? hcfg h₂).bind ?_
    rintro ⟨attached, c₃⟩ ⟨attached', d₃⟩ ⟨hattached, h₃⟩
    refine .ok ⟨?_, h₃⟩
    rw [Statements, Statement.mapText_update, Statement.mapText_update, htemplate, hattached]

/-! ## 3. Clauses -/

theorem readPrefix (h : S.Cursors c d) :
    Alike S.Errors (fun r s => r.1 = s.1 ∧ r.2.1 = s.2.1 ∧ S.Cursors r.2.2 s.2.2)
      (Draft.readPrefix c) (Draft.readPrefix d) := by
  rw [Draft.readPrefix, Draft.readPrefix]
  refine (expect h rfl).bind ?_
  rintro ⟨t, c₁⟩ ⟨u, d₁⟩ ⟨hbare, h₁⟩
  dsimp only
  rw [(Token.bare_eq.1 hbare).2]
  split
  · refine (requireIri h₁).bind ?_
    rintro ⟨iri, c₂⟩ ⟨_, d₂⟩ ⟨rfl, h₂⟩
    exact .ok ⟨rfl, rfl, h₂⟩
  · refine (require h₁ rfl (ignoresPlace_of_text (· == [':']))).bind ?_
    rintro ⟨v, c₂⟩ ⟨w, d₂⟩ ⟨-, h₂⟩
    refine (requireIri h₂).bind ?_
    rintro ⟨iri, c₃⟩ ⟨_, d₃⟩ ⟨rfl, h₃⟩
    exact .ok ⟨rfl, rfl, h₃⟩

/-- What two readings have in common of a draft. -/
structure Drafts (S : Simulation) (r r' : Draft) : Prop where
  base : r.base = r'.base
  prefixes : r.prefixes = r'.prefixes
  graph : r.graph = r'.graph
  form : r.form = r'.form
  prologueClosed : r.prologueClosed = r'.prologueClosed
  complete : r.complete = r'.complete
  statements : S.Bodies r.statements r'.statements

variable {r r' : Draft}

theorem Drafts.add (h : S.Drafts r r') {s t : Statement} (hst : S.Statements s t) :
    S.Drafts (r.add s) (r'.add t) :=
  { h with
    prologueClosed := rfl
    statements := by
      show List.map _ (_ ++ [s]) = List.map _ (_ ++ [t])
      rw [List.map_append, List.map_append, h.statements, List.map_singleton, hst,
        List.map_singleton] }

theorem Drafts.addForm (h : S.Drafts r r') {s t : Statement} (hst : S.Statements s t)
    (form : QueryForm) (complete : Bool) :
    S.Drafts (r.addForm form complete s) (r'.addForm form complete t) :=
  { h.add hst with
    form := rfl
    complete := rfl }

theorem readDeclaration (h : S.Cursors c d) (hr : S.Drafts r r') (k : Keyword)
    (hc : c.peek.isSome) :
    S.Both S.Drafts (Draft.readDeclaration k r c) (Draft.readDeclaration k r' d) := by
  obtain ⟨t, hc⟩ := Option.isSome_iff_exists.1 hc
  have hclosed : r.prologueClosed = true ↔ r'.prologueClosed = true := by rw [hr.prologueClosed]
  rw [Draft.readDeclaration, Draft.readDeclaration]
  by_cases hp : r.prologueClosed = true
  · have hp' := hclosed.1 hp
    rw [if_pos hp, if_pos hp']
    exact .error (S.ahead h rfl)
  have hp' := mt hclosed.2 hp
  rw [if_neg hp, if_neg hp']
  split
  · refine (readPrefix (S.pass h hc)).bind ?_
    rintro ⟨label, iri, c₁⟩ ⟨_, _, d₁⟩ ⟨rfl, rfl, h₁⟩
    exact .ok ⟨{ hr with prefixes := congrArg (·.insert label iri) hr.prefixes }, h₁⟩
  · refine (requireIri (S.pass h hc)).bind ?_
    rintro ⟨iri, c₁⟩ ⟨_, d₁⟩ ⟨rfl, h₁⟩
    exact .ok ⟨{ hr with base := rfl }, h₁⟩

theorem readForm (hcfg : cfg.SameRules cfg') (h : S.Cursors c d) (hr : S.Drafts r r')
    (k : Keyword) (hc : c.peek.isSome) :
    S.Both S.Drafts (Draft.readForm cfg k r c) (Draft.readForm cfg' k r' d) := by
  obtain ⟨t, hc⟩ := Option.isSome_iff_exists.1 hc
  have hpass := S.pass h hc
  have hprojection : ∀ {head : Projection → Head} {form : QueryForm} {complete : Bool},
      S.Both S.Drafts
        (Projection.read false c.pass >>= fun p => (head p.1).readBlock cfg p.2 >>= fun s =>
          pure (r.addForm form complete s.1, s.2))
        (Projection.read false d.pass >>= fun p => (head p.1).readBlock cfg' p.2 >>= fun s =>
          pure (r'.addForm form complete s.1, s.2)) := by
    intro head form complete
    refine (readProjection hpass false).bind ?_
    rintro ⟨p, c₁⟩ ⟨_, d₁⟩ ⟨rfl, h₁⟩
    exact (readBlock hcfg h₁ rfl).bind fun _ _ hs => .ok ⟨hr.addForm hs.1 _ _, hs.2⟩
  rw [Draft.readForm.eq_def, Draft.readForm.eq_def, hr.form]
  split
  · exact .error (S.ahead h rfl)
  split
  · exact hprojection
  · exact hprojection
  · refine (readConstruct hpass).bind ?_
    rintro ⟨head, c₁⟩ ⟨head', d₁⟩ ⟨hhead, h₁⟩
    exact (readBlock hcfg h₁ hhead).bind fun _ _ hs => .ok ⟨hr.addForm hs.1 _ _, hs.2⟩
  · refine (readDataset? hpass).bind ?_
    rintro ⟨dataset, c₁⟩ ⟨_, d₁⟩ ⟨rfl, h₁⟩
    refine (readOptionalWhere h₁).bind fun c₂ d₂ h₂ => ?_
    refine (readBlock hcfg h₂ rfl).bind ?_
    rintro ⟨s, c₃⟩ ⟨s', d₃⟩ ⟨hs, h₃⟩
    exact .ok ⟨{ hr.addForm hs .ask true with
      graph := congrArg (dataset.map Prod.fst).or hr.graph }, h₃⟩

theorem readUpdate (hcfg : cfg.SameRules cfg') (h : S.Cursors c d) (hr : S.Drafts r r')
    (operation : Operation) (hc : c.peek.isSome) :
    S.Both S.Drafts (Draft.readUpdate cfg operation r c)
      (Draft.readUpdate cfg' operation r' d) := by
  obtain ⟨t, hc⟩ := Option.isSome_iff_exists.1 hc
  rw [Draft.readUpdate, Draft.readUpdate, hr.form]
  split
  · exact (readUpdateBlock hcfg (S.pass h hc) operation).bind fun _ _ hs =>
      .ok ⟨hr.addForm hs.1 _ _, hs.2⟩
  · exact .error (S.ahead h rfl)

theorem readClause (hcfg : cfg.SameRules cfg') (h : S.Cursors c d) (hr : S.Drafts r r')
    (k : Keyword) (hc : c.peek.isSome) :
    S.Both S.Drafts (Draft.readClause cfg k r c) (Draft.readClause cfg' k r' d) := by
  obtain ⟨t, ht⟩ := Option.isSome_iff_exists.1 hc
  have hpass := S.pass h ht
  have hgraph : ∀ {c₁ d₁ : Cursor}, S.Cursors c₁ d₁ →
      S.Both S.Drafts
        (c₁.requireIri >>= fun g => pure ({ r with graph := some g.1 }, g.2))
        (d₁.requireIri >>= fun g => pure ({ r' with graph := some g.1 }, g.2)) := by
    intro c₁ d₁ h₁
    refine (requireIri h₁).bind ?_
    rintro ⟨iri, c₂⟩ ⟨_, d₂⟩ ⟨rfl, h₂⟩
    exact .ok ⟨{ hr with graph := rfl }, h₂⟩
  rw [Draft.readClause.eq_def, Draft.readClause.eq_def]
  split
  · exact readDeclaration h hr _ hc
  · exact readDeclaration h hr _ hc
  · exact hgraph (skip hpass .named)
  · exact hgraph hpass
  · exact readForm hcfg h hr _ hc
  · exact readForm hcfg h hr _ hc
  · exact readForm hcfg h hr _ hc
  · exact readForm hcfg h hr _ hc
  · exact readUpdate hcfg h hr _ hc
  · exact readUpdate hcfg h hr _ hc
  · refine (readOpenBrace hpass).bind fun c₁ d₁ h₁ => ?_
    exact (readBlock hcfg h₁ rfl).bind fun _ _ hs => .ok ⟨hr.add hs.1, hs.2⟩
  · exact .error (S.ahead h rfl)

theorem step (hcfg : cfg.SameRules cfg') (hr : S.Drafts r r') (h : S.Cursors c d) :
    Alike S.Errors (Option.Rel fun q q' => S.Drafts q.1 q'.1 ∧ S.Cursors q.2 q'.2)
      (Draft.step cfg r c) (Draft.step cfg' r' d) := by
  rw [Draft.step, Draft.step, hr.complete]
  split
  · exact .ok .none
  rcases peek h with ⟨hc, hd⟩ | ⟨t, u, hc, hd, hbare⟩
  · rw [hc, hd]
    exact .ok .none
  rw [hc, hd]
  dsimp only
  rw [(Token.bare_eq.1 hbare).2]
  split
  · exact .ok (.some ⟨hr, S.pass h hc⟩)
  split
  · exact .error (S.ahead h rfl)
  · next k _ =>
    refine (readClause hcfg h hr k (Option.isSome_iff_exists.2 ⟨t, hc⟩)).bind ?_
    rintro ⟨q, c₁⟩ ⟨q', d₁⟩ hq
    exact .ok (.some hq)

theorem read (hcfg : cfg.SameRules cfg') (h : S.Cursors c d) :
    S.Both S.Drafts (Draft.read cfg c) (Draft.read cfg' d) :=
  repeatStep (fun _ _ _ _ hr h => step hcfg hr h) ⟨rfl, rfl, rfl, rfl, rfl, rfl, rfl⟩ h

/-- What two queries have in common if they were read alike. -/
structure Queries (S : Simulation) (q q' : Query) : Prop where
  form : q.form = q'.form
  base : q.base = q'.base
  prefixes : q.prefixes = q'.prefixes
  graph : q.graph = q'.graph
  statements : S.Bodies q.statements q'.statements

theorem Drafts.queries (h : S.Drafts r r') (text text' : Text) :
    Option.Rel S.Queries (r.query? text) (r'.query? text') := by
  rw [Draft.query?, Draft.query?, h.form]
  cases r'.form with
  | none => exact .none
  | some form => exact .some ⟨rfl, h.base, h.prefixes, h.graph, h.statements⟩

/-- Two texts at whose beginnings a simulation holds are read alike. -/
theorem parse (hcfg : cfg.SameRules cfg') {text text' : Text}
    (h : S.Cursors (Query.cursor cfg text) (Query.cursor cfg' text')) :
    Alike S.Errors S.Queries (Query.parse cfg text) (Query.parse cfg' text') := by
  rw [Query.parse, Query.parse]
  refine (read hcfg h).bind ?_
  rintro ⟨r, c₁⟩ ⟨r', d₁⟩ ⟨hr, h₁⟩
  have hq := hr.queries text text'
  dsimp only
  generalize r.query? text = o at hq ⊢
  generalize r'.query? text' = o' at hq ⊢
  cases hq with
  | none => exact .error (S.ahead h₁ rfl)
  | some hq => exact .ok hq

end Simulation

end SparqlTree
