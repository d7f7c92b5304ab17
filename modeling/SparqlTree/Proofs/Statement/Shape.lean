import SparqlTree.Proofs.Grammar.Derivation
import SparqlTree.Proofs.Statement.Layout

/-!
# Shapes of statements

What can be said of every tree that was read from a text, whatever the text: which statements can
stand in which bodies, and what the texts, projections and solution modifiers in them look like.
`EveryBody` carries a condition on single statements and what follows them to all bodies of a tree;
`ShapedAt` is the condition that reading establishes (`everyBody_ofItems`).
-/

namespace SparqlTree

open Text (Fragment Plain IsToken Scanned Closed isBreak)

/-! ## 1. Conditions on all bodies -/

/-- The condition holds of every statement of a body in view of those that follow it, and of every
statement in the bodies below. -/
inductive EveryBody (P : BodyStyle → Statement → List Statement → Prop) :
    BodyStyle → List Statement → Prop
  | nil {style : BodyStyle} : EveryBody P style []
  | simple {style : BodyStyle} {t : Text} {ss : List Statement} :
    P style (.simple t) ss → EveryBody P style ss → EveryBody P style (.simple t :: ss)
  | block {style : BodyStyle} {head : Head} {inner ss : List Statement} :
    P style (.block head inner) ss → EveryBody P head.bodyStyle inner → EveryBody P style ss →
    EveryBody P style (.block head inner :: ss)

variable {P Q : BodyStyle → Statement → List Statement → Prop} {style : BodyStyle}

/-! ## 2. Projections and solution modifiers -/

/-- True of complete tokens other than line breaks. -/
def Single (w : Text) : Prop := IsToken w ∧ isBreak w = false

/-- Tokens that were consumed before another one. -/
theorem Cursor.Passed.single {c c' : Cursor} {ws : List Text} {w : Text}
    (h : c.Passed (ws ++ [w]) c') : ∀ v ∈ ws, Single v := fun v hv =>
  ⟨h.isToken v hv, h.noBreak v (List.mem_append_left _ hv)⟩

/-- True of texts that may stand in angle brackets. -/
def IsIri (iri : Text) : Prop := '>' ∉ iri

/-- True of solution modifiers as they are written, each as the text of its tokens. Only the last
token may be left open. -/
def Modifiers (modifiers : List Text) : Prop :=
  ∃ mss : List (List Text), modifiers = mss.map Text.spaced ∧ (∀ ms ∈ mss, IsModifier ms) ∧
    (∀ w ∈ mss.flatten, isBreak w = false) ∧ Scanned mss.flatten

/-- A projection as it can be read. -/
structure Projection.Shaped (p : Projection) : Prop where
  projected : ∃ ps, ps ≠ [] ∧ p.projected = Text.spaced ps ∧ (∀ w ∈ ps, Single w ∧ Projected w) ∧
    (p.quantifier = none → ∀ w ∈ ps.head?, Unquantified w)
  graph : ∀ iri ∈ p.graph, IsIri iri
  named : p.fromNamed = true → p.graph.isSome = true
  modifiers : Modifiers p.modifiers

/-- The solution modifiers of a head. -/
def Head.modifiers : Head → List Text
  | select p | describe p => p.modifiers
  | construct _ modifiers => modifiers
  | _ => []

/-- The heads of blocks within a body: groups, which are not both optional and in a graph, and
sub-selects. -/
inductive Head.Nested : Head → Prop
  | group {graph : Option Text} {optional : Bool} : (∀ iri ∈ graph, IsIri iri) →
    (graph.isSome = true → optional = false) → Head.Nested (.group graph optional)
  | select {p : Projection} : p.inBlock = true → p.Shaped → (∀ m ∈ p.modifiers, Closed m) →
    Head.Nested (.select p)

/-! ## 3. Texts in a body -/

/-- True of the texts between full stops: behind the first token no other begins with a full stop,
but for one that ends the text, and that one does not begin a line. -/
def Segment (t : Text) : Prop :=
  ∃ ws ds, Text.tokens t = ws ++ ds ∧ (ds = [] ∨ ds = [['.']]) ∧
    (∀ w ∈ ws.getLast?, isBreak w = false) ∧ ∀ w ∈ ws.tail, w.head? ≠ some '.'

/-- The condition that every statement of a body meets that was read from a text. -/
def ShapedAt (style : BodyStyle) (s : Statement) (ss : List Statement) : Prop :=
  match s with
  | .simple t => Fragment t ∧ (style = .segmented → Segment t) ∧
    ∀ u rest, ss = .simple u :: rest → style = .segmented ∧ [' ', '.'] <:+ t
  | .block head _ => head.Nested
  | .update .. => False

/-- A body as it can be read. -/
abbrev ShapedBody (style : BodyStyle) (body : List Statement) : Prop :=
  EveryBody ShapedAt style body

namespace Item

/-- The tokens of the words at the head of a list of items, with the line breaks before them. -/
def leadTokens : List Item → List Text
  | .word breaks w :: items => breaks.map (fun c => [c]) ++ w :: leadTokens items
  | _ => []

end Item

open Text (written joined piece trimTokens trimTokensStart trimTokensEnd)

theorem written_breaks {b : Text} (hb : IsBreaks b) : written (b.map fun c => [c]) = b := by
  induction b with
  | nil => rfl
  | cons c b ih =>
    rw [List.map_cons, Text.written_cons, piece, if_pos (hb.all [c] (by simp)),
      ih fun d hd => hb d (by simp [hd])]
    rfl

theorem written_lead {b w : Text} {ws : List Text} (hb : IsBreaks b) (hw : isBreak w = false) :
    written (b.map (fun c => [c]) ++ w :: ws) = b ++ ' ' :: w ++ written ws := by
  rw [Text.written_append, written_breaks hb, Text.written_cons, piece,
    if_neg (by rw [hw]; decide), List.append_assoc]

theorem plain_of_isBreak {w : Text} (hw : isBreak w = true) : Plain w := by
  rcases Text.isBreak_iff.1 hw with rfl | rfl
  · exact ⟨.newline, by decide, by decide⟩
  · exact ⟨.carriageReturn, by decide, by decide⟩

/-! ## 4. Full stops in trimmed texts -/

/-- True of tokens that begin with something other than a full stop. -/
def NoDot (w : Text) : Prop := w.head? ≠ some '.'

theorem noDot_trimEnd {w : Text} (h : NoDot w) : NoDot (Text.trimEnd w) := by
  obtain ⟨b, -, hw⟩ := Text.exists_trimEnd_append w
  intro hd
  obtain ⟨rest, hrest⟩ := List.head?_eq_some_iff.1 hd
  apply h
  rw [hw, hrest]
  rfl

theorem noDot_trimTokensEnd {ws : List Text} (h : ∀ w ∈ ws, NoDot w) :
    ∀ w ∈ trimTokensEnd ws, NoDot w :=
  Text.forall_trimTokensEnd (fun _ hw _ => noDot_trimEnd hw) h

/-- Dropping blanks can bring a full stop to the front of the first token, but of no other. -/
theorem noDot_trimTokensStart {ws : List Text} (h : ∀ w ∈ ws, NoDot w) :
    ∀ w ∈ (trimTokensStart ws).tail, NoDot w := by
  induction ws with
  | nil => exact h
  | cons v vs ih =>
    rw [trimTokensStart]
    split
    · exact ih fun w hw => h w (List.mem_cons_of_mem _ hw)
    · exact fun w hw => h w (List.mem_cons_of_mem _ hw)

theorem noDot_tail_trimTokensEnd {ws : List Text} (h : ∀ w ∈ ws.tail, NoDot w) :
    ∀ w ∈ (trimTokensEnd ws).tail, NoDot w := by
  cases ws with
  | nil => exact h
  | cons v vs =>
    rw [trimTokensEnd]
    split
    · split <;> exact fun w hw => by cases hw
    · exact noDot_trimTokensEnd h

/-- What is left of a token is no line break. -/
theorem isBreak_trimStart {w : Text} (h : Text.trimStart w ≠ []) :
    isBreak (Text.trimStart w) = false := by
  rw [← Bool.not_eq_true]
  intro hb
  exact h (Text.trimStart_trimStart w ▸ Text.trimStart_eq_nil.2 (Text.isBlank_of_isBreak hb))

theorem isBreak_trimEnd {w : Text} (h : Text.trimEnd w ≠ []) :
    isBreak (Text.trimEnd w) = false := by
  rw [← Bool.not_eq_true]
  intro hb
  exact h (Text.trimEnd_trimEnd w ▸ Text.trimEnd_eq_nil.2 (Text.isBlank_of_isBreak hb))

theorem getLast_trimTokensStart {ws : List Text} (h : ∀ w ∈ ws.getLast?, isBreak w = false) :
    ∀ w ∈ (trimTokensStart ws).getLast?, isBreak w = false := by
  induction ws with
  | nil => exact h
  | cons v vs ih =>
    rw [trimTokensStart]
    split
    · refine ih fun w hw => h w ?_
      rw [List.getLast?_cons, hw]
      rfl
    · next hne =>
      cases vs with
      | nil =>
        intro w hw
        obtain rfl := Option.some.inj hw
        exact isBreak_trimStart hne
      | cons u us =>
        rw [List.getLast?_cons_cons] at h ⊢
        exact h

theorem getLast_trimTokensEnd (ws : List Text) :
    ∀ w ∈ (trimTokensEnd ws).getLast?, isBreak w = false := by
  induction ws with
  | nil => exact fun _ h => by cases h
  | cons v vs ih =>
    rw [trimTokensEnd]
    split
    · split
      · exact fun _ h => by cases h
      · next hne =>
        intro w hw
        obtain rfl := Option.some.inj hw
        exact isBreak_trimEnd hne
    · next hne =>
      obtain ⟨u, us, he⟩ := List.exists_cons_of_ne_nil hne
      rw [he] at ih ⊢
      rw [List.getLast?_cons_cons]
      exact ih

theorem segment_trim_written {ws ds : List Text} (htok : ∀ w ∈ ws ++ ds, IsToken w)
    (hds : ds = [] ∨ ds = [['.']]) (hlast : ∀ w ∈ ws.getLast?, isBreak w = false)
    (h : ∀ w ∈ ws, NoDot w) : Segment (Text.trim (written (ws ++ ds))) := by
  rw [Segment, Text.tokens_trim_written htok, trimTokens, Text.trimTokensStart_append]
  have hstart := noDot_trimTokensStart h
  rcases hds with rfl | rfl
  · rw [List.append_nil]
    refine ⟨trimTokensEnd (trimTokensStart ws), [], ?_, .inl rfl, getLast_trimTokensEnd _,
      noDot_tail_trimTokensEnd hstart⟩
    split
    · next hnil => rw [hnil]; rfl
    · rw [List.append_nil]
  · refine ⟨trimTokensStart ws, [['.']], ?_, .inr rfl, getLast_trimTokensStart hlast, hstart⟩
    split
    · next hnil => rw [hnil]; decide
    · rw [Text.trimTokensEnd_append]
      have hdot : trimTokensEnd [['.']] = [['.']] := by decide
      rw [hdot, if_neg (by decide)]

/-! ## 5. Reading gives shaped bodies -/

/-- The tokens of the words at the head of a list of items, and of the full stop behind them. -/
def Item.sentence (items : List Item) : List Text :=
  Item.leadTokens items ++ if Item.leadStops items then [['.']] else []

/-- What is known of the items of a body, of the words at their head and of what stands behind. -/
structure ItemsShaped (style : BodyStyle) (items : List Item) : Prop where
  text_eq : Item.leadingText items = written (Item.leadTokens items)
  plain : ∀ w ∈ Item.leadTokens items, Plain w
  noDot : style = .segmented → ∀ w ∈ Item.leadTokens items, NoDot w
  last : ∀ w ∈ (Item.leadTokens items).getLast?, isBreak w = false
  stops : Item.leadStops items = true → style = .segmented
  after : ShapedBody style (Statement.afterLead items)
  apart : Item.leadStops items = false → ∀ u rest, Statement.afterLead items ≠ .simple u :: rest

theorem suffix_trim_written {ws : List Text} (hne : Text.trim (written ws) ≠ []) :
    [' ', '.'] <:+ Text.trim (written (ws ++ [['.']])) := by
  have hstart : Text.trimStart (written ws) ≠ [] := by
    intro h
    rw [Text.trim, h] at hne
    exact hne rfl
  rw [Text.written_append, Text.trim, Text.trimStart_append, if_neg hstart]
  show [' ', '.'] <:+ Text.trimEnd (Text.trimStart (written ws) ++ ([' '] ++ ['.']))
  rw [← List.append_assoc, Text.trimEnd_append_letter _ (by decide), List.append_assoc]
  exact List.suffix_append _ _

namespace ItemsShaped

variable {items : List Item} {b w : Text}

theorem plain_sentence (h : ItemsShaped style items) : ∀ w ∈ Item.sentence items, Plain w := by
  intro w hw
  rcases List.mem_append.1 hw with hw | hw
  · exact h.plain w hw
  · split at hw
    · rw [List.mem_singleton.1 hw]
      exact Text.plain_word (by decide) (List.forall_mem_singleton.2 (by decide))
    · nomatch hw

/-- The words at the head make up a statement unless they are blank. -/
theorem ofLead_eq (h : ItemsShaped style items) :
    Statement.ofLead items = if Text.trim (written (Item.leadTokens items)) = [] then []
      else [.simple (Text.trim (written (Item.sentence items)))] := by
  rw [Statement.ofLead, h.text_eq, Item.sentence]
  split
  · rfl
  · rw [Statement.ofText, Text.written_append]
    split
    · rfl
    · rw [Text.written_nil, List.append_nil]

theorem trim_sentence_ne_nil (hne : Text.trim (written (Item.leadTokens items)) ≠ []) :
    Text.trim (written (Item.sentence items)) ≠ [] := by
  intro hnil
  rw [Text.trim_eq_nil, Item.sentence, Text.written_append] at hnil
  exact hne (Text.trim_eq_nil.2 fun c hc => hnil c (List.mem_append_left _ hc))

/-- The statement of the words at the head may stand in front of those that follow it. -/
theorem shapedAt_sentence (h : ItemsShaped style items)
    (hne : Text.trim (written (Item.leadTokens items)) ≠ []) :
    ShapedAt style (.simple (Text.trim (written (Item.sentence items))))
      (Statement.afterLead items) := by
  refine ⟨Text.fragment_trim_written h.plain_sentence (trim_sentence_ne_nil hne),
    fun hstyle => ?_, fun u rest he => ?_⟩
  · refine segment_trim_written (fun w hw => (h.plain_sentence w hw).1) ?_ h.last (h.noDot hstyle)
    split
    · exact .inr rfl
    · exact .inl rfl
  · -- Only a full stop tells the text from another one behind it.
    have hstops : Item.leadStops items = true := by
      rw [← Bool.not_eq_false]
      exact fun hs => h.apart hs u rest he
    rw [Item.sentence, if_pos hstops]
    exact ⟨h.stops hstops, suffix_trim_written hne⟩

theorem body (h : ItemsShaped style items) : ShapedBody style (Statement.ofItems items) := by
  rw [Statement.ofItems, h.ofLead_eq]
  split
  · exact h.after
  · next hne => exact .simple (h.shapedAt_sentence hne) h.after

/-- Items with no words at their head are shaped as what stands behind the head is. -/
theorem of_noLead (htext : Item.leadingText items = []) (htokens : Item.leadTokens items = [])
    (hstops : Item.leadStops items = true → style = .segmented)
    (hafter : ShapedBody style (Statement.afterLead items))
    (hapart : Item.leadStops items = false →
      ∀ u rest, Statement.afterLead items ≠ .simple u :: rest) : ItemsShaped style items where
  text_eq := by rw [htext, htokens, Text.written_nil]
  plain := by rw [htokens]; exact fun _ h => nomatch h
  noDot := by rw [htokens]; exact fun _ _ h => nomatch h
  last := by rw [htokens]; exact fun _ h => nomatch h
  stops := hstops
  after := hafter
  apart := hapart

theorem word (h : ItemsShaped style items) (hb : IsBreaks b) (hbreak : isBreak w = false)
    (hitem : IsItem style w) (hw : IsToken w) : ItemsShaped style (.word b w :: items) where
  text_eq := by rw [Item.leadingText, Item.leadTokens, written_lead hb hbreak, h.text_eq]
  plain := by
    intro v hv
    rw [Item.leadTokens, List.mem_append, List.mem_cons] at hv
    rcases hv with hv | rfl | hv
    · exact plain_of_isBreak (hb.all v hv)
    · exact ⟨hw, hitem.noBrace⟩
    · exact h.plain v hv
  noDot := by
    intro hstyle v hv
    rw [Item.leadTokens, List.mem_append, List.mem_cons] at hv
    rcases hv with hv | rfl | hv
    · obtain ⟨ch, hch, rfl⟩ := List.mem_map.1 hv
      intro hdot
      obtain rfl := Option.some.inj hdot
      rcases hb _ hch with h | h <;> nomatch h
    · exact hitem.noStop hstyle
    · exact h.noDot hstyle v hv
  last := by
    intro v hv
    rw [Item.leadTokens, List.getLast?_append, List.getLast?_cons] at hv
    cases hlast : (Item.leadTokens items).getLast? with
    | none =>
      rw [hlast] at hv
      obtain rfl := Option.some.inj hv
      exact hbreak
    | some u =>
      rw [hlast] at hv
      obtain rfl := Option.some.inj hv
      exact h.last u hlast
  stops := h.stops
  after := h.after
  apart := h.apart

end ItemsShaped

theorem isIri_of_isToken {iri : Text} (h : IsToken (Text.angled iri)) : IsIri iri := by
  generalize hw : Text.angled iri = w at h
  cases h with
  | iri t ht =>
    have he := List.append_inj_left' (List.cons_eq_cons.1 hw).2 rfl
    rwa [he]
  | word w hne hall => exact absurd (hall '<' (by simp [← hw, Text.angled])) (by decide)
  | string t => nomatch hw
  | _ => nomatch (List.cons_eq_cons.1 hw).1

theorem isIri_of_datasetFrom {ds : List Text} {dataset : Option (Text × Bool)}
    (h : DatasetFrom ds dataset) (hw : ∀ w ∈ ds, Single w) :
    ∀ iri ∈ dataset.map Prod.fst, IsIri iri := by
  cases h with
  | omitted => exact fun _ h => nomatch h
  | plain | named =>
    intro iri hiri
    obtain rfl := Option.some.inj hiri
    exact isIri_of_isToken (hw _ (by simp)).1

theorem ProjectionFrom.inBlock_eq {inBlock : Bool} {ws : List Text} {p : Projection}
    (h : ProjectionFrom inBlock ws p) : p.inBlock = inBlock := by
  cases h
  rfl

theorem ProjectionFrom.shaped {inBlock : Bool} {ws modifiers : List Text} {p : Projection}
    (h : ProjectionFrom inBlock ws p) (hw : ∀ w ∈ ws, Single w) (hm : Modifiers modifiers) :
    Projection.Shaped { p with modifiers } := by
  cases h with
  | @mk qs ps ds vs quantifier dataset hq hne hps hfirst hd hv =>
    refine ⟨⟨ps, hne, rfl, fun w hp => ⟨hw w (by simp [hp]), hps w hp⟩, hfirst⟩, ?_, ?_, hm⟩
    · exact isIri_of_datasetFrom hd fun w hp => hw w (by simp [hp])
    · intro hnamed
      show (dataset.map Prod.fst).isSome = true
      cases dataset with
      | none => nomatch hnamed
      | some d => rfl

theorem modifiers_of_single {mss : List (List Text)} (hms : ∀ ms ∈ mss, IsModifier ms)
    (hw : ∀ w ∈ mss.flatten, Single w) : Modifiers (mss.map Text.spaced) :=
  ⟨mss, rfl, hms, fun w h => (hw w h).2, .of_forall fun w h => (hw w h).1⟩

/-- Solution modifiers of complete tokens are closed. -/
theorem closed_of_single {mss : List (List Text)} (hw : ∀ w ∈ mss.flatten, Single w) :
    ∀ m ∈ mss.map Text.spaced, Closed m := by
  intro m hm
  obtain ⟨ms, hms, rfl⟩ := List.mem_map.1 hm
  have hsingle : ∀ w ∈ ms, Single w := fun w h => hw w (List.mem_flatten.2 ⟨ms, hms, h⟩)
  rw [Closed, Text.tokens_spaced (.of_forall fun w h => (hsingle w h).1)]
  exact fun w h => (hsingle w h).1

theorem HeadFrom.nested {hs vs : List Text} {head closed : Head} (h : HeadFrom hs head)
    (hc : CloseFrom head vs closed) (hw : ∀ w ∈ hs ++ vs, Single w) :
    closed.Nested ∧ closed.bodyStyle = head.bodyStyle := by
  cases h with
  | group =>
    cases hc
    exact ⟨.group (fun _ h => nomatch h) (fun h => nomatch h), rfl⟩
  | optional =>
    cases hc
    exact ⟨.group (fun _ h => nomatch h) (fun h => nomatch h), rfl⟩
  | graph =>
    cases hc
    refine ⟨.group (fun iri h => ?_) (fun _ => rfl), rfl⟩
    obtain rfl := Option.some.inj h
    exact isIri_of_isToken (hw _ (by simp)).1
  | select hk hp =>
    cases hc with
    | select hms =>
      have hm : ∀ w ∈ (_ : List (List Text)).flatten, Single w := fun w h =>
        hw w (List.mem_append_right _ (List.mem_append_left _ h))
      exact ⟨.select hp.inBlock_eq
        (hp.shaped (fun w h => hw w (by simp [h])) (modifiers_of_single hms hm))
        (closed_of_single hm), rfl⟩

/-- The statements that are read from complete tokens are shaped. -/
theorem Derives.itemsShaped {limit depth : Nat} {ws : List Text} {items : List Item}
    (h : Derives limit style depth ws items) (hw : ∀ w ∈ ws, Single w) :
    ItemsShaped style items := by
  induction h with
  | nil => exact .of_noLead rfl rfl (fun h => nomatch h) .nil fun _ _ _ h => nomatch h
  | @word style depth ws items b w hb hbreak hitem _ ih =>
    exact (ih fun v hv => hw v (List.mem_cons_of_mem _ hv)).word hb hbreak hitem (hw w (by simp)).1
  | stop _ ih =>
    have ih := ih fun v hv => hw v (List.mem_cons_of_mem _ hv)
    exact .of_noLead rfl rfl (fun _ => rfl) ih.body fun h => nomatch h
  | nested _ hhead _ _ hclose _ ih₁ ih₂ =>
    obtain ⟨hwi, hwr, hwh⟩ := forall_of_nested hw
    obtain ⟨hnested, hstyle⟩ := hhead.nested hclose hwh
    have hbody : ShapedBody _ _ := hstyle ▸ (ih₁ hwi).body
    exact .of_noLead rfl rfl (fun h => nomatch h) (.block hnested hbody (ih₂ hwr).body)
      fun _ _ _ h => nomatch h

/-! ## 6. How deep blocks stand -/

namespace Statement

mutual

/-- The number of blocks that stand within one another. -/
def nesting : Statement → Nat
  | simple _ => 0
  | block _ body => nestingAll body + 1
  | update _ template attached =>
    max (nestingAll template) (match attached with
      | some body => nestingAll body
      | none => 0) + 1

/-- The number of blocks of a body that stand within one another. -/
def nestingAll : List Statement → Nat
  | [] => 0
  | s :: ss => max (nesting s) (nestingAll ss)

end

theorem nestingAll_append (ss ts : List Statement) :
    nestingAll (ss ++ ts) = max (nestingAll ss) (nestingAll ts) := by
  induction ss with
  | nil => simp [nestingAll]
  | cons s ss ih => simp [nestingAll, ih, Nat.max_assoc]

theorem nestingAll_ofLead (items : List Item) : nestingAll (ofLead items) = 0 := by
  rw [ofLead]
  split
  · rfl
  · simp [nestingAll, nesting, ofText]

theorem nestingAll_ofItems (items : List Item) :
    nestingAll (ofItems items) = nestingAll (afterLead items) := by
  rw [ofItems, nestingAll_append, nestingAll_ofLead, Nat.max_eq_right (Nat.zero_le _)]

end Statement

open Statement (nesting nestingAll nestingAll_ofItems) in
/-- Reading keeps to the limit. -/
theorem Derives.nestingAll_le {limit depth : Nat} {ws : List Text} {items : List Item}
    (h : Derives limit style depth ws items) :
    nestingAll (Statement.ofItems items) ≤ limit - depth := by
  induction h with
  | nil => simp [Statement.ofItems, Statement.ofLead, Item.leadingText, Text.trim_eq_nil,
      Text.AllBlank, Statement.afterLead, nestingAll]
  | word _ _ _ _ ih => rwa [nestingAll_ofItems] at ih ⊢
  | stop _ ih =>
    rw [nestingAll_ofItems]
    exact ih
  | nested hlt _ _ _ _ _ ih₁ ih₂ =>
    rw [nestingAll_ofItems]
    show max (nestingAll (Statement.ofItems _) + 1) (nestingAll (Statement.ofItems _)) ≤ _
    omega

/-! ## 7. Stable bodies -/

/-- True of statements that read as what they are: no word of a text begins a group, no text between
full stops begins with one, and a plain group does not begin with SELECT. -/
def StableAt (style : BodyStyle) (s : Statement) (_ss : List Statement) : Prop :=
  match s with
  | .simple t => (∀ w ∈ Text.tokens t, Keyword.graph.leads w = false ∧
      Keyword.optional.leads w = false) ∧ (style = .segmented → NoDot t)
  | .block head inner => head = .group none false → ∀ t rest, inner = .simple t :: rest →
      ∀ w ∈ nextToken (Text.tokens t), Keyword.select.spells w = false
  | .update .. => True

/-- A body that reads as what it is. -/
abbrev StableBody (style : BodyStyle) (body : List Statement) : Prop :=
  EveryBody StableAt style body

/-- True of statements all of whose bodies read as what they are. -/
def Statement.Stable : Statement → Prop
  | .simple _ => True
  | .block head body => StableBody head.bodyStyle body
  | .update _ template attached => StableBody .whole template ∧
    ∀ body ∈ attached, StableBody .segmented body

end SparqlTree
