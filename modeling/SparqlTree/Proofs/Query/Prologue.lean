import SparqlTree.Proofs.Query.Canonical
import SparqlTree.Proofs.Query.Onto
import SparqlTree.Proofs.Query.Shifted

/-!
# Declarations in front of a text

Lines with declarations may be put in front of any text (`Query.parse_declarations`). They do not
decide whether it is read, and the query has from them what it does not say itself: for each prefix
label, for the base and for the outer graph the last declaration counts.

Each line is one step of the reader, from the text with the line to the text without it
(`Draft.readFrom_line`). The draft is then one of declarations only, and what is read behind it is
what is read behind nothing.
-/

namespace SparqlTree

open Text (isBreak IsToken Closed byteLength)

/-- A way to write a keyword: any letter case will do. -/
abbrev Keyword.Spelling (k : Keyword) := { w : Text // k.spells w = true }

/-- What may stand between the angle brackets of an IRI reference. -/
abbrev Iri := { iri : Text // IsIri iri }

/-- What may stand in front of the colon of a prefix. It may be empty, and have colons in it. -/
abbrev PrefixLabel := { label : Text // ∀ c ∈ label, c ∉ Text.wordEnds }

/-- A declaration in front of a query. -/
inductive Declaration where
  /-- PREFIX with the colon at the label. -/
  | prefixAt (keyword : Keyword.prefixDecl.Spelling) (label : PrefixLabel) (iri : Iri)
  /-- PREFIX with the colon apart from the label. -/
  | prefixApart (keyword : Keyword.prefixDecl.Spelling) (label : PrefixLabel)
    (nonempty : label.1 ≠ []) (noColon : label.1.getLast? ≠ some ':') (iri : Iri)
  | base (keyword : Keyword.base.Spelling) (iri : Iri)
  | withGraph (keyword : Keyword.withGraph.Spelling) (iri : Iri)
  /-- FROM, or FROM NAMED. -/
  | fromGraph (keyword : Keyword.fromClause.Spelling) (named : Option Keyword.named.Spelling)
    (iri : Iri)

namespace Declaration

/-- The tokens of a declaration. -/
def words : Declaration → List Text
  | prefixAt keyword label iri => [keyword, label.1 ++ [':'], Text.angled iri]
  | prefixApart keyword label _ _ iri => [keyword, label, [':'], Text.angled iri]
  | base keyword iri => [keyword, Text.angled iri]
  | withGraph keyword iri => [keyword, Text.angled iri]
  | fromGraph keyword none iri => [keyword, Text.angled iri]
  | fromGraph keyword (some named) iri => [keyword, named, Text.angled iri]

/-- A declaration as it is written. -/
def text (d : Declaration) : Text := Text.spaced d.words

/-- Declarations as they are written, each on its own line. -/
def textAll (ds : List Declaration) : Text := ds.flatMap fun d => d.text ++ ['\n']

/-- The IRI that is declared for a label. -/
def iri? (label : Text) : Declaration → Option Text
  | prefixAt _ l iri | prefixApart _ l _ _ iri => if label = l.1 then some iri else none
  | _ => none

/-- The IRI that is declared as the base. -/
def base? : Declaration → Option Text
  | base _ iri => some iri
  | _ => none

/-- The graph that is named. -/
def graph? : Declaration → Option Text
  | withGraph _ iri | fromGraph _ _ iri => some iri
  | _ => none

/-- What the last of the declarations says that says anything. -/
def last? (said : Declaration → Option Text) (ds : List Declaration) : Option Text :=
  ds.reverse.findSome? said

end Declaration

/-- A draft with one more declaration in it. -/
def Draft.declare (r : Draft) : Declaration → Draft
  | .prefixAt _ label iri | .prefixApart _ label _ _ iri =>
    { r with prefixes := r.prefixes.insert label iri }
  | .base _ iri => { r with base := some iri.1 }
  | .withGraph _ iri | .fromGraph _ _ iri => { r with graph := some iri.1 }

/-- True of drafts in which there are declarations only. -/
structure Draft.Declared (r : Draft) : Prop where
  prologueOpen : r.prologueClosed = false
  incomplete : r.complete = false
  formless : r.form = none
  statements : r.statements = []

namespace Declaration

/-! ## 1. The last declaration counts -/

theorem last?_cons (said : Declaration → Option Text) (d : Declaration) (ds : List Declaration) :
    last? said (d :: ds) = (last? said ds).or (said d) := by
  rw [last?, List.reverse_cons, List.findSome?_append, last?, List.findSome?_singleton]

/-- Something that each declaration sets or leaves as it is has, behind all of them, been set by the
last one that does so. -/
theorem foldl_declare {f : Draft → Option Text} {said : Declaration → Option Text}
    (h : ∀ r d, f (r.declare d) = (said d).or (f r)) (ds : List Declaration) (r : Draft) :
    f (ds.foldl Draft.declare r) = (last? said ds).or (f r) := by
  induction ds generalizing r with
  | nil => rfl
  | cons d ds ih => rw [List.foldl_cons, ih, h, last?_cons, Option.or_assoc]

theorem base_declare (r : Draft) (d : Declaration) : (r.declare d).base = d.base?.or r.base := by
  cases d <;> rfl

theorem graph_declare (r : Draft) (d : Declaration) :
    (r.declare d).graph = d.graph?.or r.graph := by
  cases d <;> rfl

theorem get?_declare (label : Text) (r : Draft) (d : Declaration) :
    (r.declare d).prefixes.get? label = (d.iri? label).or (r.prefixes.get? label) := by
  cases d with
  | prefixAt keyword l iri =>
    rw [Draft.declare, PrefixMap.get?_insert, iri?]
    split <;> rfl
  | prefixApart keyword l _ _ iri =>
    rw [Draft.declare, PrefixMap.get?_insert, iri?]
    split <;> rfl
  | _ => rfl

theorem declared_declare {r : Draft} (h : r.Declared) (d : Declaration) :
    (r.declare d).Declared := by
  obtain ⟨hopen, hincomplete, hform, hstatements⟩ := h
  cases d <;> exact ⟨hopen, hincomplete, hform, hstatements⟩

theorem declared_foldl {r : Draft} (h : r.Declared) (ds : List Declaration) :
    (ds.foldl Draft.declare r).Declared := by
  induction ds generalizing r with
  | nil => exact h
  | cons d ds ih => exact ih (declared_declare h d)

theorem declared_empty : Draft.Declared {} := ⟨rfl, rfl, rfl, rfl⟩

/-- The draft that some declarations make. -/
def draft (ds : List Declaration) : Draft := ds.foldl Draft.declare {}

theorem declared_draft (ds : List Declaration) : (draft ds).Declared :=
  declared_foldl declared_empty ds

theorem draft_base (ds : List Declaration) : (draft ds).base = last? base? ds :=
  (foldl_declare base_declare ds {}).trans Option.or_none

theorem draft_graph (ds : List Declaration) : (draft ds).graph = last? graph? ds :=
  (foldl_declare graph_declare ds {}).trans Option.or_none

theorem draft_prefixes (ds : List Declaration) (label : Text) :
    (draft ds).prefixes.get? label = last? (iri? label) ds :=
  (foldl_declare (f := fun r => r.prefixes.get? label) (get?_declare label) ds {}).trans
    Option.or_none

end Declaration

/-! ## 2. One line -/

namespace Cursor

/-- The tokens up to some place in the list come next, with nothing left of them there. -/
theorem exists_feeds {c : Cursor} {us rest : List Token} (h : c.upcoming = us ++ rest)
    (hus : ∀ u ∈ us, u.kind = TokenKind.classify u.text ∧ isBreak u.text = false) :
    ∃ c', c.Feeds (us.map Token.text) c' ∧ c'.upcoming = rest ∧ c'.stop = c.stop := by
  induction us generalizing c with
  | nil => exact ⟨c, rfl, h, rfl⟩
  | cons u us ih =>
    obtain ⟨hkind, hsolid⟩ := hus u List.mem_cons_self
    have hnobreak : ¬ u.isLineBreak = true := by
      rw [Token.isLineBreak, hkind]
      exact Bool.eq_false_iff.1 hsolid
    have hskip : c.skipBreaks.upcoming = u :: (us ++ rest) := by
      rw [upcoming_skipBreaks, h, List.cons_append, List.dropWhile_cons_of_neg hnobreak]
    have hp : c.peek = some u := by rw [peek_eq_head?_skipBreaks, hskip, List.head?_cons]
    have hpass : c.pass.upcoming = us ++ rest := by
      rw [skipBreaks_upcoming_eq_of_peek hp] at hskip
      exact (List.cons_eq_cons.1 hskip).2
    obtain ⟨c', hfeeds, hrest, hstop⟩ := ih hpass fun v hv => hus v (List.mem_cons_of_mem _ hv)
    exact ⟨c', ⟨⟨u, hp, rfl, hkind⟩, hfeeds⟩, hrest, hstop⟩

end Cursor

namespace Declaration

theorem single_spelling {k : Keyword} (keyword : k.Spelling) : Single keyword.1 :=
  single_of_spells keyword.2

theorem single_iri (iri : Iri) : Single (Text.angled iri.1) := single_angled iri.2

theorem word_label (label : PrefixLabel) : ∀ c ∈ label.1, Text.continuesWord c = true := by
  intro c hc
  rw [← Bool.not_eq_false, ← Text.wordEnds_iff]
  exact label.2 c hc

theorem single_word {w : Text} (hne : w ≠ []) (hall : ∀ c ∈ w, Text.continuesWord c = true) :
    Single w :=
  ⟨.word w hne hall, Text.isBreak_of_word hall⟩

theorem word_colon : ∀ c ∈ [':'], Text.continuesWord c = true :=
  List.forall_mem_singleton.2 (by decide)

theorem single_words (d : Declaration) : ∀ w ∈ d.words, Single w := by
  cases d with
  | prefixAt keyword label iri =>
    have hlabel : Single (label.1 ++ [':']) :=
      single_word (by simp) fun c hc => (List.mem_append.1 hc).elim (word_label label c)
        (word_colon c)
    exact List.forall_mem_cons.2 ⟨single_spelling keyword,
      List.forall_mem_cons.2 ⟨hlabel, forall_single (single_iri iri)⟩⟩
  | prefixApart keyword label hne hlast iri =>
    exact List.forall_mem_cons.2 ⟨single_spelling keyword,
      List.forall_mem_cons.2 ⟨single_word hne (word_label label),
        List.forall_mem_cons.2 ⟨single_word (by simp) word_colon, forall_single (single_iri iri)⟩⟩⟩
  | base keyword iri =>
    exact List.forall_mem_cons.2 ⟨single_spelling keyword, forall_single (single_iri iri)⟩
  | withGraph keyword iri =>
    exact List.forall_mem_cons.2 ⟨single_spelling keyword, forall_single (single_iri iri)⟩
  | fromGraph keyword named iri =>
    cases named with
    | none => exact List.forall_mem_cons.2 ⟨single_spelling keyword, forall_single (single_iri iri)⟩
    | some named =>
      exact List.forall_mem_cons.2 ⟨single_spelling keyword,
        List.forall_mem_cons.2 ⟨single_spelling named, forall_single (single_iri iri)⟩⟩

theorem tokens_text (d : Declaration) : Text.tokens d.text = d.words :=
  Text.tokens_line d.single_words

example : Text.tokens "from Named <http://e/g>".toList = Declaration.words
    (.fromGraph ⟨"from".toList, by decide⟩ (some ⟨"Named".toList, by decide⟩)
      ⟨"http://e/g".toList, by unfold IsIri; decide⟩) := by
  decide +kernel

theorem closed_text (d : Declaration) : Closed d.text := Text.closed_line d.single_words

end Declaration

namespace Draft

variable {cfg : Config} {r : Draft} {c c' : Cursor} {k : Keyword} {w : Text}

/-- Every declaration is read in front of the query, in one step. -/
theorem step_declaration (cfg : Config) {d : Declaration} (hr : r.Declared)
    (h : c.Feeds d.words c') : step cfg r c = .ok (some (r.declare d, c')) := by
  cases d with
  | prefixAt keyword label iri =>
    obtain ⟨hnext, h⟩ := h
    rw [step_of_next hr.incomplete hnext keyword.2,
      (ClauseParts.prefixDecl hr.prologueOpen (readPrefix_at h)).readClause]
    rfl
  | prefixApart keyword label hne hlast iri =>
    obtain ⟨hnext, h⟩ := h
    rw [step_of_next hr.incomplete hnext keyword.2,
      (ClauseParts.prefixDecl hr.prologueOpen (readPrefix_apart hlast h)).readClause]
    rfl
  | base keyword iri =>
    obtain ⟨hnext, hiri, rfl⟩ := h
    rw [step_of_next hr.incomplete hnext keyword.2,
      (ClauseParts.base hr.prologueOpen hiri.requireIri).readClause]
    rfl
  | withGraph keyword iri =>
    obtain ⟨hnext, hiri, rfl⟩ := h
    rw [step_of_next hr.incomplete hnext keyword.2,
      (ClauseParts.withGraph hiri.requireIri).readClause]
    rfl
  | fromGraph keyword named iri =>
    cases named with
    | none =>
      obtain ⟨hnext, hiri, rfl⟩ := h
      have hread : (c.pass.skip .named).requireIri = .ok (iri.val, c.pass.pass) := by
        rw [Cursor.skip, hiri.eat?_eq_none (spells_angled _ _), Option.getD_none, hiri.requireIri]
      rw [step_of_next hr.incomplete hnext keyword.2, (ClauseParts.fromClause hread).readClause]
      rfl
    | some named =>
      obtain ⟨hnext, hnamed, hiri, rfl⟩ := h
      have hread : (c.pass.skip .named).requireIri = .ok (iri.val, c.pass.pass.pass) := by
        rw [Cursor.skip, hnamed.eat?_spells named.2, Option.getD_some, hiri.requireIri]
      rw [step_of_next hr.incomplete hnext keyword.2, (ClauseParts.fromClause hread).readClause]
      rfl

/-! ## 3. All lines -/

/-- A line with a declaration leaves the text behind it to be read, from the draft with that
declaration. -/
theorem readFrom_line (cfg : Config) (d : Declaration) (t : Text) (hr : r.Declared) :
    let n := byteLength (d.text ++ ['\n'])
    Alike (ParseError.Moved n) (Meets n)
      (readFrom cfg (r.declare d) (Query.cursor cfg t))
      (readFrom cfg r (Query.cursor cfg (d.text ++ ['\n'] ++ t))) := by
  intro n
  have hn : n = byteLength d.text + 1 := Text.byteLength_append d.text ['\n']
  have htokens : tokenize (d.text ++ ['\n'] ++ t) = tokenize d.text ++
      (tokenize ('\n' :: t)).map (Token.shift (byteLength d.text)) := by
    rw [List.append_assoc]
    exact Text.tokenize_append_newline d.closed_text t
  have hsolid : ∀ u ∈ tokenize d.text, u.kind = TokenKind.classify u.text ∧
      isBreak u.text = false := fun u hu =>
    ⟨Text.kind_tokenize hu, (d.single_words u.text (d.tokens_text ▸ List.mem_map_of_mem hu)).2⟩
  obtain ⟨c, hfeeds, hup, hstop⟩ := Cursor.exists_feeds
    (c := Query.cursor cfg (d.text ++ ['\n'] ++ t)) htokens hsolid
  have hwords : (tokenize d.text).map Token.text = d.words := d.tokens_text
  rw [hwords] at hfeeds
  rw [readFrom_of_step (step_declaration cfg hr hfeeds), hn]
  -- Only the line break stands between the declaration and the text.
  refine repeatStep_moved (Query.shifted_newline cfg hup ?_) (r.declare d)
  rw [hstop, ← hn, ← Text.byteLength_append]
  rfl

/-- So do all lines with declarations. -/
theorem readFrom_lines (cfg : Config) (ds : List Declaration) (t : Text) (hr : r.Declared) :
    let n := byteLength (Declaration.textAll ds)
    Alike (ParseError.Moved n) (Meets n)
      (readFrom cfg (ds.foldl declare r) (Query.cursor cfg t))
      (readFrom cfg r (Query.cursor cfg (Declaration.textAll ds ++ t))) := by
  intro n
  induction ds generalizing r with
  | nil =>
    refine (Alike.refl ParseError.moved_zero _).imp ?_
    rintro p _ rfl
    exact ⟨rfl, Cursor.shifted_zero _⟩
  | cons d ds ih =>
    have hrest := ih (Declaration.declared_declare hr d)
    have hline := readFrom_line cfg d (Declaration.textAll ds ++ t) hr
    have htext : Declaration.textAll (d :: ds) ++ t =
        d.text ++ ['\n'] ++ (Declaration.textAll ds ++ t) := by
      rw [Declaration.textAll, List.flatMap_cons, List.append_assoc]
      rfl
    have hn : n = byteLength (d.text ++ ['\n']) + byteLength (Declaration.textAll ds) := by
      rw [← Text.byteLength_append]
      rfl
    rw [htext, hn, List.foldl_cons]
    exact hrest.trans hline (fun _ _ _ he hf => he.trans hf) fun _ _ _ hp hq => hp.trans hq

end Draft

namespace Query

open Declaration (textAll last? base? graph? iri?)

/-- The second query was read with some declarations in front: it is the first, with the last of the
declarations where the first says nothing itself. -/
structure Under (ds : List Declaration) (q q' : Query) : Prop where
  form : q'.form = q.form
  statements : q'.statements = q.statements
  base : q'.base = q.base.or (last? base? ds)
  graph : q'.graph = q.graph.or (last? graph? ds)
  prefixes : ∀ label, q'.prefixes.get? label = (q.prefixes.get? label).or (last? (iri? label) ds)

/-- The draft of a query, on top of a draft of declarations. -/
theorem query?_onto (d : Draft) (ds : List Declaration) (t t' : Text) :
    Option.Rel (fun q q' => q.Under ds q' ∧ q'.source = t') (d.query? t)
      ((d.onto (Declaration.draft ds)).query? t') := by
  have hds := Declaration.declared_draft ds
  rw [Draft.query?, Draft.query?, Draft.onto, hds.formless, hds.statements, Option.or_none]
  cases d.form with
  | none => exact .none
  | some form =>
    refine .some ⟨⟨rfl, rfl, ?_, ?_, fun label => ?_⟩, rfl⟩
    · exact congrArg d.base.or (Declaration.draft_base ds)
    · exact congrArg d.graph.or (Declaration.draft_graph ds)
    · rw [PrefixMap.get?_onto, Declaration.draft_prefixes]

/-- Declarations in front of a text do not decide whether it is read: it is refused for the same
reason at the same token, or read as the same query but for what they declare. -/
theorem parse_declarations (cfg : Config) (ds : List Declaration) (t : Text) :
    Alike (ParseError.Moved (byteLength (textAll ds)))
      (fun q q' => q.Under ds q' ∧ q'.source = textAll ds ++ t)
      (parse cfg t) (parse cfg (textAll ds ++ t)) := by
  have hds := Declaration.declared_draft ds
  have hlines := Draft.readFrom_lines cfg ds t Declaration.declared_empty
  -- What is read behind the declarations is what is read behind nothing.
  have honto : Draft.readFrom cfg (Declaration.draft ds) (cursor cfg t) =
      (Draft.read cfg (cursor cfg t)).map (Draft.pairOnto (Declaration.draft ds)) := by
    have h : Draft.readFrom cfg (Draft.onto {} (Declaration.draft ds)) (cursor cfg t) = _ :=
      Draft.repeatStep_onto_open hds.prologueOpen hds.formless {} (cursor cfg t)
    rwa [Draft.empty_onto hds.incomplete] at h
  rw [← Declaration.draft, honto] at hlines
  rw [parse, parse]
  refine hlines.of_map.bind ?_
  rintro ⟨d, c⟩ ⟨_, c'⟩ ⟨rfl, hcc'⟩
  have hquery : Option.Rel _ (d.query? t) _ := query?_onto d ds t (textAll ds ++ t)
  dsimp only [Draft.pairOnto]
  generalize d.query? t = q at hquery ⊢
  generalize (d.onto (Declaration.draft ds)).query? (textAll ds ++ t) = q' at hquery ⊢
  cases hquery with
  | none => exact .error (Draft.errorFound_moved hcc' .queryForm)
  | some hq => exact .ok hq

end Query

end SparqlTree
