import SparqlTree.Proofs.Query.Shape
import SparqlTree.Proofs.Token.Braces

/-!
# The braces of a query

A SELECT query and an update are read to the end of their text, so each of their braces was
consumed. Almost everywhere a brace is consumed with its partner. Two places take whatever token
comes next, a brace as well: the label of a prefix, and the operand of LIMIT, OFFSET and ORDER BY.
Where no brace was taken there, the braces of the text match (`Query.bracesMatch_of_parse`).
-/

namespace SparqlTree

open Text (tokens isBreak Scanned)

/-- No token of the text is a brace. -/
def Unbraced (t : Text) : Prop := ∀ w ∈ tokens t, isBrace w = false

instance : DecidablePred Unbraced := fun t =>
  inferInstanceAs (Decidable (∀ w ∈ tokens t, isBrace w = false))

namespace Statement

mutual

/-- The solution modifiers of a node and everything below it. -/
def allModifiers : Statement → List Text
  | simple _ => []
  | block head body => head.modifiers ++ allModifiersAll body
  | update _ template attached =>
    allModifiersAll template ++
      match attached with
      | some body => allModifiersAll body
      | none => []

/-- The solution modifiers of several nodes and everything below them. -/
def allModifiersAll : List Statement → List Text
  | [] => []
  | s :: ss => allModifiers s ++ allModifiersAll ss

end

end Statement

/-- No prefix has a brace as its label, and no solution modifier has one as its operand. -/
structure BraceFree (prefixes : PrefixMap) (ss : List Statement) : Prop where
  labels : ∀ p ∈ prefixes.toList, Unbraced p.1
  modifiers : ∀ m ∈ Statement.allModifiersAll ss, Unbraced m

instance (prefixes : PrefixMap) (ss : List Statement) : Decidable (BraceFree prefixes ss) :=
  decidable_of_iff ((∀ p ∈ prefixes.toList, Unbraced p.1) ∧
      ∀ m ∈ Statement.allModifiersAll ss, Unbraced m)
    ⟨fun h => ⟨h.1, h.2⟩, fun h => ⟨h.labels, h.modifiers⟩⟩

open Statement (allModifiersAll)

/-! ## 1. Tokens that are no braces -/

theorem isBrace_of_spells {k : Keyword} {w : Text} (h : k.spells w = true) : isBrace w = false :=
  Text.isBrace_of_word (Keyword.word_of_spells h)

theorem isBrace_angled (iri : Text) : isBrace (Text.angled iri) = false := rfl

theorem isBrace_of_projected {w : Text} (h : Projected w) : isBrace w = false :=
  isBrace_eq_false.2 ⟨h.1, h.2.1⟩

/-- Tokens of which none is a brace. -/
def NoBraces (ws : List Text) : Prop := ∀ w ∈ ws, isBrace w = false

theorem NoBraces.append {vs ws : List Text} (hv : NoBraces vs) (hw : NoBraces ws) :
    NoBraces (vs ++ ws) := List.forall_mem_append.2 ⟨hv, hw⟩

theorem NoBraces.cons {w : Text} {ws : List Text} (hw : isBrace w = false) (h : NoBraces ws) :
    NoBraces (w :: ws) := List.forall_mem_cons.2 ⟨hw, h⟩

theorem NoBraces.nil : NoBraces [] := fun _ h => nomatch h

theorem noBraces_angled (iri : Text) : NoBraces [Text.angled iri] := .cons (isBrace_angled iri) .nil

theorem NoBraces.bracesMatch {ws : List Text} (h : NoBraces ws) : BracesMatch ws := .of_not_mem h

theorem QuantifierFrom.noBraces {ws : List Text} {q : Option SetQuantifier}
    (h : QuantifierFrom ws q) : NoBraces ws := by
  cases h with
  | omitted => exact .nil
  | distinct hk => exact .cons (isBrace_of_spells hk) .nil
  | reduced hk => exact .cons (isBrace_of_spells hk) .nil

theorem DatasetFrom.noBraces {ws : List Text} {d : Option (Text × Bool)} (h : DatasetFrom ws d) :
    NoBraces ws := by
  cases h with
  | omitted => exact .nil
  | plain hf => exact .cons (isBrace_of_spells hf) (noBraces_angled _)
  | named hf hn =>
    exact .cons (isBrace_of_spells hf) (.cons (isBrace_of_spells hn) (noBraces_angled _))

theorem WhereFrom.noBraces {ws : List Text} (h : WhereFrom ws) : NoBraces ws := by
  cases h with
  | omitted => exact .nil
  | word hk => exact .cons (isBrace_of_spells hk) .nil

theorem ProjectionFrom.noBraces {inBlock : Bool} {ws : List Text} {p : Projection}
    (h : ProjectionFrom inBlock ws p) : NoBraces ws := by
  cases h with
  | mk hq _ hps _ hd hw =>
    exact ((hq.noBraces.append fun w hw => isBrace_of_projected (hps w hw)).append
      hd.noBraces).append hw.noBraces

/-- The tokens of solution modifiers can be read off the modifiers. -/
theorem noBraces_modifiers {mss : List (List Text)} (hscan : Scanned mss.flatten)
    (h : ∀ m ∈ mss.map Text.spaced, Unbraced m) : NoBraces mss.flatten := by
  induction mss with
  | nil => exact .nil
  | cons ms mss ih =>
    rw [List.flatten_cons] at hscan ⊢
    rw [List.map_cons] at h
    obtain ⟨h₁, h₂⟩ := List.forall_mem_cons.1 h
    rw [Unbraced, Text.tokens_spaced hscan.of_append_left] at h₁
    exact NoBraces.append h₁ (ih hscan.of_append h₂)

/-! ## 2. Bodies -/

theorem allModifiersAll_append (ss ts : List Statement) :
    allModifiersAll (ss ++ ts) = allModifiersAll ss ++ allModifiersAll ts := by
  induction ss with
  | nil => rfl
  | cons s ss ih => rw [List.cons_append, allModifiersAll, ih, allModifiersAll, List.append_assoc]

/-- Text has no modifiers, so those of a body are those of its blocks. -/
theorem allModifiersAll_ofItems (items : List Item) : allModifiersAll (Statement.ofItems items) =
    allModifiersAll (Statement.afterLead items) := by
  rw [Statement.ofItems, allModifiersAll_append, Statement.ofLead]
  split
  · rfl
  · rfl

/-- In a block each brace stands with its partner, apart from those in its modifiers. -/
theorem HeadFrom.bracesMatch {hs us vs : List Text} {head closed : Head} (h : HeadFrom hs head)
    (hclose : CloseFrom head vs closed) (hvs : ∀ w ∈ vs, Single w)
    (hfree : ∀ m ∈ closed.modifiers, Unbraced m) (hus : BracesMatch us) :
    BracesMatch (hs ++ ['\x7b'] :: us ++ ['\x7d'] :: vs) := by
  have hbody : BracesMatch (['\x7b'] :: us ++ [['\x7d']]) := hus.enclose
  cases h with
  | group =>
    cases hclose
    exact hbody
  | @optional k hk =>
    cases hclose
    exact (NoBraces.cons (isBrace_of_spells hk) .nil).bracesMatch.append hbody
  | @graph k iri hk =>
    cases hclose
    exact (NoBraces.cons (isBrace_of_spells hk) (noBraces_angled iri)).bracesMatch.append
      hbody
  | @select k ps p hk hp =>
    cases hclose with
    | @select _ mss hms =>
      rw [if_pos hp.inBlock_eq] at hvs ⊢
      have hmods : NoBraces mss.flatten := noBraces_modifiers
        (.of_forall fun w hw => (hvs w (List.mem_append_left _ hw)).1) hfree
      have hhead : NoBraces (k :: ps) := .cons (isBrace_of_spells hk) hp.noBraces
      -- The sub-select stands in braces of its own, with its modifiers.
      have hall := ((hhead.bracesMatch.append hbody).append hmods.bracesMatch).enclose
      simpa using hall

/-- The braces of a body match, if none is an operand of a modifier in it. -/
theorem Derives.bracesMatch {limit depth : Nat} {style : BodyStyle} {ws : List Text}
    {items : List Item} (h : Derives limit style depth ws items) (hws : ∀ w ∈ ws, Single w)
    (hfree : ∀ m ∈ allModifiersAll (Statement.ofItems items), Unbraced m) : BracesMatch ws := by
  induction h with
  | nil => exact NoBraces.nil.bracesMatch
  | @word style depth ws items b w _ _ hitem _ ih =>
    have hw : NoBraces [w] := .cons (isBrace_eq_false.2 hitem.noBrace) .nil
    rw [allModifiersAll_ofItems] at hfree ih
    exact hw.bracesMatch.append (ih (fun v hv => hws v (List.mem_cons_of_mem _ hv)) hfree)
  | @stop depth ws items _ ih =>
    rw [allModifiersAll_ofItems] at hfree
    have hdot : NoBraces [['.']] := .cons rfl .nil
    exact hdot.bracesMatch.append (ih (fun v hv => hws v (List.mem_cons_of_mem _ hv)) hfree)
  | @nested style depth hs us vs ws head closed inner items _ hhead _ _ hclose _ ih₁ ih₂ =>
    rw [allModifiersAll_ofItems, Statement.afterLead, allModifiersAll, Statement.allModifiers,
      List.append_assoc, List.forall_mem_append, List.forall_mem_append] at hfree
    obtain ⟨hclosed, hinner, hitems⟩ := hfree
    have hblock := hhead.bracesMatch hclose (fun w hw => hws w (by simp [hw])) hclosed
      (ih₁ (fun w hw => hws w (by simp [hw])) hinner)
    have hall := hblock.append (ih₂ (fun w hw => hws w (by simp [hw])) hitems)
    simpa using hall

/-! ## 3. Clauses -/

variable {cfg : Config} {c c' : Cursor}

theorem readBody_braces {style : BodyStyle} {body : List Statement} (hc : c.Lexed)
    (h : readBody cfg style c = .ok (body, c')) : ∃ ws, c.Passed (ws ++ [['\x7d']]) c' ∧
      ((∀ m ∈ allModifiersAll body, Unbraced m) → BracesMatch ws) := by
  obtain ⟨items, hitems, rfl⟩ := readBody_cases h
  obtain ⟨ws, hp, hd, -⟩ := readItems_sound hc hitems
  exact ⟨ws, hp, hd.bracesMatch hp.single⟩

/-- What closes the block of a query form has no braces, if none is an operand. -/
theorem close_noBraces {head closed : Head} (hc : c.Lexed)
    (hhead : head = .pattern ∨ ∃ p : Projection, head = .select p ∧ p.inBlock = false)
    (h : head.close c = .ok (closed, c')) : ∃ ws, c.Passed ws c' ∧
      ((∀ m ∈ closed.modifiers, Unbraced m) → NoBraces ws) := by
  obtain ⟨ws, hp, hclose⟩ := Head.took_close hc h
  refine ⟨ws, hp.toPassed, fun hfree => ?_⟩
  rcases hhead with rfl | ⟨p, rfl, hin⟩
  · cases hclose
    exact .nil
  · cases hclose with
    | select hms =>
      rw [hin, if_neg (by decide), List.append_nil] at hp ⊢
      exact noBraces_modifiers hp.scanned hfree

theorem readBlock_braces {head : Head} {s : Statement} (hc : c.Lexed)
    (hhead : head = .pattern ∨ ∃ p : Projection, head = .select p ∧ p.inBlock = false)
    (h : head.readBlock cfg c = .ok (s, c')) :
    ∃ us vs, c.Passed (us ++ [['\x7d']] ++ vs) c' ∧
      ((∀ m ∈ s.allModifiers, Unbraced m) → BracesMatch us ∧ NoBraces vs) := by
  obtain ⟨body, c₁, closed, h₁, h₂, rfl⟩ := Head.readBlock_cases h
  obtain ⟨us, hp₁, hus⟩ := readBody_braces hc h₁
  obtain ⟨vs, hp₂, hvs⟩ := close_noBraces hp₁.lexed hhead h₂
  refine ⟨us, vs, hp₁.trans hp₂, fun hfree => ?_⟩
  rw [Statement.allModifiers, List.forall_mem_append] at hfree
  exact ⟨hus hfree.2, hvs hfree.1⟩

theorem readSkipped_braces {k : Keyword} (hc : c.Lexed)
    (h : readOpenBrace (c.skipGlued k) = .ok c') :
    ∃ ws, c.Passed (ws ++ [['\x7b']]) c' ∧ NoBraces ws := by
  obtain ⟨_, hp, rfl | ⟨w, rfl, hw⟩⟩ := took_skipGlued_brace hc h
  · exact ⟨[], hp.toPassed, .nil⟩
  · exact ⟨[w], hp.toPassed, .cons (isBrace_of_spells hw) .nil⟩

theorem readAttached?_braces {attached : Option (List Statement)} (hc : c.Lexed)
    (h : UpdateHead.readAttached? cfg c = .ok (attached, c')) : ∃ ws, c.Passed ws c' ∧
      ((∀ body ∈ attached, ∀ m ∈ allModifiersAll body, Unbraced m) → BracesMatch ws) := by
  obtain ⟨-, rfl, rfl⟩ | ⟨c₁, c₂, body, h₁, h₂, h₃, rfl⟩ := UpdateHead.readAttached?_cases h
  · exact ⟨[], hc.passed, fun _ => NoBraces.nil.bracesMatch⟩
  · obtain ⟨w, hw, hp⟩ := took_gluedBrace hc h₁ h₂
    obtain ⟨us, hp₃, hus⟩ := readBody_braces hp.lexed h₃
    refine ⟨_, hp.toPassed.trans hp₃, fun hfree => ?_⟩
    have hword : NoBraces [w] := .cons (isBrace_of_spells hw) .nil
    have hall := hword.bracesMatch.append (hus (hfree body rfl)).enclose
    simpa using hall

theorem readUpdate_braces {operation : Operation} {s : Statement} (hc : c.Lexed)
    (h : UpdateHead.read cfg operation c = .ok (s, c')) : ∃ ws, c.Passed ws c' ∧
      ((∀ m ∈ s.allModifiers, Unbraced m) → BracesMatch ws) := by
  obtain ⟨c₁, template, c₂, attached, h₁, h₂, -, h₃, rfl⟩ := UpdateHead.read_cases h
  obtain ⟨vs, hp₁, hvs⟩ := readSkipped_braces hc h₁
  obtain ⟨us, hp₂, hus⟩ := readBody_braces hp₁.lexed h₂
  obtain ⟨xs, hp₃, hxs⟩ := readAttached?_braces hp₂.lexed h₃
  refine ⟨_, (hp₁.trans hp₂).trans hp₃, fun hfree => ?_⟩
  rw [Statement.allModifiers.eq_def, List.forall_mem_append] at hfree
  obtain ⟨htemplate, hattached⟩ := hfree
  have hrest := hxs fun body hb => by
    cases attached with
    | none => nomatch hb
    | some b => exact Option.some.inj hb ▸ hattached
  have hall := (hvs.bracesMatch.append (hus htemplate).enclose).append hrest
  simpa using hall

/-- The label of a prefix is the only token of its declaration that can be a brace. -/
theorem readPrefix_braces {label iri : Text} (hc : c.Lexed)
    (h : Draft.readPrefix c = .ok (label, iri, c')) :
    ∃ ws, c.Passed ws c' ∧ (Unbraced label → NoBraces ws) := by
  obtain ⟨t, c₁, h₁, hcase⟩ := Draft.readPrefix_cases h
  obtain ⟨hp₁, -⟩ := hc.expect_eq_ok h₁
  -- The colon is the end of the label, or it is a token of its own.
  obtain ⟨hlast, -, hiri⟩ | ⟨u, c₂, rfl, h₂, hiri⟩ := hcase
  · have hlabel : isBrace t.text = false := by
      rw [isBrace_eq_false]
      constructor
      · intro he
        rw [he] at hlast
        exact absurd hlast (by decide)
      · intro he
        rw [he] at hlast
        exact absurd hlast (by decide)
    exact ⟨_, (hp₁.trans (took_requireIri hp₁.lexed hiri)).toPassed,
      fun _ => .cons hlabel (noBraces_angled iri)⟩
  · obtain ⟨hp₂, hcolon⟩ := hp₁.lexed.require_eq_ok h₂
    -- The label is one token, so a brace in it would be all of it.
    have hsingle := (hp₁.trans hp₂).single t.text (by simp)
    refine ⟨_, ((hp₁.trans hp₂).trans (took_requireIri hp₂.lexed hiri)).toPassed, fun hfree => ?_⟩
    have hlabel : isBrace t.text = false := by
      apply hfree
      have htokens := Text.tokens_append (t := []) hsingle.1 fun _ _ h => nomatch h
      rw [List.append_nil] at htokens
      rw [htokens]
      exact List.mem_cons_self
    have hcolon : isBrace u.text = false := by
      rw [beq_iff_eq.1 hcolon]
      rfl
    exact .cons hlabel (.cons hcolon (noBraces_angled iri))

theorem mem_place_self (label iri : Text) (ps : List (Text × Text)) :
    (label, iri) ∈ PrefixMap.place label iri ps := by
  induction ps with
  | nil => exact List.mem_singleton_self _
  | cons p ps ih =>
    rw [PrefixMap.place]
    split
    · exact List.mem_cons_self
    · split
      · exact List.mem_cons_self
      · exact List.mem_cons_of_mem _ ih

/-- A label stays declared. -/
theorem exists_label_place (label iri : Text) {ps : List (Text × Text)} {p : Text × Text}
    (hp : p ∈ ps) : ∃ q ∈ PrefixMap.place label iri ps, q.1 = p.1 := by
  induction ps with
  | nil => nomatch hp
  | cons r ps ih =>
    rw [PrefixMap.place]
    split
    · exact ⟨p, List.mem_cons_of_mem _ hp, rfl⟩
    · rcases List.mem_cons.1 hp with rfl | hp
      · split
        · next he => exact ⟨_, List.mem_cons_self, he⟩
        · exact ⟨p, List.mem_cons_self, rfl⟩
      · split
        · exact ⟨p, List.mem_cons_of_mem _ hp, rfl⟩
        · obtain ⟨q, hq, he⟩ := ih hp
          exact ⟨q, List.mem_cons_of_mem _ hq, he⟩

theorem BraceFree.of_insert {label iri : Text} {prefixes : PrefixMap} {ss : List Statement}
    (h : BraceFree (prefixes.insert label iri) ss) : BraceFree prefixes ss ∧ Unbraced label := by
  refine ⟨⟨fun p hp => ?_, h.modifiers⟩, h.labels _ (mem_place_self label iri prefixes.toList)⟩
  obtain ⟨q, hq, he⟩ := exists_label_place label iri hp
  exact he ▸ h.labels q hq

theorem BraceFree.of_append {prefixes : PrefixMap} {ss : List Statement} {s : Statement}
    (h : BraceFree prefixes (ss ++ [s])) :
    BraceFree prefixes ss ∧ ∀ m ∈ s.allModifiers, Unbraced m := by
  obtain ⟨hlabels, hmodifiers⟩ := h
  rw [allModifiersAll_append, List.forall_mem_append] at hmodifiers
  obtain ⟨hss, hs⟩ := hmodifiers
  rw [allModifiersAll, allModifiersAll, List.append_nil] at hs
  exact ⟨⟨hlabels, hss⟩, hs⟩

namespace Draft

variable {d d' : Draft} {start : Cursor}

/-- The form was found that ends the query, whatever stands behind it. -/
def EndsEarly (d : Draft) : Prop :=
  d.complete = true ∧ ∃ form ∈ [QueryForm.describe, .construct, .ask], d.form = some form

/-- What a clause adds to a draft has braces that match, unless it took one of them as a label or
an operand. -/
structure ClauseBraced (c : Cursor) (d d' : Draft) (c' : Cursor) : Prop where
  complete : d'.complete = d.complete
  passed : ∃ ws, c.Passed ws c' ∧
    (BraceFree d'.prefixes d'.statements → BraceFree d.prefixes d.statements ∧ BracesMatch ws)

theorem ClauseBraced.add {s : Statement} {ws : List Text} (hp : c.Passed ws c')
    (hws : (∀ m ∈ s.allModifiers, Unbraced m) → BracesMatch ws)
    (hcomplete : d'.complete = d.complete) (hprefixes : d'.prefixes = d.prefixes)
    (hstatements : d'.statements = d.statements ++ [s]) : ClauseBraced c d d' c' := by
  refine ⟨hcomplete, ws, hp, fun hfree => ?_⟩
  rw [hprefixes, hstatements] at hfree
  obtain ⟨hd, hs⟩ := hfree.of_append
  exact ⟨hd, hws hs⟩

theorem readGraph_braces {iri : Text} (hc : c.Lexed)
    (h : (c.skip .named).requireIri = .ok (iri, c')) : ∃ ws, c.Passed ws c' ∧ NoBraces ws := by
  obtain ⟨ws, hp, hws⟩ := took_skip hc .named
  have hnamed : NoBraces ws := fun w hw => isBrace_of_spells (hws w hw)
  exact ⟨_, (hp.trans (took_requireIri hp.lexed h)).toPassed, hnamed.append (noBraces_angled iri)⟩

theorem readClause_braces {k : Keyword} (hc : c.pass.Lexed) (hopen : d.complete = false)
    (h : readClause cfg k d c = .ok (d', c')) : d'.EndsEarly ∨ ClauseBraced c.pass d d' c' := by
  cases readClause_cases h with
  | prefixDecl _ h₁ =>
    obtain ⟨ws, hp, hws⟩ := readPrefix_braces hc h₁
    refine .inr ⟨rfl, ws, hp, fun hfree => ?_⟩
    obtain ⟨hd, hlabel⟩ := hfree.of_insert
    exact ⟨hd, (hws hlabel).bracesMatch⟩
  | base _ h₁ | withGraph h₁ =>
    exact .inr ⟨rfl, _, (took_requireIri hc h₁).toPassed,
      fun hfree => ⟨hfree, (noBraces_angled _).bracesMatch⟩⟩
  | fromClause h₁ =>
    obtain ⟨ws, hp, hws⟩ := readGraph_braces hc h₁
    exact .inr ⟨rfl, ws, hp, fun hfree => ⟨hfree, hws.bracesMatch⟩⟩
  | @select p _ _ _ _ h₁ h₂ =>
    obtain ⟨ws, hp, hpf⟩ := Projection.took_read hc h₁
    obtain ⟨us, vs, hp₂, hs⟩ := readBlock_braces hp.lexed (.inr ⟨p, rfl, hpf.inBlock_eq⟩) h₂
    refine .inr (.add (hp.toPassed.trans hp₂) (fun hfree => ?_) hopen.symm rfl rfl)
    obtain ⟨hus, hvs⟩ := hs hfree
    have hall := (hpf.noBraces.bracesMatch.append hus.enclose).append hvs.bracesMatch
    simpa using hall
  -- DESCRIBE, CONSTRUCT and ASK end the query, whatever was consumed for them.
  | describe => exact .inl ⟨rfl, .describe, by decide, rfl⟩
  | construct => exact .inl ⟨rfl, .construct, by decide, rfl⟩
  | ask => exact .inl ⟨rfl, .ask, by decide, rfl⟩
  | insert _ h₁ | delete _ h₁ =>
    obtain ⟨ws, hp, hws⟩ := readUpdate_braces hc h₁
    exact .inr (.add hp hws hopen.symm rfl rfl)
  | whereClause h₁ h₂ =>
    have hp := took_readOpenBrace hc h₁
    obtain ⟨us, vs, hp₂, hs⟩ := readBlock_braces hp.lexed (.inl rfl) h₂
    refine .inr (.add (hp.toPassed.trans hp₂) (fun hfree => ?_) rfl rfl rfl)
    obtain ⟨hus, hvs⟩ := hs hfree
    have hall := hus.enclose.append hvs.bracesMatch
    simpa using hall

/-! ## 4. Drafts -/

/-- What is known of the braces that were consumed for a draft, which can go on or has ended. -/
def Braced (start : Cursor) (d : Draft) (c : Cursor) : Prop :=
  d.EndsEarly ∨ d.complete = false ∧ ∃ ws, start.Passed ws c ∧
    (BraceFree d.prefixes d.statements → BracesMatch ws)

/-- Each step keeps the braces matched. -/
theorem Braced.step (h : d.Braced start c) (hstep : Draft.step cfg d c = .ok (some (d', c'))) :
    d'.Braced start c' := by
  obtain ⟨hopen, t, ht, hcase⟩ := step_cases hstep
  rcases h with ⟨hcomplete, -⟩ | ⟨-, ws, hp, hws⟩
  · rw [hopen] at hcomplete
    nomatch hcomplete
  have hpass := hp.lexed.passed_pass ht
  rcases hcase with ⟨hsemi, rfl, rfl⟩ | ⟨k, hk, hread⟩
  · refine .inr ⟨hopen, _, hp.trans hpass, fun hfree => (hws hfree).append ?_⟩
    have hbrace : isBrace t.text = false := by
      rw [hsemi]
      rfl
    exact (NoBraces.cons hbrace .nil).bracesMatch
  · have hkey : NoBraces [t.text] := .cons (isBrace_of_spells (Keyword.ofText?_eq_some.1 hk)) .nil
    rcases readClause_braces hpass.lexed hopen hread with hend | ⟨hsame, us, hus, hfree⟩
    · exact .inl hend
    · refine .inr ⟨hsame.trans hopen, _, (hp.trans hpass).trans hus, fun hf => ?_⟩
      obtain ⟨hd, hmatch⟩ := hfree hf
      exact ((hws hd).append hkey.bracesMatch).append hmatch

/-- A whole run keeps them matched. -/
theorem Braced.repeatStep (h : d.Braced start c)
    (hread : Cursor.repeatStep (Draft.step cfg) (step_productive cfg) d c = .ok (d', c')) :
    d'.Braced start c' ∧ Draft.step cfg d' c' = .ok none :=
  Cursor.repeatStep_invariant Braced.step h hread

end Draft

/-! ## 5. Texts -/

/-- Where no token comes next, only line breaks are left. -/
theorem Cursor.Shows.allBreaks {ws : List Text} (h : c.Shows ws) (hp : c.peek = none) :
    AllBreaks ws := by
  intro w hw
  cases hnext : nextToken ws with
  | none =>
    have hdrop : ws.dropWhile isBreak = [] := List.head?_eq_none_iff.1 hnext
    rw [← List.takeWhile_append_dropWhile (p := isBreak) (l := ws), hdrop, List.append_nil] at hw
    exact List.all_eq_true.1 List.all_takeWhile w hw
  | some v =>
    obtain ⟨bs, vs, rfl, hbs, hv⟩ := exists_of_nextToken hnext
    obtain ⟨t, ht, -⟩ := h.step hbs hv
    rw [hp] at ht
    nomatch ht

/-- Where a text was consumed to its end, its braces are those of the tokens that were consumed. -/
theorem bracesMatch_of_passed {text : Text} {ws : List Text}
    (hp : (Query.cursor cfg text).Passed ws c) (hend : c.peek = none) (h : BracesMatch ws) :
    BracesMatch (tokens text) := by
  obtain ⟨⟨us, hus, hscan⟩, -, ts, hts, hws, hflat⟩ := hp
  have hbreaks := hus.allBreaks hend
  have hpast : c.past = ts.map Token.text := by
    rw [Cursor.past, hts]
    simp [Query.cursor, Cursor.withWindow, Cursor.start]
  rw [hpast] at hscan
  -- The consumed tokens and the line breaks behind them make up the characters of all tokens.
  have hsame : (tokens text).flatten = (ts.map Token.text ++ us).flatten := by
    have hstart : (Query.cursor cfg text).upcoming = tokenize text := rfl
    rw [List.flatten_append, ← hus.texts, ← List.flatMap_def, ← List.flatMap_def, ← hflat, hstart,
      List.flatMap_def, Text.tokens]
  rw [← bracesMatch_filter, Text.filter_isBrace_of_flatten (Text.scanned_tokens text) hscan hsame,
    bracesMatch_filter]
  have hbraces : ws.filter isBrace = (ts.map Token.text).filter isBrace := by
    rw [← hws, List.filter_filter]
    refine List.filter_congr fun w _ => ?_
    cases hb : isBreak w with
    | true => rw [Text.isBrace_of_break hb, Bool.false_and]
    | false => rw [Bool.not_false, Bool.and_true]
  have hmatch : BracesMatch (ts.map Token.text) := by
    rw [← bracesMatch_filter, ← hbraces, bracesMatch_filter]
    exact h
  exact hmatch.append (.of_not_mem fun w hw => Text.isBrace_of_break (hbreaks w hw))

namespace Query

variable {text : Text} {q : Query}

/-- The braces of a SELECT query and of an update match, unless one of them was taken as the label
of a prefix or as the operand of a solution modifier. -/
theorem bracesMatch_of_parse (h : parse cfg text = .ok q)
    (hform : q.form = .select ∨ q.form = .update) (hfree : BraceFree q.prefixes q.statements) :
    BracesMatch (tokens text) := by
  obtain ⟨⟨d, c⟩, h₁, h⟩ := bind_eq_ok.1 h
  have hstart : Draft.Braced (cursor cfg text) {} (cursor cfg text) :=
    .inr ⟨rfl, [], (lexed_cursor cfg text).passed, fun _ => NoBraces.nil.bracesMatch⟩
  obtain ⟨hbraced, hend⟩ := hstart.repeatStep h₁
  dsimp only at h
  split at h
  · next q' hq =>
    obtain rfl := Except.ok.inj h
    obtain ⟨form, hd, rfl⟩ := Option.map_eq_some_iff.1 hq
    rcases hbraced with ⟨-, form', hmem, hd'⟩ | ⟨hopen, ws, hp, hws⟩
    -- A form that ends the query early is neither SELECT nor an update.
    · obtain rfl := Option.some.inj (hd.symm.trans hd')
      have hform : form = .select ∨ form = .update := hform
      rcases hform with rfl | rfl
      · exact absurd hmem (by decide)
      · exact absurd hmem (by decide)
    · rcases Draft.step_eq_none hend with hcomplete | hpeek
      · rw [hopen] at hcomplete
        nomatch hcomplete
      · exact bracesMatch_of_passed hp hpeek (hws hfree)
  · nomatch h

theorem bracesMatch_of_parse_select :
    let text := "SELECT ?s \x7b \x7b SELECT * \x7b ?s a \"\x7d\" \x7d LIMIT 3 \x7d \x7d ORDER BY ?s".toList
    ∃ q, parse {} text = .ok q ∧ q.form = .select ∧ BraceFree q.prefixes q.statements ∧
      BracesMatch (tokens text) := by
  intro text
  obtain ⟨q, hq⟩ := exists_eq_ok (x := parse {} text) (by decide +kernel)
  have hfree : (parse {} text).toOption.all fun q =>
      q.form = .select ∧ BraceFree q.prefixes q.statements := by decide +kernel
  rw [hq] at hfree
  obtain ⟨hform, hfree⟩ := of_decide_eq_true hfree
  exact ⟨q, hq, hform, hfree, bracesMatch_of_parse hq (.inl hform) hfree⟩

/-- A brace can be the operand of a modifier, and then the braces of the text need not match. -/
theorem not_bracesMatch_limit :
    let text := "SELECT ?x WHERE \x7b \x7d LIMIT \x7d".toList
    ∃ q, parse {} text = .ok q ∧ q.form = .select ∧ ¬ BracesMatch (tokens text) := by
  intro text
  obtain ⟨q, hq⟩ := exists_eq_ok (x := parse {} text) (by decide +kernel)
  have hform : (parse {} text).toOption.all fun q => q.form = .select := by decide +kernel
  rw [hq] at hform
  refine ⟨q, hq, of_decide_eq_true hform, fun hmatch => ?_⟩
  exact absurd hmatch.closed_eq (by decide +kernel)

end Query

end SparqlTree
