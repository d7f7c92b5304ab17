import SparqlTree.Proofs.Query.Shape

/-!
# The nesting limit

A query is accepted under a limit on the depth of blocks exactly if its tree keeps to that limit,
and the limit has no other effect (`Query.parse_maxDepth`). The reading under the one limit is set
beside the reading under the other: `Capped` says that they do the same until a block stands too
deep for the second one.
-/

namespace SparqlTree

open Statement (nestingAll nestingAll_ofItems)

/-! ## 1. Levels -/

/-- What a head adds to the depth of the statements under it: groups and sub-selects are levels. -/
def Head.level : Head → Nat
  | group .. => 1
  | select p => if p.inBlock then 1 else 0
  | pattern | describe _ | construct .. | ask => 0

namespace Statement

mutual

/-- The largest number of groups and sub-selects on a path from a statement down. -/
def levels : Statement → Nat
  | simple _ => 0
  | block head body => head.level + levelsAll body
  | update _ template attached =>
    max (levelsAll template) (match attached with
      | some body => levelsAll body
      | none => 0)

/-- The largest number of groups and sub-selects on a path from one of the statements down. -/
def levelsAll : List Statement → Nat
  | [] => 0
  | s :: ss => max (levels s) (levelsAll ss)

end

theorem levelsAll_le {ss : List Statement} {n : Nat} :
    levelsAll ss ≤ n ↔ ∀ s ∈ ss, s.levels ≤ n := by
  induction ss with
  | nil => simp [levelsAll]
  | cons s ss ih => rw [levelsAll, Nat.max_le, ih, List.forall_mem_cons]

end Statement

/-- The largest number of groups and sub-selects on a path of a query tree. -/
def Query.levels (q : Query) : Nat := Statement.levelsAll q.statements

theorem Head.Nested.level_eq {head : Head} (h : head.Nested) : head.level = 1 := by
  cases h with
  | group => rfl
  | select hp => rw [level, if_pos hp]

theorem Head.Top.level_eq {head : Head} (h : head.Top) : head.level = 0 := by
  cases h with
  | select hp => rw [level, hp]; rfl
  | _ => rfl

/-- Within a body every block is a level. -/
theorem ShapedBody.levelsAll_eq {style : BodyStyle} {body : List Statement}
    (h : ShapedBody style body) : Statement.levelsAll body = nestingAll body := by
  induction h with
  | nil => rfl
  | simple _ _ ih =>
    rw [Statement.levelsAll, nestingAll, Statement.levels, Statement.nesting, ih]
  | block hhead _ _ ih₁ ih₂ =>
    rw [Statement.levelsAll, nestingAll, Statement.levels, Statement.nesting, ih₁, ih₂,
      hhead.level_eq, Nat.add_comm]

theorem Statement.Top.levels_eq {s : Statement} (h : s.Top) : s.levels = s.depth := by
  cases h with
  | block hhead hbody =>
    rw [levels, depth, hhead.level_eq, hbody.levelsAll_eq, Nat.zero_add]
  | update ht ha =>
    rw [levels.eq_def, depth.eq_def]
    dsimp only
    rw [ht.levelsAll_eq]
    split
    · next body => rw [(ha body rfl).levelsAll_eq]
    · rfl

/-! ## 2. Readings under a limit -/

theorem expected_tooDeep (limit : Nat) (c : Cursor) :
    (tooDeep limit c).expected = .nestingAtMost limit := by
  rw [tooDeep, Cursor.errorFound]
  split <;> rfl

/-- The configuration with another limit. -/
abbrev Config.capped (cfg : Config) (limit : Nat) : Config := { cfg with maxDepth := limit }

/-- True of a reading that is refused because a block stands deeper than the limit. -/
def RefusedAt {α : Type} (limit : Nat) (y : Except ParseError α) : Prop :=
  ∃ e, y = .error e ∧ e.expected = .nestingAtMost limit

/-- The second reading is the first one under a limit: it gives the same as long as the result fits
the limit, and is refused otherwise. `before` says that what was read earlier fits; a result only
fits together with what was read before it. -/
structure Capped {α : Type} (limit : Nat) (before : Prop) (fits : α → Prop)
    (x y : Except ParseError α) : Prop where
  keeps : ∀ a, x = .ok a → fits a → before ∧ y = .ok a
  refuses : ∀ a, x = .ok a → before → ¬ fits a → RefusedAt limit y

namespace Capped

variable {α β : Type} {limit : Nat} {before : Prop} {fits : α → Prop} {fits' : β → Prop}
  {x y : Except ParseError α} {f g : α → Except ParseError β}

/-- Where the first reading fails nothing is claimed of the second. -/
theorem error (e : ParseError) : Capped limit before fits (.error e) y :=
  ⟨fun _ h => (nomatch h), fun _ h => (nomatch h)⟩

theorem pure {a : α} (h : fits a ↔ before) :
    Capped limit before fits (Pure.pure a) (Pure.pure a) where
  keeps _ hb hfits := by
    obtain rfl := Except.ok.inj hb
    exact ⟨h.1 hfits, rfl⟩
  refuses _ hb hbefore hnot := by
    obtain rfl := Except.ok.inj hb
    exact absurd (h.2 hbefore) hnot

/-- Two steps in a row: what the first one reads comes before the second. -/
theorem bind (h : Capped limit before fits x y)
    (hfg : ∀ a, x = .ok a → Capped limit (fits a) fits' (f a) (g a)) :
    Capped limit before fits' (x >>= f) (y >>= g) where
  keeps b hb hfits := by
    obtain ⟨a, ha, hb⟩ := bind_eq_ok.1 hb
    obtain ⟨hfits, hg⟩ := (hfg a ha).keeps b hb hfits
    obtain ⟨hbefore, rfl⟩ := h.keeps a ha hfits
    exact ⟨hbefore, hg⟩
  refuses b hb hbefore hnot := by
    obtain ⟨a, ha, hb⟩ := bind_eq_ok.1 hb
    -- The first step is refused itself, or what it read fits and the second step is.
    by_cases hfits : fits a
    · obtain ⟨-, rfl⟩ := h.keeps a ha hfits
      exact (hfg a ha).refuses b hb hfits hnot
    · obtain ⟨e, rfl, he⟩ := h.refuses a ha hbefore hfits
      exact ⟨e, rfl, he⟩

/-- A first step that does not know of limits. -/
theorem bind_same (hfg : ∀ a, x = .ok a → Capped limit before fits' (f a) (g a)) :
    Capped limit before fits' (x >>= f) (x >>= g) :=
  have h : Capped limit before (fun _ => before) x x :=
    ⟨fun _ ha hbefore => ⟨hbefore, ha⟩, fun _ _ hbefore hnot => absurd hbefore hnot⟩
  h.bind hfg

/-- A reading that begins with nothing read yet. -/
theorem start (h : Capped limit before fits x y) (hbefore : before) :
    Capped limit True fits x y where
  keeps a ha hfits := ⟨trivial, (h.keeps a ha hfits).2⟩
  refuses a ha _ hnot := h.refuses a ha hbefore hnot

/-- What fits stays that way while something else is read. -/
theorem frame {frame : Prop} (h : Capped limit before fits x y) (hframe : frame → before) :
    Capped limit frame (fun a => frame ∧ fits a) x y where
  keeps a ha hfits := ⟨hfits.1, (h.keeps a ha hfits.2).2⟩
  refuses a ha hf hnot := h.refuses a ha (hframe hf) fun hfits => hnot ⟨hf, hfits⟩

/-- What is read at the limit is refused before anything of it is read. -/
theorem deeper {depth : Nat} (h : Capped limit (depth + 1 ≤ limit) fits x y) (c : Cursor) :
    Capped limit (depth ≤ limit) fits x
      (if limit ≤ depth then .error (tooDeep limit c) else y) where
  keeps a ha hfits := by
    obtain ⟨hlt, hy⟩ := h.keeps a ha hfits
    exact ⟨Nat.le_of_lt hlt, by rw [if_neg (Nat.not_le.2 hlt), hy]⟩
  refuses a ha _ hnot := by
    split
    · exact ⟨_, rfl, expected_tooDeep limit c⟩
    · next hlt => exact h.refuses a ha (Nat.not_le.1 hlt) hnot

/-- A loop under a limit, if its step is. -/
theorem repeatStep {step step' : Cursor.Step α} {productive : step.Productive}
    {productive' : step'.Productive}
    (hstep : ∀ a c, Capped limit (fits a) (fun r => fits (r.elim a Prod.fst)) (step a c)
      (step' a c)) (a : α) (c : Cursor) :
    Capped limit (fits a) (fun r => fits r.1) (Cursor.repeatStep step productive a c)
      (Cursor.repeatStep step' productive' a c) := by
  induction c using Cursor.size_induction generalizing a with
  | ind c ih =>
    rw [Cursor.repeatStep_eq, Cursor.repeatStep_eq step']
    refine (hstep a c).bind fun r hr => ?_
    cases r with
    | none => exact .pure Iff.rfl
    | some r => exact ih r.2 (productive a c r.1 r.2 hr) r.1

end Capped

/-! ## 3. Bodies -/

variable {cfg : Config} {limit : Nat}

/-- True of the items of a body at some depth none of whose blocks stands too deep. -/
def Item.Fit (limit depth : Nat) (items : List Item) : Prop :=
  depth + nestingAll (Statement.ofItems items) ≤ limit

namespace Item

variable {depth : Nat} {items : List Item}

theorem fit_nil : Fit limit depth [] ↔ depth ≤ limit := Iff.rfl

theorem fit_word (b w : Text) : Fit limit depth (.word b w :: items) ↔ Fit limit depth items := by
  rw [Fit, Fit, nestingAll_ofItems, nestingAll_ofItems]
  rfl

theorem fit_stop : Fit limit depth (.stop :: items) ↔ Fit limit depth items := by
  rw [Fit, Fit, nestingAll_ofItems]
  rfl

/-- The body of a block is one level deeper than what follows the block. -/
theorem fit_nested (head : Head) (inner : List Item) :
    Fit limit depth (.nested (.block head (Statement.ofItems inner)) :: items) ↔
      Fit limit (depth + 1) inner ∧ Fit limit depth items := by
  rw [Fit, Fit, Fit, nestingAll_ofItems]
  show depth + max (nestingAll (Statement.ofItems inner) + 1)
    (nestingAll (Statement.ofItems items)) ≤ limit ↔ _
  omega

end Item

theorem readItems_capped (style : BodyStyle) (depth : Nat) (c : Cursor) :
    Capped limit (depth ≤ limit) (fun r => Item.Fit limit depth r.1)
      (readItems cfg style depth c) (readItems (cfg.capped limit) style depth c) := by
  induction c using Cursor.size_induction generalizing style depth with
  | ind c ih =>
    -- An item that is no block leaves the rest of the body at the same depth.
    have hrest : ∀ {c₁ : Cursor} {item : Item}, c₁.size < c.size →
        (∀ items, Item.Fit limit depth (item :: items) ↔ Item.Fit limit depth items) →
        Capped limit (depth ≤ limit) (fun r => Item.Fit limit depth r.1)
          (readItems cfg style depth c₁ >>= fun r => pure (item :: r.1, r.2))
          (readItems (cfg.capped limit) style depth c₁ >>= fun r => pure (item :: r.1, r.2)) :=
      fun hlt hitem => (ih _ hlt style depth).bind fun r _ => .pure (hitem r.1)
    rw [readItems_eq cfg, readItems_eq (cfg.capped limit)]
    cases hp : c.peek with
    | none => exact .error _
    | some t =>
      dsimp only
      split
      · exact .pure Item.fit_nil
      split
      · split
        · exact .error _
        -- Where the block may be opened its head is read without regard to the limit, its body is
        -- read one level deeper, and what follows at the depth of the block.
        refine .deeper ?_ c
        refine .bind_same ?_
        rintro ⟨head, c₁⟩ hopen
        refine (ih c₁ (Head.size_readNested_lt hopen) head.bodyStyle (depth + 1)).bind ?_
        rintro ⟨inner, c₂⟩ hinner
        refine .bind_same ?_
        rintro ⟨closed, c₃⟩ hclose
        -- The body of the block was deeper than what follows, which therefore may go on.
        have hfit : Item.Fit limit (depth + 1) inner → depth ≤ limit := fun h => by
          have := Nat.le_trans (Nat.le_add_right _ _) h
          omega
        exact ((ih c₃ (size_block_lt hopen hinner hclose) style depth).frame hfit).bind fun r _ =>
          .pure (Item.fit_nested closed inner)
      split
      · exact hrest (Cursor.size_pass_breakOff_lt hp _) fun _ => Item.fit_stop
      · exact hrest (Cursor.size_pass_lt hp) fun _ => Item.fit_word _ _

theorem readBody_capped (style : BodyStyle) (c : Cursor) :
    Capped limit True (fun r => nestingAll r.1 ≤ limit) (readBody cfg style c)
      (readBody (cfg.capped limit) style c) :=
  ((readItems_capped style 0 c).start (Nat.zero_le limit)).bind fun r _ =>
    .pure (by rw [Item.Fit, Nat.zero_add])

theorem readBlock_capped (head : Head) (c : Cursor) :
    Capped limit True (fun r => r.1.depth ≤ limit) (head.readBlock cfg c)
      (head.readBlock (cfg.capped limit) c) :=
  (readBody_capped head.bodyStyle c).bind fun _ _ => .bind_same fun _ _ => .pure Iff.rfl

/-! ## 4. Updates -/

theorem Statement.depth_update_le {head : UpdateHead} {template : List Statement}
    {attached : Option (List Statement)} {n : Nat} :
    (update head template attached).depth ≤ n ↔
      nestingAll template ≤ n ∧ ∀ body ∈ attached, nestingAll body ≤ n := by
  rw [depth.eq_def, Nat.max_le]
  cases attached with
  | none => simp
  | some body => simp

theorem readAttached?_capped (c : Cursor) :
    Capped limit True (fun r => ∀ body ∈ r.1, nestingAll body ≤ limit)
      (UpdateHead.readAttached? cfg c) (UpdateHead.readAttached? (cfg.capped limit) c) := by
  unfold UpdateHead.readAttached?
  split
  · exact .pure (by simp)
  · refine .bind_same fun c₁ _ => (readBody_capped .segmented c₁).bind fun r _ => .pure ?_
    simp

theorem readUpdateBlock_capped (operation : Operation) (c : Cursor) :
    Capped limit True (fun r => r.1.depth ≤ limit) (UpdateHead.read cfg operation c)
      (UpdateHead.read (cfg.capped limit) operation c) := by
  unfold UpdateHead.read
  refine .bind_same fun c₁ _ => (readBody_capped .whole c₁).bind ?_
  rintro ⟨template, c₂⟩ _
  -- The test for a missing WHERE body does not look at the limit.
  show Capped limit (nestingAll template ≤ limit) _
    (if UpdateHead.lacksWhere cfg (c.atGlued .data) template c₂ then _ else _)
    (if UpdateHead.lacksWhere cfg (c.atGlued .data) template c₂ then _ else _)
  split
  · exact .error _
  · refine ((readAttached?_capped c₂).frame fun _ => trivial).bind ?_
    rintro ⟨attached, c₃⟩ _
    exact .pure Statement.depth_update_le

/-! ## 5. Clauses -/

namespace Draft

/-- True of drafts none of whose statements is too deep. -/
def Fits (limit : Nat) (d : Draft) : Prop := ∀ s ∈ d.statements, s.depth ≤ limit

variable {d : Draft}

theorem fits_add {s : Statement} : (d.add s).Fits limit ↔ d.Fits limit ∧ s.depth ≤ limit := by
  rw [Fits, Fits, add, List.forall_mem_append, List.forall_mem_singleton]

theorem fits_addForm {form : QueryForm} {complete : Bool} {s : Statement} :
    (d.addForm form complete s).Fits limit ↔ d.Fits limit ∧ s.depth ≤ limit := fits_add

theorem readForm_capped (k : Keyword) (c : Cursor) :
    Capped limit (d.Fits limit) (fun r => r.1.Fits limit) (readForm cfg k d c)
      (readForm (cfg.capped limit) k d c) := by
  have hblock (head : Head) (c₁ : Cursor) :
      Capped limit (d.Fits limit) (fun r => d.Fits limit ∧ r.1.depth ≤ limit)
        (head.readBlock cfg c₁) (head.readBlock (cfg.capped limit) c₁) :=
    (readBlock_capped head c₁).frame fun _ => trivial
  rw [readForm.eq_def, readForm.eq_def]
  split
  · exact .error _
  split
  · exact .bind_same fun p _ => (hblock _ p.2).bind fun _ _ => .pure fits_addForm
  · exact .bind_same fun p _ => (hblock _ p.2).bind fun _ _ => .pure fits_addForm
  · exact .bind_same fun p _ => (hblock _ p.2).bind fun _ _ => .pure fits_addForm
  · exact .bind_same fun p _ => .bind_same fun c₂ _ => (hblock _ c₂).bind fun s _ =>
      -- The graph of the draft changes too, but not its statements.
      .pure (fits_addForm : (d.addForm .ask true s.1).Fits limit ↔ _)

theorem readDeclaration_capped (k : Keyword) (c : Cursor) :
    Capped limit (d.Fits limit) (fun r => r.1.Fits limit) (readDeclaration k d c)
      (readDeclaration k d c) := by
  unfold readDeclaration
  split
  · exact .error _
  split
  · exact .bind_same fun _ _ => .pure Iff.rfl
  · exact .bind_same fun _ _ => .pure Iff.rfl

theorem readUpdate_capped (operation : Operation) (c : Cursor) :
    Capped limit (d.Fits limit) (fun r => r.1.Fits limit) (readUpdate cfg operation d c)
      (readUpdate (cfg.capped limit) operation d c) := by
  unfold readUpdate
  split
  · exact ((readUpdateBlock_capped operation c.pass).frame fun _ => trivial).bind fun _ _ =>
      .pure fits_addForm
  · exact .error _

theorem readClause_capped (k : Keyword) (c : Cursor) :
    Capped limit (d.Fits limit) (fun r => r.1.Fits limit) (readClause cfg k d c)
      (readClause (cfg.capped limit) k d c) := by
  rw [readClause.eq_def, readClause.eq_def]
  split
  · exact readDeclaration_capped _ c
  · exact readDeclaration_capped _ c
  · exact .bind_same fun _ _ => .pure Iff.rfl
  · exact .bind_same fun _ _ => .pure Iff.rfl
  · exact readForm_capped _ c
  · exact readForm_capped _ c
  · exact readForm_capped _ c
  · exact readForm_capped _ c
  · exact readUpdate_capped _ c
  · exact readUpdate_capped _ c
  · exact .bind_same fun c₁ _ =>
      ((readBlock_capped .pattern c₁).frame fun _ => trivial).bind fun _ _ => .pure fits_add
  · exact .error _

theorem step_capped (d : Draft) (c : Cursor) :
    Capped limit (d.Fits limit) (fun r => (r.elim d Prod.fst).Fits limit) (step cfg d c)
      (step (cfg.capped limit) d c) := by
  unfold step
  split
  · exact .pure Iff.rfl
  split
  · exact .pure Iff.rfl
  split
  · exact .pure Iff.rfl
  split
  · exact .error _
  · exact (readClause_capped _ c).bind fun _ _ => .pure Iff.rfl

theorem read_capped (c : Cursor) :
    Capped limit True (fun r => r.1.Fits limit) (read cfg c) (read (cfg.capped limit) c) :=
  (Capped.repeatStep step_capped {} c).start fun _ h => nomatch h

end Draft

namespace Query

theorem parse_capped (cfg : Config) (limit : Nat) (text : Text) :
    Capped limit True (fun q => ∀ s ∈ q.statements, s.depth ≤ limit) (parse cfg text)
      (parse (cfg.capped limit) text) := by
  refine (Draft.read_capped (cursor cfg text)).bind ?_
  rintro ⟨d, c⟩ _
  dsimp only
  split
  · next q hq =>
    obtain ⟨form, -, rfl⟩ := Option.map_eq_some_iff.1 hq
    exact .pure Iff.rfl
  · exact .error _

/-- The levels of a query that was read are those of the bodies that were counted. -/
theorem levels_le_of_parse {cfg : Config} {text : Text} {q : Query} (h : parse cfg text = .ok q)
    (limit : Nat) : q.levels ≤ limit ↔ ∀ s ∈ q.statements, s.depth ≤ limit := by
  rw [levels, Statement.levelsAll_le]
  exact forall₂_congr fun s hs => by rw [((sound_of_parse h).1.top s hs).levels_eq]

/-- The limit on the depth of blocks is exact and has no other effect. A query that is accepted
under one limit keeps to it; it is read just the same under every limit that it keeps to, and
refused for its depth under every other. -/
theorem parse_maxDepth {cfg : Config} {text : Text} {q : Query} (limit : Nat)
    (h : parse cfg text = .ok q) :
    q.levels ≤ cfg.maxDepth ∧
      (q.levels ≤ limit → parse { cfg with maxDepth := limit } text = .ok q) ∧
      (limit < q.levels → ∃ e, parse { cfg with maxDepth := limit } text = .error e ∧
        e.expected.message =
          "expected at most ".toList ++ Text.ofNat limit ++ " nested groups".toList) := by
  have hcapped := parse_capped cfg limit text
  refine ⟨(levels_le_of_parse h _).2 (sound_of_parse h).2.1, fun hle => ?_, fun hlt => ?_⟩
  · exact (hcapped.keeps q h ((levels_le_of_parse h limit).1 hle)).2
  · obtain ⟨e, he, hexpected⟩ := hcapped.refuses q h trivial fun hfits =>
      Nat.not_le.2 hlt ((levels_le_of_parse h limit).2 hfits)
    exact ⟨e, he, by rw [hexpected]; rfl⟩

theorem parse_maxDepth_subSelect :
    let text :=
      "INSERT { GRAPH <g> { ?s ?p ?o } } WHERE { OPTIONAL { { SELECT * { ?s ?p ?o } } } }".toList
    ∃ q, parse {} text = .ok q ∧ q.levels = 2 ∧ parse { maxDepth := 2 } text = .ok q ∧
      ∃ e, parse { maxDepth := 1 } text = .error e ∧
        e.expected.message = "expected at most 1 nested groups".toList := by
  intro text
  obtain ⟨q, hq⟩ := exists_eq_ok (x := parse {} text) (by decide +kernel)
  have hlevels : (parse {} text).toOption.map levels = some 2 := by decide +kernel
  rw [hq] at hlevels
  have hlevels : q.levels = 2 := Option.some.inj hlevels
  exact ⟨q, hq, hlevels, (parse_maxDepth 2 hq).2.1 (by omega),
    (parse_maxDepth 1 hq).2.2 (by omega)⟩

end Query

end SparqlTree
