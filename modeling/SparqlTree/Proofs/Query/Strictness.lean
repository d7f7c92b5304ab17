import SparqlTree.Proofs.Query.Shape

/-!
# Strict checking of updates

Strict checking refuses updates whose templates have variables that nothing binds, and has no other
effect (`Query.parse_strictUpdateWhere`). A reading with the check is set beside the one without:
`Checked` says that they are the same until the check refuses an update.
-/

namespace SparqlTree

/-! ## 1. What the check has no part in -/

/-- The configuration with or without the check. -/
abbrev Config.checking (cfg : Config) (strict : Bool) : Config :=
  { cfg with strictUpdateWhere := strict }

section

variable (cfg : Config) (strict : Bool)

theorem readItems_checking (style : BodyStyle) (depth : Nat) (c : Cursor) :
    readItems (cfg.checking strict) style depth c = readItems cfg style depth c := by
  induction c using Cursor.size_induction generalizing style depth with
  | ind c ih =>
    rw [readItems_eq cfg, readItems_eq (cfg.checking strict)]
    cases hp : c.peek with
    | none => rfl
    | some t =>
      dsimp only
      split
      · rfl
      split
      · split
        · rfl
        refine bind_congr_of_ok ?_
        rintro ⟨head, c₁⟩ hopen
        dsimp only
        rw [ih c₁ (Head.size_readNested_lt hopen) head.bodyStyle (depth + 1)]
        refine bind_congr_of_ok ?_
        rintro ⟨inner, c₂⟩ hinner
        refine bind_congr_of_ok ?_
        rintro ⟨closed, c₃⟩ hclose
        dsimp only
        rw [ih c₃ (size_block_lt hopen hinner hclose) style depth]
      split
      · rw [ih _ (Cursor.size_pass_breakOff_lt hp _) style depth]
      · rw [ih _ (Cursor.size_pass_lt hp) style depth]

theorem readBody_checking (style : BodyStyle) (c : Cursor) :
    readBody (cfg.checking strict) style c = readBody cfg style c := by
  rw [readBody, readBody, readItems_checking]

theorem Head.readBlock_checking (head : Head) (c : Cursor) :
    head.readBlock (cfg.checking strict) c = head.readBlock cfg c := by
  rw [readBlock, readBlock, readBody_checking]

theorem readAttached?_checking (c : Cursor) :
    UpdateHead.readAttached? (cfg.checking strict) c = UpdateHead.readAttached? cfg c := by
  unfold UpdateHead.readAttached?
  split
  · rfl
  · exact bind_congr_of_ok fun c₁ _ => by rw [readBody_checking]

theorem Draft.readForm_checking (k : Keyword) (d : Draft) (c : Cursor) :
    readForm (cfg.checking strict) k d c = readForm cfg k d c := by
  unfold readForm
  simp only [Head.readBlock_checking]

end

/-! ## 2. Readings with the check -/

/-- True of a reading that is refused because nothing binds the variables of a template. -/
def RefusedUnbound {α : Type} (y : Except ParseError α) : Prop :=
  ∃ (operation : Operation) (e : ParseError),
    y = .error e ∧ e.expected = .whereAfterTemplate operation.name

/-- The second reading is the first one with the check: it is the same, or refused by the check;
and then `fine` holds of no result of the first one. -/
def Checked {α : Type} (fine : α → Prop) (x y : Except ParseError α) : Prop :=
  y = x ∨ RefusedUnbound y ∧ ∀ a, x = .ok a → ¬ fine a

namespace Checked

variable {α β : Type} {fine : α → Prop} {fine' : β → Prop} {x y : Except ParseError α}
  {f g : α → Except ParseError β}

/-- Two steps in a row, the second of which leaves visible what the check has to say of the
first. -/
theorem bind (h : Checked fine x y) (hfg : ∀ a, x = .ok a → Checked fine' (f a) (g a))
    (hfine : ∀ a b, x = .ok a → f a = .ok b → fine' b → fine a) :
    Checked fine' (x >>= f) (y >>= g) := by
  rcases h with rfl | ⟨⟨operation, e, rfl, he⟩, hx⟩
  · cases y with
    | error e => exact .inl rfl
    | ok a => exact hfg a rfl
  · refine .inr ⟨⟨operation, e, rfl, he⟩, fun b hb hfine' => ?_⟩
    obtain ⟨a, ha, hb⟩ := bind_eq_ok.1 hb
    exact hx a ha (hfine a b ha hb hfine')

/-- A first step in which the check has no part. -/
theorem bind_same (hfg : ∀ a, x = .ok a → Checked fine' (f a) (g a)) :
    Checked fine' (x >>= f) (x >>= g) :=
  have h : Checked (fun _ => True) x x := .inl rfl
  h.bind hfg fun _ _ _ _ _ => trivial

end Checked

/-! ## 3. Updates and clauses -/

variable {cfg : Config}

theorem expected_unbound (operation : Operation) (c : Cursor) :
    (UpdateHead.unbound operation c).expected = .whereAfterTemplate operation.name := by
  rw [UpdateHead.unbound, Cursor.errorFound]
  split <;> rfl

/-- What lacks a WHERE body gets none. -/
theorem readAttached?_of_lacksWhere {data : Bool} {template : List Statement} {c : Cursor}
    (h : UpdateHead.lacksWhere cfg data template c = true) :
    data = false ∧ (Statement.unknownsAll template).isEmpty = false ∧
      ∀ cfg', UpdateHead.readAttached? cfg' c = .ok (none, c) := by
  simp only [UpdateHead.lacksWhere, Bool.and_eq_true, Bool.not_eq_true'] at h
  obtain ⟨⟨⟨⟨-, hdata⟩, hwhere⟩, hvars⟩, -⟩ := h
  refine ⟨hdata, hvars, fun cfg' => ?_⟩
  rw [UpdateHead.readAttached?, Cursor.eatGlued?, hwhere]
  rfl

theorem readUpdateBlock_checked (operation : Operation) (c : Cursor) :
    Checked (fun r => ¬ r.1.Unbound) (UpdateHead.read (cfg.checking false) operation c)
      (UpdateHead.read (cfg.checking true) operation c) := by
  unfold UpdateHead.read
  refine .bind_same fun c₁ _ => ?_
  rw [readBody_checking cfg true, readBody_checking cfg false]
  refine .bind_same ?_
  rintro ⟨template, c₂⟩ -
  -- Without the check nothing is missing.
  show Checked _ (UpdateHead.readAttached? (cfg.checking false) c₂ >>= _)
    (if UpdateHead.lacksWhere (cfg.checking true) (c.atGlued .data) template c₂ then _ else _)
  split
  · next hlacks =>
    obtain ⟨hdata, hvars, hattached⟩ := readAttached?_of_lacksWhere hlacks
    refine .inr ⟨⟨operation, _, rfl, expected_unbound operation c₂⟩, fun a ha hbound => ?_⟩
    rw [hattached] at ha
    obtain rfl := Except.ok.inj ha
    exact hbound ⟨_, _, rfl, hdata, hvars⟩
  · rw [readAttached?_checking cfg true, readAttached?_checking cfg false]
    exact .inl rfl

namespace Draft

variable {d d' : Draft} {c c' : Cursor}

/-- True of drafts that the check is content with: all updates bind their variables. -/
def AllBound (d : Draft) : Prop := ∀ s ∈ d.statements, ¬ s.Unbound

theorem readUpdate_checked (operation : Operation) (d : Draft) (c : Cursor) :
    Checked (fun r => r.1.AllBound) (readUpdate (cfg.checking false) operation d c)
      (readUpdate (cfg.checking true) operation d c) := by
  unfold readUpdate
  split
  · refine (readUpdateBlock_checked operation c.pass).bind (fun _ _ => .inl rfl) ?_
    rintro ⟨s, c₁⟩ _ - h hbound
    obtain rfl := Except.ok.inj h
    exact hbound s (List.mem_append_right _ (List.mem_singleton_self s))
  · exact .inl rfl

theorem readClause_checked (k : Keyword) (d : Draft) (c : Cursor) :
    Checked (fun r => r.1.AllBound) (readClause (cfg.checking false) k d c)
      (readClause (cfg.checking true) k d c) := by
  have hform (k : Keyword) : Checked (fun r : Draft × Cursor => r.1.AllBound)
      (readForm (cfg.checking false) k d c) (readForm (cfg.checking true) k d c) :=
    .inl (by rw [readForm_checking cfg true, readForm_checking cfg false])
  rw [readClause.eq_def, readClause.eq_def]
  split
  · exact .inl rfl
  · exact .inl rfl
  · exact .inl rfl
  · exact .inl rfl
  · exact hform _
  · exact hform _
  · exact hform _
  · exact hform _
  · exact readUpdate_checked _ d c
  · exact readUpdate_checked _ d c
  · refine .bind_same fun c₁ _ => .inl ?_
    rw [Head.readBlock_checking cfg true, Head.readBlock_checking cfg false]
  · exact .inl rfl

theorem step_checked (d : Draft) (c : Cursor) :
    Checked (fun r => ∀ q ∈ r, q.1.AllBound) (step (cfg.checking false) d c)
      (step (cfg.checking true) d c) := by
  unfold step
  split
  · exact .inl rfl
  split
  · exact .inl rfl
  split
  · exact .inl rfl
  split
  · exact .inl rfl
  · refine (readClause_checked _ d c).bind (fun _ _ => .inl rfl) ?_
    rintro r _ - h hbound
    obtain rfl := Except.ok.inj h
    exact hbound r rfl

/-! ## 4. Whole readings -/

/-- A clause leaves the statements that were read before it. -/
theorem statements_prefix_of_step (hc : c.Lexed) (h : step cfg d c = .ok (some (d', c'))) :
    d.statements <+: d'.statements := by
  obtain ⟨-, -, ⟨rfl, -⟩ | ⟨hread, -⟩⟩ := step_sound hc h
  · exact List.prefix_rfl
  · cases hread with
    | prefixDecl | base | graph => exact List.prefix_rfl
    | _ => exact List.prefix_append _ _

theorem statements_prefix_of_repeatStep (hc : c.Lexed)
    (h : Cursor.repeatStep (step cfg) (step_productive cfg) d c = .ok (d', c')) :
    d.statements <+: d'.statements := by
  refine (Cursor.repeatStep_invariant
    (P := fun q c => c.Lexed ∧ d.statements <+: q.statements) ?_ ⟨hc, List.prefix_rfl⟩ h).1.2
  rintro q c q' c' ⟨hc, hprefix⟩ hstep
  exact ⟨lexed_of_step hc hstep, hprefix.trans (statements_prefix_of_step hc hstep)⟩

theorem repeatStep_checked (hc : c.Lexed) :
    Checked (fun r => r.1.AllBound)
      (Cursor.repeatStep (step (cfg.checking false)) (step_productive _) d c)
      (Cursor.repeatStep (step (cfg.checking true)) (step_productive _) d c) := by
  induction c using Cursor.size_induction generalizing d with
  | ind c ih =>
    rw [Cursor.repeatStep_eq, Cursor.repeatStep_eq (step (cfg.checking true))]
    refine (step_checked d c).bind (fun r hr => ?_) fun r q hr hq hbound => ?_
    · cases r with
      | none => exact .inl rfl
      | some r => exact ih _ (step_productive _ d c r.1 r.2 hr) (lexed_of_step hc hr)
    · rintro r rfl s hs
      exact hbound s ((statements_prefix_of_repeatStep (lexed_of_step hc hr) hq).subset hs)

end Draft

namespace Statement

/-- Where nothing follows a list, the update that needs it stands in the list. -/
theorem Bound.exists_update {before after : List Statement} {s : Statement}
    (h : Bound false (before ++ s :: after)) (hs : s.Unbound) :
    ∃ t rest, after = t :: rest ∧ t.kind = .update := by
  induction before with
  | nil =>
    cases after with
    | nil => nomatch h hs
    | cons t rest => exact ⟨t, rest, rfl, h.1 hs⟩
  | cons u before ih =>
    cases before with
    | nil => exact ih h.2
    | cons v before => exact ih h.2

end Statement

namespace Query

theorem parse_checked (cfg : Config) (text : Text) :
    Checked (fun q => ∀ s ∈ q.statements, ¬ s.Unbound) (parse (cfg.checking false) text)
      (parse (cfg.checking true) text) := by
  have hread : Checked (fun r => r.1.AllBound)
      (Draft.read (cfg.checking false) (cursor cfg text))
      (Draft.read (cfg.checking true) (cursor cfg text)) :=
    Draft.repeatStep_checked (lexed_cursor cfg text)
  refine hread.bind (fun _ _ => .inl rfl) ?_
  rintro ⟨d, c⟩ q - hq hbound
  dsimp only at hq
  split at hq
  · next p hp =>
    obtain rfl := Except.ok.inj hq
    obtain ⟨form, -, rfl⟩ := Option.map_eq_some_iff.1 hp
    exact hbound
  · nomatch hq

/-- Strict checking only refuses updates that leave variables unbound. With the check a text is read
as without it, or refused for the WHERE body that a template lacks; in a query that passed the check
every update without bindings has another update directly behind it; and a query without such
updates passes. -/
theorem parse_strictUpdateWhere (cfg : Config) (text : Text) :
    let strict := parse { cfg with strictUpdateWhere := true } text
    let lenient := parse { cfg with strictUpdateWhere := false } text
    (strict = lenient ∨ ∃ (operation : Operation) (e : ParseError), strict = .error e ∧
      e.expected.message =
        "expected WHERE clause after the ".toList ++ operation.name ++ " template".toList) ∧
    (∀ q, strict = .ok q → ∀ before s after, q.statements = before ++ s :: after → s.Unbound →
      ∃ t rest, after = t :: rest ∧ t.kind = .update) ∧
    (∀ q, lenient = .ok q → (∀ s ∈ q.statements, ¬ s.Unbound) → strict = lenient) := by
  intro strict lenient
  have hchecked : Checked _ lenient strict := parse_checked cfg text
  refine ⟨?_, fun q hq before s after hsplit hs => ?_, fun q hq hbound => ?_⟩
  · rcases hchecked with h | ⟨⟨operation, e, he, hexpected⟩, -⟩
    · exact .inl h
    · exact .inr ⟨operation, e, he, by rw [hexpected]; rfl⟩
  · have hsound := (sound_of_parse hq).2.2 rfl
    rw [hsplit] at hsound
    exact hsound.exists_update hs
  · rcases hchecked with h | ⟨-, hnone⟩
    · exact h
    · exact absurd hbound (hnone q hq)

/-- Another update directly behind a template is enough, even one that has no WHERE body. -/
example : (parse {} "INSERT \x7b ?s a ?o \x7d".toList).isOk = false ∧
    (parse { strictUpdateWhere := false } "INSERT \x7b ?s a ?o \x7d".toList).isOk = true ∧
    (parse {} "INSERT \x7b ?s a ?o \x7d DELETE \x7b \x7d".toList).isOk = true := by
  decide +kernel

end Query

end SparqlTree
