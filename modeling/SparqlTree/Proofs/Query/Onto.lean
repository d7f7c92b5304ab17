import SparqlTree.Proofs.Query.FormStart
import SparqlTree.Proofs.Query.Prefixes

/-!
# Reading on from a draft

What is read behind a draft does not depend on what the draft holds, as long as the draft allows the
clauses that come: it is what is read from nothing, put on top of the draft (`Draft.step_onto`). A
draft of declarations only allows every clause. A draft of updates allows neither PREFIX nor BASE
nor a query form, and none of them comes in an update without declarations
(`Draft.repeatStep_onto_update`).
-/

namespace SparqlTree

/-- A step on results goes into what follows. -/
theorem bind_eq_map_bind {ε α β γ : Type} {x : Except ε α} {f : α → Except ε β}
    {g : α → Except ε γ} {v : γ → β} (h : ∀ a, f a = (g a).map v) :
    x >>= f = (x >>= g).map v := by
  cases x with
  | error e => rfl
  | ok a => exact h a

namespace Draft

/-- What a draft holds, on top of what another one holds. -/
def onto (d under : Draft) : Draft where
  base := d.base.or under.base
  prefixes := d.prefixes.onto under.prefixes
  graph := d.graph.or under.graph
  form := d.form.or under.form
  prologueClosed := under.prologueClosed || d.prologueClosed
  complete := d.complete
  statements := under.statements ++ d.statements

/-- Nothing, on top of what a draft holds. -/
theorem empty_onto {under : Draft} (h : under.complete = false) : onto {} under = under := by
  obtain ⟨_, _, _, _, _, _, _⟩ := under
  obtain rfl : _ = false := h
  simp [onto]

/-- The clauses that are read behind a draft as they are read behind nothing. -/
structure Allows (under : Draft) (k : Keyword) : Prop where
  declarations : k = .prefixDecl ∨ k = .base → under.prologueClosed = false
  forms : k ∈ formKeywords → under.form = none
  updates : under.form = none ∨ under.form = some .update

variable {cfg : Config} {d d' under : Draft} {c c' : Cursor} {k : Keyword}

/-! ## 1. Clauses -/

theorem add_onto (d under : Draft) (s : Statement) :
    (d.add s).onto under = (d.onto under).add s := by
  simp [onto, add]

theorem addForm_onto (d under : Draft) (form : QueryForm) (complete : Bool) (s : Statement) :
    (d.addForm form complete s).onto under = (d.onto under).addForm form complete s := by
  simp [onto, addForm, add]

theorem insert_onto (d under : Draft) (label iri : Text) :
    { d with prefixes := d.prefixes.insert label iri }.onto under =
      { d.onto under with prefixes := (d.onto under).prefixes.insert label iri } := by
  simp [onto, PrefixMap.insert_onto]

/-- A draft on top of another, with the cursor where it was read up to. -/
abbrev pairOnto (under : Draft) (r : Draft × Cursor) : Draft × Cursor := (r.1.onto under, r.2)

theorem readDeclaration_onto (hopen : under.prologueClosed = false) :
    readDeclaration k (d.onto under) c = (readDeclaration k d c).map (pairOnto under) := by
  have hclosed : (d.onto under).prologueClosed = d.prologueClosed := by
    rw [onto, hopen, Bool.false_or]
  rw [readDeclaration, readDeclaration]
  by_cases hd : d.prologueClosed = true
  · rw [if_pos hd, if_pos (hclosed.trans hd)]
    rfl
  rw [if_neg hd, if_neg (hclosed ▸ hd)]
  split
  · exact bind_eq_map_bind fun r => congrArg Except.ok (by rw [pairOnto, insert_onto])
  · exact bind_eq_map_bind fun r => rfl

theorem readForm_onto (hk : k ∈ formKeywords) (hform : under.form = none) :
    readForm cfg k (d.onto under) c = (readForm cfg k d c).map (pairOnto under) := by
  have hsame : (d.onto under).form = d.form := by rw [onto, hform, Option.or_none]
  cases hd : d.form with
  | some form =>
    have hd' := hsame.trans hd
    rw [readForm.eq_def, readForm.eq_def, hd, hd']
    rfl
  | none =>
    rw [readForm_eq hk (hsame.trans hd), readForm_eq hk hd]
    refine bind_eq_map_bind fun r => bind_eq_map_bind fun s => congrArg Except.ok ?_
    simp only [pairOnto, onto, addForm, add, Option.or_assoc, Option.some_or, Bool.or_true,
      List.append_assoc]

theorem readUpdate_onto {operation : Operation}
    (hform : under.form = none ∨ under.form = some .update) :
    readUpdate cfg operation (d.onto under) c =
      (readUpdate cfg operation d c).map (pairOnto under) := by
  have hsame : ((d.onto under).form = none ∨ (d.onto under).form = some .update) ↔
      (d.form = none ∨ d.form = some .update) := by
    rw [onto]
    rcases hform with hform | hform <;> cases d.form <;> simp [hform]
  rw [readUpdate, readUpdate]
  by_cases hd : d.form = none ∨ d.form = some .update
  · rw [if_pos hd, if_pos (hsame.2 hd)]
    exact bind_eq_map_bind fun r => congrArg Except.ok (by rw [pairOnto, addForm_onto])
  · rw [if_neg hd, if_neg (mt hsame.1 hd)]
    rfl

/-- A clause that the draft allows is read behind it as behind nothing. -/
theorem readClause_onto (h : under.Allows k) :
    readClause cfg k (d.onto under) c = (readClause cfg k d c).map (pairOnto under) := by
  rw [readClause.eq_def, readClause.eq_def]
  split
  · exact readDeclaration_onto (h.declarations (by decide))
  · exact readDeclaration_onto (h.declarations (by decide))
  · exact bind_eq_map_bind fun r => rfl
  · exact bind_eq_map_bind fun r => rfl
  · exact readForm_onto (by decide) (h.forms (by decide))
  · exact readForm_onto (by decide) (h.forms (by decide))
  · exact readForm_onto (by decide) (h.forms (by decide))
  · exact readForm_onto (by decide) (h.forms (by decide))
  · exact readUpdate_onto h.updates
  · exact readUpdate_onto h.updates
  · exact bind_eq_map_bind fun c₁ => bind_eq_map_bind fun r =>
      congrArg Except.ok (by rw [pairOnto, add_onto])
  · rfl

/-- So is every step, if the draft allows the clause that comes next. -/
theorem step_onto (h : d.complete = false → ∀ t k, c.peek = some t →
    Keyword.ofText? t.text = some k → under.Allows k) :
    step cfg (d.onto under) c = (step cfg d c).map (Option.map (pairOnto under)) := by
  rw [step, step, show (d.onto under).complete = d.complete from rfl]
  split
  · rfl
  next hd =>
  cases hp : c.peek with
  | none => rfl
  | some t =>
    dsimp only
    split
    · rfl
    cases hk : Keyword.ofText? t.text with
    | none => rfl
    | some k =>
      dsimp only
      rw [readClause_onto (h (Bool.not_eq_true _ ▸ hd) t k hp hk)]
      cases readClause cfg k d c <;> rfl

/-! ## 2. Runs -/

/-- What is read behind a draft, as long as it allows the clauses that come. That it does so is
said by `I`, which holds before each step. -/
theorem repeatStep_onto {I : Draft → Cursor → Prop}
    (hallows : ∀ d c, I d c → d.complete = false → ∀ t k, c.peek = some t →
      Keyword.ofText? t.text = some k → under.Allows k)
    (hstep : ∀ d c d' c', I d c → step cfg d c = .ok (some (d', c')) → I d' c') (h : I d c) :
    Cursor.repeatStep (step cfg) (step_productive cfg) (d.onto under) c =
      (Cursor.repeatStep (step cfg) (step_productive cfg) d c).map (pairOnto under) := by
  -- Each step leaves less to read.
  induction c using Cursor.size_induction generalizing d with
  | ind c ih =>
    rw [Cursor.repeatStep_eq, Cursor.repeatStep_eq, step_onto (hallows d c h)]
    cases hx : step cfg d c with
    | error e => rfl
    | ok r =>
      cases r with
      | none => rfl
      | some r => exact ih _ (step_productive cfg d c r.1 r.2 hx) (hstep d c r.1 r.2 h hx)

/-- A draft of declarations only allows every clause. -/
theorem allows_of_open (hopen : under.prologueClosed = false) (hform : under.form = none)
    (k : Keyword) : under.Allows k := ⟨fun _ => hopen, fun _ => hform, .inl hform⟩

theorem repeatStep_onto_open (hopen : under.prologueClosed = false) (hform : under.form = none)
    (d : Draft) (c : Cursor) :
    Cursor.repeatStep (step cfg) (step_productive cfg) (d.onto under) c =
      (Cursor.repeatStep (step cfg) (step_productive cfg) d c).map (pairOnto under) :=
  repeatStep_onto (I := fun _ _ => True) (fun _ _ _ _ _ k _ _ => allows_of_open hopen hform k)
    (fun _ _ _ _ _ _ => trivial) trivial

/-! ## 3. Updates without declarations -/

/-- True of drafts in which something was declared. -/
def Declares (d : Draft) : Prop := d.base ≠ none ∨ d.prefixes ≠ ∅

/-- What was declared stays declared. -/
theorem Declares.repeatStep (hd : d.Declares) (hc : c.Lexed)
    (h : Cursor.repeatStep (step cfg) (step_productive cfg) d c = .ok (d', c')) :
    d'.Declares := by
  refine (Cursor.repeatStep_invariant (P := fun d c => d.Declares ∧ c.Lexed)
    (fun {d c d' c'} hd hstep => ?_) ⟨hd, hc⟩ h).1.1
  obtain ⟨hd, hc⟩ := hd
  refine ⟨?_, lexed_of_step hc hstep⟩
  obtain ⟨-, t, -, ⟨-, rfl, -⟩ | ⟨k, -, hread⟩⟩ := step_cases hstep
  · exact hd
  · cases readClause_sound hc.pass (Nat.le_refl _) hread with
    | prefixDecl => exact .inr (d.prefixes.insert_ne_empty _ _)
    | base => exact .inl (Option.some_ne_none _)
    | _ => exact hd

theorem formOf_ne_update (k : Keyword) : formOf k ≠ .update := by
  cases k <;> decide

/-- No declaration and no query form comes in an update without declarations. -/
theorem allows_of_update (hform : under.form = some .update) (hc : c.Lexed)
    (h : Cursor.repeatStep (step cfg) (step_productive cfg) d c = .ok (d', c'))
    (hd' : d'.form = some .update) (hno : ¬ d'.Declares) (hd : d.complete = false) {t : Token}
    (hp : c.peek = some t) (hk : Keyword.ofText? t.text = some k) : under.Allows k := by
  rw [Cursor.repeatStep_eq, step_of_keyword hd hp hk] at h
  obtain ⟨r, hr, h⟩ := bind_eq_ok.1 h
  obtain ⟨⟨d₁, c₁⟩, hread, hr⟩ := bind_eq_ok.1 hr
  obtain rfl := Except.ok.inj hr
  have hc₁ : c₁.Lexed := (readClause_sound hc.pass (Nat.le_refl _) hread).lexed
  refine ⟨fun hdecl => absurd ?_ hno, fun hmem => absurd ?_ (formOf_ne_update k), .inr hform⟩
  · have hd₁ : d₁.Declares := by
      rcases hdecl with rfl | rfl
      · cases readClause_cases hread with
        | prefixDecl => exact .inr (d.prefixes.insert_ne_empty _ _)
      · cases readClause_cases hread with
        | base => exact .inl (Option.some_ne_none _)
    exact hd₁.repeatStep hc₁ h
  · rw [readClause_of_form hmem] at hread
    -- The form would have stayed.
    exact Option.some.inj ((form_of_repeatStep (formOf_of_readForm hmem hread) h).symm.trans hd')

/-- An update without declarations is read behind a draft of updates as it is read behind
nothing. -/
theorem repeatStep_onto_update (hform : under.form = some .update) (hc : c.Lexed)
    (h : Cursor.repeatStep (step cfg) (step_productive cfg) d c = .ok (d', c'))
    (hd' : d'.form = some .update) (hno : ¬ d'.Declares) :
    Cursor.repeatStep (step cfg) (step_productive cfg) (d.onto under) c =
      .ok (d'.onto under, c') := by
  rw [repeatStep_onto (I := fun d c => c.Lexed ∧
    Cursor.repeatStep (step cfg) (step_productive cfg) d c = .ok (d', c')) ?_ ?_ ⟨hc, h⟩, h]
  · rfl
  · rintro d c ⟨hc, hrun⟩ hopen t k hp hk
    exact allows_of_update hform hc hrun hd' hno hopen hp hk
  · rintro d c d₁ c₁ ⟨hc, hrun⟩ hstep
    rw [Cursor.repeatStep_eq, hstep] at hrun
    exact ⟨lexed_of_step hc hstep, hrun⟩

end Draft

end SparqlTree
