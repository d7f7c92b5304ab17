import SparqlTree.Proofs.Grammar.Remaining
import SparqlTree.Proofs.Query.ErrorPlace
import SparqlTree.Proofs.Query.FormStart

/-!
# Where the form of a query stands

At the keyword that gives a query its form no token has been cut that is still to be read, so the
tokens from there on are those of the text (`Query.split_at_form`).
-/

namespace SparqlTree

variable {cfg : Config} {c c' : Cursor} {d d' : Draft} {k : Keyword} {text : Text}

namespace Draft

theorem readClause_suffix (hc : c.pass.Lexed) (hk : givesForm k = false)
    (h : readClause cfg k d c = .ok (d', c')) : c'.upcoming <:+ c.pass.upcoming := by
  cases readClause_cases h with
  | prefixDecl _ h₁ =>
    obtain ⟨_, p⟩ := took_readPrefix hc h₁
    exact p.suffix
  | base _ h₁ | withGraph h₁ => exact (took_requireIri hc h₁).suffix
  | fromClause h₁ =>
    obtain ⟨_, p, -⟩ := took_skip hc .named
    exact (took_requireIri p.lexed h₁).suffix.trans p.suffix
  | select | describe | construct | ask | insert | delete => nomatch hk
  | whereClause h₁ h₂ =>
    have p₁ := took_readOpenBrace hc h₁
    exact (Head.readBlock_suffix p₁.lexed h₂).trans p₁.suffix

/-- Each step towards the form leaves an end of the tokens that there were. -/
theorem stepToForm_suffix (hc : c.Lexed) (h : stepToForm cfg d c = .ok (some (d', c'))) :
    c'.Lexed ∧ c'.upcoming <:+ c.upcoming := by
  unfold stepToForm at h
  split at h
  · nomatch h
  next hat =>
  refine ⟨lexed_of_step hc h, ?_⟩
  obtain ⟨-, t, hp, ⟨-, -, rfl⟩ | ⟨k, hk, hread⟩⟩ := step_cases h
  · exact (hc.took_pass hp).suffix
  · rw [atForm, hp, Option.any_some, hk, Option.any_some, Bool.not_eq_true] at hat
    exact (readClause_suffix hc.pass hat hread).trans (hc.took_pass hp).suffix

theorem readToForm_suffix (hc : c.Lexed) (h : readToForm cfg c = .ok (d, c')) :
    c'.Lexed ∧ c'.upcoming <:+ c.upcoming := by
  refine (Cursor.repeatStep_invariant (P := fun _ c' => c'.Lexed ∧ c'.upcoming <:+ c.upcoming)
    ?_ ⟨hc, List.suffix_rfl⟩ h).1
  rintro d c₁ d' c₂ ⟨hc₁, hsuffix⟩ hstep
  obtain ⟨hc₂, hsuffix'⟩ := stepToForm_suffix hc₁ hstep
  exact ⟨hc₂, hsuffix'.trans hsuffix⟩

theorem readHead_suffix {r : Head × Option Text} (hc : c.Lexed)
    (h : readHead k c = .ok (r, c')) : c'.Lexed ∧ c'.upcoming <:+ c.upcoming := by
  unfold readHead at h
  split at h
  · obtain ⟨⟨p, c₁⟩, h₁, h⟩ := bind_eq_ok.1 h
    obtain ⟨-, rfl⟩ := Prod.mk.inj (Except.ok.inj h)
    obtain ⟨_, p₁, -⟩ := Projection.took_read hc h₁
    exact ⟨p₁.lexed, p₁.suffix⟩
  · obtain ⟨⟨p, c₁⟩, h₁, h⟩ := bind_eq_ok.1 h
    obtain ⟨-, rfl⟩ := Prod.mk.inj (Except.ok.inj h)
    obtain ⟨_, p₁, -⟩ := Projection.took_read hc h₁
    exact ⟨p₁.lexed, p₁.suffix⟩
  · obtain ⟨⟨head, c₁⟩, h₁, h⟩ := bind_eq_ok.1 h
    obtain ⟨-, rfl⟩ := Prod.mk.inj (Except.ok.inj h)
    exact Head.readConstruct_suffix hc h₁
  · obtain ⟨⟨dataset, c₁⟩, h₁, h⟩ := bind_eq_ok.1 h
    obtain ⟨c₂, h₂, h⟩ := bind_eq_ok.1 h
    obtain ⟨-, rfl⟩ := Prod.mk.inj (Except.ok.inj h)
    obtain ⟨_, p₁, -⟩ := took_readDataset? hc h₁
    obtain ⟨_, p₂, -⟩ := Head.took_readOptionalWhere p₁.lexed h₂
    exact ⟨p₂.lexed, p₂.suffix.trans p₁.suffix⟩

theorem stands_stepToForm {window : Nat} (h : c.Stands text window)
    (hstep : stepToForm cfg d c = .ok (some (d', c'))) : c'.Stands text window := by
  unfold stepToForm at hstep
  split at hstep
  · nomatch hstep
  · exact h.step hstep

/-- All steps lead from the start of a text to a place in it. -/
theorem along_of_run (hfirst : readToForm cfg (Query.cursor cfg text) = .ok (d, c))
    (hrun : Cursor.repeatStep (step cfg) (step_productive cfg) d c = .ok (d', c')) :
    c'.Along text cfg.contextTokens := by
  obtain ⟨hform, -⟩ := Cursor.repeatStep_invariant
    (P := fun _ c => c.Stands text cfg.contextTokens) stands_stepToForm (.start cfg text) hfirst
  exact (Cursor.repeatStep_invariant Cursor.Stands.step hform hrun).1.along

end Draft

namespace Query

/-- The tokens of a text from the keyword of its form on are left as they are. -/
theorem split_at_form {t : Token} (h : Draft.readToForm cfg (cursor cfg text) = .ok (d, c))
    (hp : c.peek = some t) : ∃ before, tokenize text = before ++ t :: c.pass.upcoming := by
  obtain ⟨-, hsuffix⟩ := Draft.readToForm_suffix (lexed_cursor cfg text) h
  obtain ⟨before, hbefore⟩ := (Cursor.pass_suffix hp).trans hsuffix
  exact ⟨before, hbefore.symm⟩

/-- The tokens of a text behind the keyword that gives the query its form. -/
def behindForm (cfg : Config) (text : Text) : List Token :=
  match Draft.readToForm cfg (cursor cfg text) with
  | .ok (_, c) => c.pass.upcoming
  | .error _ => []

end Query

end SparqlTree
