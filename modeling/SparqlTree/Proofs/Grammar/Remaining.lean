import SparqlTree.Grammar.Draft
import SparqlTree.Proofs.Grammar.Simulation

/-!
# What is left of the tokens

Reading goes forward only: the tokens that are left behind a clause are an end of those that were
there before it. A full stop may be cut off a word within a body, so the tokens inside of a body are
not quite an end of those before it; those behind its closing brace are again (`readItems_closed`).
-/

namespace SparqlTree

namespace Cursor

variable {c c' : Cursor} {t : Token}

theorem pass_suffix (hp : c.peek = some t) : t :: c.pass.upcoming <:+ c.upcoming :=
  ⟨_, (upcoming_eq_of_peek hp).symm⟩

theorem Took.suffix {ws : List Text} (h : c.Took ws c') : c'.upcoming <:+ c.upcoming := by
  obtain ⟨ts, hts, -⟩ := h.upcoming_eq
  exact ⟨ts, hts.symm⟩

end Cursor

variable {cfg : Config} {c c' : Cursor}

/-! ## 1. Bodies -/

/-- The cursor stands directly behind the token `b`, a closing brace, which was read on the way
here from the cursor `c`. -/
structure BodyClosed (c : Cursor) (b : Token) (c' : Cursor) : Prop where
  consumed : c'.consumed.head? = some b
  kind : b.kind = .closeBrace
  suffix : b :: c'.upcoming <:+ c.upcoming

theorem BodyClosed.of_suffix {c₁ : Cursor} {b : Token} (h : BodyClosed c₁ b c')
    (hs : c₁.upcoming <:+ c.upcoming) : BodyClosed c b c' := ⟨h.consumed, h.kind, h.suffix.trans hs⟩

/-- What is left of a token whose full stop was cut off is no closing brace. -/
theorem BodyClosed.of_stop {t b : Token} (hc : c.Lexed) (hp : c.peek = some t)
    (hstop : t.text.head? = some '.') (h : BodyClosed (c.pass.breakOff ['.']) b c') :
    BodyClosed c.pass b c' := by
  obtain ⟨hconsumed, hkind, hsuffix⟩ := h
  refine ⟨hconsumed, hkind, ?_⟩
  rw [Cursor.breakOff_eq (Cursor.consumed_pass_of_peek hp)] at hsuffix
  split at hsuffix
  · refine (List.suffix_cons_iff.1 hsuffix).resolve_left fun he => ?_
    obtain ⟨rfl, -⟩ := List.cons_eq_cons.1 he
    have hbrace : t.text.drop 1 = ['\x7d'] := Text.classify_eq_closeBrace.1 hkind
    have hword := hc.word_of_peek hp fun ch hch => by
      obtain rfl := Option.some.inj (hstop.symm.trans hch)
      decide
    have hmem : '\x7d' ∈ t.text := (List.drop_sublist 1 t.text).subset (by simp [hbrace])
    exact absurd (hword _ hmem) (by decide)
  · exact hsuffix

/-- A body ends behind its closing brace, and what is left are the tokens behind that. -/
theorem readItems_closed {style : BodyStyle} {depth : Nat} {items : List Item} (hc : c.Lexed)
    (h : readItems cfg style depth c = .ok (items, c')) : ∃ b, BodyClosed c b c' := by
  induction h using readItems_induction with
  | @close _ _ _ t hp hclose =>
    exact ⟨t, by rw [Cursor.consumed_pass_of_peek hp]; rfl, hclose, Cursor.pass_suffix hp⟩
  | nested _ h₁ h₂ h₃ _ _ ihinner ihrest =>
    obtain ⟨_, p₁, -⟩ := Head.took_readNested hc h₁
    obtain ⟨_, p₂, -⟩ := readItems_sound p₁.lexed h₂
    obtain ⟨_, p₃, -⟩ := Head.took_close p₂.lexed h₃
    obtain ⟨_, hinner⟩ := ihinner p₁.lexed
    obtain ⟨b, hrest⟩ := ihrest p₃.lexed
    have hsuffix := (List.suffix_cons _ _).trans hinner.suffix
    exact ⟨b, hrest.of_suffix (p₃.suffix.trans (hsuffix.trans p₁.suffix))⟩
  | stop hp hdot _ _ ih =>
    obtain ⟨b, hrest⟩ := ih (passed_stop hc hp hdot).lexed
    have hsuffix := (List.suffix_cons _ _).trans (Cursor.pass_suffix hp)
    exact ⟨b, (hrest.of_stop hc hp hdot).of_suffix hsuffix⟩
  | word hp _ _ _ _ _ ih =>
    obtain ⟨b, hrest⟩ := ih hc.pass
    exact ⟨b, hrest.of_suffix ((List.suffix_cons _ _).trans (Cursor.pass_suffix hp))⟩

theorem readBody_closed {style : BodyStyle} {body : List Statement} (hc : c.Lexed)
    (h : readBody cfg style c = .ok (body, c')) : ∃ b, BodyClosed c b c' := by
  obtain ⟨items, hitems, -⟩ := readBody_cases h
  exact readItems_closed hc hitems

theorem Head.readBlock_suffix {head : Head} {s : Statement} (hc : c.Lexed)
    (h : head.readBlock cfg c = .ok (s, c')) : c'.upcoming <:+ c.upcoming := by
  obtain ⟨body, c₁, closed, hbody, hclose, -⟩ := readBlock_cases h
  obtain ⟨items, hitems, -⟩ := readBody_cases hbody
  obtain ⟨_, p₁, -⟩ := readItems_sound hc hitems
  obtain ⟨_, p₂, -⟩ := Head.took_close p₁.lexed hclose
  obtain ⟨_, hbody⟩ := readItems_closed hc hitems
  exact p₂.suffix.trans ((List.suffix_cons _ _).trans hbody.suffix)

/-! ## 2. Templates -/

/-- What stands in a template is left out as a whole. -/
theorem Head.readConstruct_suffix {head : Head} (hc : c.Lexed)
    (h : readConstruct c = .ok (head, c')) : c'.Lexed ∧ c'.upcoming <:+ c.upcoming := by
  obtain ⟨⟨template, c₁⟩, h₁, h⟩ := bind_eq_ok.1 h
  obtain ⟨c₂, h₂, h⟩ := bind_eq_ok.1 h
  obtain ⟨-, rfl⟩ := Prod.mk.inj (Except.ok.inj h)
  obtain ⟨c₃, h₃, h₁⟩ := bind_eq_ok.1 h₁
  have p₃ := took_readOpenBrace hc h₃
  dsimp only at h₁
  split at h₁
  · obtain ⟨-, rfl⟩ := Prod.mk.inj (Except.ok.inj h₁)
    obtain ⟨_, p₂, -⟩ := took_readOptionalWhere (p₃.lexed.advance _) h₂
    exact ⟨p₂.lexed, p₂.suffix.trans ((List.drop_suffix _ _).trans p₃.suffix)⟩
  · nomatch h₁

/-! ## 3. Prefixes -/

namespace Draft

theorem took_readPrefix {label iri : Text} (hc : c.Lexed)
    (h : readPrefix c = .ok (label, iri, c')) : ∃ ws, c.Took ws c' := by
  obtain ⟨t, c₁, h₁, hcase⟩ := readPrefix_cases h
  obtain ⟨p₁, -⟩ := hc.expect_eq_ok h₁
  obtain ⟨-, -, hiri⟩ | ⟨u, c₂, -, h₂, hiri⟩ := hcase
  · exact ⟨_, p₁.trans (took_requireIri p₁.lexed hiri)⟩
  · have p₂ := p₁.trans (p₁.lexed.require_eq_ok h₂).1
    exact ⟨_, p₂.trans (took_requireIri p₂.lexed hiri)⟩

end Draft

end SparqlTree
