import SparqlTree.Grammar.Body
import SparqlTree.Proofs.Text.Caseless
import SparqlTree.Proofs.Token.Slices

/-!
# Tokens cut in place

While a text is read, a full stop that ends a statement may be cut off the head of a word, and so
may a keyword with something glued to it. The pieces stand in the place of the word: they cover the
same bytes, in the same order, and line breaks stay what they are.
-/

namespace SparqlTree

/-- The texts that are cut off the head of a token, and when: a full stop if it ends a statement,
and a keyword if the token is that keyword, alone or followed by what may be glued to it. -/
inductive IsHead (t : Token) : Text → Prop
  | stop {style : BodyStyle} (hstop : isStop style t = true) : IsHead t ['.']
  | keyword {k : Keyword} (hk : k.leads t.text = true) : IsHead t k.name

theorem IsHead.word {t : Token} {head : Text} (h : IsHead t head) :
    head ≠ [] ∧ ∀ c ∈ head, Text.continuesWord c = true := by
  cases h with
  | stop => exact ⟨List.cons_ne_nil _ _, List.forall_mem_singleton.2 (by decide)⟩
  | @keyword k hk => exact ⟨k.name_ne_nil, k.word_name⟩

/-- The tokens are these tokens, but that words among them have been cut behind a full stop or a
keyword, in whatever letter case. -/
inductive Recut (ts : List Token) : List Token → Prop
  | refl : Recut ts ts
  | cut {us vs : List Token} {t : Token} {head tail w : Text} (h : Recut ts (us ++ t :: vs))
      (htext : t.text = head ++ tail) (hword : ∀ c ∈ t.text, Text.continuesWord c = true)
      (hw : IsHead t w) (hhead : Text.sameLetters head w = true) (htail : tail ≠ []) :
      Recut ts (us ++ (t.cut head tail).1 :: (t.cut head tail).2 :: vs)

theorem ne_nil_of_head {t : Token} {head w : Text} (hw : IsHead t w)
    (h : Text.sameLetters head w = true) : head ≠ [] := by
  rw [← List.length_pos_iff, Text.length_eq_of_sameLetters h, List.length_pos_iff]
  exact hw.word.1

namespace Recut

variable {text : Text} {us : List Token}

/-! ## 1. Places -/

/-- Tokens that were cut still are slices of the text. -/
theorem slices (h : Recut (tokenize text) us) : Slices text us := by
  induction h with
  | refl => exact slices_tokenize text
  | cut _ htext _ hw hhead htail ih => exact ih.cut htext (ne_nil_of_head hw hhead) htail

/-- Every piece stands at its span. -/
theorem placed (h : Recut (tokenize text) us) :
    ∀ u ∈ us, u.text ≠ [] ∧ ∃ before after, u.At text before after := fun u hu =>
  ⟨h.slices.ne_nil hu, h.slices.placed u hu⟩

theorem first_lt_last (h : Recut (tokenize text) us) {u : Token} (hu : u ∈ us) :
    u.span.first < u.span.last ∧ u.span.last ≤ Text.byteLength text :=
  ⟨h.slices.nonempty u hu, h.slices.last_le hu⟩

theorem ordered (h : Recut (tokenize text) us) :
    us.Pairwise fun u v => u.span.last ≤ v.span.first := h.slices.ordered

/-! ## 2. Kinds -/

theorem kind_eq (h : Recut (tokenize text) us) : ∀ u ∈ us, u.kind = TokenKind.classify u.text :=
  h.slices.kind_eq

/-- A token that is cut is no line break, and neither are its pieces. -/
theorem cut_noBreak {vs ws : List Token} {t : Token} {head tail : Text}
    (h : Recut (tokenize text) (vs ++ t :: ws)) (htext : t.text = head ++ tail)
    (hword : ∀ c ∈ t.text, Text.continuesWord c = true) : t.isLineBreak = false ∧
      (t.cut head tail).1.isLineBreak = false ∧ (t.cut head tail).2.isLineBreak = false := by
  refine ⟨?_, ?_, ?_⟩
  · rw [Token.isLineBreak, h.kind_eq t (by simp)]
    exact Text.isBreak_of_word hword
  · exact Text.isBreak_of_word fun c hc => hword c (htext ▸ List.mem_append_left _ hc)
  · exact Text.isBreak_of_word fun c hc => hword c (htext ▸ List.mem_append_right _ hc)

theorem filter_isLineBreak (h : Recut (tokenize text) us) :
    us.filter Token.isLineBreak = (tokenize text).filter Token.isLineBreak := by
  induction h with
  | refl => rfl
  | @cut us vs t head tail _ h htext hword _ _ _ ih =>
    obtain ⟨ht, hfront, hback⟩ := h.cut_noBreak htext hword
    rw [← ih, List.filter_append, List.filter_append]
    refine congrArg (us.filter Token.isLineBreak ++ ·) ?_
    rw [List.filter_cons_of_neg (by rw [hfront]; decide),
      List.filter_cons_of_neg (by rw [hback]; decide), List.filter_cons_of_neg (by rw [ht]; decide)]

/-- Line breaks are never cut. -/
theorem mem_iff_of_isLineBreak (h : Recut (tokenize text) us) {u : Token}
    (hu : u.isLineBreak = true) : u ∈ us ↔ u ∈ tokenize text := by
  have hfilter := h.filter_isLineBreak
  constructor
  · intro hmem
    have hf : u ∈ us.filter Token.isLineBreak := List.mem_filter.2 ⟨hmem, hu⟩
    rw [hfilter] at hf
    exact (List.mem_filter.1 hf).1
  · intro hmem
    have hf : u ∈ (tokenize text).filter Token.isLineBreak := List.mem_filter.2 ⟨hmem, hu⟩
    rw [← hfilter] at hf
    exact (List.mem_filter.1 hf).1

/-! ## 3. Pieces and tokens -/

/-- Where a token begins, its first piece does. -/
theorem exists_piece (h : Recut (tokenize text) us) : ∀ t ∈ tokenize text, t.isLineBreak = false →
    ∃ u ∈ us, u.isLineBreak = false ∧ u.span.first = t.span.first := by
  induction h with
  | refl => exact fun t ht hb => ⟨t, ht, hb, rfl⟩
  | @cut us vs s head tail _ h htext hword _ _ _ ih =>
    intro t ht hb
    obtain ⟨u, hu, hub, hfirst⟩ := ih t ht hb
    simp only [List.mem_append, List.mem_cons] at hu
    rcases hu with hu | rfl | hu
    · exact ⟨u, by simp [hu], hub, hfirst⟩
    · exact ⟨(u.cut head tail).1, by simp, (h.cut_noBreak htext hword).2.1, hfirst⟩
    · exact ⟨u, by simp [hu], hub, hfirst⟩

/-- Every piece lies in a token. -/
theorem exists_token (h : Recut (tokenize text) us) : ∀ u ∈ us, u.isLineBreak = false →
    ∃ t ∈ tokenize text, t.isLineBreak = false ∧ t.span.first ≤ u.span.first ∧
      u.span.last ≤ t.span.last := by
  induction h with
  | refl => exact fun u hu hb => ⟨u, hu, hb, Nat.le_refl _, Nat.le_refl _⟩
  | @cut us vs s head tail _ h htext hword _ _ _ ih =>
    intro u hu hb
    have hs : ∃ t ∈ tokenize text, t.isLineBreak = false ∧ t.span.first ≤ s.span.first ∧
        s.span.last ≤ t.span.last := ih s (by simp) (h.cut_noBreak htext hword).1
    obtain ⟨t, ht, htb, hfirst, hlast⟩ := hs
    have hle : s.span.first ≤ s.span.last := Nat.le_of_lt (h.first_lt_last (by simp)).1
    obtain ⟨h₁, h₂, h₃, h₄, h₅⟩ := Token.cut_spans hle head tail
    simp only [List.mem_append, List.mem_cons] at hu
    rcases hu with hu | rfl | rfl | hu
    · exact ih u (by simp [hu]) hb
    · exact ⟨t, ht, htb, by omega, by omega⟩
    · exact ⟨t, ht, htb, by omega, by omega⟩
    · exact ih u (by simp [hu]) hb

end Recut

end SparqlTree
