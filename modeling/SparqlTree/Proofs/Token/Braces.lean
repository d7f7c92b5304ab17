import SparqlTree.Proofs.Token.Lexing

/-!
# Matching braces

Tokens whose braces match: none is closed that was not opened before, and none stays open. Only the
braces count, and joining or cutting words does not change which braces there are, so the braces of
a text can be found from any tokens that make up its characters (`filter_isBrace_of_flatten`).
-/

namespace SparqlTree

open Text (IsToken IsOpen Scanned Apart continuesWord tokens)

/-- True of the two braces. -/
def isBrace (w : Text) : Bool := w == ['\x7b'] || w == ['\x7d']

theorem isBrace_eq_false {w : Text} : isBrace w = false ↔ w ≠ ['\x7b'] ∧ w ≠ ['\x7d'] := by
  rw [isBrace, Bool.or_eq_false_iff, beq_eq_false_iff_ne, beq_eq_false_iff_ne]

/-- The braces among the tokens match one another. -/
structure BracesMatch (ws : List Text) : Prop where
  /-- Up to every token at least as many braces were opened as were closed. -/
  closed_le : ∀ vs, vs <+: ws → vs.count ['\x7d'] ≤ vs.count ['\x7b']
  closed_eq : ws.count ['\x7d'] = ws.count ['\x7b']

/-! ## 1. Lists of tokens -/

theorem BracesMatch.of_not_mem {ws : List Text} (h : ∀ w ∈ ws, isBrace w = false) :
    BracesMatch ws := by
  have hzero : ∀ vs, vs <+: ws → vs.count ['\x7d'] = 0 ∧ vs.count ['\x7b'] = 0 := by
    intro vs hvs
    rw [List.count_eq_zero, List.count_eq_zero]
    exact ⟨fun hm => Bool.noConfusion (h _ (hvs.subset hm)),
      fun hm => Bool.noConfusion (h _ (hvs.subset hm))⟩
  refine ⟨fun vs hvs => ?_, ?_⟩
  · rw [(hzero vs hvs).1]
    exact Nat.zero_le _
  · rw [(hzero ws (List.prefix_refl ws)).1, (hzero ws (List.prefix_refl ws)).2]

theorem BracesMatch.append {vs ws : List Text} (hv : BracesMatch vs) (hw : BracesMatch ws) :
    BracesMatch (vs ++ ws) := by
  refine ⟨fun us hus => ?_, ?_⟩
  -- Some first tokens of both lists end in the first one, or have all of it and end in the second.
  · rcases List.prefix_or_prefix_of_prefix hus (List.prefix_append vs ws) with h | ⟨xs, rfl⟩
    · exact hv.closed_le us h
    · have hle := hw.closed_le xs ((List.prefix_append_right_inj vs).1 hus)
      have heq := hv.closed_eq
      rw [List.count_append, List.count_append]
      omega
  · rw [List.count_append, List.count_append, hv.closed_eq, hw.closed_eq]

/-- A pair of braces around tokens whose braces match. -/
theorem BracesMatch.enclose {ws : List Text} (h : BracesMatch ws) :
    BracesMatch (['\x7b'] :: ws ++ [['\x7d']]) := by
  have heq := h.closed_eq
  refine ⟨fun us hus => ?_, ?_⟩
  · rw [List.cons_append, List.prefix_cons_iff] at hus
    rcases hus with rfl | ⟨vs, rfl, hvs⟩
    · exact Nat.le_refl _
    -- The opening brace in front makes up for the closing one, which only the whole list has.
    · have hle : vs.count ['\x7d'] ≤ vs.count ['\x7b'] + 1 := by
        rcases List.prefix_concat_iff.1 hvs with rfl | hvs
        · simp
          omega
        · exact Nat.le_succ_of_le (h.closed_le vs hvs)
      simpa using hle
  · simp
    omega

/-- Only the braces count. -/
theorem bracesMatch_filter {ws : List Text} :
    BracesMatch (ws.filter isBrace) ↔ BracesMatch ws := by
  have hcount : ∀ vs : List Text, (vs.filter isBrace).count ['\x7d'] = vs.count ['\x7d'] ∧
      (vs.filter isBrace).count ['\x7b'] = vs.count ['\x7b'] := fun vs =>
    ⟨List.count_filter rfl, List.count_filter rfl⟩
  constructor
  · rintro ⟨hle, heq⟩
    refine ⟨fun vs hvs => ?_, ?_⟩
    · rw [← (hcount vs).1, ← (hcount vs).2]
      exact hle _ (hvs.filter isBrace)
    · rwa [(hcount ws).1, (hcount ws).2] at heq
  · rintro ⟨hle, heq⟩
    refine ⟨fun vs hvs => ?_, ?_⟩
    · obtain ⟨xs, hxs⟩ := hvs
      obtain ⟨us, ys, rfl, rfl, -⟩ := List.filter_eq_append_iff.1 hxs.symm
      rw [(hcount us).1, (hcount us).2]
      exact hle us (List.prefix_append us ys)
    · rw [(hcount ws).1, (hcount ws).2, heq]

/-! ## 2. The braces of a text -/

namespace Text

theorem isBrace_of_word {w : Text} (h : ∀ c ∈ w, continuesWord c = true) : isBrace w = false := by
  rw [isBrace_eq_false]
  constructor
  · rintro rfl
    exact absurd (h '\x7b' (by simp)) (by decide)
  · rintro rfl
    exact absurd (h '\x7d' (by simp)) (by decide)

theorem isBrace_of_break {w : Text} (h : isBreak w = true) : isBrace w = false := by
  rcases isBreak_iff.1 h with rfl | rfl <;> rfl

theorem apart_of_not_word {w : Text} (hw : IsToken w)
    (h : ¬ ∀ c ∈ w, continuesWord c = true) (t : Text) : Apart (w ++ t) := by
  intro c hc
  obtain ⟨d, v, rfl⟩ := List.exists_cons_of_ne_nil hw.ne_nil
  obtain rfl := Option.some.inj hc
  rw [← Bool.not_eq_true]
  exact fun hword => h (hw.word_of_head hword)

/-- The tokens of a word are no braces, even if there is nothing in it. -/
theorem filter_isBrace_word {w t : Text} (hw : ∀ c ∈ w, continuesWord c = true) (ht : Apart t) :
    (tokens (w ++ t)).filter isBrace = (tokens t).filter isBrace := by
  by_cases hne : w = []
  · rw [hne, List.nil_append]
  · rw [tokens_append (.word w hne hw) fun _ => ht,
      List.filter_cons_of_neg (by rw [isBrace_of_word hw]; decide)]

/-- Words that come to stand next to one another are read as one, and nothing else changes. -/
theorem filter_isBrace_flatten {ws : List Text} (h : Scanned ws) {w : Text}
    (hw : ∀ c ∈ w, continuesWord c = true) :
    (tokens (w ++ ws.flatten)).filter isBrace = ws.filter isBrace := by
  induction h generalizing w with
  | nil =>
    have hnil : Apart [] := fun _ h => nomatch h
    rw [List.flatten_nil, filter_isBrace_word hw hnil, tokens_nil]
  | @leftOpen v hv =>
    obtain ⟨hu, htrim⟩ := hv
    have hapart : Apart v := by
      intro c hc
      cases hu <;> obtain rfl := Option.some.inj hc <;> rfl
    rw [List.flatten_singleton, filter_isBrace_word hw hapart, tokens_unclosed hu, htrim]
  | @cons v ws hv _ ih =>
    rw [List.flatten_cons]
    -- A word joins the one in front of it, and any other token ends it.
    by_cases hword : ∀ c ∈ v, continuesWord c = true
    · rw [← List.append_assoc, ih (List.forall_mem_append.2 ⟨hw, hword⟩),
        List.filter_cons_of_neg (by rw [isBrace_of_word hword]; decide)]
    · have hrest := ih (w := []) fun _ h => nomatch h
      rw [List.nil_append] at hrest
      rw [filter_isBrace_word hw (apart_of_not_word hv hword _),
        tokens_append hv fun hall => absurd hall hword, List.filter_cons, List.filter_cons, hrest]

/-- Tokens that make up the same characters have the same braces. -/
theorem filter_isBrace_of_flatten {vs ws : List Text} (hv : Scanned vs) (hw : Scanned ws)
    (h : vs.flatten = ws.flatten) : vs.filter isBrace = ws.filter isBrace := by
  have hnil : ∀ c ∈ ([] : Text), continuesWord c = true := fun _ hc => nomatch hc
  rw [← filter_isBrace_flatten hv hnil, h, filter_isBrace_flatten hw hnil]

end Text

end SparqlTree
