import SparqlTree.Proofs.Token.Cover

/-!
# Texts that are cut behind a token

Where a text is cut directly behind one of its complete tokens, the tokens up to that one do not
depend on what follows: no token becomes shorter or longer, whatever is put in the place of the rest
(`tokenize_split`). Only behind a word there has to be something that ends it. In particular nothing
at all may follow, unless the token was the last one, to which blanks may belong that its span does
not show (`tokenize_of_cut`).
-/

namespace SparqlTree.Text

/-- A piece may stand in front of every text that begins with the same character. -/
theorem Piece.of_head {us : List Token} {g s t : Text} (h : Piece us g t)
    (hs : ∀ c ∈ s.head?, c ∈ t.head?) : Piece us g s := by
  cases h with
  | blank hc => exact .blank hc
  | comment hline ht => exact .comment hline fun c hc => ht c (hs c hc)
  | token hw ht => exact .token hw fun hall c hc => ht hall c (hs c hc)

/-- Behind the token of a piece there is nothing left of the piece. -/
theorem Piece.eq_nil {us pre post : List Token} {g t : Text} {u : Token} (h : Piece us g t)
    (hus : us = pre ++ u :: post) : pre = [] ∧ post = [] := by
  have hlen : us.length ≤ 1 := by cases h <;> simp
  rw [hus, List.length_append, List.length_cons] at hlen
  exact ⟨List.length_eq_zero_iff.1 (by omega), List.length_eq_zero_iff.1 (by omega)⟩

@[simp] theorem tokenize_nil : tokenize [] = [] := by
  rw [tokenize, Lexeme.ofText, Lexeme.place]

/-- Where a text is divided in two, no token reaches from the one part into the other, and none is
changed by the other part. -/
def Divides (front back : Text) : Prop :=
  tokenize (front ++ back) = tokenize front ++ (tokenize back).map (Token.shift (byteLength front))

theorem Piece.divides {us : List Token} {g t front back : Text} (h : Piece us g t)
    (ht : t = front ++ back) (hne : front ≠ []) {s : Text} (hs : Divides front s) :
    Divides (g ++ front) s := by
  obtain ⟨c, front, rfl⟩ := List.exists_cons_of_ne_nil hne
  have hwhole : Piece us g (c :: front ++ s) := h.of_head fun d hd => by rwa [ht]
  have hfront : Piece us g (c :: front) := h.of_head fun d hd => by rwa [ht]
  rw [Divides, List.append_assoc, tokenize_piece hwhole, tokenize_piece hfront, hs]
  simp [Token.shift, byteLength_append, Nat.add_assoc]

theorem last_pos_of_mem {t : Text} {u : Token} (hu : u ∈ tokenize t) : 0 < u.span.last := by
  obtain ⟨before, after, hat, -⟩ := placed_tokenize t u hu
  have := byteLength_pos (ne_nil_of_mem hu)
  have := hat.last
  omega

/-- A text may be divided behind each of its complete tokens, and what stands there may be replaced
by anything that does not continue a word. -/
theorem tokenize_split {t : Text} {pre post : List Token} {u : Token}
    (h : tokenize t = pre ++ u :: post) (hu : IsToken u.text) :
    ∃ front back, splitBytes? u.span.last t = some (front, back) ∧ u.span.last = byteLength front ∧
      t = front ++ back ∧ tokenize front = pre ++ [u] ∧ Divides front back ∧
      ∀ s, ((∀ c ∈ u.text, continuesWord c = true) → Apart s) → Divides front s := by
  suffices hs : ∃ front back, t = front ++ back ∧ u.span.last = byteLength front ∧
      tokenize front = pre ++ [u] ∧ Divides front back ∧
      ∀ s, ((∀ c ∈ u.text, continuesWord c = true) → Apart s) → Divides front s by
    obtain ⟨front, back, rfl, hlen, hrest⟩ := hs
    exact ⟨front, back, hlen ▸ splitBytes?_append front back, hlen, rfl, hrest⟩
  induction t using pieceCases generalizing pre u post with
  | nil => simp at h
  | piece us g t hp ih =>
    rcases append_eq_append_cons h with ⟨m, rfl, hm⟩ | ⟨m, hus, -⟩
    · -- The token stands in the rest of the text.
      obtain ⟨pre', rest, hrest, rfl, hcons⟩ := List.map_eq_append_iff.1 hm
      obtain ⟨v, post', rfl, rfl, rfl⟩ := List.map_eq_cons_iff.1 hcons
      have hpos : 0 < v.span.last := last_pos_of_mem (by rw [hrest]; simp)
      obtain ⟨front, back, ht, hlen, hfront, hback, hall⟩ := ih hrest hu
      have hne : front ≠ [] := by
        rintro rfl
        rw [hlen] at hpos
        exact absurd hpos (Nat.lt_irrefl 0)
      refine ⟨g ++ front, back, ?_, ?_, ?_, hp.divides ht hne hback,
        fun s hs => hp.divides ht hne (hall s hs)⟩
      · rw [ht, List.append_assoc]
      · rw [byteLength_append, ← hlen, Token.shift_last]
      · have hhead : ∀ c ∈ front.head?, c ∈ t.head? := fun c hc => by
          rw [ht, List.head?_append, hc]
          rfl
        rw [tokenize_piece (hp.of_head hhead), hfront]
        simp
    · -- The token is the one of the piece.
      obtain ⟨rfl, rfl⟩ := hp.eq_nil hus
      cases hp with
      | token hw ht =>
        obtain rfl := (List.cons_eq_cons.1 hus).1
        have hfront := tokenize_piece (.token hw fun _ c hc => nomatch hc : Piece _ g [])
        rw [List.append_nil, tokenize_nil, List.map_nil] at hfront
        have hall : ∀ s, ((∀ c ∈ g, continuesWord c = true) → Apart s) → Divides g s := by
          intro s hs
          rw [Divides, tokenize_piece (.token hw hs), hfront, List.append_nil]
        exact ⟨g, t, rfl, rfl, hfront, hall t ht, hall⟩
      | _ => nomatch hus
  | unclosed w hw =>
    -- A string or IRI reference that is still open is no complete token.
    have hmem : u ∈ pre ++ u :: post := by simp
    rw [← h, List.mem_singleton] at hmem
    rw [hmem] at hu
    exact absurd (isOpen_trimEnd hw).1 (not_unclosed_of_isToken hu)

/-- The tokens of a text that is cut off behind a token other than the last one. -/
theorem tokenize_of_cut {t : Text} {pre post : List Token} {u : Token}
    (h : tokenize t = pre ++ u :: post) (hpost : post ≠ []) :
    ∃ front back, splitBytes? u.span.last t = some (front, back) ∧
      tokenize front = pre ++ [u] := by
  have hu : IsToken u.text := by
    refine (isToken_or_isOpen_of_mem (t := t) (by rw [h]; simp)).resolve_right fun ho => ?_
    exact hpost (closed_tokenize h ho.1)
  obtain ⟨front, back, hsplit, -, -, hfront, -⟩ := tokenize_split h hu
  exact ⟨front, back, hsplit, hfront⟩

end SparqlTree.Text
