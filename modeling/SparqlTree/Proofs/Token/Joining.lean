import SparqlTree.Proofs.Text.Written
import SparqlTree.Proofs.Token.Truncation

/-!
# Texts that are joined

A text whose strings and IRI references are all closed may be followed by a line break and another
text: its tokens stay what they are, and those of the other text come behind them, further on by
what stands in front (`tokenize_append_newline`). No other text may (`tokenize_lines_iff`).

The tokens of any text may be joined by spaces: read again, they are the tokens that they were, of
the same kinds (`tokenize_spaced_tokens`).
-/

namespace SparqlTree

/-! ## 1. Texts on lines of their own -/

namespace Token

theorem shift_shift (m n : Nat) (u : Token) : (u.shift n).shift m = u.shift (m + n) := by
  simp only [shift, Nat.add_assoc]

theorem shift_zero (u : Token) : u.shift 0 = u := by
  simp only [shift, Nat.zero_add]

theorem map_shift_shift (m n : Nat) (us : List Token) :
    (us.map (shift n)).map (shift m) = us.map (shift (m + n)) := by
  rw [List.map_map]
  exact List.map_congr_left fun u _ => shift_shift m n u

end Token

namespace Text

/-- A line break behind a piece does not make it longer. -/
theorem Piece.append_newline {us : List Token} {g s : Text} (h : Piece us g s) (t : Text) :
    Piece us g (s ++ '\n' :: t) := by
  cases s with
  | nil =>
    rw [List.nil_append]
    cases h with
    | blank hc => exact .blank hc
    | comment hline _ =>
      refine .comment hline fun c hc => ?_
      obtain rfl := Option.some.inj hc
      decide
    | token hw _ => exact .token hw fun _ => apart_cons rfl t
  | cons c s => exact h.of_head fun d hd => hd

theorem tokenize_newline (t : Text) : tokenize ('\n' :: t) =
    ⟨.newline, ['\n'], ⟨0, 1⟩⟩ :: (tokenize t).map (Token.shift 1) :=
  tokenize_piece <| .token .newline fun hall =>
    absurd hall (not_word_of_mem (c := '\n') (by simp) rfl)

/-- The tokens of a text are those in front of a line break, and those from there on. -/
theorem tokenize_append_newline {s : Text} (h : Closed s) (t : Text) :
    tokenize (s ++ '\n' :: t) =
      tokenize s ++ (tokenize ('\n' :: t)).map (Token.shift (byteLength s)) := by
  replace h : ∀ u ∈ tokenize s, IsToken u.text := fun u hu => h u.text (List.mem_map_of_mem hu)
  induction s using pieceCases with
  | nil =>
    rw [List.nil_append, List.nil_append, byteLength_nil]
    exact (List.map_id'' Token.shift_zero _).symm
  | piece us g s hp ih =>
    -- A piece stays one, whether or not the line break is directly behind it.
    have hs := ih fun u hu =>
      h (Token.shift (byteLength g) u) (List.mem_append_right _ (List.mem_map_of_mem hu))
    rw [List.append_assoc, tokenize_piece (hp.append_newline t), hs, List.map_append,
      Token.map_shift_shift, ← byteLength_append, List.append_assoc]
  | unclosed w hw =>
    -- The break would belong to a string or IRI reference that is still open.
    have hclosed := h _ List.mem_cons_self
    exact absurd (isOpen_trimEnd hw).1 (not_unclosed_of_isToken hclosed)

/-- True of texts none of whose tokens is left open. -/
theorem closed_iff {t : Text} : Closed t ↔ ∀ u ∈ tokenize t, ¬ Unclosed u.text := by
  constructor
  · intro h u hu
    exact not_unclosed_of_isToken (h _ (List.mem_map_of_mem hu))
  · intro h w hw
    obtain ⟨u, hu, rfl⟩ := List.mem_map.1 hw
    exact (isToken_or_isOpen_of_mem hu).resolve_right fun hopen => h u hu hopen.1

/-- The tokens of two texts on lines of their own are those of the first, the line break, and those
of the second further on, whatever the second text begins with; unless a string or IRI reference is
left open in the first, to which the line break then belongs. -/
theorem tokenize_lines_iff (s t : Text) : tokenize (s ++ '\n' :: t) =
      tokenize s ++ ⟨.newline, ['\n'], ⟨byteLength s, byteLength s + 1⟩⟩ ::
        (tokenize t).map (Token.shift (byteLength s + 1)) ↔
    ∀ u ∈ tokenize s, ¬ Unclosed u.text := by
  constructor
  · intro h u hu hopen
    -- An open token is the last one of a text, but the line break comes behind it.
    obtain ⟨before, after, hsplit⟩ := List.append_of_mem hu
    rw [hsplit, List.append_assoc, List.cons_append] at h
    exact List.append_ne_nil_of_right_ne_nil after (List.cons_ne_nil _ _) (closed_tokenize h hopen)
  · intro h
    rw [tokenize_append_newline (closed_iff.2 h), tokenize_newline, List.map_cons,
      Token.map_shift_shift]
    rfl

/-! ## 2. Tokens with spaces between them -/

/-- The texts of the tokens of a text tell the kinds of the tokens as well. -/
theorem map_kind_text_tokenize (t : Text) : (tokenize t).map (fun u => (u.kind, u.text)) =
    (tokens t).map fun w => (TokenKind.classify w, w) := by
  rw [tokens, List.map_map]
  refine List.map_congr_left fun u hu => ?_
  show (u.kind, u.text) = (TokenKind.classify u.text, u.text)
  rw [kind_tokenize hu]

/-- The tokens of a text, written with a space between neighbours, are read again as they were; a
string or IRI reference that was left open is the last of them, and stays open. -/
theorem tokenize_spaced_tokens (t : Text) :
    (tokenize (spaced ((tokenize t).map Token.text))).map (fun u => (u.kind, u.text)) =
      (tokenize t).map fun u => (u.kind, u.text) := by
  have hread : tokens (spaced (tokens t)) = tokens t := tokens_spaced (scanned_tokens t)
  show (tokenize (spaced (tokens t))).map (fun u => (u.kind, u.text)) = _
  rw [map_kind_text_tokenize, map_kind_text_tokenize, hread]

end Text

end SparqlTree
