import Mathlib.Data.List.Pairwise
import Mathlib.Data.List.Perm.Subperm
import SparqlTree.Proofs.Query.Failure

/-!
# The line of an error

An error reports a line beside its span. The line is counted in the line breaks consumed so far, and
it is that of the span only if this finds all line feeds before the span: those inside of strings
and IRI references are not consumed as line breaks, and those directly before a token that was only
looked at have not been consumed yet (`Query.line_of_parse`).
-/

namespace SparqlTree

namespace Text

/-! ## 1. Line feeds -/

/-- The byte positions of the line feeds of a text that begins at byte `start`. -/
def lineFeeds (start : Nat) : Text → List Nat
  | [] => []
  | c :: t =>
    if c = '\n' then start :: lineFeeds (start + c.utf8Size) t
    else lineFeeds (start + c.utf8Size) t

/-- The line in which byte `n` of a text is, counted from 1. -/
def lineAt (t : Text) (n : Nat) : Nat := 1 + (lineFeeds 0 t).countP (· < n)

theorem mem_lineFeeds {n start : Nat} {t : Text} : n ∈ lineFeeds start t ↔
    ∃ before after, t = before ++ '\n' :: after ∧ n = start + byteLength before := by
  induction t generalizing start with
  | nil => simp [lineFeeds]
  | cons c t ih =>
    have hcons : n ∈ lineFeeds start (c :: t) ↔
        (c = '\n' ∧ n = start) ∨ n ∈ lineFeeds (start + c.utf8Size) t := by
      rw [lineFeeds]
      split <;> simp_all
    rw [hcons, ih]
    constructor
    · rintro (⟨rfl, rfl⟩ | ⟨before, after, rfl, rfl⟩)
      · exact ⟨[], t, rfl, rfl⟩
      · exact ⟨c :: before, after, rfl, Nat.add_assoc _ _ _⟩
    · rintro ⟨before, after, ht, rfl⟩
      cases before with
      | nil =>
        obtain ⟨rfl, rfl⟩ := List.cons_eq_cons.1 ht
        exact .inl ⟨rfl, rfl⟩
      | cons d before =>
        obtain ⟨rfl, rfl⟩ := List.cons_eq_cons.1 ht
        exact .inr ⟨before, after, rfl, (Nat.add_assoc _ _ _).symm⟩

theorem nodup_lineFeeds (start : Nat) (t : Text) : (lineFeeds start t).Nodup := by
  induction t generalizing start with
  | nil => exact .nil
  | cons c t ih =>
    rw [lineFeeds]
    split
    · refine List.nodup_cons.2 ⟨fun hmem => ?_, ih _⟩
      obtain ⟨before, -, -, hstart⟩ := mem_lineFeeds.1 hmem
      have := c.utf8Size_pos
      omega
    · exact ih _

end Text

/-- Two lists without repetitions, one of which holds the other, are equally long if and only if
they have the same members. -/
theorem length_eq_iff_subset {α : Type} {xs ys : List α} (hxs : xs.Nodup) (hys : ys.Nodup)
    (h : xs ⊆ ys) : xs.length = ys.length ↔ ys ⊆ xs := by
  have hsub := List.subperm_of_subset hxs h
  constructor
  · intro hlen
    exact (hsub.perm_of_length_le (Nat.le_of_eq hlen.symm)).symm.subset
  · intro hback
    exact Nat.le_antisymm hsub.length_le (List.subperm_of_subset hys hback).length_le

/-! ## 2. Line breaks before an error -/

theorem Recut.before {text : Text} {xs ys : List Token} {u : Token}
    (h : Recut (tokenize text) (xs ++ u :: ys)) :
    (∀ t ∈ xs, t.span.last ≤ u.span.first) ∧ ∀ t ∈ ys, u.span.last ≤ t.span.first := by
  obtain ⟨-, hys, hbetween⟩ := List.pairwise_append.1 h.ordered
  exact ⟨fun t ht => hbetween t ht u List.mem_cons_self, (List.pairwise_cons.1 hys).1⟩

/-- Of two tokens of a text one lies before the other. -/
theorem Text.apart_of_mem_tokenize {text : Text} {t u : Token} (ht : t ∈ tokenize text)
    (hu : u ∈ tokenize text) (hne : t ≠ u) :
    t.span.last ≤ u.span.first ∨ u.span.last ≤ t.span.first := by
  have hpairs : (tokenize text).Pairwise fun t u =>
      t.span.last ≤ u.span.first ∨ u.span.last ≤ t.span.first :=
    (Text.ordered_tokenize text).imp .inl
  have hsymm : Std.Symm fun t u : Token =>
      t.span.last ≤ u.span.first ∨ u.span.last ≤ t.span.first := ⟨fun _ _ => Or.symm⟩
  exact hpairs.forall ht hu hne

namespace ParseError.Raised

variable {text : Text} {window : Nat} {e : ParseError} {us vs : List Token}

/-- What was consumed begins before the error, but for the token at which it may have been
raised. -/
theorem first_lt (h : e.Raised text window us vs) {t : Token} (ht : t ∈ us)
    (hb : t.isLineBreak = true ∨ e.expected.looksAhead = true) :
    t.span.first < e.span.first := by
  have hpoints := h.points
  have hrecut := h.recut
  obtain ⟨hlt, hle⟩ := hrecut.first_lt_last (List.mem_append_left _ ht)
  generalize e.expected.looksAhead = ahead at hpoints hb
  generalize e.found = found at hpoints
  generalize e.span = span at hpoints ⊢
  cases hpoints with
  | @last us' u hus hu =>
    rw [hus, List.append_assoc] at hrecut
    rw [hus, List.mem_append, List.mem_singleton] at ht
    rcases ht with ht | rfl
    · exact Nat.lt_of_lt_of_le hlt (hrecut.before.1 t ht)
    · rw [hu] at hb
      rcases hb with hb | hb
      · nomatch hb
      · nomatch hb
  | @next bs vs' u hvs hbs hu =>
    rw [hvs, ← List.append_assoc] at hrecut
    exact Nat.lt_of_lt_of_le hlt (hrecut.before.1 t (List.mem_append_left _ ht))
  | stop => exact Nat.lt_of_lt_of_le hlt hle

/-- Behind a line break that was consumed another token begins, unless the one that followed was
consumed too and refused. -/
theorem exists_between (h : e.Raised text window us vs) {t : Token} (ht : t ∈ us)
    (hb : t.isLineBreak = true) (hahead : e.expected.looksAhead = true) :
    ∃ v ∈ tokenize text, v.isLineBreak = false ∧ t.span.first < v.span.first ∧
      v.span.first < e.span.first := by
  obtain ⟨us', w, hus⟩ := List.eq_nil_or_concat us |>.resolve_left (List.ne_nil_of_mem ht)
  have hw : w.isLineBreak = false := h.settled hahead w (by rw [hus]; simp)
  have hwus : w ∈ us := by simp [hus]
  have hrecut := h.recut
  have htw : t.span.last ≤ w.span.first := by
    rw [hus, List.concat_eq_append, List.append_assoc] at hrecut
    rw [hus, List.concat_eq_append, List.mem_append, List.mem_singleton] at ht
    rcases ht with ht | rfl
    · exact hrecut.before.1 t ht
    · rw [hb] at hw
      nomatch hw
  obtain ⟨v, hv, hvb, hfirst, hlast⟩ :=
    hrecut.exists_token w (List.mem_append_left _ hwus) hw
  refine ⟨v, hv, hvb, ?_, Nat.lt_of_le_of_lt hfirst (h.first_lt hwus (.inr hahead))⟩
  -- The token `v` holds the piece `w` behind `t`, so it does not lie before `t`.
  have htokens : t ∈ tokenize text :=
    (hrecut.mem_iff_of_isLineBreak hb).1 (List.mem_append_left _ ht)
  have hne : t ≠ v := by
    rintro rfl
    rw [hb] at hvb
    nomatch hvb
  have ht' := (hrecut.first_lt_last (List.mem_append_left _ ht)).1
  have hw' := (hrecut.first_lt_last (List.mem_append_left _ hwus)).1
  rcases Text.apart_of_mem_tokenize htokens hv hne with hbefore | hbehind
  · omega
  · omega

/-- Where a token begins behind a line break that is still to be read, and before some place, a
piece that is still to be read begins before that place. -/
theorem exists_upcoming (h : e.Raised text window us vs) {t v : Token} (ht : t ∈ vs)
    (hv : v ∈ tokenize text) (hvb : v.isLineBreak = false) (htv : t.span.first < v.span.first) :
    ∃ w ∈ vs, w.isLineBreak = false ∧ w.span.first ≤ v.span.first := by
  have hrecut := h.recut
  obtain ⟨w, hw, hwb, hwv⟩ := hrecut.exists_piece v hv hvb
  have hw' := (hrecut.first_lt_last hw).1
  rcases List.mem_append.1 hw with hw | hw
  · have hwt := (List.pairwise_append.1 hrecut.ordered).2.2 w hw t ht
    omega
  · exact ⟨w, hw, hwb, by omega⟩

/-- The line breaks that were consumed are those before the error; but if it was raised at a token
that was only looked at, then another token has to begin between. -/
theorem mem_iff (h : e.Raised text window us vs) {t : Token} (hb : t.isLineBreak = true) :
    t ∈ us ↔ t ∈ tokenize text ∧ t.span.first < e.span.first ∧
      (e.expected.looksAhead = true → ∃ v ∈ tokenize text, v.isLineBreak = false ∧
        t.span.first < v.span.first ∧ v.span.first < e.span.first) := by
  have hrecut := h.recut
  constructor
  · intro ht
    exact ⟨(hrecut.mem_iff_of_isLineBreak hb).1 (List.mem_append_left _ ht),
      h.first_lt ht (.inl hb), h.exists_between ht hb⟩
  rintro ⟨ht, hlt, hbetween⟩
  rcases List.mem_append.1 ((hrecut.mem_iff_of_isLineBreak hb).2 ht) with ht | ht
  · exact ht
  exfalso
  have hpiece : (∃ v ∈ tokenize text, v.isLineBreak = false ∧ t.span.first < v.span.first ∧
      v.span.first < e.span.first) → ∃ w ∈ vs, w.isLineBreak = false ∧
      w.span.first < e.span.first := by
    rintro ⟨v, hv, hvb, htv, hve⟩
    obtain ⟨w, hw, hwb, hwv⟩ := h.exists_upcoming ht hv hvb htv
    exact ⟨w, hw, hwb, Nat.lt_of_le_of_lt hwv hve⟩
  -- Wherever the error points, `t` lies behind that place if it was not consumed.
  have hpoints := h.points
  generalize e.expected.looksAhead = ahead at hpoints hbetween
  generalize e.found = found at hpoints
  generalize e.span = span at hpoints hpiece hlt hbetween
  cases hpoints with
  | @last us' u hus hu =>
    rw [hus, List.append_assoc] at hrecut
    have hu' := (hrecut.first_lt_last (u := u) (by simp)).1
    have := hrecut.before.2 t ht
    omega
  | @next bs vs' u hvs hbs hu =>
    obtain ⟨w, hw, hwb, hwu⟩ := hpiece (hbetween rfl)
    rw [hvs, ← List.append_assoc] at hrecut
    rw [hvs, List.mem_append, List.mem_cons] at hw
    have hu' := (hrecut.first_lt_last (u := u) (by simp)).1
    rcases hw with hw | rfl | hw
    · rw [hbs w hw] at hwb
      nomatch hwb
    · omega
    · have := hrecut.before.2 w hw
      omega
  | stop hvs hahead =>
    cases ahead with
    | false =>
      rw [hahead rfl] at ht
      nomatch ht
    | true =>
      obtain ⟨w, hw, hwb, -⟩ := hpiece (hbetween rfl)
      rw [hvs w hw] at hwb
      nomatch hwb

/-! ## 3. Counting them -/

/-- A newline token stands at a line feed of the text. -/
theorem mem_lineFeeds_of_newline (h : e.Raised text window us vs) {t : Token} (ht : t ∈ us ++ vs)
    (hk : t.kind = .newline) : t.span.first ∈ Text.lineFeeds 0 text := by
  have hclassify := h.recut.kind_eq t ht
  have hnewline : t.text = ['\n'] := Text.classify_eq_newline.1 (hclassify.symm.trans hk)
  obtain ⟨-, before, after, hat⟩ := h.recut.placed t ht
  rw [hat.first, Text.mem_lineFeeds]
  refine ⟨before, after, ?_, (Nat.zero_add _).symm⟩
  rw [hat.text, hnewline, List.append_assoc]
  rfl

/-- The newlines that were consumed stand at places of their own. -/
theorem nodup_newlines (h : e.Raised text window us vs) :
    ((us.filter (·.kind == .newline)).map (·.span.first)).Nodup := by
  have hus : us.Pairwise fun u v => u.span.first < v.span.first := by
    refine (List.pairwise_append.1 h.recut.ordered).1.imp_of_mem fun hu _ huv => ?_
    exact Nat.lt_of_lt_of_le (h.recut.first_lt_last (List.mem_append_left _ hu)).1 huv
  exact List.pairwise_map.2 ((hus.filter _).imp Nat.ne_of_lt)

/-- The line of an error is that of its span or one before; it is that of its span if all line feeds
before the span were consumed as line breaks. -/
theorem line_eq_iff (h : e.Raised text window us vs) :
    e.line ≤ Text.lineAt text e.span.first ∧
      (e.line = Text.lineAt text e.span.first ↔
        ∀ n ∈ Text.lineFeeds 0 text, n < e.span.first →
          ∃ t ∈ us, t.kind = .newline ∧ t.span.first = n) := by
  let counted := (us.filter (·.kind == .newline)).map (·.span.first)
  let due := (Text.lineFeeds 0 text).filter (· < e.span.first)
  have hline : e.line = 1 + counted.length := by
    rw [h.line_eq, List.length_map, List.countP_eq_length_filter]
  have hdue : Text.lineAt text e.span.first = 1 + due.length := by
    rw [Text.lineAt, List.countP_eq_length_filter]
  have hmem : ∀ n, n ∈ counted ↔ ∃ t ∈ us, t.kind = .newline ∧ t.span.first = n := by
    intro n
    simp only [counted, List.mem_map, List.mem_filter, beq_iff_eq, and_assoc]
  -- The newlines that were consumed are line feeds before the span, so there are no more of them.
  have hsub : counted ⊆ due := by
    intro n hn
    obtain ⟨t, ht, hk, rfl⟩ := (hmem n).1 hn
    refine List.mem_filter.2 ⟨h.mem_lineFeeds_of_newline (List.mem_append_left _ ht) hk, ?_⟩
    exact decide_eq_true (h.first_lt ht (.inl (Token.isLineBreak_of_newline hk)))
  have hcounted : counted.Nodup := h.nodup_newlines
  have hnodup : due.Nodup := (Text.nodup_lineFeeds 0 text).filter _
  have hle := (List.subperm_of_subset hcounted hsub).length_le
  have hiff := length_eq_iff_subset hcounted hnodup hsub
  refine ⟨by omega, ?_⟩
  rw [hline, hdue, Nat.add_left_cancel_iff, hiff]
  constructor
  · intro hback n hn hlt
    exact (hmem n).1 (hback (List.mem_filter.2 ⟨hn, decide_eq_true hlt⟩))
  · intro hall n hn
    obtain ⟨hn, hlt⟩ := List.mem_filter.1 hn
    exact (hmem n).2 (hall n hn (of_decide_eq_true hlt))

end ParseError.Raised

namespace Query

/-- The line of an error is that of its span exactly if every line feed before the span is a token,
and, for an error at a token that was only looked at, if another token begins between. -/
theorem line_of_parse {cfg : Config} {text : Text} {e : ParseError}
    (h : parse cfg text = .error e) :
    e.line ≤ Text.lineAt text e.span.first ∧
      (e.line = Text.lineAt text e.span.first ↔
        ∀ before after, text = before ++ '\n' :: after → Text.byteLength before < e.span.first →
          ∃ t ∈ tokenize text, t.kind = .newline ∧ t.span.first = Text.byteLength before ∧
            (e.expected.looksAhead = true → ∃ v ∈ tokenize text, v.isLineBreak = false ∧
              t.span.first < v.span.first ∧ v.span.first < e.span.first)) := by
  have hraised := failsAt_parse cfg text e h
  obtain ⟨hle, hiff⟩ := hraised.line_eq_iff
  refine ⟨hle, hiff.trans ⟨fun hall before after htext hlt => ?_, fun hall n hn hlt => ?_⟩⟩
  · obtain ⟨t, ht, hk, hfirst⟩ := hall _ (Text.mem_lineFeeds.2 ⟨before, after, htext, rfl⟩)
      (by rwa [Nat.zero_add])
    obtain ⟨htext, -, hbetween⟩ :=
      (hraised.mem_iff (Token.isLineBreak_of_newline hk)).1 ht
    exact ⟨t, htext, hk, hfirst.trans (Nat.zero_add _), hbetween⟩
  · obtain ⟨before, after, htext, rfl⟩ := Text.mem_lineFeeds.1 hn
    rw [Nat.zero_add] at hlt ⊢
    obtain ⟨t, ht, hk, hfirst, hbetween⟩ := hall before after htext hlt
    refine ⟨t, ?_, hk, hfirst⟩
    exact (hraised.mem_iff (Token.isLineBreak_of_newline hk)).2
      ⟨ht, hfirst ▸ hlt, hbetween⟩

theorem line_of_parse_where :
    let text := "SELECT ?s\nWHERE ?s".toList
    ∃ e, parse {} text = .error e ∧ e.line = 2 ∧
      ∃ t ∈ tokenize text, t.kind = .newline ∧ t.span.first = 9 := by
  intro text
  have h : parse {} text =
      .error ⟨2, .openBrace, "?s".toList, "SELECT ?s WHERE ?s".toList, ⟨16, 18⟩, none⟩ := by
    decide +kernel
  obtain ⟨t, ht, hk, hfirst, -⟩ := (line_of_parse h).2.1 (by decide +kernel) "SELECT ?s".toList
    "WHERE ?s".toList rfl (by decide +kernel)
  exact ⟨_, h, rfl, t, ht, hk, hfirst⟩

/-- A line feed before a token that is only looked at, and one inside of a string, do not count. -/
theorem not_line_eq_lineAt :
    (∃ e, parse {} "\nMATCH".toList = .error e ∧
      e.line = 1 ∧ Text.lineAt "\nMATCH".toList e.span.first = 2) ∧
    ∃ e, parse {} "ASK \x7b \"\n\" GRAPH x \x7d".toList = .error e ∧
      e.line = 1 ∧ Text.lineAt "ASK \x7b \"\n\" GRAPH x \x7d".toList e.span.first = 2 := by
  have hahead : parse {} "\nMATCH".toList =
      .error ⟨1, .queryKeyword, "MATCH".toList, [], ⟨1, 6⟩, none⟩ := by decide +kernel
  have hstring : parse {} "ASK \x7b \"\n\" GRAPH x \x7d".toList =
      .error ⟨1, .iri, ['x'], "ASK \x7b \"\n\" GRAPH x".toList, ⟨16, 17⟩,
        some ParseError.fullIriHelp⟩ := by
    decide +kernel
  exact ⟨⟨_, hahead, rfl, by decide +kernel⟩, _, hstring, rfl, by decide +kernel⟩

end Query

end SparqlTree
