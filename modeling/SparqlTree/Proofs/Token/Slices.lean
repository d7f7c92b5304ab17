import SparqlTree.Proofs.Token.Cover

/-!
# Slices of a text

The tokens of a text are slices of it: each is what the text holds at its span, and they stand in
the text one behind the other (`slices_tokenize`). A token may be cut in two, wherever the cut lies:
the pieces stand where the token stood, and all tokens still are slices of the text (`Slices.cut`).
-/

namespace SparqlTree

/-- The tokens are slices of the text, and hold together what is in the tokens of the text. -/
structure Slices (text : Text) (us : List Token) : Prop where
  /-- Each token stands at its span. -/
  placed : ∀ u ∈ us, ∃ before after, u.At text before after
  /-- No span is empty. -/
  nonempty : ∀ u ∈ us, u.span.first < u.span.last
  /-- Each span ends before the ones behind it begin. -/
  ordered : us.Pairwise fun u v => u.span.last ≤ v.span.first
  /-- The kind of each token is that of its text. -/
  kind_eq : ∀ u ∈ us, u.kind = TokenKind.classify u.text
  /-- No character of a token is lost, and none is added. -/
  texts_eq : us.flatMap Token.text = (tokenize text).flatMap Token.text

variable {text head tail : Text} {t u : Token} {us vs : List Token}

/-! ## 1. One token -/

namespace Token

/-- A span is empty only where the text at it is. -/
theorem At.nonempty_iff {before after : Text} (h : u.At text before after) :
    u.span.first < u.span.last ↔ u.text ≠ [] := by
  rw [h.first, h.last]
  constructor
  · intro hlt hnil
    rw [hnil, Text.byteLength_nil] at hlt
    omega
  · intro hne
    have := Text.byteLength_pos hne
    omega

/-- The pieces of a token stand where it stood, one behind the other. -/
theorem cut_at {before after : Text} (htext : t.text = head ++ tail)
    (h : t.At text before after) : (t.cut head tail).1.At text before (tail ++ after) ∧
      (t.cut head tail).2.At text (before ++ head) after := by
  have hlast := h.last
  rw [htext, Text.byteLength_append, ← Nat.add_assoc] at hlast
  have hmid : min (t.span.first + Text.byteLength head) t.span.last =
      Text.byteLength before + Text.byteLength head := by
    rw [h.first, hlast, Nat.min_eq_left (Nat.le_add_right _ _)]
  have ht := h.text
  rw [htext] at ht
  refine ⟨⟨?_, h.first, hmid⟩, ⟨?_, ?_, ?_⟩⟩
  · rw [ht]
    simp [Token.cut]
  · rw [ht]
    simp [Token.cut]
  · rw [Text.byteLength_append]
    exact hmid
  · rw [Text.byteLength_append]
    exact hlast

/-- Where the pieces of a token end and begin. -/
theorem cut_spans (h : t.span.first ≤ t.span.last) (head tail : Text) :
    (t.cut head tail).1.span.first = t.span.first ∧
      t.span.first ≤ (t.cut head tail).1.span.last ∧
      (t.cut head tail).2.span.first = (t.cut head tail).1.span.last ∧
      (t.cut head tail).2.span.first ≤ t.span.last ∧
      (t.cut head tail).2.span.last = t.span.last :=
  ⟨rfl, Nat.le_min.2 ⟨Nat.le_add_right _ _, h⟩, rfl, Nat.min_le_right _ _, rfl⟩

/-- A token is cut behind so many bytes if a character ends there, and others follow. -/
theorem splitAt?_eq_some {n : Nat} {front back : Token} : t.splitAt? n = some (front, back) ↔
    ∃ head tail, t.text = head ++ tail ∧ Text.byteLength head = n ∧ head ≠ [] ∧ tail ≠ [] ∧
      t.cut head tail = (front, back) := by
  constructor
  · intro h
    rw [splitAt?] at h
    split at h
    · next head tail hsplit =>
      obtain ⟨htext, hlen⟩ := Text.splitBytes?_eq_some hsplit
      split at h
      · nomatch h
      · next hne =>
        obtain ⟨hhead, htail⟩ := not_or.1 hne
        exact ⟨head, tail, htext, hlen, hhead, htail, Option.some.inj h⟩
    · nomatch h
  · rintro ⟨head, tail, htext, rfl, hhead, htail, hcut⟩
    rw [splitAt?, htext, Text.splitBytes?_append]
    show (if head = [] ∨ tail = [] then none else some (t.cut head tail)) = _
    rw [if_neg (not_or.2 ⟨hhead, htail⟩), hcut]

end Token

/-! ## 2. Tokens with one of them cut -/

theorem forall_mem_cut {P : Token → Prop} (h : ∀ u ∈ us ++ t :: vs, P u) {front back : Token}
    (hfront : P front) (hback : P back) : ∀ u ∈ us ++ front :: back :: vs, P u := by
  obtain ⟨hus, htvs⟩ := List.forall_mem_append.1 h
  have hvs := (List.forall_mem_cons.1 htvs).2
  rw [List.forall_mem_append, List.forall_mem_cons, List.forall_mem_cons]
  exact ⟨hus, hfront, hback, hvs⟩

theorem ordered_cut (h : (us ++ t :: vs).Pairwise fun u v => u.span.last ≤ v.span.first)
    (hle : t.span.first ≤ t.span.last) (head tail : Text) :
    (us ++ (t.cut head tail).1 :: (t.cut head tail).2 :: vs).Pairwise
      fun u v => u.span.last ≤ v.span.first := by
  obtain ⟨hus, htvs, hbetween⟩ := List.pairwise_append.1 h
  obtain ⟨ht, hvs⟩ := List.pairwise_cons.1 htvs
  obtain ⟨h₁, h₂, h₃, h₄, h₅⟩ := Token.cut_spans hle head tail
  have hbefore : ∀ u ∈ us, u.span.last ≤ t.span.first := fun u hu =>
    hbetween u hu t List.mem_cons_self
  refine List.pairwise_append.2 ⟨hus, ?_, ?_⟩
  · refine List.pairwise_cons.2 ⟨fun v hv => ?_, List.pairwise_cons.2 ⟨fun v hv => ?_, hvs⟩⟩
    · rcases List.mem_cons.1 hv with rfl | hv
      · exact Nat.le_of_eq h₃.symm
      · have := ht v hv
        omega
    · have := ht v hv
      omega
  · intro u hu v hv
    have hu' := hbefore u hu
    rcases List.mem_cons.1 hv with rfl | hv
    · omega
    · rcases List.mem_cons.1 hv with rfl | hv
      · omega
      · exact hbetween u hu v (List.mem_cons_of_mem _ hv)

theorem slices_tokenize (text : Text) : Slices text (tokenize text) where
  placed := by
    intro u hu
    obtain ⟨before, after, hat, -⟩ := Text.placed_tokenize text u hu
    exact ⟨before, after, hat⟩
  nonempty := by
    intro u hu
    obtain ⟨before, after, hat, -⟩ := Text.placed_tokenize text u hu
    exact hat.nonempty_iff.2 (Text.ne_nil_of_mem hu)
  ordered := Text.ordered_tokenize text
  kind_eq := fun _ hu => Text.kind_tokenize hu
  texts_eq := rfl

namespace Slices

theorem ne_nil (h : Slices text us) (hu : u ∈ us) : u.text ≠ [] := by
  obtain ⟨before, after, hat⟩ := h.placed u hu
  exact hat.nonempty_iff.1 (h.nonempty u hu)

/-- Every token ends where the text ends, or before. -/
theorem last_le (h : Slices text us) (hu : u ∈ us) : u.span.last ≤ Text.byteLength text := by
  obtain ⟨before, after, hat⟩ := h.placed u hu
  have htext := congrArg Text.byteLength hat.text
  rw [Text.byteLength_append, Text.byteLength_append] at htext
  rw [hat.last]
  omega

/-- A token that can be cut has more than one character, and so is no line feed. -/
theorem kind_ne_newline (h : Slices text us) (hu : u ∈ us) (htext : u.text = head ++ tail)
    (hhead : head ≠ []) (htail : tail ≠ []) : u.kind ≠ .newline := by
  intro hk
  rw [h.kind_eq u hu, htext] at hk
  have hlen := congrArg List.length (Text.classify_eq_newline.1 hk)
  have hheadlen := List.length_pos_iff.2 hhead
  have htaillen := List.length_pos_iff.2 htail
  rw [List.length_append, List.length_singleton] at hlen
  omega

/-- The tokens are slices of the text, also when one of them has been cut in two. -/
theorem cut (h : Slices text (us ++ t :: vs)) (htext : t.text = head ++ tail) (hhead : head ≠ [])
    (htail : tail ≠ []) :
    Slices text (us ++ (t.cut head tail).1 :: (t.cut head tail).2 :: vs) := by
  have ht : t ∈ us ++ t :: vs := List.mem_append_right us List.mem_cons_self
  obtain ⟨before, after, hat⟩ := h.placed t ht
  obtain ⟨hfront, hback⟩ := Token.cut_at htext hat
  constructor
  case placed => exact forall_mem_cut h.placed ⟨_, _, hfront⟩ ⟨_, _, hback⟩
  case nonempty =>
    exact forall_mem_cut h.nonempty (hfront.nonempty_iff.2 hhead) (hback.nonempty_iff.2 htail)
  case ordered => exact ordered_cut h.ordered (Nat.le_of_lt (h.nonempty t ht)) head tail
  case kind_eq => exact forall_mem_cut h.kind_eq rfl rfl
  case texts_eq =>
    rw [← h.texts_eq, List.flatMap_append, List.flatMap_append]
    apply congrArg (us.flatMap Token.text ++ ·)
    rw [List.flatMap_cons, List.flatMap_cons, List.flatMap_cons, htext, List.append_assoc]
    rfl

end Slices

end SparqlTree
