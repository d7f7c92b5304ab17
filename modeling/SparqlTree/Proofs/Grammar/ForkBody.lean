import Mathlib.Data.List.TakeWhile
import SparqlTree.Proofs.Grammar.Fork

/-!
# Heads and bodies in texts that begin alike

There is one lemma for each reading function. What a function has to consume was consumed past the
beginning if the reading has gone past it (`Fork.Taken`); what it may do without need not have been
(`Fork.Same`).
-/

namespace SparqlTree

/-- Reads on behind what is projected. -/
def Projection.readBehind (inBlock : Bool) (quantifier : Option SetQuantifier) (tokens : List Token)
    (c : Cursor) : Except ParseError (Projection × Cursor) := do
  if tokens.isEmpty then throw (c.errorFound .projection)
  let (dataset, c) ← readDataset? c
  let c ← readWhere dataset.isSome c
  pure ({ quantifier
          projected := Text.spaced (tokens.map Token.text)
          graph := dataset.map Prod.fst
          fromNamed := dataset.any Prod.snd
          inBlock }, c)

theorem Projection.read_eq_bind (inBlock : Bool) (c : Cursor) : read inBlock c =
    pure (readQuantifier? c) >>= fun q => pure (q.2.takeRun isProjected) >>= fun r =>
      readBehind inBlock q.1 r.1 r.2 := rfl

namespace Fork

variable {K : Fork} {i : Stage} {c d : Cursor} {t : Token}

/-! ## 1. Solution modifiers -/

theorem Facing.read? (h : K.Facing i c d) :
    K.Follows (K.Stepped i) i (Modifier.read? c) (Modifier.read? d) := by
  rw [Modifier.read?, Modifier.read?, h.peek_eq]
  cases hp : d.peek with
  | none => exact .ok .declined
  | some t =>
    have hpass := (h.pass hp).level
    dsimp only
    split
    · exact (hpass.expect _).bind fun _ _ _ hr =>
        .ok (.taken (hr.same.pair fun v => Text.spaced [t.text, v.text]))
    split
    · refine (hpass.require _ _).bind ?_
      rintro j ⟨v, c₁⟩ ⟨_, d₁⟩ ⟨rfl, h₁⟩
      exact (h₁.level.require _ _).bind fun _ _ _ hr =>
        .ok (.taken (hr.same.pair fun w => Text.spaced [t.text, v.text, w.text]))
    split
    · refine (hpass.require _ _).bind ?_
      rintro j ⟨v, c₁⟩ ⟨_, d₁⟩ ⟨rfl, h₁⟩
      exact (h₁.level.expect _).bind fun _ _ _ hr =>
        .ok (.taken (hr.same.pair fun w => Text.spaced [t.text, v.text, w.text]))
    · exact .ok .declined

theorem Level.readAll (h : K.Level i c d) :
    K.Follows K.Same i (Modifier.readAll c) (Modifier.readAll d) := by
  refine h.repeatStep (fun ms i c d h => ?_) []
  refine h.read?.bind ?_
  rintro j _ _ (_ | hr)
  · exact .ok .declined
  · exact .ok (.taken (hr.pair fun m => ms ++ [m]))

namespace Level

variable (h : K.Level i c d)

include h

/-! ## 2. Heads -/

theorem readOpenBrace :
    K.Follows K.Moved i (SparqlTree.readOpenBrace c) (SparqlTree.readOpenBrace d) :=
  h.requireKind .openBrace .openBrace

theorem readDataset? :
    K.Follows K.Same i (SparqlTree.readDataset? c) (SparqlTree.readDataset? d) := by
  refine h.follows SparqlTree.readDataset? fun i c d h => ?_
  rw [SparqlTree.readDataset?, SparqlTree.readDataset?]
  rcases h.eat? .fromClause with ⟨hc, hd⟩ | ⟨c₁, d₁, hc, hd, h₁⟩
  · rw [hc, hd]
    exact .ok ⟨rfl, h.level⟩
  · rw [hc, hd]
    -- NAMED changes the value that is read, so what comes behind FROM has to be the same.
    refine h₁.level.follows (fun c => (c.skip .named).requireIri >>= fun r =>
      pure (some (r.1, c.atKeyword .named), r.2)) fun i c d h => ?_
    rw [h.atKeyword]
    exact (h.skip .named).requireIri.bind fun _ _ _ hr =>
      .ok (hr.same.pair fun iri => some (iri, d.atKeyword .named))

theorem readQuantifier? : K.Follows K.Same i (pure (Projection.readQuantifier? c))
    (pure (Projection.readQuantifier? d)) := by
  refine h.follows (fun c => pure (Projection.readQuantifier? c)) fun i c d h => ?_
  rw [Projection.readQuantifier?, Projection.readQuantifier?]
  rcases h.eat? .distinct with ⟨hc, hd⟩ | ⟨c₁, d₁, hc, hd, h₁⟩
  · rw [hc, hd]
    rcases h.eat? .reduced with ⟨hc, hd⟩ | ⟨c₁, d₁, hc, hd, h₁⟩
    · rw [hc, hd]
      exact .ok ⟨rfl, h.level⟩
    · rw [hc, hd]
      exact .ok ⟨rfl, h₁.level⟩
  · rw [hc, hd]
    exact .ok ⟨rfl, h₁.level⟩

theorem readWhere (hasGraph : Bool) :
    K.Follows K.Moved i (Projection.readWhere hasGraph c) (Projection.readWhere hasGraph d) := by
  refine h.follows (Projection.readWhere hasGraph) fun i c d h => ?_
  rw [Projection.readWhere, Projection.readWhere]
  rcases h.eatGlued? .whereClause with ⟨hc, hd⟩ | ⟨c₁, d₁, hc, hd, h₁⟩
  · rw [hc, hd]
    dsimp only
    rw [h.atKind]
    split
    · exact h.level.readOpenBrace
    · exact .error (h.errorFound _)
  · rw [hc, hd]
    exact h₁.level.readOpenBrace

theorem readProjection (inBlock : Bool) :
    K.Follows K.Taken i (Projection.read inBlock c) (Projection.read inBlock d) := by
  rw [Projection.read_eq_bind, Projection.read_eq_bind]
  refine h.readQuantifier?.bind ?_
  rintro i ⟨quantifier, c₁⟩ ⟨_, d₁⟩ ⟨rfl, h₁⟩
  refine (h₁.takeRun Projection.isProjected).bind ?_
  rintro i ⟨tokens, c₂⟩ ⟨_, d₂⟩ ⟨rfl, h₂⟩
  rw [Projection.readBehind, Projection.readBehind]
  dsimp only
  split
  · exact h₂.throwFound .projection
  · refine h₂.readDataset?.bind ?_
    rintro i ⟨dataset, c₃⟩ ⟨_, d₃⟩ ⟨rfl, h₃⟩
    exact (h₃.readWhere dataset.isSome).bind fun _ _ _ h₄ => .ok ⟨rfl, h₄⟩

theorem readOptionalWhere :
    K.Follows K.Moved i (Head.readOptionalWhere c) (Head.readOptionalWhere d) :=
  h.follows Head.readOptionalWhere fun _ _ _ h => (h.skipGlued .whereClause).readOpenBrace

theorem readGroup : K.Follows K.Taken i (Head.readGroup c) (Head.readGroup d) := by
  refine h.follows Head.readGroup fun i c d h => ?_
  rw [Head.readGroup, Head.readGroup]
  rcases h.eatGlued? .optional with ⟨hc, hd⟩ | ⟨c₁, d₁, hc, hd, h₁⟩
  · rw [hc, hd]
    dsimp only
    rcases h.eatGlued? .graph with ⟨hc, hd⟩ | ⟨c₁, d₁, hc, hd, h₁⟩
    · rw [hc, hd]
      exact h.level.readOpenBrace.bind fun _ _ _ h => .ok ⟨rfl, h⟩
    · rw [hc, hd]
      refine h₁.level.requireIri.bind ?_
      rintro j ⟨iri, c₂⟩ ⟨_, d₂⟩ ⟨rfl, h₂⟩
      exact h₂.level.readOpenBrace.bind fun _ _ _ h => .ok ⟨rfl, h⟩
  · rw [hc, hd]
    exact h₁.level.readOpenBrace.bind fun _ _ _ h => .ok ⟨rfl, h⟩

end Level

/-! ## 3. Sub-selects

Whether a brace begins a sub-select is decided by the token behind it. -/

theorem follows_readNested (hat : Head.atSubSelect c = Head.atSubSelect d)
    (hselect : Head.atSubSelect d = true → K.Level i c.pass.pass d.pass.pass)
    (hgroup : Head.atSubSelect d = false →
      K.Follows K.Same i (Head.readGroup c) (Head.readGroup d)) :
    K.Follows K.Same i (Head.readNested c) (Head.readNested d) := by
  rw [Head.readNested, Head.readNested, hat]
  cases hsub : Head.atSubSelect d with
  | true =>
    exact ((hselect hsub).readProjection true).bind fun _ _ _ hr =>
      .ok (hr.same.pair Head.select)
  | false => exact hgroup hsub

/-- A brace behind which the beginning ends leads past it, whatever it turns out to begin. -/
theorem follows_readNested_of_pass {E : Ending} (hbrace : c.Next ['\x7b']) (h : E.Past c.pass) :
    K.Follows K.Same (.past E) (Head.readNested c) (Head.readNested c) := by
  refine follows_readNested rfl (fun _ => ⟨rfl, (h.advance _).advance 1⟩) fun hsub => ?_
  have hfeeds : Head.readNested c = .ok (.group none false, c.pass) := by
    refine (Head.readNested_feeds .group ⟨hbrace, rfl⟩ fun _ u hu => ?_).2
    obtain ⟨t, hp, -, hk⟩ := hbrace
    rw [← Bool.not_eq_true] at hsub ⊢
    refine fun hs => hsub (Head.atSubSelect_eq_true.2 ⟨t, u, hp, ?_, hu, hs⟩)
    rw [hk, Text.classify_eq_openBrace]
  rw [← Head.readNested_of_not_select hsub, hfeeds]
  exact .ok ⟨rfl, rfl, h⟩

/-- Whether a block is a sub-select is seen within the beginning if what follows its brace is. -/
theorem atSubSelect_extend {base : Cursor} {t : Token} (hp : base.peek = some t)
    (hnext : t.kind = .openBrace → ∃ u, base.pass.peek = some u) (E : Ending) :
    Head.atSubSelect (E.extend base) = Head.atSubSelect base := by
  rw [Head.atSubSelect, Head.atSubSelect, Cursor.atKind, Cursor.atKind, hp, Ending.peek_extend hp,
    Head.peekNth_one, Head.peekNth_one]
  by_cases hk : t.kind = .openBrace
  · obtain ⟨u, hp₁⟩ := hnext hk
    rw [Ending.pass_extend hp, Ending.peek_extend hp₁, hp₁]
  · rw [Option.any_some, beq_eq_false_iff_ne.2 hk, Bool.false_and, Bool.false_and]

theorem Facing.readNested (h : K.Facing i c d) :
    K.Follows K.Same i (Head.readNested c) (Head.readNested d) := by
  have hgroup : K.Follows K.Same i (Head.readGroup c) (Head.readGroup d) := h.level.readGroup.same
  cases i with
  | past E =>
    obtain ⟨rfl, h⟩ := h
    exact follows_readNested rfl (fun _ => ⟨rfl, (((h.advance _).advance 1).advance _).advance 1⟩)
      fun _ => hgroup
  | within =>
    obtain ⟨base, t, ⟨rfl, rfl, hlexed⟩, hp⟩ := h
    by_cases hends : t.kind = .openBrace ∧ base.pass.peek = none
    · -- Each text has its own token behind the brace.
      obtain ⟨hk, hp₁⟩ := hends
      have hkind := (hlexed.of_peek hp).2
      have hbrace : t.text = ['\x7b'] := by rwa [hkind, Text.classify_eq_openBrace] at hk
      have hpast : ∀ E : Ending, (E.extend base).Next ['\x7b'] ∧ E.Past (E.extend base).pass :=
        fun E => ⟨⟨t, Ending.peek_extend hp, hbrace, hbrace ▸ hkind⟩,
          Ending.pass_extend hp ▸ Ending.past_extend hp₁⟩
      exact .parted (follows_readNested_of_pass (hpast K.left).1 (hpast K.left).2)
        (follows_readNested_of_pass (hpast K.right).1 (hpast K.right).2)
    · -- The token behind a brace is the same in both texts.
      have hnext : t.kind = .openBrace → ∃ u, base.pass.peek = some u :=
        fun hk => Option.ne_none_iff_exists'.1 fun hp₁ => hends ⟨hk, hp₁⟩
      have hat := atSubSelect_extend hp hnext
      refine follows_readNested ((hat K.left).trans (hat K.right).symm) (fun hsub => ?_)
        fun _ => hgroup
      obtain ⟨t', u, -, -, hp₁, -⟩ := Head.atSubSelect_eq_true.1 (hat K.right ▸ hsub)
      have hpass : ∀ E : Ending, (E.extend base).pass.pass = E.extend base.pass.pass := fun E => by
        rw [Ending.pass_extend hp, Ending.pass_extend hp₁]
      exact ⟨base.pass.pass, hpass K.left, hpass K.right, hlexed.pass.pass⟩

theorem Level.readNested (h : K.Level i c d) :
    K.Follows K.Same i (Head.readNested c) (Head.readNested d) :=
  h.follows Head.readNested fun _ _ _ h => h.readNested

/-! ## 4. Templates -/

/-- A template is closed past the beginning if no brace of the beginning closes it. -/
theorem follows_readInside_of_late {E : Ending} (hstop : c.stop = E.stop)
    (hlate : ∀ t ∈ c.upcoming.dropWhile (·.kind != .closeBrace), t.isLineBreak = false → E.late t) :
    K.Follows K.Taken (.past E) (Head.readInside c) (Head.readInside c) := by
  rw [Head.readInside]
  have hup := List.takeWhile_append_dropWhile (p := (·.kind != .closeBrace)) (l := c.upcoming)
  have hhead := List.head?_dropWhile_not (·.kind != .closeBrace) c.upcoming
  generalize c.upcoming.takeWhile (·.kind != .closeBrace) = inside at hup ⊢
  dsimp only
  cases hd : c.upcoming.dropWhile (·.kind != .closeBrace) with
  | nil =>
    rw [← hup, hd, List.append_nil, if_neg (Nat.lt_irrefl _)]
    exact .error ⟨rfl, fun E' hE => Stage.past.inj hE ▸ .inl ⟨rfl, by rw [← hstop]; rfl⟩⟩
  | cons b after =>
    rw [hd] at hup hhead hlate
    have hb : b.kind = .closeBrace := by simpa using hhead
    have hbreak : b.isLineBreak = false := by
      rw [Token.isLineBreak, hb]
      rfl
    have hconsumed : (c.advance (inside.length + 1)).consumed.head? = some b := by
      rw [Cursor.advance, ← hup, List.take_length_add_append]
      simp
    have hupcoming : (c.advance (inside.length + 1)).upcoming = after := by
      rw [Cursor.advance, ← hup, List.drop_length_add_append]
      rfl
    have hlt : inside.length < c.upcoming.length := by
      rw [← hup, List.length_append, List.length_cons]
      omega
    rw [if_pos hlt]
    refine .ok ⟨rfl, ⟨rfl, hstop, fun t ht hbreak => hlate t ?_ hbreak⟩, ?_⟩
    · exact List.mem_cons_of_mem b (hupcoming ▸ ht)
    · intro E' hE
      obtain rfl := Stage.past.inj hE
      exact ⟨b, hconsumed, hlate b (List.mem_cons_self ..) hbreak⟩

/-- A template that is closed within the beginning is read there as in any longer text. -/
theorem readInside_extend {base : Cursor} (E : Ending)
    (hlt : (base.upcoming.takeWhile (·.kind != .closeBrace)).length < base.upcoming.length) :
    Head.readInside (E.extend base) =
      (Head.readInside base).map fun r => (r.1, E.extend r.2) := by
  have hinside : (E.extend base).upcoming.takeWhile (·.kind != .closeBrace) =
      base.upcoming.takeWhile (·.kind != .closeBrace) := by
    rw [Ending.extend, List.takeWhile_append, if_neg (Nat.ne_of_lt hlt)]
  have hlt' : (base.upcoming.takeWhile (·.kind != .closeBrace)).length <
      (E.extend base).upcoming.length := by
    rw [Ending.extend, List.length_append]
    exact Nat.lt_add_right _ hlt
  rw [Head.readInside, Head.readInside]
  dsimp only
  rw [hinside, if_pos hlt, if_pos hlt', Ending.advance_extend hlt]
  rfl

namespace Level

variable (h : K.Level i c d)

include h

theorem readInside : K.Follows K.Taken i (Head.readInside c) (Head.readInside d) := by
  cases i with
  | past E =>
    obtain ⟨rfl, h⟩ := h
    exact follows_readInside_of_late h.stop fun t ht =>
      h.late t ((List.dropWhile_suffix _).subset ht)
  | within =>
    obtain ⟨base, rfl, rfl, hlexed⟩ := h
    by_cases hlt : (base.upcoming.takeWhile (·.kind != .closeBrace)).length < base.upcoming.length
    · -- The same brace closes the template in both texts.
      rw [readInside_extend K.left hlt, readInside_extend K.right hlt, Head.readInside]
      dsimp only
      rw [if_pos hlt]
      exact .ok ⟨rfl, Level.moved ⟨_, rfl, rfl, hlexed.advance _⟩⟩
    · -- No brace of the beginning closes it, so each text has its own.
      have hall : ∀ t ∈ base.upcoming, (t.kind != .closeBrace) = true := by
        refine List.takeWhile_eq_self_iff.1 ((List.takeWhile_prefix _).eq_of_length ?_)
        exact Nat.le_antisymm (List.takeWhile_prefix _).length_le (Nat.not_lt.1 hlt)
      have hlate : ∀ E : Ending, ∀ t ∈ (E.extend base).upcoming.dropWhile (·.kind != .closeBrace),
          t.isLineBreak = false → E.late t := by
        intro E t ht _
        rw [Ending.extend, List.dropWhile_append_of_pos hall] at ht
        exact E.late_of_mem t ((List.dropWhile_suffix _).subset ht)
      exact .parted (follows_readInside_of_late rfl (hlate K.left))
        (follows_readInside_of_late rfl (hlate K.right))

theorem readConstruct :
    K.Follows K.Taken i (Head.readConstruct c) (Head.readConstruct d) := by
  rw [Head.readConstruct, Head.readConstruct, Head.readTemplate_eq, Head.readTemplate_eq]
  refine (h.readOpenBrace.bind fun _ _ _ h => h.level.readInside).bind ?_
  rintro i ⟨template, c₁⟩ ⟨_, d₁⟩ ⟨rfl, h₁⟩
  exact h₁.level.readOptionalWhere.bind fun _ _ _ h₂ => .ok ⟨rfl, h₂⟩

/-! ## 5. What closes a block -/

theorem closeProjection (p : Projection) :
    K.Follows K.Same i (Head.closeProjection p c) (Head.closeProjection p d) := by
  rw [Head.closeProjection, Head.closeProjection]
  refine h.readAll.bind ?_
  rintro i ⟨modifiers, c₁⟩ ⟨_, d₁⟩ ⟨rfl, h₁⟩
  dsimp only
  split
  · exact (h₁.requireKind _ _).bind fun _ _ _ h₂ => .ok ⟨rfl, h₂.level⟩
  · exact .ok ⟨rfl, h₁⟩

theorem close (head : Head) : K.Follows K.Same i (head.close c) (head.close d) := by
  cases head with
  | select p => exact (h.closeProjection p).bind fun _ _ _ hr => .ok (hr.pair Head.select)
  | describe p => exact (h.closeProjection p).bind fun _ _ _ hr => .ok (hr.pair Head.describe)
  | construct template ms =>
    exact h.readAll.bind fun _ _ _ hr => .ok (hr.pair (Head.construct template))
  | group | pattern | ask => exact .ok ⟨rfl, h⟩

/-! ## 6. Bodies -/

theorem readItems (cfg : Config) (style : BodyStyle) (depth : Nat) :
    K.Follows K.Taken i (readItems cfg style depth c) (readItems cfg style depth d) := by
  refine h.follows_of_smaller (fun (j : BodyStyle × Nat) => SparqlTree.readItems cfg j.1 j.2)
    (fun n ih j i c d h hc hd => ?_) (style, depth)
  obtain ⟨style, depth⟩ := j
  dsimp only
  rw [readItems_eq cfg style depth c, readItems_eq cfg style depth d, h.peek_eq]
  cases hp : d.peek with
  | none => exact .error (h.errorAtEnd hp .closeBrace)
  | some t =>
    have hcp : c.peek = some t := h.peek_eq.trans hp
    dsimp only
    split
    · exact .ok ⟨rfl, h.pass hp⟩
    split
    · split
      · exact .error ((h.errorFound _).withHelp _)
      -- Each part of the block leaves less to read, in either text.
      refine h.readNested.bind_of (P := fun r => r.2.size < n)
        (fun _ hr => Nat.lt_of_lt_of_le (Head.size_readNested_lt hr) hc)
        (fun _ hr => Nat.lt_of_lt_of_le (Head.size_readNested_lt hr) hd) ?_
      rintro i ⟨head, c₁⟩ ⟨_, d₁⟩ hc₁ hd₁ ⟨rfl, h₁⟩
      refine (ih (head.bodyStyle, depth + 1) _ _ _ h₁ hc₁ hd₁).bind_of (P := fun r => r.2.size < n)
        (fun _ hr => Nat.lt_trans (size_readItems_lt hr) hc₁)
        (fun _ hr => Nat.lt_trans (size_readItems_lt hr) hd₁) ?_
      rintro i ⟨inner, c₂⟩ ⟨_, d₂⟩ hc₂ hd₂ ⟨rfl, h₂⟩
      refine (h₂.level.close head).bind_of (P := fun r => r.2.size < n)
        (fun _ hr => Nat.lt_of_le_of_lt (Head.size_close_le hr) hc₂)
        (fun _ hr => Nat.lt_of_le_of_lt (Head.size_close_le hr) hd₂) ?_
      rintro i ⟨closed, c₃⟩ ⟨_, d₃⟩ hc₃ hd₃ ⟨rfl, h₃⟩
      exact (ih (style, depth) _ _ _ h₃ hc₃ hd₃).bind fun _ _ _ hr =>
        .ok (hr.pair fun rest => .nested (.block closed (Statement.ofItems inner)) :: rest)
    split
    · next hstop =>
      have hc₁ := Cursor.size_pass_breakOff_lt hcp ['.']
      have hd₁ := Cursor.size_pass_breakOff_lt hp ['.']
      exact (ih (style, depth) _ _ _ (h.cut hp (.stop hstop)).level (by omega) (by omega)).bind
        fun _ _ _ hr => .ok (hr.pair fun rest => .stop :: rest)
    · have hc₁ := Cursor.size_pass_lt hcp
      have hd₁ := Cursor.size_pass_lt hp
      rw [h.breaksBefore]
      exact (ih (style, depth) _ _ _ (h.pass hp).level (by omega) (by omega)).bind
        fun _ _ _ hr => .ok (hr.pair fun rest => .word (breaksBefore d) t.text :: rest)

theorem readBody (cfg : Config) (style : BodyStyle) :
    K.Follows K.Taken i (readBody cfg style c) (readBody cfg style d) :=
  (h.readItems cfg style 0).bind fun _ _ _ hr => .ok (hr.pair Statement.ofItems)

theorem readBlock (cfg : Config) (head : Head) :
    K.Follows K.Same i (head.readBlock cfg c) (head.readBlock cfg d) := by
  refine (h.readBody cfg head.bodyStyle).bind ?_
  rintro i ⟨body, c₁⟩ ⟨_, d₁⟩ ⟨rfl, h₁⟩
  exact (h₁.level.close head).bind fun _ _ _ hr =>
    .ok (hr.pair (Statement.block · body))

end Level

end Fork

end SparqlTree
