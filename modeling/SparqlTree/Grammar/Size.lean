import SparqlTree.Grammar.Head

/-!
# Heads leave less to read

Reading the head of a block consumes at least its opening brace, and closing a block puts nothing
back. Nested bodies end for this reason.
-/

namespace SparqlTree

theorem size_readOpenBrace_lt {c rest : Cursor} (h : readOpenBrace c = .ok rest) :
    rest.size < c.size :=
  Cursor.size_requireKind_lt h

theorem size_readDataset?_le {c rest : Cursor} {d : Option (Text × Bool)}
    (h : readDataset? c = .ok (d, rest)) : rest.size ≤ c.size := by
  unfold readDataset? at h
  split at h
  · obtain ⟨-, rfl⟩ := Prod.mk.inj (Except.ok.inj h)
    exact Nat.le_refl _
  · next c₁ h₁ =>
    obtain ⟨⟨graph, c₂⟩, h₂, h⟩ := bind_eq_ok.1 h
    obtain ⟨-, rfl⟩ := Prod.mk.inj (Except.ok.inj h)
    have := Cursor.size_eat?_lt h₁
    have := Cursor.size_skip_le c₁ .named
    have := Cursor.size_requireIri_lt h₂
    omega

namespace Projection

theorem size_readQuantifier?_le (c : Cursor) : (readQuantifier? c).2.size ≤ c.size := by
  unfold readQuantifier?
  split
  · next h => exact Nat.le_of_lt (Cursor.size_eat?_lt h)
  · split
    · next h => exact Nat.le_of_lt (Cursor.size_eat?_lt h)
    · exact Nat.le_refl _

theorem size_readWhere_lt {hasGraph : Bool} {c rest : Cursor}
    (h : readWhere hasGraph c = .ok rest) : rest.size < c.size := by
  unfold readWhere at h
  split at h
  · next h₁ => exact Nat.lt_trans (size_readOpenBrace_lt h) (Cursor.size_eatGlued?_lt h₁)
  · split at h
    · exact size_readOpenBrace_lt h
    · nomatch h

theorem size_read_lt {inBlock : Bool} {c rest : Cursor} {p : Projection}
    (h : read inBlock c = .ok (p, rest)) : rest.size < c.size := by
  have hq := size_readQuantifier?_le c
  have hr := Cursor.size_takeRun_le isProjected (readQuantifier? c).2
  unfold read at h
  dsimp only at h
  split at h
  · nomatch h
  · obtain ⟨⟨d, c₂⟩, h₂, h⟩ := bind_eq_ok.1 h
    obtain ⟨c₃, h₃, h⟩ := bind_eq_ok.1 h
    obtain ⟨-, rfl⟩ := Prod.mk.inj (Except.ok.inj h)
    have := size_readDataset?_le h₂
    have : c₃.size < c₂.size := size_readWhere_lt h₃
    omega

end Projection

namespace Head

theorem size_readOptionalWhere_lt {c rest : Cursor} (h : readOptionalWhere c = .ok rest) :
    rest.size < c.size :=
  Nat.lt_of_lt_of_le (size_readOpenBrace_lt h) (Cursor.size_skipGlued_le c _)

theorem size_readGroup_lt {c rest : Cursor} {head : Head} (h : readGroup c = .ok (head, rest)) :
    rest.size < c.size := by
  unfold readGroup at h
  split at h
  · next h₁ =>
    obtain ⟨c₂, h₂, h⟩ := bind_eq_ok.1 h
    obtain ⟨-, rfl⟩ := Prod.mk.inj (Except.ok.inj h)
    exact Nat.lt_trans (size_readOpenBrace_lt h₂) (Cursor.size_eatGlued?_lt h₁)
  · split at h
    · next h₁ =>
      obtain ⟨⟨graph, c₂⟩, h₂, h⟩ := bind_eq_ok.1 h
      obtain ⟨c₃, h₃, h⟩ := bind_eq_ok.1 h
      obtain ⟨-, rfl⟩ := Prod.mk.inj (Except.ok.inj h)
      have := Cursor.size_eatGlued?_lt h₁
      have := Cursor.size_requireIri_lt h₂
      have := size_readOpenBrace_lt h₃
      omega
    · obtain ⟨c₂, h₂, h⟩ := bind_eq_ok.1 h
      obtain ⟨-, rfl⟩ := Prod.mk.inj (Except.ok.inj h)
      exact size_readOpenBrace_lt h₂

theorem size_readNested_lt {c rest : Cursor} {head : Head}
    (h : readNested c = .ok (head, rest)) : rest.size < c.size := by
  unfold readNested at h
  split at h
  · obtain ⟨⟨p, c₁⟩, h₁, h⟩ := bind_eq_ok.1 h
    obtain ⟨-, rfl⟩ := Prod.mk.inj (Except.ok.inj h)
    have := Projection.size_read_lt h₁
    have := Cursor.size_pass_le c
    have := Cursor.size_pass_le c.pass
    omega
  · exact size_readGroup_lt h

theorem size_readTemplate_lt {c rest : Cursor} {template : Text}
    (h : readTemplate c = .ok (template, rest)) : rest.size < c.size := by
  obtain ⟨c₁, h₁, h⟩ := bind_eq_ok.1 h
  dsimp only at h
  split at h
  · obtain ⟨-, rfl⟩ := Prod.mk.inj (Except.ok.inj h)
    exact Nat.lt_of_le_of_lt (Cursor.size_advance_le _ _) (size_readOpenBrace_lt h₁)
  · nomatch h

theorem size_readConstruct_lt {c rest : Cursor} {head : Head}
    (h : readConstruct c = .ok (head, rest)) : rest.size < c.size := by
  obtain ⟨⟨template, c₁⟩, h₁, h⟩ := bind_eq_ok.1 h
  obtain ⟨c₂, h₂, h⟩ := bind_eq_ok.1 h
  obtain ⟨-, rfl⟩ := Prod.mk.inj (Except.ok.inj h)
  have := size_readTemplate_lt h₁
  have := size_readOptionalWhere_lt h₂
  omega

theorem size_closeProjection_le {p q : Projection} {c rest : Cursor}
    (h : closeProjection p c = .ok (q, rest)) : rest.size ≤ c.size := by
  obtain ⟨⟨ms, c₁⟩, h₁, h⟩ := bind_eq_ok.1 h
  have hm := Modifier.size_readAll_le h₁
  dsimp only at h
  split at h
  · obtain ⟨c₂, h₂, h⟩ := bind_eq_ok.1 h
    obtain ⟨-, rfl⟩ := Prod.mk.inj (Except.ok.inj h)
    have := Cursor.size_requireKind_lt h₂
    omega
  · obtain ⟨-, rfl⟩ := Prod.mk.inj (Except.ok.inj h)
    exact hm

theorem size_close_le {head closed : Head} {c rest : Cursor}
    (h : head.close c = .ok (closed, rest)) : rest.size ≤ c.size := by
  cases head with
  | select p | describe p =>
    obtain ⟨⟨q, c₁⟩, h₁, h⟩ := bind_eq_ok.1 h
    obtain ⟨-, rfl⟩ := Prod.mk.inj (Except.ok.inj h)
    exact size_closeProjection_le h₁
  | construct template ms =>
    obtain ⟨⟨q, c₁⟩, h₁, h⟩ := bind_eq_ok.1 h
    obtain ⟨-, rfl⟩ := Prod.mk.inj (Except.ok.inj h)
    exact Modifier.size_readAll_le h₁
  | group graph optional | pattern | ask =>
    obtain ⟨-, rfl⟩ := Prod.mk.inj (Except.ok.inj h)
    exact Nat.le_refl _

end Head

end SparqlTree
