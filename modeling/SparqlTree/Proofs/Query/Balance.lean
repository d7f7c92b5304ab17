import SparqlTree.Proofs.Query.Canonical

/-!
# Texts that are read as their own queries

While clauses are read, the lines of the statements so far and the tokens that are left have at most
the bulk of the tokens at the start (`Draft.Balanced`). A query that is written in the tokens it was
read from has all of that bulk, so its bodies are stable (`Query.stable_of_parse`).
-/

namespace SparqlTree

open Text (lineTokens)
open Statement (layoutAll)

namespace Draft

variable {cfg : Config} {d d' : Draft} {c c' : Cursor} {n : Nat}

/-- The statements of a draft and the tokens behind the cursor have at most the given bulk, and if
they have all of it then the statements are stable. -/
def Balanced (n : Nat) (d : Draft) (c : Cursor) : Prop :=
  bulkAll (lineTokens (layoutAll d.statements)) + c.bulk ≤ n ∧
    (bulkAll (lineTokens (layoutAll d.statements)) + c.bulk = n → ∀ s ∈ d.statements, s.Stable)

theorem Balanced.declare (h : d.Balanced n c) (hs : d'.statements = d.statements)
    (hc : c'.bulk ≤ c.bulk) : d'.Balanced n c' := by
  obtain ⟨hle, heq⟩ := h
  rw [Balanced, hs]
  exact ⟨by omega, fun he => heq (by omega)⟩

theorem Balanced.add {s : Statement} (h : d.Balanced n c) (hs : StatementRead cfg c.bulk s c')
    (hd : d'.statements = d.statements ++ [s]) : d'.Balanced n c' := by
  obtain ⟨hle, heq⟩ := h
  have hle' := hs.bulk_le
  have hone : layoutAll [s] = s.layout := List.append_nil _
  rw [Balanced, hd, Statement.layoutAll_append, Text.lineTokens_append, bulkAll_append, hone]
  refine ⟨by omega, fun he t ht => ?_⟩
  rcases List.mem_append.1 ht with ht | ht
  · exact heq (by omega) t ht
  · exact List.mem_singleton.1 ht ▸ hs.stable (by omega)

/-- Each step keeps the balance. -/
theorem Balanced.step (h : d.Balanced n c) (hc : c.Lexed)
    (hstep : Draft.step cfg d c = .ok (some (d', c'))) : d'.Balanced n c' := by
  obtain ⟨-, -, ⟨rfl, -, hle, -⟩ | ⟨hread, -⟩⟩ := step_sound hc hstep
  · exact h.declare rfl hle
  · cases hread with
    | prefixDecl _ _ hle => exact h.declare rfl hle
    | base _ _ hle => exact h.declare rfl hle
    | graph _ hle => exact h.declare rfl hle
    | pattern _ hs => exact h.add hs rfl
    | select _ _ hs | describe _ _ hs | construct _ _ hs | update _ _ hs => exact h.add hs rfl
    | ask _ _ _ hs => exact h.add hs rfl

/-- A whole run keeps the balance. -/
theorem Balanced.readFrom (h : d.Balanced n c) (hc : c.Lexed)
    (hread : Draft.readFrom cfg d c = .ok (d', c')) : d'.Balanced n c' := by
  induction hread using Cursor.repeatStep_induction with
  | stop => exact h
  | turn hturn _ _ ih => exact ih (h.step hc hturn) (lexed_of_step hc hturn)

end Draft

theorem Cursor.Sees.bulk_eq {c : Cursor} {ws : List Text} (h : c.Sees ws) :
    c.bulk = bulkAll ws := by
  obtain ⟨bs, hbs, h⟩ := h
  rw [Cursor.bulk, h.texts, bulkAll_append, bulkAll_breaks hbs, Nat.zero_add]

namespace Query

variable {cfg : Config} {q q' : Query}

/-- If a query is read from the text of another one and has the same lines but for its
declarations, then it is stable. -/
theorem stable_of_parse (h : q.Shaped) (hparse : parse cfg q.render = .ok q')
    (hsame : lineTokens (layoutAll q'.statements) = lineTokens (layoutAll q.statements)) :
    q'.Stable := by
  obtain ⟨c, hread, hsees, hc⟩ := h.read_declarations cfg
  obtain ⟨d, c', hread', hq⟩ := exists_draft_of_parse hparse
  have hbalance : q.declared.Balanced c.bulk c :=
    ⟨Nat.le_of_eq (Nat.zero_add _), fun _ _ hs => nomatch hs⟩
  obtain ⟨hle, heq⟩ := hbalance.readFrom hc (hread.symm.trans hread')
  have hstatements : q'.statements = d.statements := by
    obtain ⟨form, -, rfl⟩ := Option.map_eq_some_iff.1 hq
    rfl
  -- The tokens behind the declarations are those of the statements but for a line break.
  have hbulk : c.bulk = bulkAll (lineTokens (layoutAll q.statements)) := by
    obtain ⟨l, ls, hls⟩ := List.exists_cons_of_ne_nil h.layoutAll_ne_nil
    rw [hsees.bulk_eq, hls, Text.lineTokens_cons, List.tail_cons, bulkAll_cons, bulk_newline,
      Nat.zero_add]
  rw [← hstatements, hsame] at hle heq
  rw [Stable, hstatements]
  exact hstatements ▸ heq (by omega)

end Query

end SparqlTree
