import SparqlTree.Proofs.Statement.Tokens

/-!
# What is written for what was read

The tokens around the body of a block are written as they were read, but for their spelling:
keywords are written in capitals, WHERE is written also where it was left out, and clauses begin on
new lines. `Respelled` relates the two lists of tokens. What does not change with the spelling is
the same for both.
-/

namespace SparqlTree

open Text (isBreak IsToken lineTokens)

/-- The first tokens were read, the second ones are written for them. -/
inductive Respelled : List Text → List Text → Prop
  | nil : Respelled [] []
  | same {w : Text} {ws vs : List Text} : Respelled ws vs → Respelled (w :: ws) (w :: vs)
  | keyword {k : Keyword} {w : Text} {ws vs : List Text} : k.spells w = true → Respelled ws vs →
    Respelled (w :: ws) (k.name :: vs)
  | whereWritten {ws vs : List Text} : Respelled ws vs →
    Respelled ws (Keyword.whereClause.name :: vs)
  | newline {ws vs : List Text} : Respelled ws vs → Respelled ws (['\n'] :: vs)

namespace Respelled

variable {ws vs ws' vs' : List Text}

theorem refl (ws : List Text) : Respelled ws ws := by
  induction ws with
  | nil => exact .nil
  | cons w ws ih => exact .same ih

theorem append (h : Respelled ws vs) (h' : Respelled ws' vs') :
    Respelled (ws ++ ws') (vs ++ vs') := by
  induction h with
  | nil => exact h'
  | same _ ih => exact .same ih
  | keyword hk _ ih => exact .keyword hk ih
  | whereWritten _ ih => exact .whereWritten ih
  | newline _ ih => exact .newline ih

end Respelled

/-! ## 1. Parts of projections -/

theorem QuantifierFrom.respelled {qs : List Text} {quantifier : Option SetQuantifier}
    (h : QuantifierFrom qs quantifier) :
    Respelled qs (quantifier.toList.map fun q => q.keyword.name) := by
  cases h with
  | omitted => exact .nil
  | distinct h => exact .keyword h .nil
  | reduced h => exact .keyword h .nil

theorem DatasetFrom.respelled {ds : List Text} {dataset : Option (Text × Bool)} {p : Projection}
    (h : DatasetFrom ds dataset) (hg : p.graph = dataset.map Prod.fst)
    (hn : p.fromNamed = dataset.any Prod.snd) :
    Respelled ds (if p.graph = none then [] else ['\n'] :: p.datasetTokens) := by
  rw [Projection.datasetTokens, hg, hn]
  cases h with
  | omitted => exact .nil
  | plain hf => exact .newline (.keyword hf (.refl _))
  | named hf hnamed => exact .newline (.keyword hf (.keyword hnamed (.refl _)))

theorem WhereFrom.respelled {vs : List Text} (h : WhereFrom vs) :
    Respelled vs [Keyword.whereClause.name] := by
  cases h with
  | omitted => exact .whereWritten .nil
  | word h => exact .keyword h .nil

/-- The lines before the body of a projection are written for the tokens of its head. -/
theorem ProjectionFrom.respelled {inBlock : Bool} {ws : List Text} {p : Projection}
    {k : Keyword} {w : Text} (h : ProjectionFrom inBlock ws p) (modifiers : List Text)
    (hk : k.spells w = true) (hw : ∀ v ∈ ws, Single v) :
    Respelled ((if inBlock then [['\x7b']] else []) ++ w :: ws ++ [['\x7b']])
      (lineTokens (Projection.opening k { p with modifiers })) := by
  cases h with
  | @mk qs ps ds vs quantifier dataset hq hne hps hfirst hd hv =>
    have hiri := isIri_of_datasetFrom hd fun v h => hw v (by simp [h])
    rw [Projection.lineTokens_opening k hne rfl (fun v h => hw v (by simp [h])) hiri]
    have hopen : Respelled (if inBlock then [['\x7b']] else [])
        (if inBlock then [['\n'], ['\x7b']] else []) := by
      cases inBlock
      · exact .nil
      · exact .newline (.refl _)
    have hdataset := hd.respelled (p := ⟨quantifier, Text.spaced ps, dataset.map Prod.fst,
      dataset.any Prod.snd, modifiers, inBlock⟩) rfl rfl
    have hall := hopen.append (.newline (.keyword hk (((hq.respelled.append (.refl ps)).append
      hdataset).append (.newline (hv.respelled.append (.refl [['\x7b']]))))))
    simpa using hall

/-! ## 2. Blocks -/

theorem respelled_modifiers (mss : List (List Text)) :
    Respelled mss.flatten (mss.flatMap (['\n'] :: ·)) := by
  induction mss with
  | nil => exact .nil
  | cons ms mss ih =>
    rw [List.flatten_cons, List.flatMap_cons]
    exact .newline ((Respelled.refl ms).append ih)

theorem respelled_closeLine : Respelled [['\x7d']] (lineTokens [closeLine]) := by
  rw [Text.lineTokens_cons, tokens_closeLine]
  exact .newline (.refl _)

theorem respelled_keyword_brace {k : Keyword} {w : Text} (hk : k.spells w = true) :
    Respelled [w, ['\x7b']] (lineTokens [Text.spaced [k.name, ['\x7b']]]) := by
  rw [Text.lineTokens_cons, tokens_keyword_brace]
  exact .newline (.keyword hk (.refl _))

/-- What closes a sub-select is written as it was read. -/
theorem respelled_closing {mss : List (List Text)} {p : Projection} (hin : p.inBlock = true)
    (hp : p.modifiers = mss.map Text.spaced) (hw : ∀ w ∈ mss.flatten, Single w) :
    Respelled (['\x7d'] :: (mss.flatten ++ [['\x7d']])) (lineTokens p.closing) := by
  rw [Projection.closing, if_pos hin, hp, List.cons_append, Text.lineTokens_cons,
    Text.lineTokens_append, lineTokens_modifiers
      (.of_forall fun w h => (hw w h).1), tokens_closeLine]
  exact .newline (.same ((respelled_modifiers mss).append respelled_closeLine))

/-- The lines around the body of a nested block are written for the tokens that were read there. -/
theorem HeadFrom.respelled {hs vs : List Text} {head closed : Head} (h : HeadFrom hs head)
    (hc : CloseFrom head vs closed) (hw : ∀ w ∈ hs ++ vs, Single w) :
    Respelled (hs ++ [['\x7b']]) (lineTokens closed.opening) ∧
      Respelled (['\x7d'] :: vs) (lineTokens closed.closing) := by
  cases h with
  | group =>
    cases hc
    refine ⟨?_, respelled_closeLine⟩
    rw [Head.opening, Text.lineTokens_cons, tokens_openBrace]
    exact .newline (.refl _)
  | optional hk =>
    cases hc
    exact ⟨respelled_keyword_brace hk, respelled_closeLine⟩
  | @graph k iri hk =>
    cases hc
    refine ⟨?_, respelled_closeLine⟩
    rw [Head.opening, Text.lineTokens_cons,
      tokens_graphLine (isIri_of_isToken (hw (Text.angled iri) (by simp)).1)]
    exact .newline (.keyword hk (.refl _))
  | @select k ws p hk hp =>
    cases hc with
    | @select _ mss hms =>
      have hin := hp.inBlock_eq
      have hopening := hp.respelled (mss.map Text.spaced) hk fun w h => hw w (by simp [h])
      rw [if_pos hin] at hw
      rw [if_pos hin]
      exact ⟨hopening, respelled_closing (p := { p with modifiers := mss.map Text.spaced }) hin rfl
        fun w h => hw w (List.mem_append_right _ (List.mem_append_left _ h))⟩

end SparqlTree
