import SparqlTree.PrefixMap

/-!
# Looking up prefixes

A prefix map is determined by what it declares for each label (`PrefixMap.ext_get?`). A declaration
changes this for its own label only, and putting the declarations of one map on top of those of
another takes each label from the first map that declares it.
-/

namespace SparqlTree.PrefixMap

theorem lookup_cons (x : Text) (p : Text × Text) (ps : List (Text × Text)) :
    (p :: ps).lookup x = if x = p.1 then some p.2 else ps.lookup x := by
  by_cases h : x = p.1
  · rw [if_pos h, List.lookup_cons, h, beq_self_eq_true]
  · rw [if_neg h, List.lookup_cons, beq_false_of_ne h]

/-! ## 1. Single declarations -/

theorem lookup_place (label iri x : Text) (ps : List (Text × Text)) :
    (place label iri ps).lookup x = if x = label then some iri else ps.lookup x := by
  induction ps with
  | nil => exact lookup_cons x (label, iri) []
  | cons p ps ih =>
    rw [place]
    split
    · rw [lookup_cons]
    split
    · next heq =>
      rw [lookup_cons, lookup_cons, ← heq]
      split <;> rfl
    · next hne =>
      rw [lookup_cons, lookup_cons, ih]
      by_cases hx : x = p.1
      · have hlabel : ¬ x = label := fun h => hne (h.symm.trans hx)
        rw [if_pos hx, if_neg hlabel, if_pos hx]
      · rw [if_neg hx, if_neg hx]

/-- A declaration is found under its own label; the other labels are not affected. -/
theorem get?_insert (m : PrefixMap) (label iri x : Text) :
    (m.insert label iri).get? x = if x = label then some iri else m.get? x :=
  lookup_place label iri x m.toList

@[simp] theorem get?_empty (x : Text) : (∅ : PrefixMap).get? x = none := rfl

theorem insert_ne_empty (m : PrefixMap) (label iri : Text) : m.insert label iri ≠ ∅ := by
  intro h
  have hget := m.get?_insert label iri label
  rw [h, get?_empty, if_pos rfl] at hget
  nomatch hget

/-! ## 2. Equal maps -/

theorem lookup_eq_none_of_before {x : Text} {ps : List (Text × Text)}
    (h : ∀ p ∈ ps, Text.before x p.1) : ps.lookup x = none := by
  rw [List.lookup_eq_none_iff]
  intro p hp
  exact bne_iff_ne.2 (Text.ne_of_before (h p hp))

/-- A label that comes before the first one is not found. -/
theorem lookup_cons_of_before {x : Text} {p : Text × Text} {ps : List (Text × Text)}
    (hps : (p :: ps).Pairwise (Text.before ·.1 ·.1)) (hx : Text.before x p.1) :
    (p :: ps).lookup x = none := by
  refine lookup_eq_none_of_before fun q hq => ?_
  rcases List.mem_cons.1 hq with rfl | hq
  · exact hx
  · exact Text.before_trans hx ((List.pairwise_cons.1 hps).1 q hq)

theorem lookup_head (p : Text × Text) (ps : List (Text × Text)) :
    (p :: ps).lookup p.1 = some p.2 := by
  rw [lookup_cons, if_pos rfl]

/-- Of two labels at the head one would come before all labels of the other list. -/
theorem head_eq_of_lookup {p q : Text × Text} {ps qs : List (Text × Text)}
    (hps : (p :: ps).Pairwise (Text.before ·.1 ·.1))
    (hqs : (q :: qs).Pairwise (Text.before ·.1 ·.1))
    (h : ∀ x, (p :: ps).lookup x = (q :: qs).lookup x) : p = q := by
  have hlabel : p.1 = q.1 := by
    refine Decidable.byContradiction fun hne => ?_
    cases hlt : Text.before p.1 q.1 with
    | true =>
      have hp := h p.1
      rw [lookup_head, lookup_cons_of_before hqs hlt] at hp
      nomatch hp
    | false =>
      have hq := h q.1
      rw [lookup_head, lookup_cons_of_before hps (Text.before_of_ne hne hlt)] at hq
      nomatch hq
  have hiri : p.2 = q.2 := by
    have hp := h p.1
    rw [lookup_head, hlabel, lookup_head] at hp
    exact Option.some.inj hp
  exact Prod.ext hlabel hiri

theorem eq_of_lookup {ps qs : List (Text × Text)} (hps : ps.Pairwise (Text.before ·.1 ·.1))
    (hqs : qs.Pairwise (Text.before ·.1 ·.1)) (h : ∀ x, ps.lookup x = qs.lookup x) : ps = qs := by
  induction ps generalizing qs with
  | nil =>
    cases qs with
    | nil => rfl
    | cons q qs =>
      have hq := h q.1
      rw [lookup_head] at hq
      nomatch hq
  | cons p ps ih =>
    cases qs with
    | nil =>
      have hp := h p.1
      rw [lookup_head] at hp
      nomatch hp
    | cons q qs =>
      obtain rfl := head_eq_of_lookup hps hqs h
      obtain ⟨hp, hps⟩ := List.pairwise_cons.1 hps
      obtain ⟨hq, hqs⟩ := List.pairwise_cons.1 hqs
      refine congrArg (p :: ·) (ih hps hqs fun x => ?_)
      by_cases hx : x = p.1
      · rw [hx, lookup_eq_none_of_before hp, lookup_eq_none_of_before hq]
      · have hx' := h x
        rwa [lookup_cons, lookup_cons, if_neg hx, if_neg hx] at hx'

/-- Maps that declare the same for each label are equal. -/
theorem ext_get? {m n : PrefixMap} (h : ∀ x, m.get? x = n.get? x) : m = n := by
  obtain ⟨ps, hps⟩ := m
  obtain ⟨qs, hqs⟩ := n
  obtain rfl := eq_of_lookup hps hqs h
  rfl

/-! ## 3. One map on top of another -/

/-- The declarations of a map, and under them those of another. -/
def onto (new old : PrefixMap) : PrefixMap :=
  new.toList.foldl (fun m p => m.insert p.1 p.2) old

theorem get?_foldl_insert {ps : List (Text × Text)} (hps : ps.Pairwise (Text.before ·.1 ·.1))
    (m : PrefixMap) (x : Text) :
    (ps.foldl (fun m p => m.insert p.1 p.2) m).get? x = (ps.lookup x).or (m.get? x) := by
  induction ps generalizing m with
  | nil => rfl
  | cons p ps ih =>
    obtain ⟨hp, hps⟩ := List.pairwise_cons.1 hps
    rw [List.foldl_cons, ih hps, get?_insert, lookup_cons]
    by_cases hx : x = p.1
    · rw [if_pos hx, if_pos hx, hx, lookup_eq_none_of_before hp, Option.none_or, Option.some_or]
    · rw [if_neg hx, if_neg hx]

@[simp] theorem get?_onto (new old : PrefixMap) (x : Text) :
    (new.onto old).get? x = (new.get? x).or (old.get? x) :=
  get?_foldl_insert new.ascending old x

@[simp] theorem empty_onto (old : PrefixMap) : (∅ : PrefixMap).onto old = old := rfl

/-- A declaration may be made before or after the others are put under it. -/
theorem insert_onto (new old : PrefixMap) (label iri : Text) :
    (new.insert label iri).onto old = (new.onto old).insert label iri := by
  refine ext_get? fun x => ?_
  rw [get?_onto, get?_insert, get?_insert, get?_onto]
  split <;> rfl

end SparqlTree.PrefixMap
