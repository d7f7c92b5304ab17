import SparqlTree.Proofs.Query.Braces
import SparqlTree.Proofs.Text.Variables

/-!
# The variables among the tokens of a body

A variable that stands among the tokens of a body as a word of its own is one of those that the
statements of the body report, or stands in one of their solution modifiers (`Derives.accounted`):
each token of a body is kept in a text of its tree, and the texts of solution modifiers are the only
ones that are not searched for variables.
-/

namespace SparqlTree

/-! ## 1. Names and words -/

theorem CharRange.exists_of_covers {ranges : List CharRange} {c : Char}
    (h : covers ranges c = true) : ∃ r ∈ ranges, r.first ≤ c.toNat ∧ c.toNat ≤ r.last := by
  induction ranges with
  | nil => nomatch h
  | cons r ranges ih =>
    rw [covers] at h
    split at h
    · nomatch h
    · next hfirst =>
      rw [Bool.or_eq_true, decide_eq_true_eq] at h
      rcases h with hlast | h
      · exact ⟨r, List.mem_cons_self, Nat.le_of_not_lt hfirst, hlast⟩
      · obtain ⟨s, hs, hc⟩ := ih h
        exact ⟨s, List.mem_cons_of_mem _ hs, hc⟩

/-- The characters of names are not blank: there are so few blanks that each can be looked up. -/
theorem not_isBlank_of_isNameChar {c : Char} (h : isNameChar c = true) : isBlank c = false := by
  have hall : ∀ r ∈ blankRanges, ∀ i < r.last + 1 - r.first,
      isNameChar (Char.ofNat (r.first + i)) = false := by decide +kernel
  rw [← Bool.not_eq_true]
  intro hblank
  obtain ⟨r, hr, hfirst, hlast⟩ := CharRange.exists_of_covers hblank
  have hnot := hall r hr (c.toNat - r.first) (by omega)
  rw [Nat.add_sub_cancel' hfirst, Char.ofNat_toNat, h] at hnot
  nomatch hnot

namespace Text

variable {name : Text} {ws : List Text}

theorem noBlank_variable (h : IsName name) : ∀ c ∈ '?' :: name, isBlank c = false :=
  List.forall_mem_cons.2 ⟨by decide, fun c hc => not_isBlank_of_isNameChar (h.2 c hc)⟩

theorem mentioned?_variable (h : IsName name) : mentioned? ('?' :: name) = some name := by
  rw [mentioned?_sigil, List.takeWhile_eq_self_iff.2 h.2, if_neg h.1]

theorem mem_variableNames {t : Text} (h : IsName name) (hw : '?' :: name ∈ words t) :
    name ∈ t.variableNames :=
  NameSet.mem_ofList.2 (List.mem_filterMap.2 ⟨_, hw, mentioned?_variable h⟩)

theorem mem_words_spaced {w : Text} (hne : w ≠ []) (hw : ∀ c ∈ w, isBlank c = false)
    (h : w ∈ ws) : w ∈ words (spaced ws) := by
  induction ws with
  | nil => nomatch h
  | cons v ws ih =>
    cases ws with
    | nil =>
      obtain rfl := List.mem_singleton.1 h
      rw [spaced_singleton, words_word hne hw]
      exact List.mem_singleton_self _
    | cons u us =>
      rw [spaced_cons (List.cons_ne_nil u us), words_append_blank v (by decide), List.mem_append]
      rcases List.mem_cons.1 h with rfl | h
      · rw [words_word hne hw]
        exact .inl (List.mem_singleton_self _)
      · exact .inr (ih h)

/-- Tokens that are written behind another one begin with a blank. -/
theorem words_append_written (w : Text) (ws : List Text) :
    words (w ++ written ws) = words w ++ words (written ws) := by
  cases ws with
  | nil => rw [written_nil, List.append_nil, words_nil, List.append_nil]
  | cons v ws =>
    have hpiece : ∃ c t, isBlank c = true ∧ piece v = c :: t := by
      rw [piece]
      split
      · next hb =>
        rcases isBreak_iff.1 hb with rfl | rfl
        · exact ⟨'\n', [], by decide, rfl⟩
        · exact ⟨'\r', [], by decide, rfl⟩
      · exact ⟨' ', v, by decide, rfl⟩
    obtain ⟨c, t, hc, hpiece⟩ := hpiece
    rw [written_cons, hpiece, List.cons_append, words_append_blank w hc, words_cons_blank hc]

theorem mem_words_written {w : Text} (hne : w ≠ []) (hw : ∀ c ∈ w, isBlank c = false)
    (h : w ∈ ws) : w ∈ words (written ws) := by
  have hb : isBreak w = false := by
    rw [← Bool.not_eq_true, isBreak_iff]
    rintro (rfl | rfl)
    · exact absurd (hw '\n' (by simp)) (by decide)
    · exact absurd (hw '\r' (by simp)) (by decide)
  obtain ⟨us, vs, rfl⟩ := List.append_of_mem h
  rw [written_append, written_cons, piece, hb, if_neg (by decide), List.cons_append,
    words_append_blank _ (by decide), words_append_written, words_word hne hw]
  simp

end Text

/-! ## 2. Variables of statements -/

/-- The variable is one of those that the statements report, or stands in one of their solution
modifiers. -/
def Mentioned (name : Text) (ss : List Statement) : Prop :=
  name ∈ Statement.unknownsAll ss ∨
    ∃ m ∈ Statement.allModifiersAll ss, name ∈ m.variableNames

/-- The variables among some tokens are mentioned by some statements. -/
def Accounted (ws : List Text) (ss : List Statement) : Prop :=
  ∀ name, IsName name → '?' :: name ∈ ws → Mentioned name ss

/-- No token begins with a question mark. -/
def NoVariables (ws : List Text) : Prop := ∀ w ∈ ws, w.head? ≠ some '?'

section

variable {name : Text} {vs ws : List Text} {ss ts : List Statement}

theorem Statement.mem_unknownsAll_append : name ∈ unknownsAll (ss ++ ts) ↔
    name ∈ unknownsAll ss ∨ name ∈ unknownsAll ts := by
  simp only [mem_unknownsAll, List.mem_append, or_and_right, exists_or]

theorem Mentioned.append_left (h : Mentioned name ss) : Mentioned name (ss ++ ts) := by
  rw [Mentioned, Statement.mem_unknownsAll_append, allModifiersAll_append]
  rcases h with h | ⟨m, hm, h⟩
  · exact .inl (.inl h)
  · exact .inr ⟨m, List.mem_append_left _ hm, h⟩

theorem Mentioned.append_right (h : Mentioned name ts) : Mentioned name (ss ++ ts) := by
  rw [Mentioned, Statement.mem_unknownsAll_append, allModifiersAll_append]
  rcases h with h | ⟨m, hm, h⟩
  · exact .inl (.inr h)
  · exact .inr ⟨m, List.mem_append_right _ hm, h⟩

theorem Accounted.append (hv : Accounted vs ss) (hw : Accounted ws ts) :
    Accounted (vs ++ ws) (ss ++ ts) := by
  intro name hname hm
  rcases List.mem_append.1 hm with hm | hm
  · exact (hv name hname hm).append_left
  · exact (hw name hname hm).append_right

theorem NoVariables.append (hv : NoVariables vs) (hw : NoVariables ws) :
    NoVariables (vs ++ ws) := List.forall_mem_append.2 ⟨hv, hw⟩

theorem NoVariables.accounted (h : NoVariables ws) : Accounted ws [] :=
  fun _ _ hm => absurd rfl (h _ hm)

/-- What is mentioned in a body is mentioned in its block. -/
theorem Mentioned.block (h : Mentioned name ss) (head : Head) :
    Mentioned name [.block head ss] := by
  rw [Mentioned, Statement.unknownsAll, Statement.unknowns, Statement.allModifiersAll,
    Statement.allModifiers]
  simp only [NameSet.mem_union, List.mem_append]
  rcases h with h | ⟨m, hm, h⟩
  · exact .inl (.inl (.inr h))
  · exact .inr ⟨m, .inl (.inr hm), h⟩

theorem mentioned_of_head {head : Head} (h : name ∈ head.variableNames) (body : List Statement) :
    Mentioned name [.block head body] := by
  rw [Mentioned, Statement.unknownsAll, Statement.unknowns]
  exact .inl (NameSet.mem_union.2 (.inl (NameSet.mem_union.2 (.inl h))))

theorem mentioned_of_modifier {head : Head} {m : Text} (hm : m ∈ head.modifiers)
    (h : name ∈ m.variableNames) (body : List Statement) : Mentioned name [.block head body] := by
  refine .inr ⟨m, ?_, h⟩
  rw [Statement.allModifiersAll, Statement.allModifiers]
  exact List.mem_append_left _ (List.mem_append_left _ hm)

end

/-! ## 3. Tokens and the statements made of them -/

theorem noQuestion_of_sameLetters {s t : Text} (h : Text.sameLetters s t = true) (ht : '?' ∉ t) :
    '?' ∉ s := by
  have hp : ∀ c : Char, (c.toUpper != '?') = (c != '?') := by
    intro c
    rcases Text.toUpper_cases c with h | ⟨i, hi, rfl⟩
    · rw [h]
    · revert i
      decide
  have hall : ∀ c ∈ t, (c != '?') = true := fun c hc => bne_iff_ne.2 fun he => ht (he ▸ hc)
  exact fun hm => absurd (Text.forall_of_sameLetters (p := (· != '?')) hp h hall _ hm) (by decide)

theorem Keyword.noQuestion_name (k : Keyword) : '?' ∉ k.name := by cases k <;> decide

theorem Keyword.head_ne_question {k : Keyword} {w : Text} (h : k.spells w = true) :
    w.head? ≠ some '?' := fun hw =>
  noQuestion_of_sameLetters h k.noQuestion_name (List.mem_of_mem_head? hw)

theorem head_angled_ne_question (iri : Text) : (Text.angled iri).head? ≠ some '?' :=
  fun hw => nomatch hw

theorem QuantifierFrom.noVariables {ws : List Text} {q : Option SetQuantifier}
    (h : QuantifierFrom ws q) : NoVariables ws := by
  cases h with
  | omitted => exact fun _ hw => nomatch hw
  | distinct hk | reduced hk => exact List.forall_mem_singleton.2 (Keyword.head_ne_question hk)

theorem DatasetFrom.noVariables {ws : List Text} {d : Option (Text × Bool)}
    (h : DatasetFrom ws d) : NoVariables ws := by
  cases h with
  | omitted => exact fun _ hw => nomatch hw
  | plain hf =>
    exact List.forall_mem_cons.2 ⟨Keyword.head_ne_question hf,
      List.forall_mem_singleton.2 (head_angled_ne_question _)⟩
  | named hf hn =>
    exact List.forall_mem_cons.2 ⟨Keyword.head_ne_question hf,
      List.forall_mem_cons.2 ⟨Keyword.head_ne_question hn,
        List.forall_mem_singleton.2 (head_angled_ne_question _)⟩⟩

theorem WhereFrom.noVariables {ws : List Text} (h : WhereFrom ws) : NoVariables ws := by
  cases h with
  | omitted => exact fun _ hw => nomatch hw
  | word hk => exact List.forall_mem_singleton.2 (Keyword.head_ne_question hk)

variable {name : Text}

theorem Text.mem_variableNames_spaced {ws : List Text} (h : IsName name)
    (hw : '?' :: name ∈ ws) : name ∈ (spaced ws).variableNames :=
  mem_variableNames h (mem_words_spaced (List.cons_ne_nil _ _) (noBlank_variable h) hw)

/-- The variables between SELECT and the opening brace are in the projection. -/
theorem ProjectionFrom.mem_variableNames {inBlock : Bool} {ws : List Text} {p : Projection}
    (h : ProjectionFrom inBlock ws p) (hname : IsName name) (hm : '?' :: name ∈ ws) :
    name ∈ p.projected.variableNames := by
  cases h with
  | mk hq _ _ _ hd hw =>
    simp only [List.mem_append] at hm
    rcases hm with ((hm | hm) | hm) | hm
    · exact absurd rfl (hq.noVariables _ hm)
    · exact Text.mem_variableNames_spaced hname hm
    · exact absurd rfl (hd.noVariables _ hm)
    · exact absurd rfl (hw.noVariables _ hm)

theorem exists_modifier {mss : List (List Text)} (hname : IsName name)
    (hm : '?' :: name ∈ mss.flatten) : ∃ m ∈ mss.map Text.spaced, name ∈ m.variableNames := by
  obtain ⟨ms, hms, hm⟩ := List.mem_flatten.1 hm
  exact ⟨_, List.mem_map_of_mem hms, Text.mem_variableNames_spaced hname hm⟩

/-- What closes a block leaves what its head reports. -/
theorem CloseFrom.variableNames_eq {head closed : Head} {vs : List Text}
    (h : CloseFrom head vs closed) : closed.variableNames = head.variableNames := by
  cases h <;> rfl

/-- The variables in what closes a block are operands of solution modifiers. -/
theorem CloseFrom.mentioned {head closed : Head} {vs : List Text} (h : CloseFrom head vs closed)
    (hname : IsName name) (hm : '?' :: name ∈ vs) (body : List Statement) :
    Mentioned name [.block closed body] := by
  have hbrace : ∀ inBlock : Bool,
      '?' :: name ∉ if inBlock then [['\x7d']] else ([] : List Text) := by
    intro inBlock
    cases inBlock <;> simp
  cases h with
  | group | pattern | ask => nomatch hm
  | select hms | describe hms =>
    have hm := (List.mem_append.1 hm).resolve_right (hbrace _)
    obtain ⟨m, hm, hmem⟩ := exists_modifier hname hm
    exact mentioned_of_modifier hm hmem body
  | construct hms =>
    obtain ⟨m, hm, hmem⟩ := exists_modifier hname hm
    exact mentioned_of_modifier hm hmem body

/-- Among the tokens before the body of a nested block only those of a projection are variables. -/
theorem HeadFrom.mem_variableNames {head : Head} {hs : List Text} (h : HeadFrom hs head)
    (hname : IsName name) (hm : '?' :: name ∈ hs) : name ∈ head.variableNames := by
  cases h with
  | group => nomatch hm
  | optional hk =>
    exact absurd (List.mem_singleton.1 hm ▸ rfl) (Keyword.head_ne_question hk)
  | graph hk =>
    rcases List.mem_cons.1 hm with he | hm
    · exact absurd (he ▸ rfl) (Keyword.head_ne_question hk)
    · nomatch List.mem_singleton.1 hm
  | select hk hp =>
    rcases List.mem_cons.1 hm with he | hm
    · nomatch he
    rcases List.mem_cons.1 hm with he | hm
    · exact absurd (he ▸ rfl) (Keyword.head_ne_question hk)
    · exact hp.mem_variableNames hname hm

/-! ## 4. Bodies -/

variable {limit depth : Nat} {style : BodyStyle} {ws : List Text} {items : List Item}

/-- A variable among the words at the head is one of the statement that they make up. -/
theorem ItemsShaped.mentioned_ofLead (h : ItemsShaped style items) (hname : IsName name)
    (hm : '?' :: name ∈ Item.leadTokens items) : Mentioned name (Statement.ofLead items) := by
  have hword : ∀ ws, '?' :: name ∈ ws → '?' :: name ∈ (Text.written ws).words := fun _ =>
    Text.mem_words_written (List.cons_ne_nil _ _) (Text.noBlank_variable hname)
  rw [h.ofLead_eq]
  split
  · next hblank =>
    have hm := hword _ hm
    rw [Text.words_eq_nil.2 hblank] at hm
    cases hm
  · left
    rw [Statement.unknownsAll, Statement.unknowns, NameSet.mem_union]
    refine .inl (Text.mem_variableNames hname ?_)
    rw [Text.words_trim]
    exact hword _ (List.mem_append_left _ hm)

theorem ItemsShaped.mentioned (h : ItemsShaped style items) (hname : IsName name)
    (hm : '?' :: name ∈ Item.leadTokens items ∨ Mentioned name (Statement.afterLead items)) :
    Mentioned name (Statement.ofItems items) := by
  rcases hm with hm | hm
  · exact (h.mentioned_ofLead hname hm).append_left
  · exact hm.append_right

/-- The variables among the tokens of a body are among the words at the head of its items, or are
mentioned by the statements behind those. -/
theorem Derives.mentioned_lead (h : Derives limit style depth ws items)
    (hw : ∀ w ∈ ws, Single w) (hname : IsName name) (hm : '?' :: name ∈ ws) :
    '?' :: name ∈ Item.leadTokens items ∨ Mentioned name (Statement.afterLead items) := by
  induction h with
  | nil => cases hm
  | @word style depth ws items b w _ _ _ _ ih =>
    rw [Item.leadTokens, List.mem_append, List.mem_cons]
    rcases List.mem_cons.1 hm with he | hm
    · exact .inl (.inr (.inl he))
    · exact (ih (fun v hv => hw v (List.mem_cons_of_mem _ hv)) hm).imp_left (.inr ∘ .inr)
  | stop hd ih =>
    have hw := fun v hv => hw v (List.mem_cons_of_mem _ hv)
    rcases List.mem_cons.1 hm with he | hm
    · exact absurd (List.cons.inj he).1 (by decide)
    · exact .inr ((hd.itemsShaped hw).mentioned hname (ih hw hm))
  | @nested style depth hs us vs ws head closed inner items _ hhead _ hinner hclose hrest ih₁ ih₂ =>
    obtain ⟨hwi, hwr, -⟩ := forall_of_nested hw
    have hcons : Statement.afterLead (.nested (.block closed (Statement.ofItems inner)) :: items) =
        [.block closed (Statement.ofItems inner)] ++ Statement.ofItems items := rfl
    rw [hcons]
    simp only [List.mem_append, List.mem_cons] at hm
    right
    rcases hm with ((hm | he | hm) | he | hm) | hm
    · have hmem := hhead.mem_variableNames hname hm
      rw [← hclose.variableNames_eq] at hmem
      exact (mentioned_of_head hmem _).append_left
    · exact absurd (List.cons.inj he).1 (by decide)
    · have hinner := (hinner.itemsShaped hwi).mentioned hname (ih₁ hwi hm)
      exact (hinner.block closed).append_left
    · exact absurd (List.cons.inj he).1 (by decide)
    · exact (hclose.mentioned hname hm _).append_left
    · exact ((hrest.itemsShaped hwr).mentioned hname (ih₂ hwr hm)).append_right

theorem Derives.accounted (h : Derives limit style depth ws items) (hw : ∀ w ∈ ws, Single w) :
    Accounted ws (Statement.ofItems items) := fun _ hname hm =>
  (h.itemsShaped hw).mentioned hname (h.mentioned_lead hw hname hm)

end SparqlTree
