import SparqlTree.Proofs.Grammar.Respelling

/-!
# What is written weighs no more than what was read

Reading drops blanks and full stops, and writing adds nothing but line breaks and WHERE. So the
lines of a body that was read have at most the bulk of the tokens it was read from
(`Derives.bulk_le`). If the bulk is the same then no letter was dropped, and nothing came to stand
where it would be read in another way: the body is stable.
-/

namespace SparqlTree

open Text (isBreak IsToken lineTokens written trimStart trimEnd trimTokens trimTokensStart
  trimTokensEnd)
open Statement (layoutAll lineTokens_layoutAll_block ofLead afterLead ofItems)

/-! ## 1. Spelling -/

theorem bulk_break {w : Text} (h : isBreak w = true) : bulk w = 0 := by
  rw [bulk, h]
  rfl

theorem bulkAll_breaks {bs : List Text} (hbs : AllBreaks bs) : bulkAll bs = 0 := by
  induction bs with
  | nil => rfl
  | cons b bs ih =>
    rw [bulkAll_cons, bulk_break (hbs b (by simp)),
      ih fun v hv => hbs v (List.mem_cons_of_mem _ hv)]

@[simp] theorem bulk_newline : bulk ['\n'] = 0 := bulk_break rfl

theorem bulk_where {w : Text} (h : Keyword.whereClause.spells w = true) : bulk w = 0 := by
  rw [bulk, h, Bool.or_true]
  rfl

theorem bulk_eq_length {w : Text} (hb : isBreak w = false)
    (hw : Keyword.whereClause.spells w = false) : bulk w = w.length := by
  rw [bulk, hb, hw]
  rfl

/-- A keyword has the same bulk in any letter case. -/
theorem bulk_spells {k : Keyword} {w : Text} (h : k.spells w = true) : bulk w = bulk k.name := by
  have hupper : Text.upper w = Text.upper k.name := Text.sameLetters_iff.1 h
  have hwhere : Keyword.whereClause.spells w = Keyword.whereClause.spells k.name := by
    rw [Keyword.spells, Keyword.spells, Text.sameLetters, Text.sameLetters, hupper]
  rw [bulk, bulk, Keyword.isBreak_of_spells h, Keyword.isBreak_of_spells (Keyword.spells_name k),
    hwhere, Text.length_eq_of_sameLetters h]

/-- Spelling does not change the bulk. -/
theorem Respelled.bulk_eq {ws vs : List Text} (h : Respelled ws vs) : bulkAll ws = bulkAll vs := by
  induction h with
  | nil => rfl
  | same _ ih => rw [bulkAll_cons, bulkAll_cons, ih]
  | @keyword k w ws vs hk _ ih => rw [bulkAll_cons, bulkAll_cons, ih, bulk_spells hk]
  | whereWritten _ ih => rw [bulkAll_cons, ih, bulk_where (Keyword.spells_name _), Nat.zero_add]
  | newline _ ih => rw [bulkAll_cons, ih, bulk_newline, Nat.zero_add]

/-! ## 2. Trimming -/

theorem Keyword.isBlank_of_spells {k : Keyword} {w : Text} (h : k.spells w = true) :
    ∀ c ∈ w, isBlank c = false := fun c hc => by
  have hsolid := Keyword.solid_of_spells h c hc
  rwa [Bool.not_eq_true'] at hsolid

theorem Keyword.trimStart_of_spells {k : Keyword} {w : Text} (h : k.spells w = true) :
    trimStart w = w := by
  cases w with
  | nil => rfl
  | cons c w => exact Text.trimStart_cons_letter (Keyword.isBlank_of_spells h c (by simp))

theorem Keyword.trimEnd_of_spells {k : Keyword} {w : Text} (h : k.spells w = true) :
    trimEnd w = w := by
  obtain rfl | ⟨v, c, rfl⟩ := List.eq_nil_or_concat w
  · rfl
  · rw [List.concat_eq_append] at h ⊢
    exact Text.trimEnd_append_letter v (Keyword.isBlank_of_spells h c (by simp))

/-- A part of a token has no more bulk than the token, and the same bulk only if nothing is left
out. -/
theorem bulk_part {v w : Text} (hle : v.length ≤ w.length) (hb : isBreak w = true → v = [])
    (hw : Keyword.whereClause.spells w = true → v = w) :
    bulk v ≤ bulk w ∧ (bulk v = bulk w → v ≠ [] → v.length = w.length) := by
  have hv := bulk_le_length v
  by_cases hbreak : isBreak w = true
  · rw [hb hbreak] at hv ⊢
    exact ⟨Nat.le_trans hv (Nat.zero_le _), fun _ hne => absurd rfl hne⟩
  · by_cases hwhere : Keyword.whereClause.spells w = true
    · rw [hw hwhere]
      exact ⟨Nat.le_refl _, fun _ _ => rfl⟩
    · rw [Bool.not_eq_true] at hbreak hwhere
      rw [bulk_eq_length hbreak hwhere]
      exact ⟨Nat.le_trans hv hle, fun he _ => by omega⟩

theorem bulk_trimStart (w : Text) :
    bulk (trimStart w) ≤ bulk w ∧ (bulk (trimStart w) = bulk w → trimStart w ≠ [] →
      trimStart w = w) := by
  obtain ⟨b, -, hw⟩ := Text.exists_append_trimStart w
  have hlen := congrArg List.length hw
  rw [List.length_append] at hlen
  obtain ⟨hle, heq⟩ := bulk_part (v := trimStart w) (w := w) (by omega)
    (fun h => Text.trimStart_eq_nil.2 (Text.isBlank_of_isBreak h)) Keyword.trimStart_of_spells
  refine ⟨hle, fun he hne => ?_⟩
  have hnil : b = [] := List.length_eq_zero_iff.1 (by have := heq he hne; omega)
  rw [hnil] at hw
  exact hw.symm

theorem bulk_trimEnd (w : Text) :
    bulk (trimEnd w) ≤ bulk w ∧ (bulk (trimEnd w) = bulk w → trimEnd w ≠ [] →
      trimEnd w = w) := by
  obtain ⟨b, -, hw⟩ := Text.exists_trimEnd_append w
  have hlen := congrArg List.length hw
  rw [List.length_append] at hlen
  obtain ⟨hle, heq⟩ := bulk_part (v := trimEnd w) (w := w) (by omega)
    (fun h => Text.trimEnd_eq_nil.2 (Text.isBlank_of_isBreak h)) Keyword.trimEnd_of_spells
  refine ⟨hle, fun he hne => ?_⟩
  have hnil : b = [] := List.length_eq_zero_iff.1 (by have := heq he hne; omega)
  rw [hnil, List.append_nil] at hw
  exact hw.symm

/-- A blank token without bulk is a line break. -/
theorem isBreak_of_bulk {w : Text} (hne : w ≠ []) (hblank : Text.AllBlank w) (h : bulk w = 0) :
    isBreak w = true := by
  rw [← Bool.not_eq_false]
  intro hb
  by_cases hw : Keyword.whereClause.spells w = true
  · obtain ⟨c, v, rfl⟩ := List.exists_cons_of_ne_nil hne
    have hc := Keyword.isBlank_of_spells hw c (by simp)
    rw [hblank c (by simp)] at hc
    nomatch hc
  · rw [bulk_eq_length hb (by simpa using hw)] at h
    exact hne (List.length_eq_zero_iff.1 h)

theorem bulkAll_trimTokensStart {ws : List Text} (h : ∀ w ∈ ws, w ≠ []) :
    bulkAll (trimTokensStart ws) ≤ bulkAll ws ∧ (bulkAll (trimTokensStart ws) = bulkAll ws →
      ∃ bs, AllBreaks bs ∧ ws = bs ++ trimTokensStart ws) := by
  induction ws with
  | nil => exact ⟨Nat.le_refl _, fun _ => ⟨[], fun _ h => (nomatch h), rfl⟩⟩
  | cons w ws ih =>
    obtain ⟨hle, heq⟩ := ih fun v hv => h v (List.mem_cons_of_mem _ hv)
    rw [trimTokensStart, bulkAll_cons]
    split
    · next hblank =>
      -- A blank token that is dropped had no bulk, so it was a line break.
      refine ⟨by omega, fun he => ?_⟩
      obtain ⟨bs, hbs, hws⟩ := heq (by omega)
      have hw := isBreak_of_bulk (h w (by simp)) (Text.trimStart_eq_nil.1 hblank) (by omega)
      refine ⟨w :: bs, fun b hb => ?_, by rw [List.cons_append, ← hws]⟩
      rcases List.mem_cons.1 hb with rfl | hb
      · exact hw
      · exact hbs b hb
    · next hne =>
      obtain ⟨hle', heq'⟩ := bulk_trimStart w
      rw [bulkAll_cons]
      refine ⟨by omega, fun he => ⟨[], fun _ h => (nomatch h), ?_⟩⟩
      rw [heq' (by omega) hne]
      rfl

theorem bulkAll_trimTokensEnd {ws : List Text} (h : ∀ w ∈ ws, w ≠ []) :
    bulkAll (trimTokensEnd ws) ≤ bulkAll ws ∧ (bulkAll (trimTokensEnd ws) = bulkAll ws →
      ∃ bs, AllBreaks bs ∧ ws = trimTokensEnd ws ++ bs) := by
  induction ws with
  | nil => exact ⟨Nat.le_refl _, fun _ => ⟨[], fun _ h => (nomatch h), rfl⟩⟩
  | cons w ws ih =>
    obtain ⟨hle, heq⟩ := ih fun v hv => h v (List.mem_cons_of_mem _ hv)
    rw [trimTokensEnd, bulkAll_cons]
    split
    · next hnil =>
      -- Everything behind the token was dropped, so the token itself is trimmed at its end.
      rw [hnil] at hle heq
      rw [bulkAll_nil] at hle heq
      obtain ⟨hle', heq'⟩ := bulk_trimEnd w
      split
      · next hblank =>
        refine ⟨Nat.zero_le _, fun he => ?_⟩
        rw [bulkAll_nil] at he
        obtain ⟨bs, hbs, hws⟩ := heq (by omega)
        have hw := isBreak_of_bulk (h w (by simp)) (Text.trimEnd_eq_nil.1 hblank) (by omega)
        refine ⟨w :: bs, fun b hb => ?_, congrArg (w :: ·) hws⟩
        rcases List.mem_cons.1 hb with rfl | hb
        · exact hw
        · exact hbs b hb
      · next hne =>
        rw [bulkAll_cons, bulkAll_nil]
        refine ⟨by omega, fun he => ?_⟩
        obtain ⟨bs, hbs, hws⟩ := heq (by omega)
        refine ⟨bs, hbs, ?_⟩
        rw [heq' (by omega) hne, List.singleton_append]
        exact congrArg (w :: ·) hws
    -- Something behind the token is left, so the token is left as it is.
    · rw [bulkAll_cons]
      refine ⟨by omega, fun he => ?_⟩
      obtain ⟨bs, hbs, hws⟩ := heq (by omega)
      exact ⟨bs, hbs, by rw [List.cons_append, ← hws]⟩

/-- Trimming adds no bulk. If it takes none away then it drops line breaks only. -/
theorem bulkAll_trimTokens {ws : List Text} (h : ∀ w ∈ ws, w ≠ []) :
    bulkAll (trimTokens ws) ≤ bulkAll ws ∧ (bulkAll (trimTokens ws) = bulkAll ws →
      ∃ bs bs', AllBreaks bs ∧ AllBreaks bs' ∧ ws = bs ++ (trimTokens ws ++ bs')) := by
  obtain ⟨hle, heq⟩ := bulkAll_trimTokensStart h
  -- The tokens that are left at the start are not empty, so the end can be trimmed.
  have hne : ∀ w ∈ trimTokensStart ws, w ≠ [] :=
    Text.forall_trimTokensStart (fun _ _ hw => hw) h
  obtain ⟨hle', heq'⟩ := bulkAll_trimTokensEnd hne
  rw [trimTokens]
  refine ⟨Nat.le_trans hle' hle, fun he => ?_⟩
  obtain ⟨bs, hbs, hws⟩ := heq (by omega)
  obtain ⟨bs', hbs', hws'⟩ := heq' (by omega)
  exact ⟨bs, bs', hbs, hbs', by rw [← hws', ← hws]⟩

/-! ## 3. The words at the head -/

theorem nextToken_eq_none {ws : List Text} : nextToken ws = none ↔ AllBreaks ws := by
  constructor
  · intro h
    have hnil : ws.dropWhile isBreak = [] := List.head?_eq_none_iff.1 h
    have hall := List.takeWhile_append_dropWhile (p := isBreak) (l := ws)
    rw [hnil, List.append_nil] at hall
    rw [← hall]
    exact fun b hb => List.all_eq_true.1 List.all_takeWhile b hb
  · intro h
    have hnext : nextToken (ws ++ []) = none := nextToken_append_breaks h
    rwa [List.append_nil] at hnext

theorem trim_written_breaks {bs : List Text} (h : AllBreaks bs) : Text.trim (written bs) = [] := by
  rw [Text.trim_eq_nil]
  intro c hc
  obtain ⟨b, hb, hc⟩ := List.mem_flatMap.1 hc
  rw [Text.piece, if_pos (h b hb)] at hc
  exact Text.isBlank_of_isBreak (h b hb) c hc

/-- Words that are not blank begin with a token of theirs. -/
theorem Item.nextToken_sentence {items : List Item}
    (h : Text.trim (written (Item.leadTokens items)) ≠ []) :
    ∃ w ∈ Item.leadTokens items, nextToken (Item.sentence items) = some w := by
  cases hn : nextToken (Item.leadTokens items) with
  | none => exact absurd (trim_written_breaks (nextToken_eq_none.1 hn)) h
  | some w =>
    obtain ⟨bs, ws, he, -⟩ := exists_of_nextToken hn
    refine ⟨w, ?_, nextToken_append hn⟩
    rw [he]
    exact List.mem_append_right _ List.mem_cons_self

variable {style : BodyStyle} {items : List Item}

theorem ItemsShaped.isToken_sentence (h : ItemsShaped style items) :
    ∀ w ∈ Item.sentence items, IsToken w := fun w hw => (h.plain_sentence w hw).1

/-- The statement of the words at the head has no more bulk than their tokens. If it has the same
bulk then its text has the same tokens but for line breaks around them. -/
theorem ItemsShaped.bulk_ofLead (h : ItemsShaped style items) :
    bulkAll (lineTokens (layoutAll (ofLead items))) ≤ bulkAll (Item.sentence items) ∧
      (bulkAll (lineTokens (layoutAll (ofLead items))) = bulkAll (Item.sentence items) →
        (ofLead items = [] ∧ Item.leadStops items = false) ∨
        ∃ t bs bs', ofLead items = [.simple t] ∧
          Text.trim (written (Item.leadTokens items)) ≠ [] ∧ AllBreaks bs ∧ AllBreaks bs' ∧
          Item.sentence items = bs ++ (Text.tokens t ++ bs')) := by
  have htok := h.isToken_sentence
  obtain ⟨hle, heq⟩ := bulkAll_trimTokens fun w hw => (htok w hw).ne_nil
  rw [h.ofLead_eq]
  split
  -- If the words are blank then no text is made of them, and no full stop may have been read.
  · refine ⟨Nat.zero_le _, fun he => .inl ⟨rfl, ?_⟩⟩
    rw [← Bool.not_eq_true]
    intro hs
    rw [Item.sentence, if_pos hs, bulkAll_append] at he
    have hdot : bulkAll [['.']] = 1 := by decide
    rw [hdot] at he
    exact absurd he (by simp [layoutAll])
  · next hne =>
    -- The text that is made of them has their tokens, once these are trimmed.
    have hlines : lineTokens (layoutAll [.simple (Text.trim (written (Item.sentence items)))])
        = ['\n'] :: trimTokens (Item.sentence items) := by
      show lineTokens [_] = _
      rw [Text.lineTokens_cons, Text.lineTokens_nil, List.append_nil,
        Text.tokens_trim_written htok]
    rw [hlines, bulkAll_cons, bulk_newline, Nat.zero_add]
    refine ⟨hle, fun he => .inr ?_⟩
    obtain ⟨bs, bs', hbs, hbs', hsentence⟩ := heq he
    refine ⟨_, bs, bs', rfl, hne, hbs, hbs', ?_⟩
    rw [Text.tokens_trim_written htok]
    exact hsentence

/-! ## 4. Bodies -/

variable {limit depth : Nat} {ws : List Text}

/-- The words at the head are tokens that were read, and the first of them was read first. -/
theorem Derives.sentence (h : Derives limit style depth ws items) :
    (∀ w ∈ Item.leadTokens items, isBreak w = true ∨ IsItem style w) ∧
      ∀ w ∈ nextToken (Item.sentence items), w ∈ ws.head? := by
  induction h with
  | nil => exact ⟨fun _ h => (by cases h), fun _ h => (by cases h)⟩
  | @word style depth ws items b w hb hbreak hitem _ ih =>
    refine ⟨fun v hv => ?_, fun v hv => ?_⟩
    · rw [Item.leadTokens, List.mem_append, List.mem_cons] at hv
      rcases hv with hv | rfl | hv
      · exact .inl (hb.all v hv)
      · exact .inr hitem
      · exact ih.1 v hv
    · rw [Item.sentence, Item.leadTokens, List.append_assoc, nextToken_append_breaks hb.all,
        List.cons_append, nextToken_of_single hbreak] at hv
      exact hv
  | stop => exact ⟨fun _ h => (by cases h), fun _ h => h⟩
  | nested => exact ⟨fun _ h => (by cases h), fun _ h => (by cases h)⟩

/-- The words at the head are read as the text they make up if none of them was trimmed. -/
theorem Derives.stableAt_ofLead {t : Text} {bs bs' : List Text}
    (h : Derives limit style depth ws items) (hshaped : ItemsShaped style items)
    (he : ofLead items = [.simple t]) (hne : Text.trim (written (Item.leadTokens items)) ≠ [])
    (hbs : AllBreaks bs) (hsentence : Item.sentence items = bs ++ (Text.tokens t ++ bs')) :
    StableAt style (.simple t) (afterLead items) ∧
      ∀ w ∈ nextToken (Text.tokens t), w ∈ ws.head? := by
  have hbody := hshaped.body
  rw [ofItems, he] at hbody
  have hfragment : Text.Fragment t := by
    cases hbody with
    | simple hs _ => exact hs.1
  have hnext : ∀ w ∈ nextToken (Text.tokens t), nextToken (Item.sentence items) = some w := by
    intro w hw
    rw [hsentence, nextToken_append_breaks hbs]
    exact nextToken_append hw
  refine ⟨⟨fun w hw => ?_, ?_⟩, fun w hw => h.sentence.2 w (hnext w hw)⟩
  · have hmem : w ∈ Item.sentence items := by
      rw [hsentence]
      exact List.mem_append_right _ (List.mem_append_left _ hw)
    rcases List.mem_append.1 hmem with hmem | hmem
    · rcases h.sentence.1 w hmem with hb | hitem
      · rcases Text.isBreak_iff.1 hb with rfl | rfl <;> decide
      · exact ⟨hitem.noGraph, hitem.noOptional⟩
    · split at hmem
      · rw [List.mem_singleton.1 hmem]
        decide
      · cases hmem
  · rintro rfl
    -- The text begins as its first token does, which is the first of the words.
    obtain ⟨w, hw, hfirst⟩ := Item.nextToken_sentence hne
    obtain ⟨v, vs, htokens⟩ := List.exists_cons_of_ne_nil hfragment.tokens_ne_nil
    have hhead := hfragment.head_tokens v (by rw [htokens]; rfl)
    rw [NoDot, ← hhead]
    by_cases hb : isBreak v = true
    · rcases Text.isBreak_iff.1 hb with rfl | rfl <;> decide
    · have hv : nextToken (Item.sentence items) = some v := hnext v (by
        rw [htokens]
        exact nextToken_of_single (by simpa using hb) _)
      obtain rfl := Option.some.inj (hfirst.symm.trans hv)
      exact hshaped.noDot rfl w hw

/-- Let the statements behind the words at the head be written with no more bulk than was read for
them. Then this holds of all statements, and they are stable if no bulk is lost. -/
theorem Derives.bulk_of_afterLead (h : Derives limit style depth ws items)
    (hshaped : ItemsShaped style items)
    (hle : bulkAll (Item.sentence items) + bulkAll (lineTokens (layoutAll (afterLead items)))
      ≤ bulkAll ws)
    (heq : bulkAll (Item.sentence items) + bulkAll (lineTokens (layoutAll (afterLead items)))
      = bulkAll ws → StableBody style (afterLead items)) :
    bulkAll (lineTokens (layoutAll (ofItems items))) ≤ bulkAll ws ∧
      (bulkAll (lineTokens (layoutAll (ofItems items))) = bulkAll ws →
        StableBody style (ofItems items) ∧ ∀ t rest, ofItems items = .simple t :: rest →
          ∀ w ∈ nextToken (Text.tokens t), w ∈ ws.head?) := by
  obtain ⟨hlead, hsame⟩ := hshaped.bulk_ofLead
  rw [ofItems, Statement.layoutAll_append, Text.lineTokens_append, bulkAll_append]
  refine ⟨by omega, fun he => ?_⟩
  have hstable := heq (by omega)
  rcases hsame (by omega) with ⟨hnil, hstops⟩ | ⟨t, bs, bs', hlead, hne, hbs, -, hsentence⟩
  · rw [hnil, List.nil_append]
    exact ⟨hstable, fun t rest hfirst => absurd hfirst (hshaped.apart hstops t rest)⟩
  · obtain ⟨hat, hfirst⟩ := h.stableAt_ofLead hshaped hlead hne hbs hsentence
    rw [hlead]
    refine ⟨.simple hat hstable, fun u rest hu => ?_⟩
    obtain ⟨hu, -⟩ := List.cons_eq_cons.1 hu
    obtain rfl := Statement.simple.inj hu
    exact hfirst

theorem CloseFrom.eq_group {head closed : Head} {vs : List Text} (h : CloseFrom head vs closed)
    (hc : closed = .group none false) : head = .group none false := by
  subst hc
  cases h
  rfl

/-- Behind the text before its first block, a body has the block and what stands behind it. -/
theorem bulkAll_afterLead_nested (closed : Head) (inner items : List Item) :
    bulkAll (lineTokens (layoutAll
        (afterLead (.nested (.block closed (ofItems inner)) :: items)))) =
      bulkAll (lineTokens closed.opening) + bulkAll (lineTokens (layoutAll (ofItems inner)))
        + bulkAll (lineTokens closed.closing)
        + bulkAll (lineTokens (layoutAll (ofItems items))) := by
  have hafter : afterLead (.nested (.block closed (ofItems inner)) :: items)
      = .block closed (ofItems inner) :: ofItems items := rfl
  rw [hafter, lineTokens_layoutAll_block, bulkAll_append, bulkAll_append, bulkAll_append]

theorem Derives.bulk_afterLead (h : Derives limit style depth ws items)
    (hw : ∀ w ∈ ws, Single w) :
    bulkAll (Item.sentence items) + bulkAll (lineTokens (layoutAll (afterLead items)))
        ≤ bulkAll ws ∧
      (bulkAll (Item.sentence items) + bulkAll (lineTokens (layoutAll (afterLead items)))
        = bulkAll ws → StableBody style (afterLead items)) := by
  -- By induction on the derivation; the bulk of the tokens bounds that of the lines in each case.
  induction h with
  | nil => exact ⟨Nat.le_refl _, fun _ => .nil⟩
  | @word style depth ws items b w hb hbreak hitem _ ih =>
    obtain ⟨hle, heq⟩ := ih fun v hv => hw v (List.mem_cons_of_mem _ hv)
    have hword : bulkAll (Item.sentence (.word b w :: items))
        = bulk w + bulkAll (Item.sentence items) := by
      rw [Item.sentence, Item.leadTokens, List.append_assoc, bulkAll_append, bulkAll_breaks hb.all,
        Nat.zero_add, List.cons_append, bulkAll_cons]
      rfl
    rw [hword, bulkAll_cons]
    have hafter : afterLead (.word b w :: items) = afterLead items := rfl
    rw [hafter]
    exact ⟨by omega, fun he => heq (by omega)⟩
  | @stop depth ws items hd ih =>
    have hw := fun v hv => hw v (List.mem_cons_of_mem _ hv)
    obtain ⟨hle, heq⟩ := ih hw
    obtain ⟨hle', heq'⟩ := hd.bulk_of_afterLead (hd.itemsShaped hw) hle heq
    have hdot : bulkAll (Item.sentence (.stop :: items)) = bulk ['.'] := rfl
    have hafter : afterLead (.stop :: items) = ofItems items := rfl
    rw [hdot, hafter, bulkAll_cons]
    exact ⟨by omega, fun he => (heq' (by omega)).1⟩
  | @nested style depth hs us vs ws head closed inner items _ hhead hselect hinner hclose hrest
      ih₁ ih₂ =>
    obtain ⟨hwi, hwr, hwh⟩ := forall_of_nested hw
    obtain ⟨hle₁, heq₁⟩ := ih₁ hwi
    obtain ⟨hle₂, heq₂⟩ := ih₂ hwr
    obtain ⟨hle₁, heq₁⟩ := hinner.bulk_of_afterLead (hinner.itemsShaped hwi) hle₁ heq₁
    obtain ⟨hle₂, heq₂⟩ := hrest.bulk_of_afterLead (hrest.itemsShaped hwr) hle₂ heq₂
    obtain ⟨hopen, hend⟩ := hhead.respelled hclose hwh
    have hopen := hopen.bulk_eq
    have hend := hend.bulk_eq
    rw [bulkAll_append, bulkAll_cons, bulkAll_nil] at hopen
    rw [bulkAll_cons] at hend
    -- A block ends the sentence before it, so the items begin with no word of one.
    have hnone : bulkAll (Item.sentence (.nested (.block closed (ofItems inner)) :: items)) = 0 :=
      rfl
    have htotal : bulkAll (hs ++ ['\x7b'] :: us ++ ['\x7d'] :: vs ++ ws) =
        bulkAll hs + (bulk ['\x7b'] + bulkAll us) + (bulk ['\x7d'] + bulkAll vs) + bulkAll ws := by
      rw [bulkAll_append, bulkAll_append, bulkAll_append, bulkAll_cons, bulkAll_cons]
    rw [bulkAll_afterLead_nested, hnone, htotal]
    refine ⟨by omega, fun he => ?_⟩
    -- Where nothing is lost in all, nothing is lost in the body or behind the block.
    obtain ⟨hstable₁, hfirst⟩ := heq₁ (by omega)
    obtain ⟨hstable₂, -⟩ := heq₂ (by omega)
    refine .block (fun hplain t rest ht w hn => ?_) ?_ hstable₂
    · exact hselect (hclose.eq_group hplain) w (hfirst t rest ht w hn)
    · rw [(hhead.nested hclose hwh).2]
      exact hstable₁

/-- The statements of a body have no more bulk than the tokens they were read from. If they have
the same bulk then they are stable. -/
theorem Derives.bulk_le (h : Derives limit style depth ws items) (hw : ∀ w ∈ ws, Single w) :
    bulkAll (lineTokens (layoutAll (ofItems items))) ≤ bulkAll ws ∧
      (bulkAll (lineTokens (layoutAll (ofItems items))) = bulkAll ws →
        StableBody style (ofItems items)) := by
  obtain ⟨hle, heq⟩ := h.bulk_afterLead hw
  obtain ⟨hle, heq⟩ := h.bulk_of_afterLead (h.itemsShaped hw) hle heq
  exact ⟨hle, fun he => (heq he).1⟩

end SparqlTree
