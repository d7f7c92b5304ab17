import SparqlTree.Query.Parse
import SparqlTree.Proofs.Grammar.Respelling

/-!
# No token of a body is lost

What is read from a body and written again has the tokens that were consumed, in their order: none
is lost, repeated or invented. Some freedom there is. Full stops that end nothing are dropped and
WHERE is written also where it was left out, keywords are written in capitals, and lines are broken
elsewhere; `essence` leaves such differences out. A text with other blanks than spaces, tabs and
line breaks is excluded, since trimming it can cut into a word.
-/

namespace SparqlTree

open Text (isBreak IsToken lineTokens trimTokens trimTokensStart trimTokensEnd written)

/-- True of tokens that are neither line breaks nor full stops nor WHERE. -/
def counts (w : Text) : Bool := !isBreak w && w != ['.'] && !Keyword.whereClause.spells w

/-- The tokens that count, in capitals. -/
def essence (ws : List Text) : List Text := (ws.filter counts).map Text.upper

/-! ## 1. Essences -/

/-- What a single token adds to the essence. -/
def share (w : Text) : List Text := if counts w then [Text.upper w] else []

@[simp] theorem essence_nil : essence [] = [] := rfl

@[simp] theorem essence_cons (w : Text) (ws : List Text) :
    essence (w :: ws) = share w ++ essence ws := by
  rw [essence, List.filter_cons, share]
  split <;> rfl

@[simp] theorem essence_append (vs ws : List Text) :
    essence (vs ++ ws) = essence vs ++ essence ws := by
  rw [essence, List.filter_append, List.map_append]
  rfl

theorem share_break {w : Text} (h : isBreak w = true) : share w = [] := by
  rw [share, counts, h]
  rfl

@[simp] theorem share_newline : share ['\n'] = [] := share_break rfl

@[simp] theorem share_stop : share ['.'] = [] := rfl

theorem share_where {w : Text} (h : Keyword.whereClause.spells w = true) : share w = [] := by
  rw [share, counts, h, Bool.not_true, Bool.and_false]
  rfl

@[simp] theorem share_where_name : share Keyword.whereClause.name = [] :=
  share_where (Keyword.spells_name _)

/-- A keyword counts the same in any letter case. -/
theorem share_spells {k : Keyword} {w : Text} (h : k.spells w = true) : share w = share k.name := by
  have hupper : Text.upper w = Text.upper k.name := Text.sameLetters_iff.1 h
  have hdot : w ≠ ['.'] := by
    rintro rfl
    revert h
    cases k <;> decide
  have hdot' : k.name ≠ ['.'] := by cases k <;> decide
  have hwhere : Keyword.whereClause.spells w = Keyword.whereClause.spells k.name := by
    rw [Keyword.spells, Keyword.spells, Text.sameLetters, Text.sameLetters, hupper]
  rw [share, share, counts, counts, Keyword.isBreak_of_spells h,
    Keyword.isBreak_of_spells (Keyword.spells_name k), hwhere, bne_iff_ne.2 hdot,
    bne_iff_ne.2 hdot', hupper]

/-- Spelling does not change the essence. -/
theorem Respelled.essence_eq {ws vs : List Text} (h : Respelled ws vs) :
    essence ws = essence vs := by
  induction h with
  | nil => rfl
  | same _ ih => rw [essence_cons, essence_cons, ih]
  | @keyword k w ws vs hk _ ih => rw [essence_cons, essence_cons, ih, share_spells hk]
  | whereWritten _ ih => rw [essence_cons, share_where_name, ih]; rfl
  | newline _ ih => rw [essence_cons, share_newline, ih]; rfl

/-! ## 2. Trimming what is solid -/

/-- True of line breaks, and of tokens that trimming leaves as they are. -/
def Solid (w : Text) : Prop :=
  isBreak w = true ∨ Text.trimStart w = w ∧ Text.trimEnd w = w ∧ w ≠ []

theorem essence_trimTokensStart {ws : List Text} (h : ∀ w ∈ ws, Solid w) :
    essence (trimTokensStart ws) = essence ws := by
  induction ws with
  | nil => rfl
  | cons w ws ih =>
    rw [trimTokensStart]
    rcases h w (by simp) with hb | ⟨hs, -, hne⟩
    · rw [if_pos (Text.trimStart_eq_nil.2 (Text.isBlank_of_isBreak hb)), essence_cons,
        share_break hb, ih fun v hv => h v (List.mem_cons_of_mem _ hv)]
      rfl
    · rw [hs, if_neg hne]

theorem essence_trimTokensEnd {ws : List Text} (h : ∀ w ∈ ws, Solid w) :
    essence (trimTokensEnd ws) = essence ws := by
  induction ws with
  | nil => rfl
  | cons w ws ih =>
    have ih := ih fun v hv => h v (List.mem_cons_of_mem _ hv)
    rw [trimTokensEnd, essence_cons, ← ih]
    by_cases hnil : trimTokensEnd ws = []
    · rw [if_pos hnil, hnil]
      rcases h w (by simp) with hb | ⟨-, he, hne⟩
      · rw [if_pos (Text.trimEnd_eq_nil.2 (Text.isBlank_of_isBreak hb)), share_break hb]
        rfl
      · rw [he, if_neg hne, essence_cons]
    · rw [if_neg hnil, essence_cons]

theorem mem_of_mem_trimTokensStart {w : Text} {ws : List Text} (h : ∀ w ∈ ws, Solid w)
    (hw : w ∈ trimTokensStart ws) : w ∈ ws := by
  induction ws with
  | nil => exact hw
  | cons v ws ih =>
    rw [trimTokensStart] at hw
    rcases h v (by simp) with hb | ⟨hs, -, hne⟩
    · rw [if_pos (Text.trimStart_eq_nil.2 (Text.isBlank_of_isBreak hb))] at hw
      exact List.mem_cons_of_mem _ (ih (fun u hu => h u (List.mem_cons_of_mem _ hu)) hw)
    · rwa [hs, if_neg hne] at hw

theorem essence_trimTokens {ws : List Text} (h : ∀ w ∈ ws, Solid w) :
    essence (trimTokens ws) = essence ws := by
  rw [trimTokens, essence_trimTokensEnd fun w hw => h w (mem_of_mem_trimTokensStart h hw),
    essence_trimTokensStart h]

/-! ## 3. Items and statements -/

theorem essence_breaks {bs : List Text} (hbs : AllBreaks bs) : essence bs = [] := by
  induction bs with
  | nil => rfl
  | cons b bs ih =>
    rw [essence_cons, share_break (hbs b (by simp)),
      ih fun v hv => hbs v (List.mem_cons_of_mem _ hv)]
    rfl

theorem essence_sentence (items : List Item) :
    essence (Item.sentence items) = essence (Item.leadTokens items) := by
  rw [Item.sentence, essence_append]
  split <;> simp

theorem essence_trim_written {ws : List Text} (h : ∀ w ∈ ws, IsToken w ∧ Solid w) :
    essence (Text.tokens (Text.trim (written ws))) = essence ws := by
  rw [Text.tokens_trim_written fun w hw => (h w hw).1, essence_trimTokens fun w hw => (h w hw).2]

/-- The statement of the words at the head has their tokens. -/
theorem essence_ofLead {items : List Item} {style : BodyStyle} (h : ItemsShaped style items)
    (hs : ∀ w ∈ Item.leadTokens items, Solid w) :
    essence (lineTokens (Statement.layoutAll (Statement.ofLead items))) =
      essence (Item.leadTokens items) := by
  rw [h.ofLead_eq]
  split
  · next hblank =>
    have htokens := essence_trim_written fun w hw => ⟨(h.plain w hw).1, hs w hw⟩
    rw [hblank, Text.tokens_nil] at htokens
    exact htokens
  · -- The full stop that may be put behind the words is a token like them.
    have hsentence : ∀ w ∈ Item.sentence items, IsToken w ∧ Solid w := by
      intro w hw
      refine ⟨(h.plain_sentence w hw).1, ?_⟩
      rcases List.mem_append.1 hw with hw | hw
      · exact hs w hw
      · split at hw
        · rw [List.mem_singleton.1 hw]
          exact .inr (by decide)
        · nomatch hw
    show essence (lineTokens [Text.trim _]) = _
    rw [Text.lineTokens_cons, Text.lineTokens_nil, List.append_nil, essence_cons, share_newline,
      List.nil_append, essence_trim_written hsentence, essence_sentence]

theorem essence_ofItems {items : List Item} {style : BodyStyle} (h : ItemsShaped style items)
    (hs : ∀ w ∈ Item.leadTokens items, Solid w) :
    essence (lineTokens (Statement.layoutAll (Statement.ofItems items))) =
      essence (Item.leadTokens items) ++
        essence (lineTokens (Statement.layoutAll (Statement.afterLead items))) := by
  rw [Statement.ofItems, Statement.layoutAll_append, Text.lineTokens_append, essence_append,
    essence_ofLead h hs]

theorem Derives.essence_lead {limit depth : Nat} {style : BodyStyle} {ws : List Text}
    {items : List Item} (h : Derives limit style depth ws items)
    (hw : ∀ w ∈ ws, Single w ∧ Solid w) :
    (∀ w ∈ Item.leadTokens items, Solid w) ∧
      essence ws = essence (Item.leadTokens items) ++
        essence (lineTokens (Statement.layoutAll (Statement.afterLead items))) := by
  induction h with
  | nil => exact ⟨fun _ h => (by cases h), rfl⟩
  | word hb _ _ _ ih =>
    obtain ⟨hsolid, he⟩ := ih fun v hv => hw v (List.mem_cons_of_mem _ hv)
    refine ⟨fun v hv => ?_, ?_⟩
    · rw [Item.leadTokens, List.mem_append, List.mem_cons] at hv
      rcases hv with hv | rfl | hv
      · exact .inl (hb.all v hv)
      · exact (hw _ (by simp)).2
      · exact hsolid v hv
    · rw [essence_cons, he, Item.leadTokens, essence_append, essence_breaks hb.all, essence_cons,
        List.nil_append, List.append_assoc]
      rfl
  | stop hd ih =>
    have hw := fun v hv => hw v (List.mem_cons_of_mem _ hv)
    obtain ⟨hsolid, he⟩ := ih hw
    refine ⟨fun _ h => (by cases h), ?_⟩
    -- The statements behind the full stop are all that there are.
    have hafter := essence_ofItems (hd.itemsShaped fun v hv => (hw v hv).1) hsolid
    rw [essence_cons, share_stop, he, ← hafter]
    rfl
  | @nested style depth hs us vs ws head closed inner items _ hhead _ hinner hclose hrest ih₁ ih₂ =>
    obtain ⟨hwi, hwr, hwh⟩ := forall_of_nested hw
    obtain ⟨hsolid₁, he₁⟩ := ih₁ hwi
    obtain ⟨hsolid₂, he₂⟩ := ih₂ hwr
    obtain ⟨hopen, hend⟩ := hhead.respelled hclose fun v hv => (hwh v hv).1
    refine ⟨fun _ h => (by cases h), ?_⟩
    -- The block is written between its own lines, and the items behind it follow.
    have hblock : essence (lineTokens (Statement.layoutAll (Statement.afterLead
        (.nested (.block closed (Statement.ofItems inner)) :: items)))) =
        essence (lineTokens closed.opening)
          ++ essence (lineTokens (Statement.layoutAll (Statement.ofItems inner)))
          ++ essence (lineTokens closed.closing)
          ++ essence (lineTokens (Statement.layoutAll (Statement.ofItems items))) := by
      rw [Statement.afterLead, Statement.lineTokens_layoutAll_block, essence_append, essence_append,
        essence_append]
      rfl
    rw [hblock, ← hopen.essence_eq, ← hend.essence_eq,
      essence_ofItems (hinner.itemsShaped fun v hv => (hwi v hv).1) hsolid₁,
      essence_ofItems (hrest.itemsShaped fun v hv => (hwr v hv).1) hsolid₂, ← he₁, ← he₂]
    simp [Item.leadTokens]

/-- The tokens that derive the items of a body are those of its statements. -/
theorem Derives.essence_eq {limit depth : Nat} {style : BodyStyle} {ws : List Text}
    {items : List Item} (h : Derives limit style depth ws items)
    (hw : ∀ w ∈ ws, Single w ∧ Solid w) :
    essence ws = essence (lineTokens (Statement.layoutAll (Statement.ofItems items))) := by
  obtain ⟨hsolid, he⟩ := h.essence_lead hw
  rw [he, essence_ofItems (h.itemsShaped fun v hv => (hw v hv).1) hsolid]

/-! ## 4. The cursors of a text -/

/-- True of characters that are not blank, and of the blanks that separate tokens. -/
def PlainBlank (c : Char) : Prop :=
  isBlank c = true → c = ' ' ∨ c = '\t' ∨ c = '\n' ∨ c = '\r'

instance : DecidablePred PlainBlank := fun c =>
  inferInstanceAs (Decidable (isBlank c = true → c = ' ' ∨ c = '\t' ∨ c = '\n' ∨ c = '\r'))

/-- Without other blanks than those that separate tokens every token is solid. -/
theorem solid_of_plainBlank {w : Text} (h : IsToken w) (hw : ∀ c ∈ w, PlainBlank c) : Solid w := by
  by_cases hb : isBreak w = true
  · exact .inl hb
  · rw [Bool.not_eq_true] at hb
    -- A word has no blanks: those that it could have would have ended it.
    have hword : (∀ c ∈ w, Text.continuesWord c = true) → ∀ c ∈ w, isBlank c = false := by
      intro hall c hc
      rw [← Bool.not_eq_true]
      intro hblank
      rcases hw c hc hblank with rfl | rfl | rfl | rfl <;> exact absurd (hall _ hc) (by decide)
    refine .inr ⟨?_, ?_, h.ne_nil⟩
    · rcases h.trimStart_eq hb with he | hall
      · exact he
      · cases w with
        | nil => rfl
        | cons c w => exact Text.trimStart_cons_letter (hword hall c (by simp))
    · rcases h.trimEnd_eq hb with he | hall
      · exact he
      · rcases List.eq_nil_or_concat w with rfl | ⟨v, c, rfl⟩
        · rfl
        · rw [List.concat_eq_append] at hword hall ⊢
          exact Text.trimEnd_append_letter v (hword hall c (by simp))

/-- The cursors that reading a text can come to: tokens are consumed one after the other, and a
token that was just consumed may be cut behind a word. -/
inductive Cursor.Reached (text : Text) : Cursor → Prop
  | start (cfg : Config) : Reached text (Query.cursor cfg text)
  | advance {c : Cursor} (n : Nat) : Reached text c → Reached text (c.advance n)
  | breakOff {c : Cursor} {head : Text} : (∀ ch ∈ head, Text.continuesWord ch = true) →
    Reached text c → Reached text (c.breakOff head)

variable {text : Text} {c c' : Cursor}

theorem Cursor.Reached.lexed (h : c.Reached text) : c.Lexed := by
  induction h with
  | start cfg =>
    obtain ⟨ws, hs, hscan⟩ := Cursor.lexed_start text (Text.byteLength text)
    exact ⟨ws, hs, hscan⟩
  | advance n _ ih => exact ih.advance n
  | breakOff hhead _ ih => exact ih.breakOff hhead

/-- All characters before and after the cursor are characters of the text. -/
theorem Cursor.Reached.mem_text (h : c.Reached text) :
    ∀ t, t ∈ c.consumed ∨ t ∈ c.upcoming → ∀ ch ∈ t.text, ch ∈ text := by
  induction h with
  | start cfg =>
    rintro t (ht | ht) ch hch
    · nomatch ht
    · exact Text.mem_of_mem_tokens (List.mem_map_of_mem ht) hch
  | @advance c n _ ih =>
    rintro t (ht | ht) ch hch
    -- What is consumed had come next before.
    · have ht : t ∈ (c.upcoming.take n).reverse ++ c.consumed := ht
      rcases List.mem_append.1 ht with ht | ht
      · exact ih t (.inr (List.mem_of_mem_take (List.mem_reverse.1 ht))) ch hch
      · exact ih t (.inl ht) ch hch
    · exact ih t (.inr (List.mem_of_mem_drop ht)) ch hch
  | @breakOff c head _ _ ih =>
    rw [Cursor.breakOff]
    cases hb : c.breakOff? head with
    | none => exact ih
    | some c₁ =>
      obtain ⟨u, before, hcons, -, -, -, hcons', hup'⟩ := Cursor.breakOff?_eq_some hb
      rintro t (ht | ht) ch hch
      -- Both pieces of the token that is cut have characters of that token.
      · rw [Option.getD_some, hcons', List.mem_cons] at ht
        rcases ht with rfl | ht
        · exact ih u (.inl (hcons ▸ List.mem_cons_self)) ch (List.mem_of_mem_take hch)
        · exact ih t (.inl (hcons ▸ List.mem_cons_of_mem _ ht)) ch hch
      · rw [Option.getD_some, hup', List.mem_cons] at ht
        rcases ht with rfl | ht
        · exact ih u (.inl (hcons ▸ List.mem_cons_self)) ch (List.mem_of_mem_drop hch)
        · exact ih t (.inr ht) ch hch

/-! ## 5. Conservation -/

/-- The lines of a body are its statements with line feeds between. -/
theorem tokens_lines_render {style : BodyStyle} {body : List Statement}
    (h : ShapedBody style body) :
    essence (Text.tokens (Text.lines (body.map Statement.render))) =
      essence (lineTokens (Statement.layoutAll body)) := by
  rw [← Text.tokens_onNewLines_of_closed (closed_layoutAll h), ← Statement.onNewLines_renderAll]
  cases hls : body.map Statement.render with
  | nil => simp [Text.lines, Text.onNewLines]
  | cons l ls => rw [← Text.cons_lines, Text.tokens_newline, essence_cons, share_newline,
      List.nil_append]

/-- Let a body be read at any cursor of a text without other blanks than spaces, tabs and line
breaks. The tokens consumed up to the closing brace are those of the statements as they are
written, apart from line breaks, full stops, WHERE and letter case. -/
theorem tokens_conserved {cfg : Config} {style : BodyStyle} {depth : Nat} {items : List Item}
    (htext : ∀ ch ∈ text, PlainBlank ch) (hc : c.Reached text)
    (h : readItems cfg style depth c = .ok (items, c')) :
    ∃ (ts : List Token) (ws : List Text), c'.consumed = ts.reverse ++ c.consumed ∧
      (ts.map Token.text).filter (!isBreak ·) = ws ++ [['\x7d']] ∧
      essence ws =
        essence (Text.tokens (Text.lines ((Statement.ofItems items).map Statement.render))) := by
  obtain ⟨ws, hp, hd, -⟩ := readItems_sound hc.lexed h
  have hplain := hp.forall_mem fun t ht ch hch => htext ch (hc.mem_text t (.inr ht) ch hch)
  have hw : ∀ w ∈ ws, Single w ∧ Solid w := fun w hw =>
    ⟨hp.single w hw, solid_of_plainBlank (hp.single w hw).1
      (hplain w (List.mem_append_left _ hw))⟩
  obtain ⟨-, -, ts, hts, hfilter, -⟩ := hp
  refine ⟨ts, ws, hts, hfilter, ?_⟩
  rw [tokens_lines_render (hd.itemsShaped fun w h => (hw w h).1).body, hd.essence_eq hw]

theorem tokens_conserved_optional :
    let text := "?s ?p ?o.. \x7b?a\n?b ?c\x7d . optional \x7b . \x7d \x7d".toList
    ∃ items c', readItems {} .segmented 0 (Query.cursor {} text) = .ok (items, c') ∧
      ∃ (ts : List Token) (ws : List Text),
        c'.consumed = ts.reverse ++ (Query.cursor {} text).consumed ∧
        (ts.map Token.text).filter (!isBreak ·) = ws ++ [['\x7d']] ∧
        essence ws =
          essence (Text.tokens (Text.lines ((Statement.ofItems items).map Statement.render))) := by
  intro text
  obtain ⟨⟨items, c'⟩, h⟩ := exists_eq_ok
    (x := readItems {} .segmented 0 (Query.cursor {} text)) (by decide +kernel)
  have hplain : text.all (PlainBlank ·) = true := by decide +kernel
  have htext : ∀ ch ∈ text, PlainBlank ch := fun ch hch =>
    of_decide_eq_true (List.all_eq_true.1 hplain ch hch)
  exact ⟨items, c', h, tokens_conserved htext (.start {}) h⟩

end SparqlTree
