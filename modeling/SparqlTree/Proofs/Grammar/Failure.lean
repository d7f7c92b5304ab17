import SparqlTree.Grammar.Draft

/-!
# Where a reading fails

The cursor at which each reading function raises its error. Readings in a row fail where the first
of them does that fails, and the ones before it are taken from the reading functions themselves.
Nothing is meant by the cursor that is given for a reading that does not fail.
-/

namespace SparqlTree

/-- Where two readings in a row fail: at `here` if the first one fails, and otherwise where the
second one does, behind what the first one has read. -/
def failAt {α : Type} (first : Except ParseError α) (here : Cursor) (there : α → Cursor) : Cursor :=
  match first with
  | .error _ => here
  | .ok a => there a

/-- Where a step that is taken again and again fails. -/
def Cursor.repeatFailure {α : Type} (step : Step α) (productive : step.Productive)
    (failure : α → Cursor → Cursor) (a : α) (c : Cursor) : Cursor :=
  match _h : step a c with
  | .error _ => failure a c
  | .ok none => c
  | .ok (some (a', c')) => repeatFailure step productive failure a' c'
termination_by c.size
decreasing_by exact productive a c a' c' _h

theorem Cursor.repeatFailure_eq {α : Type} (step : Step α) (productive : step.Productive)
    (failure : α → Cursor → Cursor) (a : α) (c : Cursor) :
    repeatFailure step productive failure a c =
      failAt (step a c) (failure a c) fun r =>
        match r with
        | none => c
        | some (a', c') => repeatFailure step productive failure a' c' := by
  rw [repeatFailure]
  cases step a c with
  | error e => rfl
  | ok r => cases r <;> rfl

/-! ## 1. Heads

A token that is due is consumed before it is tested, so that its reading fails behind it. -/

/-- Where the reading of a solution modifier fails. -/
def Modifier.failure (c : Cursor) : Cursor :=
  match c.peek with
  | none => c
  | some t =>
    if Keyword.limit.spells t.text || Keyword.offset.spells t.text then c.pass.pass
    else if Keyword.group.spells t.text then
      failAt (c.pass.require .groupBy (Keyword.by_.spells ·.text)) c.pass.pass fun r => r.2.pass
    else if Keyword.order.spells t.text then
      failAt (c.pass.require .orderBy (Keyword.by_.spells ·.text)) c.pass.pass fun r => r.2.pass
    else c

/-- Where the reading of all solution modifiers fails. -/
def Modifier.failureAll (c : Cursor) : Cursor :=
  Cursor.repeatFailure step step_productive (fun _ c => failure c) [] c

/-- Where the reading of FROM and its graph fails. -/
def failureDataset (c : Cursor) : Cursor :=
  match c.eat? .fromClause with
  | none => c
  | some c => (c.skip .named).pass

namespace Projection

/-- Where the reading of WHERE and an opening brace fails. With neither of them, it fails at a token
that was not consumed. -/
def failureWhere (c : Cursor) : Cursor :=
  match c.eatGlued? .whereClause with
  | some c => c.pass
  | none => if c.atKind .openBrace then c.pass else c

/-- Where the reading of a projection fails. -/
def failure (c : Cursor) : Cursor :=
  let (tokens, c) := (readQuantifier? c).2.takeRun isProjected
  if tokens.isEmpty then c
  else failAt (readDataset? c) (failureDataset c) fun r => failureWhere r.2

end Projection

namespace Head

/-- Where the reading of an opening brace fails, with WHERE before it or without. -/
def failureOptionalWhere (c : Cursor) : Cursor := (c.skipGlued .whereClause).pass

/-- Where the reading of the head of a group fails. -/
def failureGroup (c : Cursor) : Cursor :=
  match c.eatGlued? .optional with
  | some c => c.pass
  | none =>
    match c.eatGlued? .graph with
    | some c => failAt c.requireIri c.pass fun r => r.2.pass
    | none => c.pass

/-- Where the reading of the head of a nested block fails. -/
def failureNested (c : Cursor) : Cursor :=
  if atSubSelect c then Projection.failure c.pass.pass else failureGroup c

/-- Where the reading of a template fails. One that is not closed is read to the end. -/
def failureTemplate (c : Cursor) : Cursor := failAt (readOpenBrace c) c.pass Cursor.drain

/-- Where the reading of the head of a CONSTRUCT form fails. -/
def failureConstruct (c : Cursor) : Cursor :=
  failAt (readTemplate c) (failureTemplate c) fun r => failureOptionalWhere r.2

/-- Where the reading of what closes a block fails. -/
def failureClose (head : Head) (c : Cursor) : Cursor :=
  match head with
  | select _ | describe _ => failAt (Modifier.readAll c) (Modifier.failureAll c) fun r => r.2.pass
  | construct .. => Modifier.failureAll c
  | group .. | pattern | ask => c

end Head

/-! ## 2. Bodies -/

/-- Where the reading of items fails: at a block that is too deep, in one of the parts of a block,
or at the end of the text. -/
def failureItems (cfg : Config) (style : BodyStyle) (depth : Nat) (c : Cursor) : Cursor :=
  match _hp : c.peek with
  | none => c.drain
  | some t =>
    if t.kind = .closeBrace then c
    else if Head.begins t then
      if cfg.maxDepth ≤ depth then c
      else
        match _hopen : Head.readNested c with
        | .error _ => Head.failureNested c
        | .ok (head, c₁) =>
          match _hinner : readItems cfg head.bodyStyle (depth + 1) c₁ with
          | .error _ => failureItems cfg head.bodyStyle (depth + 1) c₁
          | .ok (_, c₂) =>
            match _hclose : head.close c₂ with
            | .error _ => Head.failureClose head c₂
            | .ok (_, c₃) => failureItems cfg style depth c₃
    else if isStop style t then failureItems cfg style depth (c.pass.breakOff ['.'])
    else failureItems cfg style depth c.pass
termination_by c.size
decreasing_by
  · exact Head.size_readNested_lt _hopen
  · exact size_block_lt _hopen _hinner _hclose
  · exact Cursor.size_pass_breakOff_lt _hp _
  · exact Cursor.size_pass_lt _hp

/-- Where items fail, one part after the other. -/
theorem failureItems_eq (cfg : Config) (style : BodyStyle) (depth : Nat) (c : Cursor) :
    failureItems cfg style depth c =
      (match c.peek with
      | none => c.drain
      | some t =>
        if t.kind = .closeBrace then c
        else if Head.begins t then
          if cfg.maxDepth ≤ depth then c
          else
            failAt (Head.readNested c) (Head.failureNested c) fun opened =>
              failAt (readItems cfg opened.1.bodyStyle (depth + 1) opened.2)
                (failureItems cfg opened.1.bodyStyle (depth + 1) opened.2) fun inner =>
                  failAt (opened.1.close inner.2) (opened.1.failureClose inner.2) fun closed =>
                    failureItems cfg style depth closed.2
        else if isStop style t then failureItems cfg style depth (c.pass.breakOff ['.'])
        else failureItems cfg style depth c.pass) := by
  rw [failureItems]
  split
  · next hp => rw [hp]
  next t hp =>
  rw [hp]
  dsimp only
  split
  · rfl
  split
  · split
    · rfl
    · split
      · next hopen => rw [hopen, failAt]
      next hopen =>
      rw [hopen, failAt]
      dsimp only
      split
      · next hinner => rw [hinner, failAt]
      next hinner =>
      rw [hinner, failAt]
      dsimp only
      split
      · next hclose => rw [hclose, failAt]
      · next hclose => rw [hclose, failAt]
  split
  · rfl
  · rfl

/-- Where the reading of a block behind its head fails. -/
def Head.failureBlock (cfg : Config) (head : Head) (c : Cursor) : Cursor :=
  failAt (readBody cfg head.bodyStyle c) (failureItems cfg head.bodyStyle 0 c) fun r =>
    head.failureClose r.2

namespace UpdateHead

/-- Where the reading of the WHERE body of an update fails. -/
def failureAttached (cfg : Config) (c : Cursor) : Cursor :=
  match c.eatGlued? .whereClause with
  | none => c
  | some c => failAt (readOpenBrace c) c.pass (failureItems cfg .segmented 0)

/-- Where the reading of an update fails behind its keyword. -/
def failure (cfg : Config) (c : Cursor) : Cursor :=
  let c₁ := c.skipGlued .data
  failAt (readOpenBrace c₁) c₁.pass fun c₂ =>
    failAt (readBody cfg .whole c₂) (failureItems cfg .whole 0 c₂) fun r =>
      if lacksWhere cfg (c.atGlued .data) r.1 r.2 then r.2 else failureAttached cfg r.2

end UpdateHead

/-! ## 3. Clauses -/

namespace Draft

/-- Where the reading of the declaration of a prefix fails behind its keyword. -/
def failurePrefix (c : Cursor) : Cursor :=
  failAt (c.expect .prefixLabel) c.pass fun label =>
    if label.1.text.getLast? = some ':' then label.2.pass
    else failAt (label.2.require .colon (·.text == [':'])) label.2.pass fun colon => colon.2.pass

/-- Where the reading of a declaration fails. -/
def failureDeclaration (k : Keyword) (d : Draft) (c : Cursor) : Cursor :=
  if d.prologueClosed then c
  else if k = .prefixDecl then failurePrefix c.pass
  else c.pass.pass

/-- Where the reading of a query form fails. -/
def failureForm (cfg : Config) (k : Keyword) (d : Draft) (c : Cursor) : Cursor :=
  if d.form.isSome then c
  else
    match k with
    | .select =>
      failAt (Projection.read false c.pass) (Projection.failure c.pass) fun p =>
        Head.failureBlock cfg (.select p.1) p.2
    | .describe =>
      failAt (Projection.read false c.pass) (Projection.failure c.pass) fun p =>
        Head.failureBlock cfg (.describe p.1) p.2
    | .construct =>
      failAt (Head.readConstruct c.pass) (Head.failureConstruct c.pass) fun head =>
        Head.failureBlock cfg head.1 head.2
    | _ =>
      failAt (readDataset? c.pass) (failureDataset c.pass) fun dataset =>
        failAt (Head.readOptionalWhere dataset.2) (Head.failureOptionalWhere dataset.2)
          (Head.failureBlock cfg .ask)

/-- Where the reading of an update fails. -/
def failureUpdate (cfg : Config) (d : Draft) (c : Cursor) : Cursor :=
  if d.form = none ∨ d.form = some .update then UpdateHead.failure cfg c.pass else c

/-- Where the reading of the clause fails that begins with the keyword that comes next. -/
def failureClause (cfg : Config) (k : Keyword) (d : Draft) (c : Cursor) : Cursor :=
  match k with
  | .prefixDecl | .base => failureDeclaration k d c
  | .fromClause => (c.pass.skip .named).pass
  | .withGraph => c.pass.pass
  | .select | .construct | .describe | .ask => failureForm cfg k d c
  | .insert | .delete => failureUpdate cfg d c
  | .whereClause => failAt (readOpenBrace c.pass) c.pass.pass (Head.failureBlock cfg .pattern)
  | _ => c

/-- Where the reading of one clause fails. -/
def failureStep (cfg : Config) (d : Draft) (c : Cursor) : Cursor :=
  match c.peek with
  | none => c
  | some t =>
    match Keyword.ofText? t.text with
    | none => c
    | some k => failureClause cfg k d c

/-- Where the reading of all clauses fails. -/
def failure (cfg : Config) (c : Cursor) : Cursor :=
  Cursor.repeatFailure (step cfg) (step_productive cfg) (failureStep cfg) {} c

end Draft

end SparqlTree
