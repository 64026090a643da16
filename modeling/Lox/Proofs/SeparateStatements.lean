import Mathlib
import Lox.Proofs.ReadMoved
import Lox.Proofs.RecoveringReader

/-!
Statements in a row, each beginning with `var`, `print` or `return`, some of them wrong. Each is read
as if it stood alone, with one exception: where a statement goes wrong only at the first word of the
next one, this word is passed over as the token in error, and the next statement with it.
-/

namespace Lox.Grammar

open Reader

/-! ### Statements without statements inside -/

/-- Tokens of expressions have been taken, and where that was a success, the semicolon after them. -/
def Ended {α : Type} (rest : List Token) : EStateM.Result SyntaxError Cursor α → Prop
  | .ok _ d => ∃ used semicolon, rest = used ++ semicolon :: d.rest ∧
      semicolon.kind = .mark .semicolon ∧ ∀ t ∈ used, t.kind.inExpression = true
  | .error _ d => ∃ used, rest = used ++ d.rest ∧ ∀ t ∈ used, t.kind.inExpression = true

/-- The reader takes a semicolon as the last thing it does. -/
def EndsClause {α : Type} (bound : Nat) (r : Reader α) : Prop :=
  ∀ c, c.rest.length ≤ bound → Ended c.rest (r c)

/-- The reader takes tokens of expressions only. -/
def Within {α : Type} (bound : Nat) (r : Reader α) : Prop :=
  ∀ c, c.rest.length ≤ bound → match r c with
    | .ok _ d | .error _ d => ∃ used, c.rest = used ++ d.rest ∧
        ∀ t ∈ used, t.kind.inExpression = true

section Clauses

variable {α β : Type} {bound : Nat} {r : Reader α} {f : α → Reader β}

theorem Foretells.within {known : Token → Prop} {closes : List Token → Prop} {least : List Token}
    {size : Unit → Nat} {r' : Unit → Reader α}
    (foretells : Foretells known TokenKind.inExpression closes least (bound + 1) size r r') :
    Within bound r := by
  intro c room
  have told := foretells c (Nat.lt_succ_of_le room)
  cases reading : r c with
  | ok a d =>
    rw [reading] at told
    obtain ⟨used, told⟩ := told
    exact ⟨used, told.split, told.kinds⟩
  | error e d =>
    rw [reading] at told
    obtain ⟨used, told⟩ := told
    exact ⟨used, told.split, told.kinds⟩

theorem Within.accept? {fits : TokenKind → Bool}
    (allowed : ∀ k, fits k = true → k.inExpression = true) : Within bound (accept? fits) := by
  rintro ⟨rest, id⟩ _
  by_cases next : Next fits rest
  · obtain ⟨t, first, inside, fitting⟩ := next
    obtain ⟨rest, rfl⟩ := List.head?_eq_some_iff.1 first
    rw [accept?_some rest id inside fitting]
    exact ⟨[t], rfl, List.forall_mem_singleton.2 (allowed _ fitting)⟩
  · rw [accept?_none id next]
    exact ⟨[], rfl, List.forall_mem_nil _⟩

theorem EndsClause.semicolon {what : Expectation} (x : α) :
    EndsClause bound (expectMark .semicolon what >>= fun _ => pure x) := by
  rintro ⟨rest, id⟩ _
  by_cases next : Next (·.isMark .semicolon) rest
  · obtain ⟨t, first, inside, fitting⟩ := next
    obtain ⟨rest, rfl⟩ := List.head?_eq_some_iff.1 first
    have taken : expectMark .semicolon what ⟨t :: rest, id⟩ = .ok t ⟨rest, id⟩ := by
      rw [expectMark, Reader.expect, bind_of_ok (accept?_some rest id inside fitting)]
      rfl
    rw [bind_of_ok taken]
    exact ⟨[], t, rfl, TokenKind.isMark_iff.1 fitting, List.forall_mem_nil _⟩
  · have refused : expectMark .semicolon what ⟨rest, id⟩ =
        .error ⟨Cursor.next ⟨rest, id⟩, .expected what⟩ ⟨rest, id⟩ := by
      rw [expectMark, Reader.expect, bind_of_ok (accept?_none id next)]
      rfl
    rw [bind_of_error refused]
    exact ⟨[], rfl, List.forall_mem_nil _⟩

/-- Tokens of expressions may come first. -/
theorem Within.bind (first : Within bound r) (second : ∀ a, EndsClause bound (f a)) :
    EndsClause bound (r >>= f) := by
  intro c room
  have begun := first c room
  cases reading : r c with
  | error e d =>
    rw [reading] at begun
    rw [bind_of_error reading]
    exact begun
  | ok a d =>
    rw [reading] at begun
    obtain ⟨used, split, kinds⟩ := begun
    rw [split, List.length_append] at room
    have rest := second a d (by omega)
    rw [bind_of_ok reading]
    cases reading' : f a d with
    | error e d' =>
      rw [reading'] at rest
      obtain ⟨used', split', kinds'⟩ := rest
      refine ⟨used ++ used', by rw [split, split', List.append_assoc], fun t among => ?_⟩
      exact (List.mem_append.1 among).elim (kinds t) (kinds' t)
    | ok b d' =>
      rw [reading'] at rest
      obtain ⟨used', semicolon, split', is, kinds'⟩ := rest
      refine ⟨used ++ used', semicolon, by rw [split, split', List.append_assoc], is,
        fun t among => ?_⟩
      exact (List.mem_append.1 among).elim (kinds t) (kinds' t)

theorem expression_within : Within bound (expression bound) := by
  have predicts : Predicts (fun _ => False) TokenKind.inExpression (Stops .expression) [aNil]
      (bound + 1) (fun _ : Unit => 0) (expression bound) (fun _ => expression bound) :=
    expression_predicts (Nat.le_refl _) fun _ => Nat.zero_le _
  exact Foretells.within predicts.foretells

theorem printStatement_ends : EndsClause bound (printStatement bound) :=
  expression_within.bind fun _ => .semicolon _

theorem returnStatement_ends (keyword : Token) : EndsClause bound (returnStatement keyword bound) := by
  have predicts : Predicts (fun _ => False) TokenKind.inExpression (ClosedBy .semicolon) []
      (bound + 1) (fun _ : Unit => 0) (expressionUnless .semicolon bound)
      (fun _ => expressionUnless .semicolon bound) :=
    expressionUnless_predicts (Nat.le_refl _) (fun _ => Nat.zero_le _) (by decide)
  exact (Foretells.within predicts.foretells).bind fun _ => .semicolon _

theorem varDeclaration_ends : EndsClause bound (varDeclaration bound) := by
  have predicts : Predicts (fun _ => False) TokenKind.inExpression (fun _ => True)
      [.bare .identifier] (bound + 1) (fun _ : Unit => 0) (expectName .variableName)
      (fun _ => expectName .variableName) := .name rfl
  have equals : Within bound (Reader.accept? (·.isMark .equal)) := .accept? fun k is => by
    rw [TokenKind.isMark_iff.1 is]
    rfl
  refine (Foretells.within predicts.foretells).bind fun name => equals.bind fun t? => ?_
  cases t? with
  | none => exact .semicolon _
  | some t => exact expression_within.bind fun _ => .semicolon _

end Clauses

/-- The first word of a statement without statements inside. -/
def opensClause (k : TokenKind) : Bool :=
  [TokenKind.keyword .var, .keyword .print, .keyword .return_].contains k

theorem declaration_ends {k : Token} (opens : opensClause k.kind = true) (rest : List Token)
    (id : ExprId) : Ended rest (declaration (k :: rest).length ⟨k :: rest, id⟩) := by
  have room : rest.length ≤ rest.length + 1 := Nat.le_succ _
  have words : k.kind = .keyword .var ∨ k.kind = .keyword .print ∨ k.kind = .keyword .return_ := by
    simpa [opensClause] using opens
  obtain ⟨kind, lexeme, line⟩ := k
  dsimp only at words
  rcases words with rfl | rfl | rfl
  · exact varDeclaration_ends ⟨rest, id⟩ room
  · exact printStatement_ends ⟨rest, id⟩ room
  · exact returnStatement_ends _ ⟨rest, id⟩ room

/-! ### A statement before others -/

/-- The tokens of one statement, right or wrong: its first word, and no word after it that could
begin another. A semicolon may end it. -/
structure Group (g : List Token) : Prop where
  opens : ∃ t ∈ g.head?, opensClause t.kind = true
  alone : ∀ t ∈ g.tail, startsStatement t.kind = false
  inside : ∀ t ∈ g, t.kind.isEnd = false
  semicolons : ∀ t ∈ g.dropLast, t.kind ≠ .mark .semicolon

instance (g : List Token) : Decidable (Group g) :=
  decidable_of_iff ((∃ t ∈ g.head?, opensClause t.kind = true) ∧
      (∀ t ∈ g.tail, startsStatement t.kind = false) ∧ (∀ t ∈ g, t.kind.isEnd = false) ∧
      ∀ t ∈ g.dropLast, t.kind ≠ .mark .semicolon)
    ⟨fun ⟨opens, alone, inside, semicolons⟩ => ⟨opens, alone, inside, semicolons⟩,
      fun ⟨opens, alone, inside, semicolons⟩ => ⟨opens, alone, inside, semicolons⟩⟩

/-- The next token is the first word of a statement, or the tokens have ended. -/
def Bounds (more : List Token) : Prop :=
  ∀ t ∈ more.head?, t.kind.isEnd = true ∨ startsStatement t.kind = true

theorem Bounds.noElse {more : List Token} (bounds : Bounds more) : NoElse more := by
  rintro ⟨t, first, inside, is⟩
  rcases bounds t first with ended | starts
  · rw [inside] at ended
    cases ended
  · rw [TokenKind.isKeyword_iff.1 is] at starts
    cases starts

theorem Bounds.outside {t : Token} {more : List Token} (bounds : Bounds (t :: more)) :
    t.kind.inExpression = false ∧ t.kind ≠ .mark .semicolon := by
  have first := bounds t rfl
  revert first
  cases t.kind with
  | mark m => cases m <;> simp [TokenKind.isEnd, startsStatement]
  | keyword w => cases w <;> simp [TokenKind.isEnd, startsStatement, TokenKind.inExpression]
  | endOfText => simp [TokenKind.inExpression]
  | _ => simp [TokenKind.isEnd, startsStatement]

/-- Tokens of expressions are taken from the statement alone. -/
theorem Bounds.taken {body used rest more : List Token} (bounds : Bounds more)
    (split : body ++ more = used ++ rest) (kinds : ∀ t ∈ used, t.kind.inExpression = true) :
    ∃ left, body = used ++ left ∧ rest = left ++ more := by
  rcases List.append_eq_append_iff.1 split with ⟨between, taken, left⟩ | ⟨between, taken, left⟩
  · cases between with
    | nil => exact ⟨[], by rw [taken, List.append_nil, List.append_nil], left.symm⟩
    | cons t between =>
      rw [left] at bounds
      have outside := bounds.outside.1
      rw [kinds t (by rw [taken]; simp)] at outside
      cases outside
  · exact ⟨between, taken, left⟩

section Reading

variable {g more : List Token} (group : Group g) (bounds : Bounds more)
include group bounds

/-- A success takes the whole statement, and nothing of what comes after it. -/
theorem Group.read_ok {id : ExprId} {s : Stmt} {d : Cursor}
    (reading : declaration (g ++ more).length ⟨g ++ more, id⟩ = .ok s d) :
    d.rest = more ∧ declaration g.length ⟨g, id⟩ = .ok s ⟨[], d.nextId⟩ := by
  have told := declaration_told ⟨g ++ more, id⟩
  rw [reading] at told
  obtain ⟨used, told⟩ := told
  have split : g ++ more = used ++ d.rest := told.split
  have left : d.rest = more := by
    obtain ⟨k, first, opens⟩ := group.opens
    obtain ⟨body, rfl⟩ := List.head?_eq_some_iff.1 first
    have ends := declaration_ends opens (body ++ more) id
    rw [List.cons_append] at reading
    rw [reading] at ends
    obtain ⟨used', semicolon, split', is, kinds⟩ := ends
    obtain ⟨left, whole, rest⟩ := bounds.taken split' kinds
    cases left with
    | nil =>
      subst rest
      exact absurd is bounds.outside.2
    | cons t left =>
      obtain ⟨rfl, after⟩ := List.cons.inj rest
      cases left with
      | nil => exact after
      | cons t left =>
        refine absurd is (group.semicolons semicolon ?_)
        rw [whole, ← List.cons_append, List.dropLast_append_of_ne_nil (List.cons_ne_nil _ _)]
        simp
  refine ⟨left, ?_⟩
  rw [left] at split
  obtain rfl : g = used := List.append_cancel_right split
  have alone := told.alike [] (.inr (by rintro ⟨_, none, -⟩; cases none)) g.length
    (by rw [List.append_nil]; exact Nat.lt_succ_self _)
  rwa [List.append_nil] at alone

/-- An error leaves an end of the statement, and all that comes after it. -/
theorem Group.left_of_error {id : ExprId} {e : SyntaxError} {d : Cursor}
    (reading : declaration (g ++ more).length ⟨g ++ more, id⟩ = .error e d) :
    ∃ left, left <:+ g.tail ∧ d.rest = left ++ more := by
  obtain ⟨k, first, opens⟩ := group.opens
  obtain ⟨body, rfl⟩ := List.head?_eq_some_iff.1 first
  have ends := declaration_ends opens (body ++ more) id
  rw [List.cons_append] at reading
  rw [reading] at ends
  obtain ⟨used, split, kinds⟩ := ends
  obtain ⟨left, whole, rest⟩ := bounds.taken split kinds
  exact ⟨left, ⟨used, whole.symm⟩, rest⟩

/-- Where an error leaves nothing of the statement, there is one as well when it stands alone, at
its end. -/
theorem Group.fails_alone {id : ExprId} {e : SyntaxError} {d : Cursor}
    (reading : declaration (g ++ more).length ⟨g ++ more, id⟩ = .error e d) (rest : d.rest = more) :
    ∃ e' id', declaration g.length ⟨g, id⟩ = .error e' ⟨[], id'⟩ := by
  have told := declaration_told ⟨g, id⟩
  cases alone : declaration g.length ⟨g, id⟩ with
  | ok s d' =>
    -- What is read alone is read before other statements, too.
    rw [alone] at told
    obtain ⟨used, told⟩ := told
    have whole : g = used ++ d'.rest := told.split
    have ended : d'.rest = [] := by
      have none : Bounds [] := nofun
      have alone' : declaration (g ++ []).length ⟨g ++ [], id⟩ = .ok s d' := by
        rwa [List.append_nil]
      exact (group.read_ok none alone').1
    rw [ended, List.append_nil] at whole
    subst whole
    have reads := told.alike more (.inr bounds.noElse) _ (Nat.lt_succ_self _)
    cases reads.symm.trans reading
  | error e' d' =>
    rw [alone] at told
    obtain ⟨used, told⟩ := told
    have whole : g = used ++ d'.rest := told.split
    have ended : d'.rest = [] := by
      by_contra some
      have head : (d'.rest ++ more).head? = d'.rest.head? := List.head?_append_of_ne_nil _ some
      have fails := told.alike (d'.rest ++ more) head _ (Nat.lt_succ_self _)
      rw [← List.append_assoc, ← whole] at fails
      have same := congrArg Cursor.rest (EStateM.Result.error.inj (fails.symm.trans reading)).2
      rw [rest] at same
      exact some (List.append_left_eq_self.1 same)
    exact ⟨e', d'.nextId, by rw [← ended]⟩

/-- An error leaves the same of the statement whether it stands alone or not. -/
theorem Group.read_error {id : ExprId} {e : SyntaxError} {d : Cursor}
    (reading : declaration (g ++ more).length ⟨g ++ more, id⟩ = .error e d) :
    ∃ left e' id', d.rest = left ++ more ∧ left <:+ g.tail ∧
      declaration g.length ⟨g, id⟩ = .error e' ⟨left, id'⟩ := by
  obtain ⟨left, suffix, rest⟩ := group.left_of_error bounds reading
  by_cases nothing : left = []
  · subst nothing
    obtain ⟨e', id', alone⟩ := group.fails_alone bounds reading rest
    exact ⟨[], e', id', rest, suffix, alone⟩
  · have told := declaration_told ⟨g ++ more, id⟩
    rw [reading] at told
    obtain ⟨used, told⟩ := told
    have split : g = used ++ left := by
      have split : g ++ more = used ++ d.rest := told.split
      rw [rest, ← List.append_assoc] at split
      exact List.append_cancel_right split
    have head : left.head? = d.rest.head? := by
      rw [rest, List.head?_append_of_ne_nil _ nothing]
    have alone := told.alike left head g.length (by rw [← split]; exact Nat.lt_succ_self _)
    rw [← split] at alone
    exact ⟨left, e, d.nextId, rest, suffix, alone⟩

end Reading

/-! ### Passing over a statement -/

theorem boundaryAfter_over {more : List Token} (bounds : Bounds more) (last : Token)
    {passed : List Token} (inside : ∀ t ∈ passed, t.kind.isEnd = false)
    (alone : ∀ t ∈ passed, startsStatement t.kind = false)
    (semicolons : ∀ t ∈ (last :: passed).dropLast, t.kind ≠ .mark .semicolon) :
    boundaryAfter last (passed ++ more) = more := by
  induction passed generalizing last with
  | nil =>
    cases more with
    | nil => rfl
    | cons t more =>
      refine if_pos ?_
      rcases bounds t rfl with ended | starts
      · simp [ended]
      · simp [starts]
  | cons t passed ih =>
    obtain ⟨insideFirst, inside⟩ := List.forall_mem_cons.1 inside
    obtain ⟨aloneFirst, alone⟩ := List.forall_mem_cons.1 alone
    rw [List.dropLast_cons_cons] at semicolons
    obtain ⟨goesOn, semicolons⟩ := List.forall_mem_cons.1 semicolons
    have unmarked : last.kind.isMark .semicolon = false :=
      Bool.eq_false_iff.2 fun is => goesOn (TokenKind.isMark_iff.1 is)
    rw [List.cons_append, boundaryAfter, insideFirst, unmarked, aloneFirst]
    exact ih t inside alone semicolons

/-- Recovery passes over what is left of a statement, whatever the token in error. -/
theorem resume_over {more passed : List Token} (bounds : Bounds more) (some : passed ≠ [])
    (inside : ∀ t ∈ passed, t.kind.isEnd = false)
    (alone : ∀ t ∈ passed.tail, startsStatement t.kind = false)
    (semicolons : ∀ t ∈ passed.dropLast, t.kind ≠ .mark .semicolon) :
    resume (passed ++ more) = more := by
  cases passed with
  | nil => exact absurd rfl some
  | cons t passed =>
    obtain ⟨first, inside⟩ := List.forall_mem_cons.1 inside
    rw [List.cons_append, resume, first, if_neg Bool.false_ne_true]
    exact boundaryAfter_over bounds t inside alone semicolons

/-! ### All statements -/

/-- Reading the statement alone ends in an error with no token left. -/
def breaksOff (g : List Token) : Bool :=
  match declaration g.length ⟨g, 0⟩ with
  | .ok _ _ => false
  | .error _ d => d.rest.isEmpty

/-- The statements that are read: after one that breaks off, the next is passed over. -/
def heard : List (List Token) → List (List Token)
  | [] => []
  | [g] => [g]
  | g :: g' :: gs => if breaksOff g then g :: heard gs else g :: heard (g' :: gs)

/-- The item is what reading the statement alone gives, up to ids: the same tree, or some error. -/
def ReadAlone (g : List Token) : Except SyntaxError Stmt → Prop
  | .ok s => ∀ id, ∃ s', (readProgram g id).value = .ok [s'] ∧ s'.plain = s.plain
  | .error _ => ∀ id, ∃ e, (readProgram g id).value = .error e

/-- Success and the tree do not depend on ids. -/
theorem readProgram_anywhere {tokens : List Token} {id : ExprId} {program : List Stmt}
    (read : (readProgram tokens id).value = .ok program) (id' : ExprId) :
    ∃ program', (readProgram tokens id').value = .ok program' ∧
      program'.map Stmt.plain = program.map Stmt.plain :=
  readProgram_complete id' (readProgram_sound read)

section Alone

variable {g : List Token} (group : Group g)
include group

theorem Group.goesOn (more : List Token) (id : ExprId) :
    (Cursor.atEnd ⟨g ++ more, id⟩) = false := by
  obtain ⟨k, first, -⟩ := group.opens
  obtain ⟨body, rfl⟩ := List.head?_eq_some_iff.1 first
  exact group.inside k List.mem_cons_self

theorem Group.declarations_eq (id : ExprId) : declarations g.length ⟨g, id⟩ =
    (do let s ← declaration g.length; let rest ← declarations (g.length - 1); pure (s :: rest))
      ⟨g, id⟩ := by
  have goesOn := group.goesOn [] id
  rw [List.append_nil] at goesOn
  obtain ⟨k, first, -⟩ := group.opens
  obtain ⟨body, rfl⟩ := List.head?_eq_some_iff.1 first
  exact declarations_goesOn goesOn body.length

theorem Group.readAlone_ok {id id' : ExprId} {s : Stmt}
    (reading : declaration g.length ⟨g, id⟩ = .ok s ⟨[], id'⟩) : ReadAlone g (.ok s) := by
  have whole : declarations g.length ⟨g, id⟩ = .ok [s] ⟨[], id'⟩ := by
    rw [group.declarations_eq, bind_of_ok reading]
    cases g.length - 1 <;> rfl
  have read : (readProgram g id).value = .ok [s] := by
    rw [readProgram, whole]
    rfl
  intro id''
  obtain ⟨program, read', same⟩ := readProgram_anywhere read id''
  obtain ⟨s', rfl, alike⟩ : ∃ s', program = [s'] ∧ s'.plain = s.plain := by
    cases program with
    | nil => cases same
    | cons s' rest =>
      obtain ⟨first, none⟩ := List.cons.inj same
      exact ⟨s', by rw [List.map_eq_nil_iff.1 none], first⟩
  exact ⟨s', read', alike⟩

theorem Group.readAlone_error {id id' : ExprId} {e : SyntaxError} {left : List Token}
    (reading : declaration g.length ⟨g, id⟩ = .error e ⟨left, id'⟩) (e' : SyntaxError) :
    ReadAlone g (.error e') := by
  have whole : declarations g.length ⟨g, id⟩ = .error e ⟨left, id'⟩ := by
    rw [group.declarations_eq, bind_of_error reading]
  have fails : (readProgram g id).value = .error e := by
    rw [readProgram, whole]
    rfl
  intro id''
  cases read : (readProgram g id'').value with
  | error e'' => exact ⟨e'', rfl⟩
  | ok program =>
    obtain ⟨program', read', -⟩ := readProgram_anywhere read id
    cases fails.symm.trans read'

end Alone

/-- Whether a statement breaks off does not depend on ids. -/
theorem breaksOff_eq {g : List Token} {id : ExprId} : breaksOff g =
    match declaration g.length ⟨g, id⟩ with
    | .ok _ _ => false
    | .error _ d => d.rest.isEmpty := by
  have still : Shift.token ⟨id, 0⟩ = fun t => t := rfl
  have cursor : Shift.cursor ⟨id, 0⟩ ⟨g, 0⟩ = ⟨g, id⟩ := by
    rw [Shift.cursor, still, List.map_id', Nat.zero_add]
  have follows := (declaration_follows (k := ⟨id, 0⟩) g.length).1 ⟨g, 0⟩
  unfold breaksOff
  cases reading : declaration g.length ⟨g, 0⟩ with
  | ok s d =>
    rw [reading, cursor] at follows
    rw [follows]
  | error e d =>
    rw [reading, cursor] at follows
    obtain ⟨e', follows, -⟩ := follows
    rw [follows]
    simp only [Shift.cursor, still, List.map_id']

theorem Group.starts {g : List Token} (group : Group g) :
    ∃ t body, g = t :: body ∧ startsStatement t.kind = true := by
  obtain ⟨t, first, opens⟩ := group.opens
  obtain ⟨body, rfl⟩ := List.head?_eq_some_iff.1 first
  refine ⟨t, body, rfl, ?_⟩
  have words : t.kind = .keyword .var ∨ t.kind = .keyword .print ∨ t.kind = .keyword .return_ := by
    simpa [opensClause] using opens
  rcases words with is | is | is <;> rw [is] <;> rfl

/-- One statement gives one item. What comes after it is left, unless the statement breaks off. -/
theorem Group.recovered {g more : List Token} (group : Group g) (bounds : Bounds more) {bound : Nat}
    (room : (g ++ more).length ≤ bound) (id : ExprId) :
    ∃ item less id', ReadAlone g item ∧ more.length ≤ less ∧
      (recoverFrom bound ⟨g ++ more, id⟩).1 =
        item :: (recoverFrom less ⟨if breaksOff g then resume more else more, id'⟩).1 := by
  obtain ⟨less, rfl, room'⟩ : ∃ less, bound = less + 1 ∧ more.length ≤ less := by
    obtain ⟨t, body, rfl, -⟩ := group.starts
    rw [List.length_append, List.length_cons] at room
    exact ⟨bound - 1, by omega, by omega⟩
  rw [recoverFrom, group.goesOn, if_neg Bool.false_ne_true, declaration_enough room]
  cases reading : declaration (g ++ more).length ⟨g ++ more, id⟩ with
  | ok s d =>
    obtain ⟨left, alone⟩ := group.read_ok bounds reading
    have kept : breaksOff g = false := by rw [breaksOff_eq, alone]
    refine ⟨.ok s, less, d.nextId, group.readAlone_ok alone, room', ?_⟩
    rw [kept, if_neg Bool.false_ne_true, ← left]
  | error e d =>
    obtain ⟨left, e', id', rest, suffix, alone⟩ := group.read_error bounds reading
    have broken : breaksOff g = left.isEmpty := by rw [breaksOff_eq, alone]
    refine ⟨.error e, less, d.nextId, group.readAlone_error alone e, room', ?_⟩
    have resumed : resume d.rest = if breaksOff g then resume more else more := by
      rw [rest, broken]
      cases left with
      | nil => rfl
      | cons t left =>
        have whole := suffix.trans (List.tail_suffix g)
        refine resume_over bounds (List.cons_ne_nil _ _) (fun u among => ?_) (fun u among => ?_)
          fun u among => ?_
        · exact group.inside u (whole.subset among)
        · exact group.alone u (suffix.subset (List.mem_cons_of_mem t among))
        · obtain ⟨front, split⟩ := whole
          refine group.semicolons u ?_
          rw [← split, List.dropLast_append_of_ne_nil (List.cons_ne_nil _ _)]
          exact List.mem_append_right front among
    rw [← resumed]

/-! ### Rows of statements -/

theorem Group.passed {g more : List Token} (group : Group g) (bounds : Bounds more) :
    resume (g ++ more) = more := by
  obtain ⟨t, body, rfl, -⟩ := group.starts
  exact resume_over bounds (List.cons_ne_nil _ _) group.inside group.alone group.semicolons

theorem bounds_row {groups : List (List Token)} (each : ∀ g ∈ groups, Group g) {eof : Token}
    (ends : eof.kind.isEnd = true) : Bounds (groups.flatten ++ [eof]) := by
  cases groups with
  | nil =>
    rintro t ⟨⟩
    exact .inl ends
  | cons g groups =>
    obtain ⟨t, body, rfl, starts⟩ := (List.forall_mem_cons.1 each).1.starts
    rintro u ⟨⟩
    exact .inr starts

theorem recoverFrom_heard {groups : List (List Token)} (each : ∀ g ∈ groups, Group g) {eof : Token}
    (ends : eof.kind.isEnd = true) {bound : Nat}
    (room : (groups.flatten ++ [eof]).length ≤ bound) (id : ExprId) :
    List.Forall₂ ReadAlone (heard groups)
      (recoverFrom bound ⟨groups.flatten ++ [eof], id⟩).1 := by
  have ended {bound : Nat} (room : [eof].length ≤ bound) (id : ExprId) :
      (recoverFrom bound ⟨[eof], id⟩).1 = [] := by
    have drained : Drains ⟨[eof], id⟩ [] ⟨[eof], id⟩ := .ended ends
    rw [drained.recovers room]
    rfl
  induction groups using heard.induct generalizing bound id with
  | case1 =>
    rw [List.flatten_nil, List.nil_append] at room ⊢
    rw [ended room]
    exact .nil
  | case2 g =>
    have resumed : resume [eof] = [eof] := if_pos ends
    have bounds : Bounds [eof] := bounds_row (List.forall_mem_nil _) ends
    rw [List.flatten_singleton] at room ⊢
    obtain ⟨item, less, id', alone, room', items⟩ :=
      (each g List.mem_cons_self).recovered bounds room id
    rw [items, resumed, ite_self, ended room']
    exact .cons alone .nil
  | case3 g g' gs broken ih =>
    obtain ⟨group, each⟩ := List.forall_mem_cons.1 each
    obtain ⟨group', others⟩ := List.forall_mem_cons.1 each
    rw [List.flatten_cons, List.append_assoc] at room ⊢
    obtain ⟨item, less, id', alone, room', items⟩ :=
      group.recovered (bounds_row each ends) room id
    rw [List.flatten_cons, List.append_assoc, List.length_append] at room'
    rw [items, heard, if_pos broken, if_pos broken, List.flatten_cons, List.append_assoc,
      group'.passed (bounds_row others ends)]
    exact .cons alone (ih others (Nat.le_of_add_left_le room') id')
  | case4 g g' gs kept ih =>
    obtain ⟨group, each⟩ := List.forall_mem_cons.1 each
    rw [List.flatten_cons, List.append_assoc] at room ⊢
    obtain ⟨item, less, id', alone, room', items⟩ :=
      group.recovered (bounds_row each ends) room id
    rw [items, heard, if_neg kept, if_neg kept]
    exact .cons alone (ih each room' id')

theorem heard_length_le (groups : List (List Token)) : (heard groups).length ≤ groups.length := by
  induction groups using heard.induct with
  | case1 | case2 => exact Nat.le_refl _
  | case3 g g' gs broken ih =>
    rw [heard, if_pos broken]
    simp only [List.length_cons]
    omega
  | case4 g g' gs kept ih =>
    rw [heard, if_neg kept]
    simp only [List.length_cons] at ih ⊢
    omega

/-- All statements are read if none breaks off before another one. -/
theorem heard_all {groups : List (List Token)}
    (kept : ∀ g ∈ groups.dropLast, breaksOff g = false) : heard groups = groups := by
  induction groups using heard.induct with
  | case1 | case2 => rfl
  | case3 g g' gs broken ih =>
    have := kept g (by simp)
    rw [broken] at this
    cases this
  | case4 g g' gs _ ih =>
    rw [List.dropLast_cons_cons] at kept
    obtain ⟨first, kept⟩ := List.forall_mem_cons.1 kept
    rw [heard, first, if_neg Bool.false_ne_true, ih kept]

/-- One that does hides the next one. -/
theorem kept_of_length {groups : List (List Token)}
    (same : (heard groups).length = groups.length) :
    ∀ g ∈ groups.dropLast, breaksOff g = false := by
  induction groups using heard.induct with
  | case1 | case2 => exact List.forall_mem_nil _
  | case3 g g' gs broken ih =>
    rw [heard, if_pos broken] at same
    have := heard_length_le gs
    simp only [List.length_cons] at same
    omega
  | case4 g g' gs kept ih =>
    rw [heard, if_neg kept, List.length_cons, List.length_cons, Nat.add_right_cancel_iff] at same
    rw [List.dropLast_cons_cons]
    exact List.forall_mem_cons.2 ⟨Bool.eq_false_iff.2 kept, ih same⟩

/-- A statement does not break off before its semicolon. -/
theorem Group.kept {g : List Token} (group : Group g) {t : Token} (last : t ∈ g.getLast?)
    (is : t.kind = .mark .semicolon) : breaksOff g = false := by
  obtain ⟨k, first, opens⟩ := group.opens
  obtain ⟨body, rfl⟩ := List.head?_eq_some_iff.1 first
  have ends := declaration_ends opens body 0
  unfold breaksOff
  cases reading : declaration (k :: body).length ⟨k :: body, 0⟩ with
  | ok s d => rfl
  | error e d =>
    rw [reading] at ends
    obtain ⟨used, split, kinds⟩ := ends
    refine Bool.eq_false_iff.2 fun none => ?_
    rw [List.isEmpty_iff.1 none, List.append_nil] at split
    subst split
    have among : t ∈ k :: body := List.mem_of_getLast? last
    rcases List.mem_cons.1 among with rfl | among
    · rw [is] at opens
      cases opens
    · have inside := kinds t among
      rw [is] at inside
      cases inside

/-- Of statements in a row, each that is read gives one item, the one that it gives alone. All are
read, and so no error hides another statement, if and only if none but the last breaks off; and one
that ends in a semicolon does not. -/
theorem statements_separate (groups : List (List Token)) (each : ∀ g ∈ groups, Group g) (eof : Token)
    (ends : eof.kind.isEnd = true) (firstId : ExprId) :
    List.Forall₂ ReadAlone (heard groups)
        (recoverProgram (groups.flatten ++ [eof]) firstId).value ∧
      (List.Forall₂ ReadAlone groups (recoverProgram (groups.flatten ++ [eof]) firstId).value ↔
        ∀ g ∈ groups.dropLast, breaksOff g = false) ∧
      ∀ g ∈ groups, (∃ t ∈ g.getLast?, t.kind = .mark .semicolon) → breaksOff g = false := by
  have items := recoverFrom_heard each ends (Nat.le_refl _) firstId
  refine ⟨items, ⟨fun all => ?_, fun kept => ?_⟩, fun g among ⟨t, last, is⟩ => ?_⟩
  · exact kept_of_length (items.length_eq.trans all.length_eq.symm)
  · have whole := heard_all kept
    rw [whole] at items
    exact items
  · exact (each g among).kept last is

/-- In `print x; var = y; print y` both errors are told, as each statement but the last has its
semicolon. -/
theorem statements_separate_errors :
    let first : List Token := [⟨.keyword .print, "print", 1⟩, ⟨.identifier, "x", 1⟩,
      ⟨.mark .semicolon, ";", 1⟩]
    let second : List Token := [⟨.keyword .var, "var", 2⟩, ⟨.mark .equal, "=", 2⟩,
      ⟨.identifier, "y", 2⟩, ⟨.mark .semicolon, ";", 2⟩]
    let third : List Token := [⟨.keyword .print, "print", 3⟩, ⟨.identifier, "y", 3⟩]
    (∀ g ∈ [first, second, third], Group g) ∧
      List.Forall₂ ReadAlone [first, second, third]
        (recoverProgram ([first, second, third].flatten ++ [⟨.endOfText, "", 3⟩]) 0).value := by
  intro first second third
  have each : ∀ g ∈ [first, second, third], Group g := by decide
  obtain ⟨-, whole, kept⟩ := statements_separate _ each ⟨.endOfText, "", 3⟩ rfl 0
  refine ⟨each, whole.2 (List.forall_mem_cons.2 ⟨?_, List.forall_mem_singleton.2 ?_⟩)⟩
  · exact kept first (by simp) ⟨_, rfl, rfl⟩
  · exact kept second (by simp) ⟨_, rfl, rfl⟩

/-- Without the first semicolon, in `print 1 var = 2; print 3;`, the error after `var` is not told. -/
theorem missed_semicolon_hides_error :
    let first : List Token := [⟨.keyword .print, "print", 1⟩, ⟨.number 0x3ff0000000000000, "1", 1⟩]
    let second : List Token := [⟨.keyword .var, "var", 2⟩, ⟨.mark .equal, "=", 2⟩,
      ⟨.number 0x4000000000000000, "2", 2⟩, ⟨.mark .semicolon, ";", 2⟩]
    let third : List Token := [⟨.keyword .print, "print", 3⟩,
      ⟨.number 0x4008000000000000, "3", 3⟩, ⟨.mark .semicolon, ";", 3⟩]
    (∀ g ∈ [first, second, third], Group g) ∧
      ¬ List.Forall₂ ReadAlone [first, second, third]
        (recoverProgram ([first, second, third].flatten ++ [⟨.endOfText, "", 3⟩]) 0).value := by
  intro first second third
  refine ⟨by decide, fun all => ?_⟩
  have items : (recoverProgram ([first, second, third].flatten ++ [⟨.endOfText, "", 3⟩])
      0).value.length = 2 := by rfl
  cases all.length_eq.trans items

end Lox.Grammar
