import Mathlib
import Lox.Proofs.PredictiveGrammar

/-!
The readers of statements, declarations and whole programs look one token ahead.
-/

namespace Lox

def TokenKind.inside (k : TokenKind) : Bool := !k.isEnd

theorem TokenKind.inside_of_inExpression (k : TokenKind) (inside : k.inExpression = true) :
    k.inside = true := by
  cases k with
  | endOfText => cases inside
  | _ => rfl

theorem Predicts.anywhere {ι α : Type} {known : Token → Prop} {closes closes' : List Token → Prop}
    {least : List Token} {n : Nat} {size : ι → Nat} {r : Reader α} {r' : ι → Reader α}
    (predicts : Predicts known TokenKind.inExpression closes least n size r r')
    (fewer : ∀ rest, closes' rest → closes rest) :
    Predicts known TokenKind.inside closes' least n size r r' :=
  predicts.imp (fun _ known => known) TokenKind.inside_of_inExpression fewer

namespace Grammar

open Reader

variable {ι α : Type} {known : Token → Prop} {closes : List Token → Prop} {least : List Token}
  {n : Nat} {size : ι → Nat} {bound : Nat} {bound' : ι → Nat}

section Clauses

variable (room : n ≤ bound + 1) (room' : ∀ i, size i ≤ bound' i + 1)
include room room'

/-- An expression up to the mark after it. -/
theorem closedExpression_predicts {m : Mark} {what : Expectation} {f : Expr → Token → Reader α}
    {f' : ι → Expr → Token → Reader α}
    (beyond : Nonterminal.expression.rank < (TokenKind.mark m).reach)
    (more : ∀ e t, Predicts known TokenKind.inside closes least n size (f e t) fun i => f' i e t) :
    Predicts known TokenKind.inside closes (aNil :: .bare (.mark m) :: least) n size
      (do let e ← expression bound; let t ← expectMark m what; f e t)
      (fun i => do let e ← expression (bound' i); let t ← expectMark m what; f' i e t) := by
  have value : Predicts known TokenKind.inside (Stops .expression) [aNil] n size
      (expression bound) (fun i => expression (bound' i)) :=
    (expression_predicts room room').anywhere fun _ stops => stops
  refine value.bind (fun e => .markThen rfl (more e)) fun rest _ => ?_
  exact Stops.before ⟨.bare (.mark m), rfl⟩ _ beyond

theorem expressionStatement_predicts : Predicts known TokenKind.inside closes
    [aNil, .bare (.mark .semicolon)] n size (expressionStatement bound)
      (fun i => expressionStatement (bound' i)) :=
  closedExpression_predicts room room' (by decide) fun _ _ => .pure _

theorem printStatement_predicts : Predicts known TokenKind.inside closes
    [aNil, .bare (.mark .semicolon)] n size (printStatement bound)
      (fun i => printStatement (bound' i)) :=
  closedExpression_predicts room room' (by decide) fun _ _ => .pure _

theorem varDeclaration_predicts : Predicts known TokenKind.inside closes
    [.bare .identifier, .bare (.mark .semicolon)] n size (varDeclaration bound)
      (fun i => varDeclaration (bound' i)) := by
  refine .nameThen rfl fun name => .accept (fun equals _ => ?_) (.markThen rfl fun _ => .pure _)
    (fun kind _ is => ?_) fun rest _ => not_next ⟨.bare (.mark .semicolon), rfl⟩ rest rfl
  · exact Predicts.proceeds (closedExpression_predicts (room_within room)
      (fun i => room_within (room' i)) (by decide) fun _ _ => .pure _)
  · rw [TokenKind.isMark_iff.1 is]
    rfl

/-- An expression, or nothing before the mark that ends its place. -/
theorem expressionUnless_predicts {m : Mark}
    (beyond : Nonterminal.expression.rank < (TokenKind.mark m).reach) :
    Predicts known TokenKind.inExpression (ClosedBy m) [] n size (expressionUnless m bound)
      (fun i => expressionUnless m (bound' i)) := by
  have value : Predicts known TokenKind.inExpression (ClosedBy m) [aNil] n size
      (expression bound) (fun i => expression (bound' i)) :=
    (expression_predicts room room').imp (fun _ known => known) (fun _ allowed => allowed)
      fun _ closed => closed.stops beyond
  refine Predicts.unless (fun k => !k.isEnd && k.isMark m) none (value.last (g := some)).foretells
    (List.cons_ne_nil _ _) (fun c _ => ?_) (fun i c _ => ?_) fun rest closed => ?_
  · show (if _ then _ else _ : Reader _) c = _
    split <;> rfl
  · show (if _ then _ else _ : Reader _) c = _
    split <;> rfl
  · rw [closed.next]
    simp [TokenKind.isEnd, TokenKind.isMark]

theorem returnStatement_predicts (keyword : Token) : Predicts known TokenKind.inside closes
    [.bare (.mark .semicolon)] n size (returnStatement keyword bound)
      (fun i => returnStatement keyword (bound' i)) := by
  have value : Predicts known TokenKind.inside (ClosedBy .semicolon) [] n size
      (expressionUnless .semicolon bound) (fun i => expressionUnless .semicolon (bound' i)) :=
    (expressionUnless_predicts room room' (by decide)).anywhere fun _ closed => closed
  refine value.bind (fun e => .markThen rfl fun _ => .pure _) fun rest _ => ?_
  exact ⟨.bare (.mark .semicolon), rfl, rfl, rfl⟩

theorem forInitializer_predicts : Predicts known TokenKind.inside closes
    [aNil, .bare (.mark .semicolon)] n size (forInitializer bound)
      (fun i => forInitializer (bound' i)) := by
  refine .accept (fun semicolon _ => Predicts.proceeds (.pure _)) (.accept (fun var _ => ?_) ?_ ?_ ?_)
    ?_ ?_
  · exact Predicts.proceeds (varDeclaration_predicts (room_within room)
      fun i => room_within (room' i)).last
  · exact (expressionStatement_predicts room room').last
  · intro kind _ is
    rw [TokenKind.isKeyword_iff.1 is]
    rfl
  · exact fun rest _ => not_next ⟨aNil, rfl⟩ _ rfl
  · intro kind _ is
    rw [TokenKind.isMark_iff.1 is]
    rfl
  · exact fun rest _ => not_next ⟨aNil, rfl⟩ _ rfl

end Clauses

theorem superclass_predicts : Predicts known TokenKind.inside (ClosedBy .leftBrace) [] n size
    superclass (fun _ : ι => superclass) := by
  refine .accept (fun less _ => ?_) (.pure _) (fun kind _ is => ?_) fun _ closed => closed.only rfl
  · exact Predicts.proceeds (.nameThen rfl fun name => .makeThen fun tree => .pure _)
  · rw [TokenKind.isMark_iff.1 is]
    rfl

theorem forCondition_predicts (condition : Option Expr) : Predicts known TokenKind.inside closes []
    n size (forCondition condition) (fun _ : ι => forCondition condition) := by
  cases condition with
  | none =>
    simp only [forCondition]
    exact .make _
  | some e => exact .pure e

/-- What follows the declarations in a block is no `else`. -/
theorem EndsBlock.noElse {rest : List Token} (ends : EndsBlock rest) : NoElse rest := by
  rintro ⟨t, first, -, is⟩
  rw [EndsBlock, List.headD_eq_head?_getD, Option.mem_def.1 first] at ends
  rw [Option.getD_some, TokenKind.isKeyword_iff.1 is] at ends
  cases ends

/-- The shortest statement. -/
abbrev aStatement : List Token := [aNil, .bare (.mark .semicolon)]

section Branches

variable {branch : Reader Stmt} {branch' : ι → Reader Stmt}
  (nested : Predicts known TokenKind.inside NoElse aStatement n size branch branch')
  (room : n ≤ bound + 1) (room' : ∀ i, size i ≤ bound' i + 1)
include nested room room'

theorem ifStatement_predicts : Predicts known TokenKind.inside NoElse
    (.bare (.mark .leftParen) :: aNil :: .bare (.mark .rightParen) :: aStatement) n size
      (ifStatement branch bound) (fun i => ifStatement (branch' i) (bound' i)) := by
  refine .markThen rfl fun _ => closedExpression_predicts room room' (by decide) fun condition _ => ?_
  refine nested.bind (fun yes => .accept (fun else_ _ => ?_) (.pure _) (fun kind _ is => ?_)
    fun _ alone => alone) fun _ alone => alone
  · exact Predicts.proceeds nested.later.last
  · rw [TokenKind.isKeyword_iff.1 is]
    rfl

theorem whileStatement_predicts : Predicts known TokenKind.inside NoElse
    (.bare (.mark .leftParen) :: aNil :: .bare (.mark .rightParen) :: aStatement) n size
      (whileStatement branch bound) (fun i => whileStatement (branch' i) (bound' i)) :=
  .markThen rfl fun _ => closedExpression_predicts room room' (by decide) fun _ _ => nested.last

theorem forStatement_predicts : Predicts known TokenKind.inside NoElse
    (.bare (.mark .leftParen) :: aStatement ++
      .bare (.mark .semicolon) :: .bare (.mark .rightParen) :: aStatement) n size
      (forStatement branch bound) (fun i => forStatement (branch' i) (bound' i)) := by
  have initializer : Predicts known TokenKind.inside (fun _ => True) aStatement n size
      (forInitializer bound) (fun i => forInitializer (bound' i)) :=
    forInitializer_predicts room room'
  have clause {m : Mark} (beyond : Nonterminal.expression.rank < (TokenKind.mark m).reach) :
      Predicts known TokenKind.inside (ClosedBy m) [] n size (expressionUnless m bound)
        (fun i => expressionUnless m (bound' i)) :=
    (expressionUnless_predicts room room' beyond).anywhere fun _ closed => closed
  refine .markThen rfl fun _ => initializer.bind (fun first => (clause (by decide)).bind
    (fun asked => .markThen rfl fun _ => (clause (by decide)).bind
      (fun last => .markThen rfl fun _ => nested.bind
        (fun body => Predicts.last (forCondition_predicts asked)) fun _ alone => alone)
      fun rest _ => ?_) fun rest _ => ?_) fun _ _ => trivial
  · exact ⟨.bare (.mark .rightParen), rfl, rfl, rfl⟩
  · exact ⟨.bare (.mark .semicolon), rfl, rfl, rfl⟩

end Branches

/-- The shortest function and the shortest class, each after its keyword. -/
abbrev aFunction : List Token :=
  [.bare .identifier, .bare (.mark .leftParen), .bare (.mark .rightParen), .bare (.mark .leftBrace),
    .bare (.mark .rightBrace)]

abbrev aClass : List Token :=
  [.bare .identifier, .bare (.mark .leftBrace), .bare (.mark .rightBrace)]

section Blocks

variable {declared stated : Reader Stmt} {declared' stated' : ι → Reader Stmt}

section Bodies

variable (nested : Predicts known TokenKind.inside NoElse aStatement n size declared declared')
  (room : n ≤ bound + 1) (room' : ∀ i, size i ≤ bound' i + 1)
include nested room room'

theorem block_predicts : Predicts known TokenKind.inside closes [.bare (.mark .rightBrace)] n size
    (block declared bound) (fun i => block (declared' i) (bound' i)) :=
  (itemsToBrace_predicts nested (List.cons_ne_nil _ _) (fun _ ends => ends.noElse) room room').bind
    (fun _ => .markThen rfl fun _ => .pure _) fun _ _ => rfl

theorem function_predicts (role : FunctionRole) : Predicts known TokenKind.inside closes aFunction
    n size (function role declared bound) (fun i => function role (declared' i) (bound' i)) := by
  have name : Predicts known TokenKind.inside (fun _ => True) [.bare .identifier] n size
      (expectName .parameterName) (fun _ : ι => expectName .parameterName) := .name rfl
  have parameters := items_predicts .parameters name (List.cons_ne_nil _ _) rfl
    (fun _ _ => trivial) room room'
  refine .nameThen rfl fun _ => .markThen rfl fun _ => parameters.bind
    (fun names => .markThen rfl fun _ => .markThen rfl fun _ =>
      (block_predicts nested room room').last) fun rest _ => ?_
  exact ⟨.bare (.mark .rightParen), rfl, rfl, rfl⟩

theorem classDeclaration_predicts : Predicts known TokenKind.inside closes aClass n size
    (classDeclaration declared bound) (fun i => classDeclaration (declared' i) (bound' i)) := by
  have method : Predicts known TokenKind.inside (fun _ => True) aFunction n size
      (function .method declared bound) (fun i => function .method (declared' i) (bound' i)) :=
    function_predicts nested room room' .method
  have methods := itemsToBrace_predicts method (List.cons_ne_nil _ _) (fun _ _ => trivial) room room'
  refine .nameThen rfl fun name => superclass_predicts.bind (fun parent => .markThen rfl
    fun _ => methods.bind (fun fs => .markThen rfl fun _ => .pure _) fun _ _ => rfl) fun rest _ => ?_
  exact ⟨.bare (.mark .leftBrace), rfl, rfl, rfl⟩

end Bodies

variable (declares : Predicts known TokenKind.inside NoElse aStatement (n - 1) (fun i => size i - 1)
    declared declared')
  (states : Predicts known TokenKind.inside NoElse aStatement (n - 1) (fun i => size i - 1)
    stated stated')
  (room : n ≤ bound + 1) (room' : ∀ i, size i ≤ bound' i + 1)
include declares states room room'

theorem statementOf_predicts : Predicts known TokenKind.inside NoElse aStatement n size
    (statementOf declared stated bound)
    (fun i => statementOf (declared' i) (stated' i) (bound' i)) := by
  have expression : Predicts known TokenKind.inside NoElse aStatement n size
      (expressionStatement bound) (fun i => expressionStatement (bound' i)) :=
    expressionStatement_predicts room room'
  have less := room_within room
  have less' (i : ι) := room_within (room' i)
  refine .look (fun t => ?_) (List.cons_ne_nil _ _) fun rest i id closing short =>
    (expression.seeded rest i id closing short).congr rfl
  cases kind : t.kind with
  | number _ | string _ | endOfText | identifier => exact expression.foretells.seen
  | mark m =>
    cases m
    case leftBrace => exact (block_predicts declares less less').last.skipped kind rfl rfl
    all_goals exact expression.foretells.seen
  | keyword w =>
    cases w
    case for_ => exact (forStatement_predicts states less less').skipped kind rfl rfl
    case if_ => exact (ifStatement_predicts states less less').skipped kind rfl rfl
    case while_ => exact (whileStatement_predicts states less less').skipped kind rfl rfl
    case return_ => exact (returnStatement_predicts less less' t).skipped kind rfl rfl
    case print => exact (printStatement_predicts less less').skipped kind rfl rfl
    all_goals exact expression.foretells.seen

theorem declarationOf_predicts : Predicts known TokenKind.inside NoElse aStatement n size
    (declarationOf declared stated bound)
    (fun i => declarationOf (declared' i) (stated' i) (bound' i)) := by
  have statement := statementOf_predicts declares states room room'
  have less := room_within room
  have less' (i : ι) := room_within (room' i)
  refine .look (fun t => ?_) (List.cons_ne_nil _ _) fun rest i id closing short =>
    (statement.seeded rest i id closing short).congr rfl
  cases kind : t.kind with
  | number _ | string _ | endOfText | identifier | mark _ => exact statement.foretells.seen
  | keyword w =>
    cases w
    case class_ => exact (classDeclaration_predicts declares less less').skipped kind rfl rfl
    case fun_ => exact (function_predicts declares less less' .function).last.skipped kind rfl rfl
    case var => exact (varDeclaration_predicts less less').skipped kind rfl rfl
    all_goals exact statement.foretells.seen

end Blocks

/-! ### Statements in statements -/

theorem declaration_room {c : Cursor} (room : c.rest.length ≤ bound) :
    declaration bound c = declaration (bound - 1 + 1) c := by
  cases bound with
  | zero => rw [no_tokens room]; rfl
  | succ bound => rfl

theorem statement_room {c : Cursor} (room : c.rest.length ≤ bound) :
    statement bound c = statement (bound - 1 + 1) c := by
  cases bound with
  | zero => rw [no_tokens room]; rfl
  | succ bound => rfl

theorem aStatement_formed : Forms (.statement false) aStatement (.expression (.literal 0 .nil)) := by
  have value : Derives .expression [aNil] (.literal 0 .nil) :=
    .repetition (n := .expression) rfl aNil_derived [] (List.forall_mem_nil _) (List.forall_mem_nil _)
  exact .expression (.ended value ⟨.bare (.mark .semicolon), rfl⟩)

theorem statements_predict (room : n ≤ bound + 1) (room' : ∀ i, size i ≤ bound' i + 1) :
    Predicts known TokenKind.inside NoElse aStatement n size (declaration bound)
      (fun i => declaration (bound' i)) ∧
    Predicts known TokenKind.inside NoElse aStatement n size (statement bound)
      (fun i => statement (bound' i)) := by
  induction n generalizing size bound bound' with
  | zero =>
    have enough {rest : List Token} {i : ι} (short : (aStatement ++ rest).length < size i) :
        aStatement.length ≤ bound' i := by
      have := room_for short (room' i)
      rw [List.length_append] at this
      omega
    have formed : Forms .declaration aStatement (.expression (.literal 0 .nil)) :=
      .statement aStatement_formed
    refine ⟨⟨.vacuous, fun rest i id alone short => ?_⟩, .vacuous, fun rest i id alone short => ?_⟩
    · obtain ⟨s, id', reading, -⟩ := formed.reads.declaration formed (enough short) alone id
      exact .inl ⟨s, id', reading⟩
    · obtain ⟨s, id', reading, -⟩ :=
        aStatement_formed.reads.statement aStatement_formed (enough short) (fun _ => alone) id
      exact .inl ⟨s, id', reading⟩
  | succ n ih =>
    obtain ⟨declares, states⟩ := ih (room_later room) fun i => room_later (room' i)
    constructor
    · have stepped : Predicts known TokenKind.inside NoElse aStatement (n + 1) size
          (declaration (bound - 1 + 1)) (fun i => declaration (bound' i - 1 + 1)) := by
        simp only [declaration]
        exact declarationOf_predicts declares states (room_again room) fun i => room_again (room' i)
      exact stepped.congr (fun c short => declaration_room (room_for short room))
        (fun i c short => declaration_room (room_for short (room' i)))
    · have stepped : Predicts known TokenKind.inside NoElse aStatement (n + 1) size
          (statement (bound - 1 + 1)) (fun i => statement (bound' i - 1 + 1)) := by
        simp only [statement]
        exact statementOf_predicts declares states (room_again room) fun i => room_again (room' i)
      exact stepped.congr (fun c short => statement_room (room_for short room))
        (fun i c short => statement_room (room_for short (room' i)))

/-! ### Programs -/

/-- The program ends here. -/
def EndsProgram (rest : List Token) : Prop := (rest.headD Token.endOfInput).kind.isEnd = true

theorem EndsProgram.noElse {rest : List Token} (ends : EndsProgram rest) : NoElse rest := by
  refine EndsBlock.noElse ?_
  rw [EndsBlock, show (rest.headD Token.endOfInput).kind.isEnd = true from ends, Bool.true_or]

theorem declarations_room {c : Cursor} (room : c.rest.length ≤ bound) :
    declarations bound c = declarations (bound - 1 + 1) c := by
  cases bound with
  | zero => rw [no_tokens room]; rfl
  | succ bound => rfl

theorem declarations_predict (room : n ≤ bound + 1) (room' : ∀ i, size i ≤ bound' i + 1) :
    Predicts known TokenKind.inside EndsProgram [] n size (declarations bound)
      (fun i => declarations (bound' i)) := by
  induction n generalizing size bound bound' with
  | zero =>
    refine ⟨.vacuous, fun rest i id ended _ => .inl ⟨[], id, ?_⟩⟩
    cases bound' i with
    | zero => rfl
    | succ bound =>
      show (if _ then pure [] else _ : Reader _) _ = _
      exact congrFun (if_pos ended) _
  | succ n ih =>
    have first : Predicts known TokenKind.inside NoElse aStatement (n + 1) size
        (declaration (bound - 1 + 1)) (fun i => declaration (bound' i - 1 + 1)) :=
      (statements_predict (room_again room) fun i => room_again (room' i)).1
    have more := ih (room_later room) fun i => room_later (room' i)
    have listed := first.bindTaken (List.cons_ne_nil _ _) (fun s => more.last (g := (s :: ·)))
      fun _ ends => ends.noElse
    have stepped : Predicts known TokenKind.inside EndsProgram [] (n + 1) size
        (declarations (bound - 1 + 1)) (fun i => declarations (bound' i - 1 + 1)) := by
      refine Predicts.unless (·.isEnd) [] listed.foretells (List.cons_ne_nil _ _)
        (fun c _ => ?_) (fun i c _ => ?_) fun rest ended => ended
      · show (if _ then _ else _ : Reader _) c = _
        split <;> rfl
      · show (if _ then _ else _ : Reader _) c = _
        split <;> rfl
    exact stepped.congr (fun c short => declarations_room (room_for short room))
      (fun i c short => declarations_room (room_for short (room' i)))

end Grammar

end Lox
