import Mathlib
import Lox.Proofs.PredictiveReaders

/-!
The readers of the grammar look one token ahead. Each production is told from its parts; where a
production nests or repeats, one step of it is told from fewer tokens.
-/

namespace Lox

/-- Kinds of the tokens that expressions hold. -/
def TokenKind.inExpression : TokenKind → Bool
  | .mark m => !([.leftBrace, .rightBrace, .semicolon].contains m)
  | .keyword w => [Keyword.and, .or, .false, .true, .nil, .this, .super].contains w
  | .identifier | .string _ | .number _ => true
  | .endOfText => false

namespace Grammar

open Reader

variable {ι α : Type} {known : Token → Prop} {may : TokenKind → Bool} {closes : List Token → Prop}
  {least : List Token} {n : Nat} {size : ι → Nat}

theorem no_tokens {c : Cursor} (room : c.rest.length ≤ 0) : c = ⟨[], c.nextId⟩ := by
  cases c
  simpa using room

/-! Bounds that leave room for readings of fewer than `n` tokens. -/

theorem room_for {k n bound : Nat} (short : k < n) (room : n ≤ bound + 1) : k ≤ bound :=
  Nat.le_of_lt_succ (Nat.lt_of_lt_of_le short room)

theorem room_later {n bound : Nat} (room : n ≤ bound + 1) : n - 1 ≤ bound - 1 + 1 := by omega

theorem room_within {n bound : Nat} (room : n ≤ bound + 1) : n - 1 ≤ bound + 1 := by omega

theorem room_again {n bound : Nat} (room : n ≤ bound + 1) : n ≤ bound - 1 + 1 + 1 := by omega

/-! ### Lists -/

/-- The token that ends a list comes next. -/
def ClosedBy (m : Mark) (rest : List Token) : Prop := Next (·.isMark m) rest

theorem ClosedBy.only {m : Mark} {rest : List Token} (closed : ClosedBy m rest)
    {fits : TokenKind → Bool} (unfit : fits (.mark m) = false) : ¬ Next fits rest := by
  rintro ⟨t, first, -, fitting⟩
  obtain ⟨t', first', -, is⟩ := closed
  obtain rfl : t' = t := Option.some.inj (first'.symm.trans first)
  rw [TokenKind.isMark_iff.1 is, unfit] at fitting
  cases fitting

theorem ClosedBy.stops {m : Mark} {rest : List Token} (closed : ClosedBy m rest) {k : Nonterminal}
    (beyond : k.rank < (TokenKind.mark m).reach) : Stops k rest := by
  intro t first
  obtain ⟨t', first', -, is⟩ := closed
  obtain rfl : t' = t := Option.some.inj (first'.symm.trans first)
  rwa [TokenKind.isMark_iff.1 is]

theorem ClosedBy.next {m : Mark} {rest : List Token} (closed : ClosedBy m rest) :
    (rest.headD Token.endOfInput).kind = .mark m := by
  obtain ⟨t, first, -, is⟩ := closed
  rw [List.headD_eq_head?_getD, Option.mem_def.1 first]
  exact TokenKind.isMark_iff.1 is

section Lists

variable {role : ListRole} {r : Reader α} {r' : ι → Reader α} {bound : Nat} {bound' : ι → Nat}

theorem moreItems_room {count : Nat} {c : Cursor} (room : c.rest.length ≤ bound) :
    moreItems role r bound count c = moreItems role r (bound - 1 + 1) count c := by
  cases bound with
  | zero => rw [no_tokens room]; rfl
  | succ bound => rfl

theorem moreItems_predicts (role : ListRole) (item : Predicts known may closes least n size r r')
    (separated : may (.mark .comma) = true) (ends : ∀ rest, ClosedBy .rightParen rest → closes rest)
    (room : n ≤ bound + 1) (room' : ∀ i, size i ≤ bound' i + 1) (count : Nat) :
    Predicts known may (ClosedBy .rightParen) [] n size (moreItems role r bound count)
      (fun i => moreItems role (r' i) (bound' i) count) := by
  induction n generalizing size bound bound' count with
  | zero =>
    refine ⟨.vacuous, fun rest i id closed _ => .inl ⟨[], id, ?_⟩⟩
    cases bound' i with
    | zero => rfl
    | succ bound => exact bind_of_ok (accept?_none id (closed.only rfl))
  | succ n ih =>
    have stepped : Predicts known may (ClosedBy .rightParen) [] (n + 1) size
        (moreItems role r (bound - 1 + 1) count)
        (fun i => moreItems role (r' i) (bound' i - 1 + 1) count) := by
      simp only [moreItems]
      refine .accept (fun comma _ => ?_) (.pure _) (fun k _ is => ?_) fun _ closed => closed.only rfl
      · by_cases full : maxArity ≤ count
        · simp only [full, if_true]
          exact .tooMany role rfl fun _ => rfl
        · simp only [full, if_false]
          have more := ih item.later (room_later room) (fun i => room_later (room' i)) (count + 1)
          exact Predicts.proceeds (item.later.bind (fun x => more.last) ends)
      · rwa [TokenKind.isMark_iff.1 is]
    exact stepped.congr (fun c short => moreItems_room (room_for short room))
      (fun i c short => moreItems_room (room_for short (room' i)))

theorem items_predicts (role : ListRole) (item : Predicts known may closes least n size r r')
    (some : least ≠ []) (separated : may (.mark .comma) = true)
    (ends : ∀ rest, ClosedBy .rightParen rest → closes rest) (room : n ≤ bound + 1)
    (room' : ∀ i, size i ≤ bound' i + 1) :
    Predicts known may (ClosedBy .rightParen) [] n size (items role r bound)
      (fun i => items role (r' i) (bound' i)) := by
  have more := moreItems_predicts role item separated ends room room' 1
  have listed := item.bind (fun x => more.last (g := (x :: ·))) ends
  refine Predicts.unless (fun k => !k.isEnd && k.isMark .rightParen) []
    listed.foretells ?_ (fun c _ => ?_) (fun i c _ => ?_) fun rest closed => ?_
  · exact List.append_ne_nil_of_left_ne_nil some _
  · show (if _ then _ else _ : Reader _) c = _
    split <;> rfl
  · show (if _ then _ else _ : Reader _) c = _
    split <;> rfl
  · rw [closed.next]
    rfl

/-- Nothing more stands in the braces. -/
def EndsBlock (rest : List Token) : Prop :=
  ((rest.headD Token.endOfInput).kind.isEnd ||
    (rest.headD Token.endOfInput).kind.isMark .rightBrace) = true

theorem itemsToBrace_room {c : Cursor} (room : c.rest.length ≤ bound) :
    itemsToBrace r bound c = itemsToBrace r (bound - 1 + 1) c := by
  cases bound with
  | zero => rw [no_tokens room]; rfl
  | succ bound => rfl

theorem itemsToBrace_predicts (item : Predicts known may closes least n size r r')
    (some : least ≠ []) (ends : ∀ rest, EndsBlock rest → closes rest)
    (room : n ≤ bound + 1) (room' : ∀ i, size i ≤ bound' i + 1) :
    Predicts known may EndsBlock [] n size (itemsToBrace r bound)
      (fun i => itemsToBrace (r' i) (bound' i)) := by
  induction n generalizing size bound bound' with
  | zero =>
    refine ⟨.vacuous, fun rest i id ended _ => .inl ⟨[], id, ?_⟩⟩
    cases bound' i with
    | zero => rfl
    | succ bound =>
      show (if _ then pure [] else _ : Reader _) _ = _
      exact congrFun (if_pos ended) _
  | succ n ih =>
    have more := ih item.later (room_later room) fun i => room_later (room' i)
    have listed := item.bindTaken some (fun x => more.last (g := (x :: ·))) ends
    have stepped : Predicts known may EndsBlock [] (n + 1) size (itemsToBrace r (bound - 1 + 1))
        (fun i => itemsToBrace (r' i) (bound' i - 1 + 1)) := by
      refine Predicts.unless (fun k => k.isEnd || k.isMark .rightBrace) [] listed.foretells ?_
        (fun c _ => ?_) (fun i c _ => ?_) fun rest ended => ended
      · exact List.append_ne_nil_of_left_ne_nil some _
      · show (if _ then _ else _ : Reader _) c = _
        split <;> rfl
      · show (if _ then _ else _ : Reader _) c = _
        split <;> rfl
    exact stepped.congr (fun c short => itemsToBrace_room (room_for short room))
      (fun i c short => itemsToBrace_room (room_for short (room' i)))

end Lists

/-! ### Expressions -/

/-- The shortest expression. -/
abbrev aNil : Token := .bare (.keyword .nil)

theorem aNil_derived : Derives .assignment [aNil] (.literal 0 .nil) := by
  have call : Derives .call [aNil] (.literal 0 .nil) := .uncalled (.nil ⟨aNil, rfl⟩)
  have alone {k : Nonterminal} {rule : Repetition} (of : k.repetition? = some rule)
      (operand : Derives rule.operand [aNil] (.literal 0 .nil)) :
      Derives k [aNil] (.literal 0 .nil) :=
    .repetition of operand [] (List.forall_mem_nil _) (List.forall_mem_nil _)
  have factor := alone (k := .factor) rfl (.unsigned call)
  have comparison := alone (k := .comparison) rfl (alone (k := .term) rfl factor)
  have and := alone (k := .and) rfl (alone (k := .equality) rfl comparison)
  exact .unassigned (.unconditional (alone rfl and))

section Chains

variable {level : Level} {rule : Repetition} {k : Nonterminal} {operand : Reader Expr}
  {operand' : ι → Reader Expr} {bound : Nat} {bound' : ι → Nat}

theorem Nonterminal.operator_inExpression (of : k.repetition? = some rule) {kind : TokenKind}
    (among : kind ∈ rule.operators) : kind.inExpression = true := by
  cases k <;> cases of <;> revert kind <;> decide +revert

theorem chainFrom_room {left : Expr} {c : Cursor} (room : c.rest.length ≤ bound) :
    chainFrom level operand bound left c = chainFrom level operand (bound - 1 + 1) left c := by
  cases bound with
  | zero => rw [no_tokens room]; rfl
  | succ bound => rfl

theorem chainFrom_predicts (of : k.repetition? = some rule) (builds : level.Builds rule)
    (item : Predicts known TokenKind.inExpression (Stops rule.operand) least n size operand operand')
    (room : n ≤ bound + 1) (room' : ∀ i, size i ≤ bound' i + 1) (left : Expr) :
    Predicts known TokenKind.inExpression (Stops k) [] n size (chainFrom level operand bound left)
      (fun i => chainFrom level (operand' i) (bound' i) left) := by
  have tighter := (Nonterminal.operand_rank of).le
  induction n generalizing size bound bound' left with
  | zero =>
    refine ⟨.vacuous, fun rest i id stops _ => .inl ⟨left, id, ?_⟩⟩
    cases bound' i with
    | zero => rfl
    | succ bound => exact bind_of_ok (accept?_none id (stops.not_operator of builds))
  | succ n ih =>
    have stepped : Predicts known TokenKind.inExpression (Stops k) [] (n + 1) size
        (chainFrom level operand (bound - 1 + 1) left)
        (fun i => chainFrom level (operand' i) (bound' i - 1 + 1) left) := by
      simp only [chainFrom]
      refine .accept (fun operator _ => ?_) (.pure _) (fun kind _ is => ?_) fun _ stops => ?_
      · have more := ih item.later (room_later room) fun i => room_later (room' i)
        exact Predicts.proceeds (item.later.bind (fun right => .makeThen more) fun _ stops =>
          stops.mono tighter)
      · exact Nonterminal.operator_inExpression of ((builds.operators kind).1 is)
      · exact stops.not_operator of builds
    exact stepped.congr (fun c short => chainFrom_room (room_for short room))
      (fun i c short => chainFrom_room (room_for short (room' i)))

theorem chain_predicts (of : k.repetition? = some rule) (builds : level.Builds rule)
    (item : Predicts known TokenKind.inExpression (Stops rule.operand) least n size operand operand')
    (room : n ≤ bound + 1) (room' : ∀ i, size i ≤ bound' i + 1) :
    Predicts known TokenKind.inExpression (Stops k) least n size (chain level operand bound)
      (fun i => chain level (operand' i) (bound' i)) := by
  have tighter := (Nonterminal.operand_rank of).le
  have whole := item.bind (chainFrom_predicts of builds item room room') fun _ stops =>
    stops.mono tighter
  rwa [List.append_nil] at whole

end Chains

section Nested

variable {nested : Reader Expr} {nested' : ι → Reader Expr} {bound : Nat} {bound' : ι → Nat}

theorem expressionOf_predicts
    (inner : Predicts known TokenKind.inExpression (Stops .assignment) [aNil] n size nested nested')
    (room : n ≤ bound + 1) (room' : ∀ i, size i ≤ bound' i + 1) :
    Predicts known TokenKind.inExpression (Stops .expression) [aNil] n size
      (expressionOf nested bound) (fun i => expressionOf (nested' i) (bound' i)) :=
  chain_predicts rfl commaLevel_builds inner room room'

theorem suffixesFrom_room {e : Expr} {c : Cursor} (room : c.rest.length ≤ bound) :
    suffixesFrom nested bound e c = suffixesFrom nested (bound - 1 + 1) e c := by
  cases bound with
  | zero => rw [no_tokens room]; rfl
  | succ bound => rfl

theorem unaryFrom_room {operators : Nat} {c : Cursor} (room : c.rest.length ≤ operators) :
    unaryFrom nested bound operators c = unaryFrom nested bound (operators - 1 + 1) c := by
  cases operators with
  | zero => rw [no_tokens room]; rfl
  | succ operators => rfl

variable (inner : Predicts known TokenKind.inExpression (Stops .assignment) [aNil] (n - 1)
    (fun i => size i - 1) nested nested')
  (room : n ≤ bound + 1) (room' : ∀ i, size i ≤ bound' i + 1)
include inner room room'

theorem primary_predicts : Predicts known TokenKind.inExpression closes [aNil] n size
    (primary nested bound) (fun i => primary (nested' i) (bound' i)) := by
  refine .look (fun t => ?_) (List.cons_ne_nil _ _) fun rest i id _ _ => .inl ⟨_, _, rfl⟩
  cases kind : t.kind with
  | number _ | string _ | identifier => exact Predicts.skipped (.make _) kind rfl rfl
  | endOfText => exact .refused
  | mark m =>
    cases m
    case leftParen =>
      have group := expressionOf_predicts inner (room_within room) fun i => room_within (room' i)
      refine (group.bind (fun e => .markThen rfl fun _ => .make _) fun rest _ => ?_).skipped kind rfl
        rfl
      exact Stops.before ⟨.bare (.mark .rightParen), rfl⟩ rest (by decide)
    all_goals exact .refused
  | keyword w =>
    cases w
    case super =>
      exact (Predicts.markThen rfl fun _ => .nameThen rfl fun _ => .make _).skipped kind rfl rfl
    case false | true | nil | this => exact Predicts.skipped (.make _) kind rfl rfl
    all_goals exact .refused

theorem suffixesFrom_predicts (e : Expr) : Predicts known TokenKind.inExpression (Stops .call) [] n
    size (suffixesFrom nested bound e) (fun i => suffixesFrom (nested' i) (bound' i) e) := by
  induction n generalizing size bound bound' e with
  | zero =>
    refine ⟨.vacuous, fun rest i id stops _ => ?_⟩
    obtain ⟨e', id', reading, -⟩ := suffixesFrom_ends stops id
    exact .inl ⟨e', id', reading⟩
  | succ n ih =>
    have more (e : Expr) := ih inner.later (room_later room) (fun i => room_later (room' i)) e
    have stepped : Predicts known TokenKind.inExpression (Stops .call) [] (n + 1) size
        (suffixesFrom nested (bound - 1 + 1) e)
        (fun i => suffixesFrom (nested' i) (bound' i - 1 + 1) e) := by
      simp only [suffixesFrom]
      refine .accept (fun opening _ => ?_) (.accept (fun dot _ => ?_) (.pure _) ?_ ?_) ?_ ?_
      · have arguments := items_predicts .arguments inner (List.cons_ne_nil _ _) rfl
          (fun _ closed => closed.stops (by decide))
          (room_later room) fun i => room_later (room' i)
        refine Predicts.proceeds (arguments.bind (fun es => .markThen rfl fun paren =>
          .makeThen more) fun _ _ => ?_)
        exact ⟨_, rfl, rfl, rfl⟩
      · exact Predicts.proceeds (.nameThen rfl fun name => .makeThen more)
      · intro kind _ is
        rw [TokenKind.isMark_iff.1 is]
        rfl
      · exact fun _ stops => stops.not_next fun kind is => (TokenKind.reach_mark is).le
      · intro kind _ is
        rw [TokenKind.isMark_iff.1 is]
        rfl
      · exact fun _ stops => stops.not_next fun kind is => (TokenKind.reach_mark is).le
    exact stepped.congr (fun c short => suffixesFrom_room (room_for short room))
      (fun i c short => suffixesFrom_room (room_for short (room' i)))

theorem call_predicts : Predicts known TokenKind.inExpression (Stops .call) [aNil] n size
    (call nested bound) (fun i => call (nested' i) (bound' i)) := by
  have callee : Predicts known TokenKind.inExpression (Stops .call) [aNil] n size
      (primary nested bound) (fun i => primary (nested' i) (bound' i)) :=
    primary_predicts inner room room'
  exact callee.bind (suffixesFrom_predicts inner room room') fun _ stops => stops

theorem unaryFrom_predicts {operators : Nat} {operators' : ι → Nat} (most : n ≤ operators + 1)
    (most' : ∀ i, size i ≤ operators' i + 1) :
    Predicts known TokenKind.inExpression (Stops .unary) [aNil] n size
      (unaryFrom nested bound operators)
      (fun i => unaryFrom (nested' i) (bound' i) (operators' i)) := by
  have unsigned {rest : List Token} : ¬ Next (fun k => k.isMark .bang || k.isMark .minus)
      ([aNil] ++ rest) := not_next ⟨aNil, rfl⟩ rest rfl
  have other : Predicts known TokenKind.inExpression (Stops .unary) [aNil] n size
      (call nested bound) (fun i => call (nested' i) (bound' i)) :=
    (call_predicts inner room room').imp (fun _ known => known) (fun _ allowed => allowed)
      fun _ stops => stops
  induction n generalizing size operators operators' with
  | zero =>
    refine ⟨.vacuous, fun rest i id stops short => ?_⟩
    have seeded := other.seeded rest i id stops short
    cases operators' i with
    | zero => exact seeded
    | succ operators => exact seeded.congr (bind_of_ok (accept?_none id unsigned))
  | succ n ih =>
    have stepped : Predicts known TokenKind.inExpression (Stops .unary) [aNil] (n + 1) size
        (unaryFrom nested bound (operators - 1 + 1))
        (fun i => unaryFrom (nested' i) (bound' i) (operators' i - 1 + 1)) := by
      simp only [unaryFrom]
      refine .accept (fun sign _ => ?_) other (fun kind _ is => ?_) fun _ _ => unsigned
      · have operand := ih inner.later (room_within room) (fun i => room_within (room' i))
          (room_later most) (fun i => room_later (most' i)) other.later
        exact Predicts.proceeds (operand.bind (fun e => .make _) fun _ stops => stops)
      · simp only [Bool.or_eq_true, TokenKind.isMark_iff] at is
        rcases is with rfl | rfl <;> rfl
    exact stepped.congr (fun c short => unaryFrom_room (room_for short most))
      (fun i c short => unaryFrom_room (room_for short (most' i)))

theorem or_predicts : Predicts known TokenKind.inExpression (Stops .or) [aNil] n size
    (binary nested bound levels) (fun i => binary (nested' i) (bound' i) levels) := by
  have operand : Predicts known TokenKind.inExpression (Stops .unary) [aNil] n size
      (unary nested bound) (fun i => unary (nested' i) (bound' i)) :=
    unaryFrom_predicts inner room room' room room'
  have factor := chain_predicts (k := .factor) rfl (Level.marks_builds .unary [.slash, .star]) operand
    room room'
  have term := chain_predicts (k := .term) rfl (Level.marks_builds .factor [.minus, .plus]) factor
    room room'
  have comparison := chain_predicts (k := .comparison) rfl
    (Level.marks_builds .term [.greater, .greaterEqual, .less, .lessEqual]) term room room'
  have equality := chain_predicts (k := .equality) rfl
    (Level.marks_builds .comparison [.bangEqual, .equalEqual]) comparison room room'
  have and := chain_predicts (k := .and) rfl (Level.word_builds .equality .and) equality room room'
  exact chain_predicts (k := .or) rfl (Level.word_builds .and .or) and room room'

theorem ternary_predicts : Predicts known TokenKind.inExpression (Stops .ternary) [aNil] n size
    (ternary nested bound) (fun i => ternary (nested' i) (bound' i)) := by
  refine (or_predicts inner room room').bind (fun condition => ?_) fun _ stops =>
    stops.mono (by decide)
  refine .accept (fun question _ => ?_) (.pure _) (fun kind _ is => ?_) fun _ stops => ?_
  · have branch : Predicts known TokenKind.inExpression (Stops .ternary) [aNil] (n - 1)
        (fun i => size i - 1) nested nested' :=
      inner.imp (fun _ known => known) (fun _ allowed => allowed) fun _ stops => stops
    refine Predicts.proceeds (inner.bind (fun yes => .markThen rfl fun colon =>
      branch.bind (fun no => .make _) fun _ stops => stops) fun rest _ => ?_)
    exact Stops.before ⟨.bare (.mark .colon), rfl⟩ _ (by decide)
  · rw [TokenKind.isMark_iff.1 is]
    rfl
  · exact stops.not_next fun kind is => (TokenKind.reach_mark is).le

end Nested

/-- Only the target of an assignment is told of late. -/
theorem assignTo_predicts (target : Expr) {equals : Token} (value : Expr) (told : known equals) :
    Predicts known may closes [] n size (assignTo target equals value)
      (fun _ : ι => assignTo target equals value) := by
  cases target with
  | var | get =>
    simp only [assignTo]
    exact .make _
  | _ => exact .misassigned told

section Assignments

variable {bound : Nat} {bound' : ι → Nat}

theorem assignment_room {c : Cursor} (room : c.rest.length ≤ bound) :
    assignment bound c = assignment (bound - 1 + 1) c := by
  cases bound with
  | zero => rw [no_tokens room]; rfl
  | succ bound => rfl

theorem assignment_predicts (room : n ≤ bound + 1) (room' : ∀ i, size i ≤ bound' i + 1) :
    Predicts known TokenKind.inExpression (Stops .assignment) [aNil] n size (assignment bound)
      (fun i => assignment (bound' i)) := by
  induction n generalizing size bound bound' with
  | zero =>
    refine ⟨.vacuous, fun rest i id stops short => ?_⟩
    have enough : [aNil].length ≤ bound' i := by
      have := room_for short (room' i)
      rw [List.length_append] at this
      omega
    obtain ⟨e, id', reading, -⟩ :=
      aNil_derived.complete.gives (bound' i) (bound' i) rest enough enough stops id
    exact .inl ⟨e, id', reading⟩
  | succ n ih =>
    have inner := ih (room_later room) fun i => room_later (room' i)
    have target : Predicts known TokenKind.inExpression (Stops .ternary) [aNil] (n + 1) size
        (ternary (assignment (bound - 1)) (bound - 1 + 1))
        (fun i => ternary (assignment (bound' i - 1)) (bound' i - 1 + 1)) :=
      ternary_predicts inner (room_again room) fun i => room_again (room' i)
    have stepped : Predicts known TokenKind.inExpression (Stops .assignment) [aNil] (n + 1) size
        (assignment (bound - 1 + 1)) (fun i => assignment (bound' i - 1 + 1)) := by
      simp only [assignment]
      refine target.bind (fun e => ?_) fun _ stops => stops.mono (by decide)
      refine .accept (fun equals _ => ?_) (.pure _) (fun kind _ is => ?_) fun _ stops => ?_
      · have value := inner.imp (fun u => Or.inr (a := u = equals)) (fun _ allowed => allowed)
          fun _ stops => stops
        exact .phrase _ (value.bind (fun e' => assignTo_predicts e e' (.inl rfl)) fun _ stops =>
          stops)
      · rw [TokenKind.isMark_iff.1 is]
        rfl
      · exact stops.not_next fun kind is => (TokenKind.reach_mark is).le
    exact stepped.congr (fun c short => assignment_room (room_for short room))
      (fun i c short => assignment_room (room_for short (room' i)))

theorem expression_predicts (room : n ≤ bound + 1) (room' : ∀ i, size i ≤ bound' i + 1) :
    Predicts known TokenKind.inExpression (Stops .expression) [aNil] n size (expression bound)
      (fun i => expression (bound' i)) :=
  expressionOf_predicts (assignment_predicts room room') room room'

end Assignments

end Grammar

end Lox
