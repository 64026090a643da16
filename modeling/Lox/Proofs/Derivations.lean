import Mathlib
import Lox.Syntax

/-!
The grammar of Lox as derivations: which lists of tokens stand for which tree. Trees are told up to
the ids of their expressions, which are all zero here. A derivation holds no end token.

    program     → declaration*
    declaration → "class" name ("<" name)? "{" function* "}" | "fun" function | varDecl | statement
    function    → name "(" parameters? ")" block
    varDecl     → "var" name ("=" expression)? ";"
    statement   → expressionStatement | "print" expression ";" | "return" expression? ";" | block
                | "if" "(" expression ")" statement ("else" statement)?
                | "while" "(" expression ")" statement
                | "for" "(" (varDecl | expressionStatement | ";") expression? ";" expression? ")"
                  statement
    block       → "{" declaration* "}"
    parameters  → name ("," name)*                 at most 255
    expression  → assignment ("," assignment)*
    assignment  → (call ".")? name "=" assignment | ternary
    ternary     → or ("?" assignment ":" assignment)?
    or          → and ("or" and)*
    and         → equality ("and" equality)*
    equality    → comparison (("!=" | "==") comparison)*
    comparison  → term ((">" | ">=" | "<" | "<=") term)*
    term        → factor (("-" | "+") factor)*
    factor      → unary (("/" | "*") unary)*
    unary       → ("!" | "-") unary | call
    call        → primary ("(" arguments? ")" | "." name)*
    arguments   → assignment ("," assignment)*     at most 255
    primary     → number | string | "true" | "false" | "nil" | "this" | name | "(" expression ")"
                | "super" "." name
-/

namespace Lox.Grammar

/-- A token of this kind. -/
abbrev TokenOf (kind : TokenKind) : Type := { t : Token // t.kind = kind }

/-- The items of a list as they stand in the text, parted by commas. -/
inductive Separated : List (List Token) → List Token → Prop
  | none : Separated [] []
  | one (ts : List Token) : Separated [ts] ts
  | more (ts : List Token) (comma : TokenOf (.mark .comma)) {us : List Token}
      {items : List (List Token)} {rest : List Token} (after : Separated (us :: items) rest) :
      Separated (ts :: us :: items) (ts ++ comma.val :: rest)

inductive Nonterminal where
  | expression | assignment | ternary | or | and | equality | comparison | term | factor | unary
  | call | primary
  deriving DecidableEq

/-- A rule `operand (operator operand)*`. -/
structure Repetition where
  operand : Nonterminal
  operators : List TokenKind
  tree : Expr → Token → Expr → Expr

def Nonterminal.repetition? : Nonterminal → Option Repetition
  | .expression => some ⟨.assignment, [.mark .comma], fun left _ right => .comma 0 left right⟩
  | .or => some ⟨.and, [.keyword .or], .logical 0⟩
  | .and => some ⟨.equality, [.keyword .and], .logical 0⟩
  | .equality => some ⟨.comparison, [.mark .bangEqual, .mark .equalEqual], .binary 0⟩
  | .comparison =>
      some ⟨.term, [.mark .greater, .mark .greaterEqual, .mark .less, .mark .lessEqual], .binary 0⟩
  | .term => some ⟨.factor, [.mark .minus, .mark .plus], .binary 0⟩
  | .factor => some ⟨.unary, [.mark .slash, .mark .star], .binary 0⟩
  | _ => none

/-- An operator with the right operand. -/
structure Operation where
  operator : Token
  tokens : List Token
  operand : Expr

def Operation.all (o : Operation) : List Token := o.operator :: o.tokens

/-- The operations that follow `left`, grouped to the left. -/
def Repetition.fold (r : Repetition) (left : Expr) (more : List Operation) : Expr :=
  more.foldl (fun left o => r.tree left o.operator o.operand) left

/-- The parts of a sequence with their trees. -/
abbrev Parts (α : Type) := List (List Token × α)

def Parts.tokens {α : Type} (parts : Parts α) : List Token := parts.flatMap Prod.fst

@[simp] theorem Parts.tokens_cons {α : Type} (part : List Token × α) (parts : Parts α) :
    Parts.tokens (part :: parts) = part.1 ++ parts.tokens := List.flatMap_cons

def Parts.trees {α : Type} (parts : Parts α) : List α := parts.map Prod.snd

inductive Derives : Nonterminal → List Token → Expr → Prop
  | repetition {n : Nonterminal} {r : Repetition} (rule : n.repetition? = some r)
      {ts : List Token} {e : Expr} (first : Derives r.operand ts e) (more : List Operation)
      (operators : ∀ o ∈ more, o.operator.kind ∈ r.operators)
      (operands : ∀ o ∈ more, Derives r.operand o.tokens o.operand) :
      Derives n (ts ++ more.flatMap Operation.all) (r.fold e more)
  | assign (name : TokenOf .identifier) (equals : TokenOf (.mark .equal)) {ts : List Token}
      {value : Expr} (assigned : Derives .assignment ts value) :
      Derives .assignment (name.val :: equals.val :: ts) (.assign 0 name value)
  | set {os : List Token} {object : Expr} (holder : Derives .call os object)
      (dot : TokenOf (.mark .dot)) (name : TokenOf .identifier) (equals : TokenOf (.mark .equal))
      {ts : List Token} {value : Expr} (assigned : Derives .assignment ts value) :
      Derives .assignment (os ++ dot.val :: name.val :: equals.val :: ts) (.set 0 object name value)
  | unassigned {ts : List Token} {e : Expr} (only : Derives .ternary ts e) :
      Derives .assignment ts e
  | ternary {cs ys ns : List Token} {condition yes no : Expr} (first : Derives .or cs condition)
      (question : TokenOf (.mark .question)) (second : Derives .assignment ys yes)
      (colon : TokenOf (.mark .colon)) (third : Derives .assignment ns no) :
      Derives .ternary (cs ++ question.val :: (ys ++ colon.val :: ns)) (.ternary 0 condition yes no)
  | unconditional {ts : List Token} {e : Expr} (only : Derives .or ts e) : Derives .ternary ts e
  | unary (operator : Token) (sign : operator.kind ∈ [.mark .bang, .mark .minus]) {ts : List Token}
      {operand : Expr} (rest : Derives .unary ts operand) :
      Derives .unary (operator :: ts) (.unary 0 operator operand)
  | unsigned {ts : List Token} {e : Expr} (only : Derives .call ts e) : Derives .unary ts e
  | call {ts : List Token} {callee : Expr} (called : Derives .call ts callee)
      (opening : TokenOf (.mark .leftParen)) (arguments : Parts Expr)
      (each : ∀ a ∈ arguments, Derives .assignment a.1 a.2) {joined : List Token}
      (separated : Separated (arguments.map Prod.fst) joined) (few : arguments.length ≤ 255)
      (paren : TokenOf (.mark .rightParen)) :
      Derives .call (ts ++ opening.val :: (joined ++ [paren.val]))
        (.call 0 callee paren arguments.trees)
  | get {ts : List Token} {object : Expr} (holder : Derives .call ts object)
      (dot : TokenOf (.mark .dot)) (name : TokenOf .identifier) :
      Derives .call (ts ++ [dot.val, name.val]) (.get 0 object name)
  | uncalled {ts : List Token} {e : Expr} (only : Derives .primary ts e) : Derives .call ts e
  | number {n : Number.Pattern} (t : TokenOf (.number n)) :
      Derives .primary [t.val] (.literal 0 (.number n))
  | string {s : String} (t : TokenOf (.string s)) :
      Derives .primary [t.val] (.literal 0 (.string s))
  | true_ (t : TokenOf (.keyword .true)) : Derives .primary [t.val] (.literal 0 (.bool true))
  | false_ (t : TokenOf (.keyword .false)) : Derives .primary [t.val] (.literal 0 (.bool false))
  | nil (t : TokenOf (.keyword .nil)) : Derives .primary [t.val] (.literal 0 .nil)
  | this (t : TokenOf (.keyword .this)) : Derives .primary [t.val] (.this 0 t)
  | name (t : TokenOf .identifier) : Derives .primary [t.val] (.var 0 t)
  | super (keyword : TokenOf (.keyword .super)) (dot : TokenOf (.mark .dot))
      (method : TokenOf .identifier) :
      Derives .primary [keyword.val, dot.val, method.val] (.super 0 keyword method)
  | grouping (opening : TokenOf (.mark .leftParen)) {ts : List Token} {inner : Expr}
      (inside : Derives .expression ts inner) (closing : TokenOf (.mark .rightParen)) :
      Derives .primary (opening.val :: (ts ++ [closing.val])) (.grouping 0 inner)

/-- A token of this kind can stand first in a primary expression. -/
def opensPrimary : TokenKind → Bool
  | .number _ | .string _ | .identifier => true
  | .keyword w => [Keyword.true, .false, .nil, .this, .super].contains w
  | .mark m => m = .leftParen
  | .endOfText => false

def opensExpression (k : TokenKind) : Bool :=
  opensPrimary k || [TokenKind.mark .bang, .mark .minus].contains k

def opensStatement (k : TokenKind) : Bool :=
  opensExpression k || [TokenKind.mark .leftBrace, .keyword .for_, .keyword .if_, .keyword .while_,
    .keyword .return_, .keyword .print].contains k

def opensDeclaration (k : TokenKind) : Bool :=
  opensStatement k || [TokenKind.keyword .class_, .keyword .fun_, .keyword .var].contains k

/-- The first token of an expression. -/
theorem Derives.first {n : Nonterminal} {ts : List Token} {e : Expr} (derived : Derives n ts e) :
    ∃ t us, ts = t :: us ∧ opensExpression t.kind = true ∧
      (n = .call ∨ n = .primary → opensPrimary t.kind = true) := by
  have primary {t : Token} {us : List Token} {n : Nonterminal} (opens : opensPrimary t.kind = true) :
      ∃ t' us', t :: us = t' :: us' ∧ opensExpression t'.kind = true ∧
        (n = .call ∨ n = .primary → opensPrimary t'.kind = true) :=
    ⟨t, us, rfl, by rw [opensExpression, opens]; rfl, fun _ => opens⟩
  induction derived with
  | @repetition n r rule ts e _ more _ _ ih =>
    obtain ⟨t, us, rfl, opens, -⟩ := ih
    refine ⟨t, us ++ more.flatMap Operation.all, rfl, opens, ?_⟩
    rintro (rfl | rfl) <;> cases rule
  | assign name | name name => exact primary (by rw [name.property]; rfl)
  | set _ _ _ _ _ ih _ =>
    obtain ⟨t, us, rfl, -, opens⟩ := ih
    exact primary (opens (.inl rfl))
  | unassigned _ ih | unconditional _ ih | ternary _ _ _ _ _ ih =>
    obtain ⟨t, us, rfl, opens, -⟩ := ih
    exact ⟨t, _, rfl, opens, by simp⟩
  | unsigned _ ih =>
    obtain ⟨t, us, rfl, opens, -⟩ := ih
    exact ⟨t, _, rfl, opens, by simp⟩
  | unary operator sign =>
    refine ⟨operator, _, rfl, ?_, by simp⟩
    rw [opensExpression, List.contains_iff_mem.2 sign, Bool.or_true]
  | call _ _ _ _ _ _ _ ih | get _ _ _ ih =>
    obtain ⟨t, us, rfl, -, opens⟩ := ih
    exact primary (opens (.inl rfl))
  | uncalled _ ih =>
    obtain ⟨t, us, rfl, -, opens⟩ := ih
    exact primary (opens (.inr rfl))
  | number t | string t | true_ t | false_ t | nil t | this t | super t | grouping t =>
    exact primary (by rw [t.property]; rfl)

/-- What an operation builds is neither a name nor a property. -/
theorem Nonterminal.tree_ne {n : Nonterminal} {r : Repetition} (rule : n.repetition? = some r)
    (left : Expr) (operator : Token) (right : Expr) :
    (∀ name, r.tree left operator right ≠ .var 0 name) ∧
      ∀ object name, r.tree left operator right ≠ .get 0 object name := by
  cases n <;> cases rule <;> exact ⟨nofun, nofun⟩

theorem Repetition.fold_concat (r : Repetition) (e : Expr) (more : List Operation) (o : Operation) :
    r.fold e (more ++ [o]) = r.tree (r.fold e more) o.operator o.operand := by
  simp [Repetition.fold]

/-- Only a name stands for a name. -/
theorem Derives.of_name {n : Nonterminal} {ts : List Token} {e : Expr} (derived : Derives n ts e)
    {name : Token} (same : e = .var 0 name) : ts = [name] ∧ name.kind = .identifier := by
  induction derived with
  | repetition rule _ more _ _ ih =>
    rcases List.eq_nil_or_concat more with rfl | ⟨before, o, rfl⟩
    · obtain ⟨rfl, kind⟩ := ih same
      exact ⟨rfl, kind⟩
    · rw [List.concat_eq_append, Repetition.fold_concat] at same
      exact absurd same ((Nonterminal.tree_ne rule _ _ _).1 name)
  | unassigned _ ih | unconditional _ ih | unsigned _ ih | uncalled _ ih => exact ih same
  | name t =>
    cases same
    exact ⟨rfl, t.property⟩
  | _ => cases same

/-- What stands for a property ends in its name. -/
theorem Derives.of_property {n : Nonterminal} {ts : List Token} {e : Expr} (derived : Derives n ts e)
    {object : Expr} {name : Token} (same : e = .get 0 object name) :
    ∃ os, ∃ dot : TokenOf (.mark .dot), ts = os ++ [dot.val, name] ∧ Derives .call os object ∧
      name.kind = .identifier := by
  induction derived with
  | repetition rule _ more _ _ ih =>
    rcases List.eq_nil_or_concat more with rfl | ⟨before, o, rfl⟩
    · obtain ⟨os, dot, rfl, holder, kind⟩ := ih same
      exact ⟨os, dot, List.append_nil _, holder, kind⟩
    · rw [List.concat_eq_append, Repetition.fold_concat] at same
      exact absurd same ((Nonterminal.tree_ne rule _ _ _).2 object name)
  | unassigned _ ih | unconditional _ ih | unsigned _ ih | uncalled _ ih => exact ih same
  | get holder dot name =>
    cases same
    exact ⟨_, dot, rfl, holder, name.property⟩
  | _ => cases same

/-- An expression that may be left out. -/
inductive Possibly : List Token → Option Expr → Prop
  | absent : Possibly [] none
  | present {ts : List Token} {e : Expr} (given : Derives .expression ts e) : Possibly ts (some e)

inductive VarDecl : List Token → Stmt → Prop
  | bare (var : TokenOf (.keyword .var)) (name : TokenOf .identifier)
      (semicolon : TokenOf (.mark .semicolon)) :
      VarDecl [var.val, name.val, semicolon.val] (.varDecl name none)
  | initialized (var : TokenOf (.keyword .var)) (name : TokenOf .identifier)
      (equals : TokenOf (.mark .equal)) {ts : List Token} {e : Expr}
      (value : Derives .expression ts e) (semicolon : TokenOf (.mark .semicolon)) :
      VarDecl (var.val :: name.val :: equals.val :: (ts ++ [semicolon.val])) (.varDecl name (some e))

inductive ExpressionStatement : List Token → Stmt → Prop
  | ended {ts : List Token} {e : Expr} (value : Derives .expression ts e)
      (semicolon : TokenOf (.mark .semicolon)) :
      ExpressionStatement (ts ++ [semicolon.val]) (.expression e)

/-- What the clauses of a `for` begin with. -/
inductive Initializer : List Token → Option Stmt → Prop
  | absent (semicolon : TokenOf (.mark .semicolon)) : Initializer [semicolon.val] none
  | declaration {ts : List Token} {s : Stmt} (declares : VarDecl ts s) : Initializer ts (some s)
  | expression {ts : List Token} {s : Stmt} (evaluates : ExpressionStatement ts s) :
      Initializer ts (some s)

inductive Superclass : List Token → Option Expr → Prop
  | absent : Superclass [] none
  | named (less : TokenOf (.mark .less)) (name : TokenOf .identifier) :
      Superclass [less.val, name.val] (some (.var 0 name))

/-- A statement is open if it ends with an `if` that an `else` could follow. A function stands for
its declaration. -/
inductive Phrase where
  | declaration | function
  | statement (isOpen : Bool)

inductive Forms : Phrase → List Token → Stmt → Prop
  | classDecl (keyword : TokenOf (.keyword .class_)) (name : TokenOf .identifier)
      {ps : List Token} {parent : Option Expr} (superclass : Superclass ps parent)
      (opening : TokenOf (.mark .leftBrace)) (methods : Parts FunctionDecl)
      (each : ∀ m ∈ methods, Forms .function m.1 (.funDecl m.2))
      (closing : TokenOf (.mark .rightBrace)) :
      Forms .declaration
        (keyword.val :: name.val :: (ps ++ opening.val :: (methods.tokens ++ [closing.val])))
        (.classDecl name parent methods.trees)
  | funDecl (keyword : TokenOf (.keyword .fun_)) {ts : List Token} {s : Stmt}
      (function : Forms .function ts s) : Forms .declaration (keyword.val :: ts) s
  | varDecl {ts : List Token} {s : Stmt} (declares : VarDecl ts s) : Forms .declaration ts s
  | statement {isOpen : Bool} {ts : List Token} {s : Stmt} (only : Forms (.statement isOpen) ts s) :
      Forms .declaration ts s
  | function (name : TokenOf .identifier) (opening : TokenOf (.mark .leftParen))
      (parameters : List Token) (names : ∀ p ∈ parameters, p.kind = .identifier)
      {joined : List Token} (separated : Separated (parameters.map fun p => [p]) joined)
      (few : parameters.length ≤ 255) (closing : TokenOf (.mark .rightParen))
      (start : TokenOf (.mark .leftBrace)) (body : Parts Stmt)
      (each : ∀ d ∈ body, Forms .declaration d.1 d.2) (last : TokenOf (.mark .rightBrace)) :
      Forms .function
        (name.val :: opening.val :: (joined ++ closing.val :: start.val :: (body.tokens ++ [last.val])))
        (.funDecl ⟨name, parameters, body.trees⟩)
  | expression {ts : List Token} {s : Stmt} (evaluates : ExpressionStatement ts s) :
      Forms (.statement false) ts s
  | print (keyword : TokenOf (.keyword .print)) {ts : List Token} {e : Expr}
      (value : Derives .expression ts e) (semicolon : TokenOf (.mark .semicolon)) :
      Forms (.statement false) (keyword.val :: (ts ++ [semicolon.val])) (.print e)
  | returnStmt (keyword : TokenOf (.keyword .return_)) {ts : List Token} {e : Option Expr}
      (value : Possibly ts e) (semicolon : TokenOf (.mark .semicolon)) :
      Forms (.statement false) (keyword.val :: (ts ++ [semicolon.val])) (.returnStmt keyword e)
  | block (opening : TokenOf (.mark .leftBrace)) (body : Parts Stmt)
      (each : ∀ d ∈ body, Forms .declaration d.1 d.2) (closing : TokenOf (.mark .rightBrace)) :
      Forms (.statement false) (opening.val :: (body.tokens ++ [closing.val])) (.block body.trees)
  | ifThen (keyword : TokenOf (.keyword .if_)) (opening : TokenOf (.mark .leftParen))
      {cs : List Token} {condition : Expr} (asked : Derives .expression cs condition)
      (closing : TokenOf (.mark .rightParen)) {isOpen : Bool} {ys : List Token} {yes : Stmt}
      (branch : Forms (.statement isOpen) ys yes) :
      Forms (.statement true) (keyword.val :: opening.val :: (cs ++ closing.val :: ys)) (.ifThen condition yes)
  /-- The `else` belongs to the nearest `if`: no other one stands open before it. -/
  | ifElse (keyword : TokenOf (.keyword .if_)) (opening : TokenOf (.mark .leftParen))
      {cs : List Token} {condition : Expr} (asked : Derives .expression cs condition)
      (closing : TokenOf (.mark .rightParen)) {ys : List Token} {yes : Stmt}
      (branch : Forms (.statement false) ys yes) (otherwise : TokenOf (.keyword .else_))
      {isOpen : Bool} {ns : List Token} {no : Stmt} (other : Forms (.statement isOpen) ns no) :
      Forms (.statement isOpen)
        (keyword.val :: opening.val :: (cs ++ closing.val :: (ys ++ otherwise.val :: ns)))
        (.ifElse condition yes no)
  | whileLoop (keyword : TokenOf (.keyword .while_)) (opening : TokenOf (.mark .leftParen))
      {cs : List Token} {condition : Expr} (asked : Derives .expression cs condition)
      (closing : TokenOf (.mark .rightParen)) {isOpen : Bool} {bs : List Token} {body : Stmt}
      (repeated : Forms (.statement isOpen) bs body) :
      Forms (.statement isOpen) (keyword.val :: opening.val :: (cs ++ closing.val :: bs))
        (.whileLoop condition body)
  /-- A loop without a condition runs on `true`. -/
  | forLoop (keyword : TokenOf (.keyword .for_)) (opening : TokenOf (.mark .leftParen))
      {is : List Token} {initializer : Option Stmt} (begins : Initializer is initializer)
      {cs : List Token} {condition : Option Expr} (asked : Possibly cs condition)
      (semicolon : TokenOf (.mark .semicolon)) {ns : List Token} {increment : Option Expr}
      (goesOn : Possibly ns increment) (closing : TokenOf (.mark .rightParen)) {isOpen : Bool}
      {bs : List Token} {body : Stmt} (repeated : Forms (.statement isOpen) bs body) :
      Forms (.statement isOpen)
        (keyword.val :: opening.val :: (is ++ (cs ++ semicolon.val :: (ns ++ closing.val :: bs))))
        (.forLoop initializer (condition.getD (.literal 0 (.bool true))) increment body)

/-- The first token of a declaration, a statement or a function. -/
theorem Forms.first {phrase : Phrase} {ts : List Token} {s : Stmt} (formed : Forms phrase ts s) :
    ∃ t us, ts = t :: us ∧ opensDeclaration t.kind = true ∧
      (phrase ≠ .declaration → opensStatement t.kind = true) := by
  have other {t : Token} {us : List Token} {phrase : Phrase} (opens : opensStatement t.kind = true) :
      ∃ t' us', t :: us = t' :: us' ∧ opensDeclaration t'.kind = true ∧
        (phrase ≠ .declaration → opensStatement t'.kind = true) :=
    ⟨t, us, rfl, by rw [opensDeclaration, opens]; rfl, fun _ => opens⟩
  have declaration {k : TokenKind} (t : TokenOf k) {us : List Token} (opens : opensDeclaration k = true) :
      ∃ t' us', t.val :: us = t' :: us' ∧ opensDeclaration t'.kind = true ∧
        (Phrase.declaration ≠ .declaration → opensStatement t'.kind = true) :=
    ⟨t, us, rfl, by rw [t.property, opens], absurd rfl⟩
  induction formed with
  | classDecl keyword => exact declaration keyword rfl
  | funDecl keyword => exact declaration keyword rfl
  | varDecl declares =>
    cases declares with
    | bare var | initialized var => exact declaration var rfl
  | statement _ ih =>
    obtain ⟨t, us, rfl, opens, -⟩ := ih
    exact ⟨t, us, rfl, opens, absurd rfl⟩
  | function name => exact other (by rw [name.property]; rfl)
  | expression evaluates =>
    obtain ⟨value, semicolon⟩ := evaluates
    obtain ⟨t, us, rfl, opens, -⟩ := value.first
    exact other (by rw [opensStatement, opens]; rfl)
  | print t | returnStmt t | block t | ifThen t | ifElse t | whileLoop t | forLoop t =>
    exact other (by rw [t.property]; rfl)

/-- The tokens are those of a program, which is the list of its declarations. -/
def Program (ts : List Token) (tree : List Stmt) : Prop :=
  ∃ parts : Parts Stmt,
    (∀ d ∈ parts, Forms .declaration d.1 d.2) ∧ parts.tokens = ts ∧ parts.trees = tree

end Lox.Grammar
