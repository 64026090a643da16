import Mathlib
import Lox.Proofs.RejectedPrograms
import Lox.Proofs.SoundReading
import Lox.Proofs.SpacedTokens

/-!
What the trees of a text hold: each token spells its kind and is of a kind that its place asks for,
and no number has a sign. This is read off the derivations, and holds of all that stands in a tree.
-/

namespace Lox

open Region (IsWord)

/-- Literals have no sign. -/
def Literal.Unsigned : Literal → Prop
  | .number n => Number.isNegative n = false ∧ Number.magnitude n ≤ Number.infinite
  | _ => True

/-- The lexeme is one that the kind is scanned from. -/
def Token.Scanned (t : Token) : Prop :=
  match t.kind with
  | .mark m => t.lexeme = m.text
  | .keyword w => t.lexeme = w.text
  | .identifier => IsWord t.lexeme.toList ∧ ∀ w : Keyword, t.lexeme ≠ w.text
  | .number n => (Literal.number n).Unsigned
  | _ => True

theorem Number.ofMagnitude_unsigned {bits : Nat} (bounded : bits ≤ Number.infinite) :
    (Literal.number (Number.ofMagnitude bits)).Unsigned := by
  have below : Number.infinite < Number.signBit := by decide
  have small : bits < 2 ^ 64 := by
    have wide : Number.signBit < 2 ^ 64 := by decide
    omega
  have same : (Number.ofMagnitude bits).toNat = bits := by
    rw [Number.ofMagnitude, UInt64.toNat_ofNat', Nat.mod_eq_of_lt small]
  constructor
  · rw [Number.isNegative, same]
    simpa using bounded.trans_lt below
  · rw [Number.magnitude, same, Nat.mod_eq_of_lt (bounded.trans_lt below)]
    exact bounded

theorem Number.Decimal.magnitude_le (d : Number.Decimal) : d.magnitude ≤ Number.infinite := by
  unfold magnitude
  split <;> exact Nat.min_le_left _ _

namespace Scan

theorem item?_scanned {r : Region} {after : List Char} (leads : r.Leads after) (line : Nat)
    {t : Token} (given : r.item? line = some (.ok t)) : t.Scanned := by
  obtain ⟨kind, text⟩ := r
  cases kind with
  | string =>
    cases given
    trivial
  | number =>
    cases given
    unfold Token.Scanned
    exact Number.ofMagnitude_unsigned (Number.Decimal.magnitude_le _)
  | mark m =>
    cases given
    unfold Token.Scanned
    exact congrArg String.ofList leads.1
  | word =>
    cases given
    obtain ⟨isKeyword, isName⟩ := Region.keyword_iff (String.ofList text)
    unfold Token.Scanned
    dsimp only
    cases spelled : Keyword.ofText? (String.ofList text) with
    | some w =>
      have kind : TokenKind.ofWord (String.ofList text) = .keyword w := by
        rw [TokenKind.ofWord, spelled]
      rw [kind]
      exact (isKeyword w).1 kind
    | none =>
      have kind : TokenKind.ofWord (String.ofList text) = .identifier := by
        rw [TokenKind.ofWord, spelled]
      rw [kind]
      constructor
      · rw [String.toList_ofList]
        exact leads.1
      · exact isName.1 kind
  | blank | lineComment | blockComment | foreign | openString | openComment => cases given

/-- Scanned tokens spell their kinds. -/
theorem tokens_scanned (source : String) : ∀ t ∈ tokens (items source), t.Scanned := by
  have parts := Region.decomposes_iff.2 (Eq.refl (Region.cut source.toList))
  rw [items_eq]
  generalize 1 = line
  generalize Region.cut source.toList = rs at parts ⊢
  generalize source.toList = text at parts
  induction parts generalizing line with
  | done =>
    intro t among
    obtain rfl := List.mem_singleton.1 among
    trivial
  | @next r after rs leads _ ih =>
    intro t among
    rw [itemsFrom, tokens_append] at among
    rcases List.mem_append.1 among with among | among
    · apply item?_scanned leads (line + Region.newlines r.text)
      cases given : r.item? (line + Region.newlines r.text) with
      | none =>
        rw [given] at among
        cases among
      | some item =>
        rw [given] at among
        cases item with
        | ok t' =>
          obtain rfl := List.mem_singleton.1 among
          rfl
        | error e => cases among
    · exact ih _ t among

end Scan

/-! ### Trees -/

mutual

/-- Each token of the tree spells its kind and is of a kind that its place asks for. -/
def Expr.Scanned : Expr → Prop
  | .literal _ v => v.Unsigned
  | .grouping _ inner => inner.Scanned
  | .unary _ operator operand =>
      operator.Scanned ∧ operator.kind.isUnary = true ∧ operand.Scanned
  | .binary _ left operator right =>
      left.Scanned ∧ operator.Scanned ∧ operator.kind.isBinary = true ∧ right.Scanned
  | .logical _ left operator right =>
      left.Scanned ∧ operator.Scanned ∧ operator.kind.isLogical = true ∧ right.Scanned
  | .assign _ name value => name.IsName Token.Scanned ∧ value.Scanned
  | .var _ name => name.IsName Token.Scanned
  | .call _ callee paren arguments =>
      callee.Scanned ∧ paren.Scanned ∧ paren.kind = .mark .rightParen ∧ Expr.ScannedList arguments
  | .get _ object name => object.Scanned ∧ name.IsName Token.Scanned
  | .set _ object name value => object.Scanned ∧ name.IsName Token.Scanned ∧ value.Scanned
  | .this _ keyword => keyword.Scanned ∧ keyword.kind = .keyword .this
  | .super _ keyword method =>
      keyword.Scanned ∧ keyword.kind = .keyword .super ∧ method.IsName Token.Scanned
  | .comma _ left right => left.Scanned ∧ right.Scanned
  | .ternary _ condition yes no => condition.Scanned ∧ yes.Scanned ∧ no.Scanned

def Expr.ScannedList : List Expr → Prop
  | [] => True
  | e :: es => e.Scanned ∧ Expr.ScannedList es

end

mutual

def Stmt.Scanned : Stmt → Prop
  | .expression e => e.Scanned
  | .print e => e.Scanned
  | .varDecl name none => name.IsName Token.Scanned
  | .varDecl name (some e) => name.IsName Token.Scanned ∧ e.Scanned
  | .block body => Stmt.ScannedList body
  | .ifThen condition yes => condition.Scanned ∧ yes.Scanned
  | .ifElse condition yes no => condition.Scanned ∧ yes.Scanned ∧ no.Scanned
  | .whileLoop condition body => condition.Scanned ∧ body.Scanned
  | .funDecl f => f.Scanned
  | .returnStmt keyword none => keyword.Scanned ∧ keyword.kind = .keyword .return_
  | .returnStmt keyword (some e) =>
      (keyword.Scanned ∧ keyword.kind = .keyword .return_) ∧ e.Scanned
  | .classDecl name none methods => name.IsName Token.Scanned ∧ FunctionDecl.ScannedList methods
  | .classDecl name (some e) methods =>
      name.IsName Token.Scanned ∧ e.Scanned ∧ FunctionDecl.ScannedList methods

def Stmt.ScannedList : List Stmt → Prop
  | [] => True
  | s :: ss => s.Scanned ∧ Stmt.ScannedList ss

def FunctionDecl.Scanned : FunctionDecl → Prop
  | ⟨name, parameters, body⟩ =>
      name.IsName Token.Scanned ∧ (∀ t ∈ parameters, t.IsName Token.Scanned) ∧
        Stmt.ScannedList body

def FunctionDecl.ScannedList : List FunctionDecl → Prop
  | [] => True
  | f :: fs => f.Scanned ∧ FunctionDecl.ScannedList fs

end

section Lists

theorem Expr.scannedList_iff {es : List Expr} : Expr.ScannedList es ↔ ∀ e ∈ es, e.Scanned := by
  induction es with
  | nil => simp [Expr.ScannedList]
  | cons e es ih => simp [Expr.ScannedList, ih]

theorem Stmt.scannedList_iff {ss : List Stmt} : Stmt.ScannedList ss ↔ ∀ s ∈ ss, s.Scanned := by
  induction ss with
  | nil => simp [Stmt.ScannedList]
  | cons s ss ih => simp [Stmt.ScannedList, ih]

theorem FunctionDecl.scannedList_iff {fs : List FunctionDecl} :
    FunctionDecl.ScannedList fs ↔ ∀ f ∈ fs, f.Scanned := by
  induction fs with
  | nil => simp [FunctionDecl.ScannedList]
  | cons f fs ih => simp [FunctionDecl.ScannedList, ih]

end Lists

/-! ### Trees of derivations -/

namespace Grammar

/-- The items of a list hold tokens of the list only. -/
theorem Separated.subset {items : List (List Token)} {joined : List Token}
    (separated : Separated items joined) : ∀ item ∈ items, item ⊆ joined := by
  induction separated with
  | none => nofun
  | one ts =>
    intro item among
    obtain rfl := List.mem_singleton.1 among
    exact List.Subset.refl _
  | more ts comma _ ih =>
    intro item among
    rcases List.mem_cons.1 among with rfl | among
    · exact List.subset_append_left _ _
    · exact List.subset_append_of_subset_right _ (List.subset_cons_of_subset _ (ih item among))

theorem Parts.subset {α : Type} {parts : Parts α} {part : List Token × α} (among : part ∈ parts) :
    part.1 ⊆ parts.tokens := by
  intro t inside
  exact List.mem_flatMap.2 ⟨part, among, inside⟩

theorem TokenOf.isName {t : TokenOf .identifier} (scanned : t.val.Scanned) :
    t.val.IsName Token.Scanned :=
  ⟨scanned, by rw [t.property]; rfl⟩

theorem TokenOf.unsigned {n : Number.Pattern} {t : TokenOf (.number n)} (scanned : t.val.Scanned) :
    (Literal.number n).Unsigned := by
  unfold Token.Scanned at scanned
  rw [t.property] at scanned
  exact scanned

/-- The trees that a rule of operators builds. -/
theorem Nonterminal.tree_scanned {n : Nonterminal} {r : Repetition} (rule : n.repetition? = some r)
    {left right : Expr} {operator : Token} (isLeft : left.Scanned) (scanned : operator.Scanned)
    (kind : operator.kind ∈ r.operators) (isRight : right.Scanned) :
    (r.tree left operator right).Scanned := by
  cases n with
  | expression =>
    cases rule
    exact ⟨isLeft, isRight⟩
  | or | and =>
    cases rule
    have isLogical : operator.kind.isLogical = true := by
      rw [List.mem_singleton.1 kind]
      rfl
    exact ⟨isLeft, scanned, isLogical, isRight⟩
  | equality | comparison | term | factor =>
    have isBinary : ∀ k ∈ r.operators, k.isBinary = true := by
      cases rule
      decide
    cases rule
    exact ⟨isLeft, scanned, isBinary _ kind, isRight⟩
  | _ => cases rule

theorem Derives.scanned {n : Nonterminal} {ts : List Token} {e : Expr} (derived : Derives n ts e)
    (all : ∀ t ∈ ts, t.Scanned) : e.Scanned := by
  induction derived with
  | @repetition n r rule ts e _ more operators _ ih ihs =>
    obtain ⟨first, others⟩ := List.forall_mem_append.1 all
    have operand : ∀ o ∈ more, o.operator.Scanned ∧ o.operand.Scanned := by
      intro o among
      have own : ∀ t ∈ o.all, t.Scanned :=
        fun t inside => others t (List.mem_flatMap.2 ⟨o, among, inside⟩)
      obtain ⟨operator, operand⟩ := List.forall_mem_cons.1 own
      exact ⟨operator, ihs o among operand⟩
    apply List.foldlRecOn more _ (ih first)
    intro left isLeft o among
    exact Nonterminal.tree_scanned rule isLeft (operand o among).1 (operators o among)
      (operand o among).2
  | assign name equals _ ih =>
    obtain ⟨isName, _, value⟩ := by simpa only [List.forall_mem_cons] using all
    exact ⟨TokenOf.isName isName, ih value⟩
  | set _ dot name equals _ ih ih' =>
    obtain ⟨object, rest⟩ := List.forall_mem_append.1 all
    obtain ⟨_, isName, _, value⟩ := by simpa only [List.forall_mem_cons] using rest
    exact ⟨ih object, TokenOf.isName isName, ih' value⟩
  | unassigned _ ih | unconditional _ ih | unsigned _ ih | uncalled _ ih => exact ih all
  | ternary _ question _ colon _ ih ih' ih'' =>
    obtain ⟨condition, rest⟩ := List.forall_mem_append.1 all
    obtain ⟨_, rest⟩ := List.forall_mem_cons.1 rest
    obtain ⟨yes, rest⟩ := List.forall_mem_append.1 rest
    obtain ⟨_, no⟩ := List.forall_mem_cons.1 rest
    exact ⟨ih condition, ih' yes, ih'' no⟩
  | unary operator sign _ ih =>
    obtain ⟨scanned, rest⟩ := List.forall_mem_cons.1 all
    have both : ∀ k ∈ [TokenKind.mark .bang, .mark .minus], k.isUnary = true := by decide
    exact ⟨scanned, both _ sign, ih rest⟩
  | @call ts callee _ opening arguments _ joined separated few paren ih ihs =>
    obtain ⟨called, rest⟩ := List.forall_mem_append.1 all
    obtain ⟨_, rest⟩ := List.forall_mem_cons.1 rest
    obtain ⟨items, last⟩ := List.forall_mem_append.1 rest
    refine ⟨ih called, last _ List.mem_cons_self, paren.property, Expr.scannedList_iff.2 ?_⟩
    intro e among
    obtain ⟨a, given, rfl⟩ := List.mem_map.1 among
    have inside := separated.subset a.1 (List.mem_map_of_mem given)
    exact ihs a given fun t own => items t (inside own)
  | get _ dot name ih =>
    obtain ⟨object, rest⟩ := List.forall_mem_append.1 all
    obtain ⟨_, isName, _⟩ := by simpa only [List.forall_mem_cons] using rest
    exact ⟨ih object, TokenOf.isName isName⟩
  | number t => exact TokenOf.unsigned (all _ List.mem_cons_self)
  | string | true_ | false_ | nil => trivial
  | this t => exact ⟨all _ List.mem_cons_self, t.property⟩
  | name t => exact TokenOf.isName (all _ List.mem_cons_self)
  | super keyword dot method =>
    obtain ⟨isSuper, _, isName, _⟩ := by simpa only [List.forall_mem_cons] using all
    exact ⟨isSuper, keyword.property, TokenOf.isName isName⟩
  | grouping opening _ closing ih =>
    obtain ⟨_, rest⟩ := List.forall_mem_cons.1 all
    exact ih (List.forall_mem_append.1 rest).1

theorem VarDecl.scanned {ts : List Token} {s : Stmt} (declares : VarDecl ts s)
    (all : ∀ t ∈ ts, t.Scanned) : s.Scanned := by
  cases declares with
  | bare var name semicolon =>
    obtain ⟨_, isName, _⟩ := by simpa only [List.forall_mem_cons] using all
    exact TokenOf.isName isName
  | initialized var name equals value semicolon =>
    obtain ⟨_, isName, _, rest⟩ := by simpa only [List.forall_mem_cons] using all
    exact ⟨TokenOf.isName isName, value.scanned (List.forall_mem_append.1 rest).1⟩

theorem ExpressionStatement.scanned {ts : List Token} {s : Stmt}
    (evaluates : ExpressionStatement ts s) (all : ∀ t ∈ ts, t.Scanned) : s.Scanned := by
  obtain ⟨value, semicolon⟩ := evaluates
  exact value.scanned (List.forall_mem_append.1 all).1

theorem Possibly.scanned {ts : List Token} {e? : Option Expr} (possibly : Possibly ts e?)
    (all : ∀ t ∈ ts, t.Scanned) : ∀ e ∈ e?, e.Scanned := by
  cases possibly with
  | absent => nofun
  | present given =>
    rintro e ⟨⟩
    exact given.scanned all

theorem Initializer.scanned {ts : List Token} {s? : Option Stmt} (begins : Initializer ts s?)
    (all : ∀ t ∈ ts, t.Scanned) : ∀ s ∈ s?, s.Scanned := by
  cases begins with
  | absent => nofun
  | declaration declares =>
    rintro s ⟨⟩
    exact declares.scanned all
  | expression evaluates =>
    rintro s ⟨⟩
    exact evaluates.scanned all

/-- A loop is put together from its clauses, and a condition without tokens. -/
theorem forLoop_scanned {initializer : Option Stmt} {condition increment : Option Expr} {body : Stmt}
    (begins : ∀ s ∈ initializer, s.Scanned) (asked : ∀ e ∈ condition, e.Scanned)
    (goesOn : ∀ e ∈ increment, e.Scanned) (repeated : body.Scanned) :
    (Stmt.forLoop initializer (condition.getD (.literal 0 (.bool true))) increment body).Scanned := by
  have isCondition : (condition.getD (.literal 0 (.bool true))).Scanned := by
    cases condition with
    | none => trivial
    | some e => exact asked e rfl
  cases increment with
  | none =>
    cases initializer with
    | none => exact ⟨isCondition, repeated⟩
    | some s => exact ⟨begins s rfl, ⟨isCondition, repeated⟩, trivial⟩
  | some e =>
    have step : (Stmt.block [body, .expression e]).Scanned := ⟨repeated, goesOn e rfl, trivial⟩
    cases initializer with
    | none => exact ⟨isCondition, step⟩
    | some s => exact ⟨begins s rfl, ⟨isCondition, step⟩, trivial⟩

theorem Forms.scanned {phrase : Phrase} {ts : List Token} {s : Stmt} (formed : Forms phrase ts s)
    (all : ∀ t ∈ ts, t.Scanned) : s.Scanned := by
  induction formed with
  | classDecl keyword name superclass opening methods _ closing ihs =>
    obtain ⟨_, isName, rest⟩ := by simpa only [List.forall_mem_cons] using all
    obtain ⟨parent, rest⟩ := List.forall_mem_append.1 rest
    obtain ⟨_, rest⟩ := List.forall_mem_cons.1 rest
    obtain ⟨inside, _⟩ := List.forall_mem_append.1 rest
    have each : FunctionDecl.ScannedList methods.trees := by
      rw [FunctionDecl.scannedList_iff]
      intro f among
      obtain ⟨m, given, rfl⟩ := List.mem_map.1 among
      exact ihs m given fun t own => inside t (Parts.subset given own)
    cases superclass with
    | absent => exact ⟨TokenOf.isName isName, each⟩
    | named less parentName =>
      obtain ⟨_, isParent, _⟩ := by simpa only [List.forall_mem_cons] using parent
      exact ⟨TokenOf.isName isName, TokenOf.isName isParent, each⟩
  | funDecl keyword _ ih => exact ih (List.forall_mem_cons.1 all).2
  | varDecl declares => exact declares.scanned all
  | statement _ ih => exact ih all
  | function name opening parameters names separated few closing start body _ last ihs =>
    obtain ⟨isName, _, rest⟩ := by simpa only [List.forall_mem_cons] using all
    obtain ⟨joined, rest⟩ := List.forall_mem_append.1 rest
    obtain ⟨_, _, rest⟩ := by simpa only [List.forall_mem_cons] using rest
    obtain ⟨inside, _⟩ := List.forall_mem_append.1 rest
    refine ⟨TokenOf.isName isName, ?_, Stmt.scannedList_iff.2 ?_⟩
    · intro p among
      have own := separated.subset [p] (List.mem_map_of_mem among) List.mem_cons_self
      exact ⟨joined p own, by rw [names p among]; rfl⟩
    · intro s among
      obtain ⟨d, given, rfl⟩ := List.mem_map.1 among
      exact ihs d given fun t own => inside t (Parts.subset given own)
  | expression evaluates => exact evaluates.scanned all
  | print keyword value semicolon =>
    obtain ⟨_, rest⟩ := List.forall_mem_cons.1 all
    exact value.scanned (List.forall_mem_append.1 rest).1
  | returnStmt keyword value semicolon =>
    obtain ⟨isReturn, rest⟩ := List.forall_mem_cons.1 all
    have given := value.scanned (List.forall_mem_append.1 rest).1
    cases value with
    | absent => exact ⟨isReturn, keyword.property⟩
    | present => exact ⟨⟨isReturn, keyword.property⟩, given _ rfl⟩
  | block opening body _ closing ihs =>
    obtain ⟨_, rest⟩ := List.forall_mem_cons.1 all
    obtain ⟨inside, _⟩ := List.forall_mem_append.1 rest
    apply Stmt.scannedList_iff.2
    intro s among
    obtain ⟨d, given, rfl⟩ := List.mem_map.1 among
    exact ihs d given fun t own => inside t (Parts.subset given own)
  | ifThen keyword opening asked closing _ ih =>
    obtain ⟨_, _, rest⟩ := by simpa only [List.forall_mem_cons] using all
    obtain ⟨condition, rest⟩ := List.forall_mem_append.1 rest
    exact ⟨asked.scanned condition, ih (List.forall_mem_cons.1 rest).2⟩
  | ifElse keyword opening asked closing _ otherwise _ ih ih' =>
    obtain ⟨_, _, rest⟩ := by simpa only [List.forall_mem_cons] using all
    obtain ⟨condition, rest⟩ := List.forall_mem_append.1 rest
    obtain ⟨yes, no⟩ := List.forall_mem_append.1 (List.forall_mem_cons.1 rest).2
    exact ⟨asked.scanned condition, ih yes, ih' (List.forall_mem_cons.1 no).2⟩
  | whileLoop keyword opening asked closing _ ih =>
    obtain ⟨_, _, rest⟩ := by simpa only [List.forall_mem_cons] using all
    obtain ⟨condition, rest⟩ := List.forall_mem_append.1 rest
    exact ⟨asked.scanned condition, ih (List.forall_mem_cons.1 rest).2⟩
  | forLoop keyword opening begins asked semicolon goesOn closing _ ih =>
    obtain ⟨_, _, rest⟩ := by simpa only [List.forall_mem_cons] using all
    obtain ⟨first, rest⟩ := List.forall_mem_append.1 rest
    obtain ⟨condition, rest⟩ := List.forall_mem_append.1 rest
    obtain ⟨increment, rest⟩ := List.forall_mem_append.1 (List.forall_mem_cons.1 rest).2
    exact forLoop_scanned (begins.scanned first) (asked.scanned condition)
      (goesOn.scanned increment) (ih (List.forall_mem_cons.1 rest).2)

end Grammar

/-! ### What is inside a tree -/

mutual

theorem Expr.scanned_renumber (f : ExprId → ExprId) (e : Expr) :
    (e.renumber f).Scanned ↔ e.Scanned := by
  match e with
  | .literal .. | .var .. | .this .. | .super .. => exact Iff.rfl
  | .grouping _ a => exact a.scanned_renumber f
  | .unary _ _ a | .assign _ _ a | .get _ a _ =>
    simp only [Expr.renumber, Expr.Scanned, a.scanned_renumber f]
  | .binary _ a _ b | .logical _ a _ b | .comma _ a b | .set _ a _ b =>
    simp only [Expr.renumber, Expr.Scanned, a.scanned_renumber f, b.scanned_renumber f]
  | .call _ a _ es =>
    simp only [Expr.renumber, Expr.Scanned, a.scanned_renumber f, Expr.scannedList_renumber f es]
  | .ternary _ a b c =>
    simp only [Expr.renumber, Expr.Scanned, a.scanned_renumber f, b.scanned_renumber f,
      c.scanned_renumber f]

theorem Expr.scannedList_renumber (f : ExprId → ExprId) (es : List Expr) :
    Expr.ScannedList (Expr.renumberList f es) ↔ Expr.ScannedList es := by
  match es with
  | [] => exact Iff.rfl
  | e :: es => exact and_congr (e.scanned_renumber f) (Expr.scannedList_renumber f es)

end

mutual

theorem Stmt.scanned_renumber (f : ExprId → ExprId) (s : Stmt) :
    (s.renumber f).Scanned ↔ s.Scanned := by
  match s with
  | .varDecl _ none | .returnStmt _ none => exact Iff.rfl
  | .expression e | .print e => exact e.scanned_renumber f
  | .varDecl _ (some e) | .returnStmt _ (some e) => exact and_congr Iff.rfl (e.scanned_renumber f)
  | .block body => exact Stmt.scannedList_renumber f body
  | .ifThen e yes | .whileLoop e yes => exact and_congr (e.scanned_renumber f) (yes.scanned_renumber f)
  | .ifElse e yes no =>
    exact and_congr (e.scanned_renumber f)
      (and_congr (yes.scanned_renumber f) (no.scanned_renumber f))
  | .funDecl d => exact d.scanned_renumber f
  | .classDecl _ none methods =>
    exact and_congr Iff.rfl (FunctionDecl.scannedList_renumber f methods)
  | .classDecl _ (some e) methods =>
    exact and_congr Iff.rfl
      (and_congr (e.scanned_renumber f) (FunctionDecl.scannedList_renumber f methods))

theorem Stmt.scannedList_renumber (f : ExprId → ExprId) (ss : List Stmt) :
    Stmt.ScannedList (Stmt.renumberList f ss) ↔ Stmt.ScannedList ss := by
  match ss with
  | [] => exact Iff.rfl
  | s :: ss => exact and_congr (s.scanned_renumber f) (Stmt.scannedList_renumber f ss)

theorem FunctionDecl.scanned_renumber (f : ExprId → ExprId) (d : FunctionDecl) :
    (d.renumber f).Scanned ↔ d.Scanned := by
  match d with
  | ⟨_, _, body⟩ => exact and_congr Iff.rfl (and_congr Iff.rfl (Stmt.scannedList_renumber f body))

theorem FunctionDecl.scannedList_renumber (f : ExprId → ExprId) (ds : List FunctionDecl) :
    FunctionDecl.ScannedList (FunctionDecl.renumberList f ds) ↔ FunctionDecl.ScannedList ds := by
  match ds with
  | [] => exact Iff.rfl
  | ⟨name, parameters, body⟩ :: ds =>
    exact and_congr (and_congr Iff.rfl (and_congr Iff.rfl (Stmt.scannedList_renumber f body)))
      (FunctionDecl.scannedList_renumber f ds)

end

theorem Expr.Scanned.part {e part : Expr} (scanned : e.Scanned) (inside : part ∈ e.parts) :
    part.Scanned := by
  refine Expr.inward (fun e scanned c among => ?_) scanned inside
  cases e with
  | literal | var | this | super => cases among
  | call =>
    exact List.forall_mem_cons.2 ⟨scanned.1, Expr.scannedList_iff.1 scanned.2.2.2⟩ c among
  | _ =>
    simp only [Expr.Scanned, Expr.children, List.mem_cons, List.not_mem_nil, or_false] at scanned among
    grind

theorem FunctionDecl.Scanned.stmts {f : FunctionDecl} (scanned : f.Scanned) :
    Stmt.ScannedList f.body := by
  obtain ⟨name, parameters, body⟩ := f
  exact scanned.2.2

theorem Stmt.Scanned.methods {name : Token} {superclass : Option Expr} {methods : List FunctionDecl}
    (scanned : (Stmt.classDecl name superclass methods).Scanned) :
    FunctionDecl.ScannedList methods := by
  cases superclass with
  | none => exact scanned.2
  | some e => exact scanned.2.2

theorem Stmt.Scanned.exprs {s : Stmt} (scanned : s.Scanned) : ∀ e ∈ s.exprs, e.Scanned := by
  intro e among
  cases s with
  | expression | print =>
    obtain rfl := List.mem_singleton.1 among
    exact scanned
  | varDecl _ e? | returnStmt _ e? =>
    cases e? with
    | none => cases among
    | some =>
      obtain rfl := List.mem_singleton.1 among
      exact scanned.2
  | ifThen | ifElse | whileLoop =>
    obtain rfl := List.mem_singleton.1 among
    exact scanned.1
  | classDecl _ e? _ =>
    cases e? with
    | none => cases among
    | some =>
      obtain rfl := List.mem_singleton.1 among
      exact scanned.2.1
  | block | funDecl => cases among

theorem Occurs.scanned {program : List Stmt} {around : List Enclosure} {s : Stmt}
    (occurs : Occurs program around s) (all : ∀ s ∈ program, s.Scanned) : s.Scanned := by
  induction occurs with
  | top among => exact all _ among
  | block _ among ih => exact Stmt.scannedList_iff.1 ih _ among
  | ifThen _ ih | whileLoop _ ih => exact ih.2
  | ifElseYes _ ih => exact ih.2.1
  | ifElseNo _ ih => exact ih.2.2
  | function _ among ih => exact Stmt.scannedList_iff.1 (FunctionDecl.Scanned.stmts ih) _ among
  | method _ isMethod among ih =>
    have scanned := FunctionDecl.scannedList_iff.1 ih.methods _ isMethod
    exact Stmt.scannedList_iff.1 scanned.stmts _ among

/-! ### What is read -/

namespace Grammar

variable {tokens : List Token} {firstId : ExprId}

theorem recoverFrom_scanned (bound : Nat) (c : Cursor) (all : ∀ t ∈ c.rest, t.Scanned) :
    ∀ s ∈ Session.statements (recoverFrom bound c).1, s.Scanned := by
  induction bound generalizing c with
  | zero =>
    intro s among
    cases among
  | succ bound ih =>
    rw [recoverFrom]
    split
    · intro s among
      cases among
    · split
      · rename_i s after reading
        obtain ⟨used, split, -, formed⟩ := (statements_take (bound + 1)).1 _ _ _ reading
        rw [split] at all
        obtain ⟨isUsed, isLeft⟩ := List.forall_mem_append.1 all
        intro s' among
        rcases List.mem_cons.1 among with rfl | among
        · exact (Stmt.scanned_renumber _ _).1 (formed.scanned isUsed)
        · exact ih after isLeft s' among
      · rename_i e after reading
        have left := (statements_read (P := Token.Scanned) (bound + 1)).1 c all
        rw [reading] at left
        apply ih { after with rest := resume after.rest }
        intro t among
        exact all t (left.1.subset ((resume_suffix after.rest).subset among))

/-- The statement was read from a text, alone or as a part of what was read. -/
def BuildsStmt (s : Stmt) : Prop :=
  ∃ source firstId program around,
    ((readProgram (Scan.tokens (Scan.items source)) firstId).value = .ok program ∨
      Session.statements (recoverProgram (Scan.tokens (Scan.items source)) firstId).value = program) ∧
    Occurs program around s

def BuildsExpr (e : Expr) : Prop :=
  (∃ source firstId whole,
    (readExpression (Scan.tokens (Scan.items source)) firstId).value = .ok whole ∧
      e ∈ whole.parts) ∨
  ∃ s, BuildsStmt s ∧ ∃ whole ∈ s.exprs, e ∈ whole.parts

theorem takeWhile_scanned {fits : Token → Bool} (all : ∀ t ∈ tokens, t.Scanned) :
    ∀ t ∈ tokens.takeWhile fits, t.Scanned := by
  intro t among
  exact all t (List.takeWhile_subset _ among)

theorem BuildsStmt.scanned {s : Stmt} (builds : BuildsStmt s) : s.Scanned := by
  obtain ⟨source, firstId, program, around, read, occurs⟩ := builds
  have all := Scan.tokens_scanned source
  apply occurs.scanned
  rcases read with read | rfl
  · obtain ⟨parts, each, same, trees⟩ := readProgram_sound read
    intro s among
    have plain : s.plain ∈ parts.trees := by
      rw [trees]
      exact List.mem_map_of_mem among
    obtain ⟨d, given, isTree⟩ := List.mem_map.1 plain
    apply (Stmt.scanned_renumber (fun _ => 0) s).1
    change s.plain.Scanned
    rw [← isTree]
    apply (each d given).scanned
    intro t own
    exact takeWhile_scanned all t (same ▸ Parts.subset given own)
  · exact recoverFrom_scanned _ _ all

theorem BuildsExpr.scanned {e : Expr} (builds : BuildsExpr e) : e.Scanned := by
  rcases builds with ⟨source, firstId, whole, read, inside⟩ | ⟨s, builds, whole, among, inside⟩
  · refine Expr.Scanned.part ?_ inside
    apply (Expr.scanned_renumber (fun _ => 0) whole).1
    exact (readExpression_sound read).scanned (takeWhile_scanned (Scan.tokens_scanned source))
  · exact (builds.scanned.exprs whole among).part inside

end Grammar

end Lox
