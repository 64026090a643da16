import Mathlib
import Lox.Grammar.Program
import Lox.Proofs.Derivations
import Lox.Proofs.Stateful
import Lox.Syntax.Renumbered

/-!
What reading accepts is derived: the tokens that a reader has taken off the front, where it
succeeds, stand for the tree that it gives, up to ids.
-/

namespace Lox

/-- The tree without its ids. -/
def Expr.plain (e : Expr) : Expr := e.renumber fun _ => 0

def Stmt.plain (s : Stmt) : Stmt := s.renumber fun _ => 0

def FunctionDecl.plain (f : FunctionDecl) : FunctionDecl := f.renumber fun _ => 0

theorem Expr.plain_list (es : List Expr) : Expr.renumberList (fun _ => 0) es = es.map Expr.plain := by
  induction es with
  | nil => rfl
  | cons e es ih => rw [Expr.renumberList, ih, List.map_cons, Expr.plain]

theorem Stmt.plain_list (ss : List Stmt) : Stmt.renumberList (fun _ => 0) ss = ss.map Stmt.plain := by
  induction ss with
  | nil => rfl
  | cons s ss ih => rw [Stmt.renumberList, ih, List.map_cons, Stmt.plain]

theorem FunctionDecl.plain_list (fs : List FunctionDecl) :
    FunctionDecl.renumberList (fun _ => 0) fs = fs.map FunctionDecl.plain := by
  induction fs with
  | nil => rfl
  | cons f fs ih => rw [FunctionDecl.renumberList, ih, List.map_cons, FunctionDecl.plain]

theorem Stmt.plain_forLoop (initializer : Option Stmt) (condition : Expr) (increment : Option Expr)
    (body : Stmt) : (Stmt.forLoop initializer condition increment body).plain =
      .forLoop (initializer.map Stmt.plain) condition.plain (increment.map Expr.plain) body.plain := by
  cases initializer <;> cases increment <;> rfl

theorem TokenKind.isMark_iff {k : TokenKind} {m : Mark} : k.isMark m = true ↔ k = .mark m := by
  cases k <;> simp [TokenKind.isMark]

theorem TokenKind.isKeyword_iff {k : TokenKind} {w : Keyword} :
    k.isKeyword w = true ↔ k = .keyword w := by
  cases k <;> simp [TokenKind.isKeyword]

theorem TokenKind.isIdentifier_iff {k : TokenKind} : k.isIdentifier = true ↔ k = .identifier := by
  cases k <;> simp [TokenKind.isIdentifier]

namespace Grammar

open Reader

/-- The next token is one of these. -/
def Next (fits : TokenKind → Bool) (rest : List Token) : Prop :=
  ∃ t ∈ rest.head?, t.kind.isEnd = false ∧ fits t.kind = true

/-- Where the reader succeeds, it has taken tokens off the front, none of them an end token, and
these, what is left, and what it gives fulfil `D`. -/
def Takes {α : Type} (r : Reader α) (D : List Token → List Token → α → Prop) : Prop :=
  ∀ c a d, r c = .ok a d → ∃ used, c.rest = used ++ d.rest ∧
    (∀ t ∈ used, t.kind.isEnd = false) ∧ D used d.rest a

namespace Takes

variable {α β : Type} {r : Reader α} {f : α → Reader β} {g : α → β}
  {D D' : List Token → List Token → α → Prop} {K : List Token → List Token → β → Prop}

theorem imp (takes : Takes r D) (weaker : ∀ used rest a, D used rest a → D' used rest a) :
    Takes r D' := by
  intro c a d reading
  obtain ⟨used, split, inside, holds⟩ := takes c a d reading
  exact ⟨used, split, inside, weaker used d.rest a holds⟩

theorem bind (first : Takes r D)
    (second : ∀ a used, Takes (f a) fun used' rest b =>
      D used (used' ++ rest) a → K (used ++ used') rest b) :
    Takes (r >>= f) K := by
  intro c b d reading
  obtain ⟨a, u, begun, rest⟩ := bind_ok_iff.1 reading
  obtain ⟨used, split, inside, holds⟩ := first c a u begun
  obtain ⟨used', split', inside', holds'⟩ := second a used u b d rest
  refine ⟨used ++ used', ?_, ?_, holds' (split' ▸ holds)⟩
  · rw [split, split', List.append_assoc]
  · intro t member
    exact (List.mem_append.1 member).elim (inside t) (inside' t)

/-- A part that does not depend on what follows it. -/
theorem part {E : List Token → α → Prop} (first : Takes r fun used _ a => E used a)
    (second : ∀ a used, E used a → Takes (f a) fun used' rest b => K (used ++ used') rest b) :
    Takes (r >>= f) K := by
  intro c b d reading
  obtain ⟨a, u, begun, rest⟩ := bind_ok_iff.1 reading
  obtain ⟨used, split, inside, holds⟩ := first c a u begun
  obtain ⟨used', split', inside', holds'⟩ := second a used holds u b d rest
  refine ⟨used ++ used', ?_, ?_, holds'⟩
  · rw [split, split', List.append_assoc]
  · intro t member
    exact (List.mem_append.1 member).elim (inside t) (inside' t)

theorem token {A : Token → Prop} {r : Reader Token} {f : Token → Reader β}
    (first : Takes r fun used _ t => used = [t] ∧ A t)
    (second : ∀ t, A t → Takes (f t) fun used rest b => K (t :: used) rest b) :
    Takes (r >>= f) K := by
  refine first.part fun t used taken => ?_
  obtain ⟨rfl, is⟩ := taken
  exact second t is

theorem pure {a : α} (given : ∀ rest, D [] rest a) : Takes (Pure.pure a) D := by
  rintro c a d ⟨⟩
  exact ⟨[], rfl, List.forall_mem_nil _, given c.rest⟩

/-- The last part, and what is made of it. -/
theorem last (first : Takes r D) (given : ∀ a used rest, D used rest a → K used rest (g a)) :
    Takes (r >>= fun a => Pure.pure (g a)) K := by
  refine first.bind fun a used => pure fun rest holds => ?_
  rw [List.append_nil]
  exact given a used rest holds

theorem refuse {cause : SyntaxCause} : Takes (Reader.refuse cause) D :=
  fun _ _ _ reading => nomatch reading

theorem throw {e : SyntaxError} : Takes (throw e : Reader α) D :=
  fun _ _ _ reading => nomatch reading

theorem make {build : ExprId → Expr} {D : List Token → List Token → Expr → Prop}
    (given : ∀ id rest, D [] rest (build id)) : Takes (make build) D := by
  rintro c a d ⟨⟩
  exact ⟨[], rfl, List.forall_mem_nil _, given c.nextId c.rest⟩

theorem accept? (fits : TokenKind → Bool) : Takes (accept? fits) fun used rest t? =>
    match t? with
    | some t => used = [t] ∧ fits t.kind = true
    | none => used = [] ∧ ¬ Next fits rest := by
  rintro ⟨rest, nextId⟩ t? d reading
  cases rest with
  | nil =>
    cases reading
    refine ⟨[], rfl, List.forall_mem_nil _, rfl, ?_⟩
    rintro ⟨_, first, -⟩
    cases first
  | cons t rest =>
    unfold Reader.accept? at reading
    dsimp only at reading
    by_cases fitting : (!t.kind.isEnd && fits t.kind) = true
    · rw [if_pos fitting] at reading
      cases reading
      simp only [Bool.and_eq_true, Bool.not_eq_true'] at fitting
      exact ⟨[t], rfl, by simp [fitting.1], rfl, fitting.2⟩
    · rw [if_neg fitting] at reading
      cases reading
      refine ⟨[], rfl, List.forall_mem_nil _, rfl, ?_⟩
      rintro ⟨t', first, inside, fits'⟩
      cases first
      simp [inside, fits'] at fitting

theorem expect (fits : TokenKind → Bool) (what : Expectation) :
    Takes (expect fits what) fun used _ t => used = [t] ∧ fits t.kind = true := by
  refine (accept? fits).bind fun t? used => ?_
  cases t? with
  | none => exact refuse
  | some t => exact pure fun rest holds => ⟨by rw [holds.1, List.append_nil], holds.2⟩

theorem expectMark (m : Mark) (what : Expectation) :
    Takes (expectMark m what) fun used _ t => used = [t] ∧ t.kind = .mark m :=
  (expect _ what).imp fun _ _ _ holds => ⟨holds.1, TokenKind.isMark_iff.1 holds.2⟩

theorem expectName (what : Expectation) :
    Takes (expectName what) fun used _ t => used = [t] ∧ t.kind = .identifier :=
  (expect _ what).imp fun _ _ _ holds => ⟨holds.1, TokenKind.isIdentifier_iff.1 holds.2⟩

/-- A choice by whether the next token fits. -/
theorem choice {fits : TokenKind → Bool} {f : Option Token → Reader β}
    (taken : ∀ t, fits t.kind = true → Takes (f (some t)) fun used rest b => K (t :: used) rest b)
    (left : Takes (f none) fun used rest b => ¬ Next fits (used ++ rest) → K used rest b) :
    Takes (Reader.accept? fits >>= f) K := by
  intro c b d reading
  obtain ⟨t?, u, begun, rest⟩ := bind_ok_iff.1 reading
  obtain ⟨used, split, inside, holds⟩ := accept? fits c t? u begun
  cases t? with
  | none =>
    obtain ⟨rfl, absent⟩ := holds
    obtain ⟨used', split', inside', holds'⟩ := left u b d rest
    exact ⟨used', split.trans split', inside', holds' (split' ▸ absent)⟩
  | some t =>
    obtain ⟨rfl, fitting⟩ := holds
    obtain ⟨used', split', inside', holds'⟩ := taken t fitting u b d rest
    exact ⟨t :: used', by rw [split, split', List.singleton_append, List.cons_append],
      List.forall_mem_cons.2 ⟨inside t List.mem_cons_self, inside'⟩, holds'⟩

theorem check (fits : TokenKind → Bool) : Takes (check fits) fun used _ _ => used = [] := by
  rintro c a d ⟨⟩
  exact ⟨[], rfl, List.forall_mem_nil _, rfl⟩

theorem made (build : ExprId → Expr) :
    Takes (Reader.make build) fun used _ e => used = [] ∧ ∃ id, e = build id :=
  make fun id _ => ⟨rfl, id, rfl⟩

end Takes

/-- The same for a reader that goes on after a look at the next token. -/
def TakesFrom {α : Type} (t : Token) (r : Reader α) (D : List Token → List Token → α → Prop) : Prop :=
  ∀ c a d, c.next = t → r c = .ok a d → ∃ used, c.rest = used ++ d.rest ∧
    (∀ t ∈ used, t.kind.isEnd = false) ∧ D used d.rest a

section Look

variable {α : Type} {t : Token} {r : Reader α} {D : List Token → List Token → α → Prop}

theorem Takes.look {f : Token → Reader α} (each : ∀ t, TakesFrom t (f t) D) :
    Takes (peek >>= f) D := by
  intro c a d reading
  exact each c.next c a d rfl reading

theorem Takes.seen (takes : Takes r D) : TakesFrom t r D := fun c a d _ reading => takes c a d reading

/-- The token is passed over. -/
theorem Takes.skipped (takes : Takes r fun used rest a => D (t :: used) rest a)
    (inside : t.kind.isEnd = false) : TakesFrom t (skip >>= fun _ => r) D := by
  rintro ⟨rest, nextId⟩ a d next reading
  cases rest with
  | nil =>
    subst next
    cases inside
  | cons first rest =>
    obtain rfl : first = t := next
    obtain ⟨used, split, inside', holds⟩ := takes ⟨rest, nextId⟩ a d reading
    exact ⟨first :: used, congrArg (first :: ·) split, List.forall_mem_cons.2 ⟨inside, inside'⟩, holds⟩

end Look

/-! ### Lists -/

section Lists

variable {α : Type} {r : Reader α} {D : List Token → α → Prop}

/-- The items, the tokens of each and how these are parted by commas. -/
def Listing (D : List Token → α → Prop) (used : List Token) (xs : List α) : Prop :=
  ∃ parts : Parts α, (∀ p ∈ parts, D p.1 p.2) ∧ Separated (parts.map Prod.fst) used ∧ parts.trees = xs

theorem moreItems_takes {role : ListRole} (item : Takes r fun used _ x => D used x)
    (bound count : Nat) : Takes (moreItems role r bound count) fun used _ xs =>
      (∀ ts x, D ts x → Listing D (ts ++ used) (x :: xs)) ∧ xs.length ≤ maxArity - count := by
  induction bound generalizing count with
  | zero =>
    refine Takes.pure fun _ => ⟨fun ts x given => ⟨[(ts, x)], ?_, ?_, rfl⟩, Nat.zero_le _⟩
    · simpa using given
    · simpa using Separated.one ts
  | succ bound ih =>
    refine Takes.choice (fun comma isComma => ?_) (Takes.pure fun _ _ => ?_)
    · simp only
      split
      · exact Takes.refuse
      · rename_i few
        refine item.part fun x ts given => (ih (count + 1)).last fun xs used rest holds => ?_
        refine ⟨fun ts' x' given' => ?_, ?_⟩
        · obtain ⟨parts, each, separated, trees⟩ := holds.1 ts x given
          obtain ⟨⟨us, y⟩, parts, rfl⟩ : ∃ p ps, parts = p :: ps := by
            cases parts with
            | nil => cases trees
            | cons p ps => exact ⟨p, ps, rfl⟩
          refine ⟨(ts', x') :: (us, y) :: parts, List.forall_mem_cons.2 ⟨given', each⟩, ?_, ?_⟩
          · exact .more ts' ⟨comma, TokenKind.isMark_iff.1 isComma⟩ separated
          · exact congrArg (x' :: ·) trees
        · have := holds.2
          simp only [List.length_cons]
          omega
    · refine ⟨fun ts x given => ⟨[(ts, x)], ?_, ?_, rfl⟩, Nat.zero_le _⟩
      · simpa using given
      · simpa using Separated.one ts

theorem items_takes {role : ListRole} (item : Takes r fun used _ x => D used x) (bound : Nat) :
    Takes (items role r bound) fun used _ xs => Listing D used xs ∧ xs.length ≤ maxArity := by
  refine (Takes.check _).part fun closing ts none => ?_
  subst none
  split
  · exact Takes.pure fun _ => ⟨⟨[], List.forall_mem_nil _, .none, rfl⟩, Nat.zero_le _⟩
  · refine item.part fun x ts given => (moreItems_takes item bound 1).last fun xs used rest holds => ?_
    refine ⟨holds.1 ts x given, ?_⟩
    have few := holds.2
    simp only [List.length_cons, maxArity] at few ⊢
    omega

theorem itemsToBrace_takes (item : Takes r fun used _ x => D used x) (bound : Nat) :
    Takes (itemsToBrace r bound) fun used _ xs => ∃ parts : Parts α,
      (∀ p ∈ parts, D p.1 p.2) ∧ parts.tokens = used ∧ parts.trees = xs := by
  induction bound with
  | zero => exact Takes.pure fun _ => ⟨[], List.forall_mem_nil _, rfl, rfl⟩
  | succ bound ih =>
    refine Takes.look fun t => Takes.seen ?_
    split
    · exact Takes.pure fun _ => ⟨[], List.forall_mem_nil _, rfl, rfl⟩
    · refine item.part fun x ts given => ih.last fun xs used rest holds => ?_
      obtain ⟨parts, each, rfl, rfl⟩ := holds
      exact ⟨(ts, x) :: parts, List.forall_mem_cons.2 ⟨given, each⟩, rfl, rfl⟩

end Lists

/-- Parts with other trees. -/
theorem Parts.mapped {α β : Type} {E : List Token → β → Prop} (g : α → β) (parts : Parts α)
    (each : ∀ p ∈ parts, E p.1 (g p.2)) : ∃ parts' : Parts β, (∀ p ∈ parts', E p.1 p.2) ∧
      parts'.map Prod.fst = parts.map Prod.fst ∧ parts'.trees = parts.trees.map g := by
  refine ⟨parts.map fun p => (p.1, g p.2), ?_, ?_, ?_⟩
  · intro p member
    obtain ⟨p', among, rfl⟩ := List.mem_map.1 member
    exact each p' among
  · rw [List.map_map]
    rfl
  · rw [Parts.trees, Parts.trees, List.map_map, List.map_map]
    rfl

theorem Parts.tokens_eq {α β : Type} {parts : Parts α} {parts' : Parts β}
    (same : parts.map Prod.fst = parts'.map Prod.fst) : parts.tokens = parts'.tokens := by
  rw [Parts.tokens, Parts.tokens, List.flatMap_def, List.flatMap_def, same]

/-! ### Expressions -/

/-- The level has the operators of the rule, and builds its trees. -/
structure Level.Builds (level : Level) (rule : Repetition) : Prop where
  operators : ∀ k, level.isOperator k = true ↔ k ∈ rule.operators
  tree : ∀ id left operator right,
    (level.combine id left operator right).plain = rule.tree left.plain operator right.plain

theorem commaLevel_builds :
    commaLevel.Builds ⟨.assignment, [.mark .comma], fun left _ right => .comma 0 left right⟩ :=
  ⟨fun k => by simp [commaLevel, TokenKind.isMark_iff], fun _ _ _ _ => rfl⟩

theorem Level.marks_builds (n : Nonterminal) (ms : List Mark) :
    (Level.marks ms).Builds ⟨n, ms.map .mark, .binary 0⟩ := by
  refine ⟨fun k => ?_, fun _ _ _ _ => rfl⟩
  simp only [Level.marks, List.any_eq_true, TokenKind.isMark_iff, List.mem_map]
  exact exists_congr fun m => and_congr_right' eq_comm

theorem Level.word_builds (n : Nonterminal) (w : Keyword) :
    Level.Builds ⟨(·.isKeyword w), Expr.logical⟩ ⟨n, [.keyword w], .logical 0⟩ :=
  ⟨fun k => by simp [TokenKind.isKeyword_iff], fun _ _ _ _ => rfl⟩

section Chains

variable {level : Level} {rule : Repetition} {operand : Reader Expr} {n : Nonterminal}

theorem chainFrom_takes (builds : level.Builds rule)
    (takes : Takes operand fun used _ e => Derives rule.operand used e.plain) (bound : Nat)
    (left : Expr) : Takes (chainFrom level operand bound left) fun used _ e =>
      ∃ more : List Operation, (∀ o ∈ more, o.operator.kind ∈ rule.operators) ∧
        (∀ o ∈ more, Derives rule.operand o.tokens o.operand) ∧
          used = more.flatMap Operation.all ∧ e.plain = rule.fold left.plain more := by
  induction bound generalizing left with
  | zero => exact Takes.pure fun _ => ⟨[], List.forall_mem_nil _, List.forall_mem_nil _, rfl, rfl⟩
  | succ bound ih =>
    refine Takes.choice (fun operator fits => ?_) (Takes.pure fun _ _ => ?_)
    · refine takes.part fun right ts derived => (Takes.made _).part fun tree none built => ?_
      obtain ⟨rfl, id, rfl⟩ := built
      refine (ih _).imp fun used _ e holds => ?_
      obtain ⟨more, operators, operands, rfl, same⟩ := holds
      refine ⟨⟨operator, ts, right.plain⟩ :: more,
        List.forall_mem_cons.2 ⟨(builds.operators _).1 fits, operators⟩,
        List.forall_mem_cons.2 ⟨derived, operands⟩, rfl, ?_⟩
      rw [same, builds.tree]
      rfl
    · exact ⟨[], List.forall_mem_nil _, List.forall_mem_nil _, rfl, rfl⟩

theorem chain_takes (builds : level.Builds rule) (of : n.repetition? = some rule)
    (takes : Takes operand fun used _ e => Derives rule.operand used e.plain) (bound : Nat) :
    Takes (chain level operand bound) fun used _ e => Derives n used e.plain := by
  refine takes.part fun left ts derived => (chainFrom_takes builds takes bound left).imp ?_
  rintro used rest e ⟨more, operators, operands, rfl, same⟩
  rw [same]
  exact .repetition of derived more operators operands

end Chains

section Nested

variable {nested : Reader Expr}
  (takes : Takes nested fun used _ e => Derives .assignment used e.plain)
include takes

theorem expressionOf_takes (bound : Nat) :
    Takes (expressionOf nested bound) fun used _ e => Derives .expression used e.plain :=
  chain_takes commaLevel_builds rfl takes bound

theorem primary_takes (bound : Nat) :
    Takes (primary nested bound) fun used _ e => Derives .primary used e.plain := by
  refine Takes.look fun t => ?_
  cases kind : t.kind with
  | number n => exact (Takes.make fun _ _ => .number ⟨t, kind⟩).skipped (by rw [kind]; rfl)
  | string s => exact (Takes.make fun _ _ => .string ⟨t, kind⟩).skipped (by rw [kind]; rfl)
  | endOfText => exact Takes.refuse.seen
  | identifier => exact (Takes.make fun _ _ => .name ⟨t, kind⟩).skipped (by rw [kind]; rfl)
  | mark m =>
    cases m
    case leftParen =>
      refine Takes.skipped ?_ (by rw [kind]; rfl)
      refine (expressionOf_takes takes bound).part fun inner ts derived => ?_
      refine (Takes.expectMark _ _).token fun closing isClosing => Takes.make fun _ _ => ?_
      exact .grouping ⟨t, kind⟩ derived ⟨closing, isClosing⟩
    all_goals exact Takes.refuse.seen
  | keyword w =>
    cases w
    case false => exact (Takes.make fun _ _ => .false_ ⟨t, kind⟩).skipped (by rw [kind]; rfl)
    case true => exact (Takes.make fun _ _ => .true_ ⟨t, kind⟩).skipped (by rw [kind]; rfl)
    case nil => exact (Takes.make fun _ _ => .nil ⟨t, kind⟩).skipped (by rw [kind]; rfl)
    case this => exact (Takes.make fun _ _ => .this ⟨t, kind⟩).skipped (by rw [kind]; rfl)
    case super =>
      refine Takes.skipped ?_ (by rw [kind]; rfl)
      refine (Takes.expectMark _ _).token fun dot isDot => ?_
      refine (Takes.expectName _).token fun method isName => Takes.make fun _ _ => ?_
      exact .super ⟨t, kind⟩ ⟨dot, isDot⟩ ⟨method, isName⟩
    all_goals exact Takes.refuse.seen

/-- What follows a callee is added to its derivation. -/
theorem suffixesFrom_takes (bound : Nat) (e : Expr) : Takes (suffixesFrom nested bound e) fun used _ e' =>
    ∀ ts, Derives .call ts e.plain → Derives .call (ts ++ used) e'.plain := by
  induction bound generalizing e with
  | zero => exact Takes.pure fun _ ts derived => by rwa [List.append_nil]
  | succ bound ih =>
    refine Takes.choice (fun opening isOpening => ?_) (Takes.imp ?_ fun _ _ _ holds _ => holds)
    · refine (items_takes takes bound).part fun arguments joined listed => ?_
      refine (Takes.expectMark _ _).token fun paren isParen => ?_
      refine (Takes.made _).part fun tree none built => (ih tree).imp ?_
      obtain ⟨rfl, id, rfl⟩ := built
      intro used rest e' holds ts derived
      obtain ⟨⟨parts, each, separated, rfl⟩, few⟩ := listed
      obtain ⟨parts', each', tokens, trees⟩ := parts.mapped Expr.plain each
      rw [← tokens] at separated
      have few' : parts'.length ≤ 255 := by
        have same : parts'.length = parts.length := by simpa using congrArg List.length tokens
        rw [same]
        simpa [Parts.trees, maxArity] using few
      have called := derived.call ⟨opening, TokenKind.isMark_iff.1 isOpening⟩ parts' each' separated
        few' ⟨paren, isParen⟩
      have whole := holds _ (by rw [trees, ← Expr.plain_list] at called; exact called)
      simpa using whole
    · refine Takes.choice (fun dot isDot => ?_) (Takes.pure fun _ _ ts derived => by rwa [List.append_nil])
      refine (Takes.expectName _).token fun name isName => ?_
      refine (Takes.made _).part fun tree none built => (ih tree).imp ?_
      obtain ⟨rfl, id, rfl⟩ := built
      intro used rest e' holds ts derived
      simpa using holds _ (derived.get ⟨dot, TokenKind.isMark_iff.1 isDot⟩ ⟨name, isName⟩)

theorem call_takes (bound : Nat) :
    Takes (call nested bound) fun used _ e => Derives .call used e.plain :=
  (primary_takes takes bound).part fun e ts derived =>
    (suffixesFrom_takes takes bound e).imp fun _ _ _ holds => holds ts (.uncalled derived)

theorem unaryFrom_takes (bound operators : Nat) :
    Takes (unaryFrom nested bound operators) fun used _ e => Derives .unary used e.plain := by
  have unsigned := (call_takes takes bound).imp fun _ _ _ derived => Derives.unsigned derived
  induction operators with
  | zero => exact unsigned
  | succ operators ih =>
    refine Takes.choice (fun operator isSign => ?_) (unsigned.imp fun _ _ _ derived _ => derived)
    refine ih.part fun operand ts derived => Takes.make fun _ _ => ?_
    rw [List.append_nil]
    exact .unary operator (by simpa [TokenKind.isMark_iff] using isSign) derived

theorem or_takes (bound : Nat) :
    Takes (binary nested bound levels) fun used _ e => Derives .or used e.plain := by
  have factor := chain_takes (n := .factor) (Level.marks_builds .unary [.slash, .star]) rfl
    (unaryFrom_takes takes bound bound) bound
  have term := chain_takes (n := .term) (Level.marks_builds .factor [.minus, .plus]) rfl factor bound
  have comparison := chain_takes (n := .comparison)
    (Level.marks_builds .term [.greater, .greaterEqual, .less, .lessEqual]) rfl term bound
  have equality := chain_takes (n := .equality)
    (Level.marks_builds .comparison [.bangEqual, .equalEqual]) rfl comparison bound
  have and := chain_takes (n := .and) (Level.word_builds .equality .and) rfl equality bound
  exact chain_takes (n := .or) (Level.word_builds .and .or) rfl and bound

theorem ternary_takes (bound : Nat) :
    Takes (ternary nested bound) fun used _ e => Derives .ternary used e.plain := by
  refine (or_takes takes bound).part fun condition cs first => ?_
  refine Takes.choice (fun question isQuestion => ?_) (Takes.pure fun _ _ => ?_)
  · refine takes.part fun yes ys second => (Takes.expectMark _ _).token fun colon isColon => ?_
    refine takes.part fun no ns third => Takes.make fun _ _ => ?_
    rw [List.append_nil]
    exact .ternary first ⟨question, TokenKind.isMark_iff.1 isQuestion⟩ second ⟨colon, isColon⟩ third
  · rw [List.append_nil]
    exact .unconditional first

end Nested

/-- A target stands for what is assigned to. -/
theorem assignTo_takes {ts vs : List Token} {target value : Expr} {equals : Token}
    (read : Derives .ternary ts target.plain) (isEqual : equals.kind = .mark .equal)
    (derived : Derives .assignment vs value.plain) : Takes (assignTo target equals value)
      fun used _ e => Derives .assignment (ts ++ equals :: (vs ++ used)) e.plain := by
  cases target with
  | var id name =>
    obtain ⟨rfl, isName⟩ := read.of_name rfl
    simp only [assignTo]
    refine Takes.make fun id' _ => ?_
    rw [List.append_nil]
    exact .assign ⟨name, isName⟩ ⟨equals, isEqual⟩ derived
  | get id object name =>
    obtain ⟨os, dot, rfl, holder, isName⟩ := read.of_property rfl
    simp only [assignTo]
    refine Takes.make fun id' _ => ?_
    rw [List.append_nil, List.append_assoc]
    exact .set holder dot ⟨name, isName⟩ ⟨equals, isEqual⟩ derived
  | _ => exact Takes.throw

theorem assignment_takes (bound : Nat) :
    Takes (assignment bound) fun used _ e => Derives .assignment used e.plain := by
  induction bound with
  | zero => exact Takes.refuse
  | succ bound ih =>
    refine (ternary_takes ih (bound + 1)).part fun target ts read => ?_
    refine Takes.choice (fun equals isEqual => ?_) (Takes.pure fun _ _ => ?_)
    · exact ih.part fun value vs derived =>
        assignTo_takes read (TokenKind.isMark_iff.1 isEqual) derived
    · rw [List.append_nil]
      exact .unassigned read

theorem expression_takes (bound : Nat) :
    Takes (expression bound) fun used _ e => Derives .expression used e.plain :=
  expressionOf_takes (assignment_takes bound) bound

/-! ### Statements -/

theorem expressionUnless_takes (last : Mark) (bound : Nat) :
    Takes (expressionUnless last bound) fun used _ e => Possibly used (e.map Expr.plain) := by
  refine (Takes.check _).part fun closing ts none => ?_
  subst none
  split
  · exact Takes.pure fun _ => .absent
  · exact (expression_takes bound).last fun e used _ derived => .present derived

theorem varDeclaration_takes {var : Token} (isVar : var.kind = .keyword .var) (bound : Nat) :
    Takes (varDeclaration bound) fun used _ s => VarDecl (var :: used) s.plain := by
  refine (Takes.expectName _).token fun name isName => ?_
  refine Takes.choice (fun equals isEqual => ?_) (Takes.imp ?_ fun _ _ _ holds _ => holds)
  · refine (expression_takes bound).part fun e ts derived => ?_
    refine (Takes.expectMark _ _).token fun semicolon isSemicolon => Takes.pure fun _ => ?_
    exact .initialized ⟨var, isVar⟩ ⟨name, isName⟩ ⟨equals, TokenKind.isMark_iff.1 isEqual⟩ derived
      ⟨semicolon, isSemicolon⟩
  · refine (Takes.expectMark _ _).token fun semicolon isSemicolon => Takes.pure fun _ => ?_
    exact .bare ⟨var, isVar⟩ ⟨name, isName⟩ ⟨semicolon, isSemicolon⟩

theorem expressionStatement_takes (bound : Nat) :
    Takes (expressionStatement bound) fun used _ s => ExpressionStatement used s.plain := by
  refine (expression_takes bound).part fun e ts derived => ?_
  refine (Takes.expectMark _ _).token fun semicolon isSemicolon => Takes.pure fun _ => ?_
  exact .ended derived ⟨semicolon, isSemicolon⟩

theorem superclass_takes :
    Takes superclass fun used _ e => Superclass used (e.map Expr.plain) := by
  refine Takes.choice (fun less isLess => ?_) (Takes.pure fun _ _ => .absent)
  refine (Takes.expectName _).token fun name isName => (Takes.made _).part fun tree none built => ?_
  obtain ⟨rfl, id, rfl⟩ := built
  exact Takes.pure fun _ => .named ⟨less, TokenKind.isMark_iff.1 isLess⟩ ⟨name, isName⟩

theorem forInitializer_takes (bound : Nat) :
    Takes (forInitializer bound) fun used _ s => Initializer used (s.map Stmt.plain) := by
  refine Takes.choice (fun semicolon isSemicolon => Takes.pure fun _ => ?_)
    (Takes.imp ?_ fun _ _ _ holds _ => holds)
  · exact .absent ⟨semicolon, TokenKind.isMark_iff.1 isSemicolon⟩
  · refine Takes.choice (fun var isVar => ?_) (Takes.imp ?_ fun _ _ _ holds _ => holds)
    · exact (varDeclaration_takes (TokenKind.isKeyword_iff.1 isVar) bound).last
        fun s used _ declares => .declaration declares
    · exact (expressionStatement_takes bound).last fun s used _ evaluates => .expression evaluates

/-- What reading a statement takes: if an `else` could follow the statement, none does. -/
def StatementTakes (statement : Reader Stmt) : Prop :=
  Takes statement fun used rest s => ∃ isOpen, Forms (.statement isOpen) used s.plain ∧
    (isOpen = true → ¬ Next (·.isKeyword .else_) rest)

section Nested

variable {declaration statement : Reader Stmt}

section Sequences

variable (takes : Takes declaration fun used _ s => Forms .declaration used s.plain)
include takes

theorem block_takes (bound : Nat) : Takes (block declaration bound) fun used _ ss =>
    ∃ (body : Parts Stmt) (last : TokenOf (.mark .rightBrace)),
      (∀ d ∈ body, Forms .declaration d.1 d.2) ∧ used = body.tokens ++ [last.val] ∧
        body.trees = ss.map Stmt.plain := by
  refine (itemsToBrace_takes takes bound).part fun ss ts listed => ?_
  refine (Takes.expectMark _ _).token fun closing isClosing => Takes.pure fun _ => ?_
  obtain ⟨parts, each, rfl, rfl⟩ := listed
  obtain ⟨body, each', tokens, trees⟩ := parts.mapped Stmt.plain each
  exact ⟨body, ⟨closing, isClosing⟩, each', by rw [Parts.tokens_eq tokens], trees⟩

theorem function_takes (role : FunctionRole) (bound : Nat) :
    Takes (function role declaration bound) fun used _ f => Forms .function used (.funDecl f.plain) := by
  refine (Takes.expectName _).token fun name isName => ?_
  refine (Takes.expectMark _ _).token fun opening isOpening => ?_
  refine (items_takes (Takes.expectName _) bound).part fun parameters joined listed => ?_
  refine (Takes.expectMark _ _).token fun closing isClosing => ?_
  refine (Takes.expectMark _ _).token fun start isStart => ?_
  refine (block_takes takes bound).last fun ss used rest held => ?_
  obtain ⟨⟨parts, each, separated, rfl⟩, few⟩ := listed
  obtain ⟨body, last, each', rfl, trees⟩ := held
  have names : ∀ p ∈ parts.trees, p.kind = .identifier := by
    intro p member
    obtain ⟨part, among, rfl⟩ := List.mem_map.1 member
    exact (each part among).2
  have single : parts.map Prod.fst = parts.trees.map fun p => [p] := by
    rw [Parts.trees, List.map_map]
    exact List.map_congr_left fun part among => (each part among).1
  rw [single] at separated
  have formed := Forms.function ⟨name, isName⟩ ⟨opening, isOpening⟩ parts.trees names separated few
    ⟨closing, isClosing⟩ ⟨start, isStart⟩ body each' last
  rwa [trees, ← Stmt.plain_list] at formed

theorem classDeclaration_takes {keyword : Token} (isClass : keyword.kind = .keyword .class_)
    (bound : Nat) : Takes (classDeclaration declaration bound) fun used _ s =>
      Forms .declaration (keyword :: used) s.plain := by
  refine (Takes.expectName _).token fun name isName => ?_
  refine superclass_takes.part fun parent ps inherits => ?_
  refine (Takes.expectMark _ _).token fun opening isOpening => ?_
  refine (itemsToBrace_takes (function_takes takes .method bound) bound).part fun fs ts listed => ?_
  refine (Takes.expectMark _ _).token fun closing isClosing => Takes.pure fun _ => ?_
  obtain ⟨parts, each, rfl, rfl⟩ := listed
  obtain ⟨methods, each', tokens, trees⟩ :=
    parts.mapped (E := fun ts f => Forms .function ts (.funDecl f)) FunctionDecl.plain each
  have formed := Forms.classDecl ⟨keyword, isClass⟩ ⟨name, isName⟩ inherits ⟨opening, isOpening⟩
    methods each' ⟨closing, isClosing⟩
  rwa [Parts.tokens_eq tokens, trees, ← FunctionDecl.plain_list] at formed

end Sequences

section Branches

variable (takes : StatementTakes statement) (bound : Nat)
include takes

theorem ifStatement_takes {keyword : Token} (isIf : keyword.kind = .keyword .if_) :
    Takes (ifStatement statement bound) fun used rest s =>
      ∃ isOpen, Forms (.statement isOpen) (keyword :: used) s.plain ∧
        (isOpen = true → ¬ Next (·.isKeyword .else_) rest) := by
  refine (Takes.expectMark _ _).token fun opening isOpening => ?_
  refine (expression_takes bound).part fun condition cs asked => ?_
  refine (Takes.expectMark _ _).token fun closing isClosing => ?_
  refine takes.bind fun yes ys => Takes.choice (fun otherwise isElse => ?_) (Takes.pure ?_)
  · refine takes.last fun no ns rest other branch => ?_
    obtain ⟨isOpen, formedNo, alone⟩ := other
    obtain ⟨before, formedYes, ended⟩ := branch
    have closed : before = false := by
      cases before with
      | false => rfl
      | true =>
        refine absurd ⟨otherwise, rfl, ?_, isElse⟩ (ended rfl)
        rw [TokenKind.isKeyword_iff.1 isElse]
        rfl
    subst closed
    exact ⟨isOpen, .ifElse ⟨keyword, isIf⟩ ⟨opening, isOpening⟩ asked ⟨closing, isClosing⟩ formedYes
      ⟨otherwise, TokenKind.isKeyword_iff.1 isElse⟩ formedNo, alone⟩
  · intro rest alone branch
    obtain ⟨isOpen, formedYes, -⟩ := branch
    rw [List.append_nil]
    exact ⟨true, .ifThen ⟨keyword, isIf⟩ ⟨opening, isOpening⟩ asked ⟨closing, isClosing⟩ formedYes,
      fun _ => alone⟩

theorem whileStatement_takes {keyword : Token} (isWhile : keyword.kind = .keyword .while_) :
    Takes (whileStatement statement bound) fun used rest s =>
      ∃ isOpen, Forms (.statement isOpen) (keyword :: used) s.plain ∧
        (isOpen = true → ¬ Next (·.isKeyword .else_) rest) := by
  refine (Takes.expectMark _ _).token fun opening isOpening => ?_
  refine (expression_takes bound).part fun condition cs asked => ?_
  refine (Takes.expectMark _ _).token fun closing isClosing => ?_
  refine takes.last fun body bs rest held => ?_
  obtain ⟨isOpen, formed, alone⟩ := held
  exact ⟨isOpen, .whileLoop ⟨keyword, isWhile⟩ ⟨opening, isOpening⟩ asked ⟨closing, isClosing⟩ formed,
    alone⟩

theorem forStatement_takes {keyword : Token} (isFor : keyword.kind = .keyword .for_) :
    Takes (forStatement statement bound) fun used rest s =>
      ∃ isOpen, Forms (.statement isOpen) (keyword :: used) s.plain ∧
        (isOpen = true → ¬ Next (·.isKeyword .else_) rest) := by
  refine (Takes.expectMark _ _).token fun opening isOpening => ?_
  refine (forInitializer_takes bound).part fun initializer is begins => ?_
  refine (expressionUnless_takes _ bound).part fun condition? cs asked => ?_
  refine (Takes.expectMark _ _).token fun semicolon isSemicolon => ?_
  refine (expressionUnless_takes _ bound).part fun increment ns goesOn => ?_
  refine (Takes.expectMark _ _).token fun closing isClosing => ?_
  have formed {isOpen : Bool} {bs : List Token} {body : Stmt}
      (repeated : Forms (.statement isOpen) bs body.plain) :=
    Forms.forLoop ⟨keyword, isFor⟩ ⟨opening, isOpening⟩ begins asked ⟨semicolon, isSemicolon⟩ goesOn
      ⟨closing, isClosing⟩ repeated
  cases condition? with
  | some condition =>
    refine takes.last fun body bs rest held => ?_
    obtain ⟨isOpen, repeated, alone⟩ := held
    exact ⟨isOpen, by rw [Stmt.plain_forLoop]; exact formed repeated, alone⟩
  | none =>
    refine takes.bind fun body bs => ?_
    simp only [forCondition]
    refine (Takes.made _).part fun tree none built => Takes.pure ?_
    obtain ⟨rfl, id, rfl⟩ := built
    intro rest held
    obtain ⟨isOpen, repeated, alone⟩ := held
    refine ⟨isOpen, ?_, alone⟩
    simp only [List.append_nil, Stmt.plain_forLoop]
    exact formed repeated

end Branches

variable (takes : Takes declaration fun used _ s => Forms .declaration used s.plain)
  (takesBranch : StatementTakes statement) (bound : Nat)
include takes takesBranch

theorem statementOf_takes : StatementTakes (statementOf declaration statement bound) := by
  have closed {ts rest : List Token} {s : Stmt} (formed : Forms (.statement false) ts s.plain) :
      ∃ isOpen, Forms (.statement isOpen) ts s.plain ∧
        (isOpen = true → ¬ Next (·.isKeyword .else_) rest) :=
    ⟨false, formed, nofun⟩
  have expression : Takes (expressionStatement bound) fun used rest s =>
      ∃ isOpen, Forms (.statement isOpen) used s.plain ∧
        (isOpen = true → ¬ Next (·.isKeyword .else_) rest) :=
    (expressionStatement_takes bound).imp fun _ _ _ evaluates => closed (.expression evaluates)
  refine Takes.look fun t => ?_
  cases kind : t.kind with
  | number _ | string _ | endOfText | identifier => exact expression.seen
  | mark m =>
    cases m
    case leftBrace =>
      refine Takes.skipped ((block_takes takes bound).last fun ss used rest held => ?_)
        (by rw [kind]; rfl)
      obtain ⟨body, last, each, rfl, trees⟩ := held
      refine closed ?_
      have formed := Forms.block ⟨t, kind⟩ body each last
      rwa [trees, ← Stmt.plain_list] at formed
    all_goals exact expression.seen
  | keyword w =>
    have inside : t.kind.isEnd = false := by rw [kind]; rfl
    cases w
    case for_ => exact (forStatement_takes takesBranch bound kind).skipped inside
    case if_ => exact (ifStatement_takes takesBranch bound kind).skipped inside
    case while_ => exact (whileStatement_takes takesBranch bound kind).skipped inside
    case return_ =>
      refine Takes.skipped ?_ inside
      refine (expressionUnless_takes _ bound).part fun e ts given => ?_
      refine (Takes.expectMark _ _).token fun semicolon isSemicolon => Takes.pure fun _ => ?_
      exact closed (.returnStmt ⟨t, kind⟩ given ⟨semicolon, isSemicolon⟩)
    case print =>
      refine Takes.skipped ?_ inside
      refine (expression_takes bound).part fun e ts derived => ?_
      refine (Takes.expectMark _ _).token fun semicolon isSemicolon => Takes.pure fun _ => ?_
      exact closed (.print ⟨t, kind⟩ derived ⟨semicolon, isSemicolon⟩)
    all_goals exact expression.seen

theorem declarationOf_takes : Takes (declarationOf declaration statement bound) fun used _ s =>
    Forms .declaration used s.plain := by
  have only : Takes (statementOf declaration statement bound) fun used _ s =>
      Forms .declaration used s.plain :=
    (statementOf_takes takes takesBranch bound).imp fun _ _ _ held => by
      obtain ⟨_, formed, -⟩ := held
      exact .statement formed
  refine Takes.look fun t => ?_
  cases kind : t.kind with
  | number _ | string _ | endOfText | identifier | mark _ => exact only.seen
  | keyword w =>
    have inside : t.kind.isEnd = false := by rw [kind]; rfl
    cases w
    case class_ => exact (classDeclaration_takes takes kind bound).skipped inside
    case fun_ =>
      refine Takes.skipped ((function_takes takes .function bound).last fun f used _ formed => ?_) inside
      exact .funDecl ⟨t, kind⟩ formed
    case var =>
      refine Takes.skipped ((varDeclaration_takes kind bound).imp fun _ _ _ declares => ?_) inside
      exact .varDecl declares
    all_goals exact only.seen

end Nested

theorem statements_take (bound : Nat) :
    Takes (declaration bound) (fun used _ s => Forms .declaration used s.plain) ∧
      StatementTakes (statement bound) := by
  induction bound with
  | zero =>
    rw [declaration, statement]
    exact ⟨Takes.refuse, Takes.refuse⟩
  | succ bound ih =>
    rw [declaration, statement]
    exact ⟨declarationOf_takes ih.1 ih.2 (bound + 1), statementOf_takes ih.1 ih.2 (bound + 1)⟩

/-! ### Programs -/

/-- A program is read to its end if the bound is no less than the number of its tokens. -/
theorem declarations_takes (bound : Nat) {c d : Cursor} {ss : List Stmt}
    (enough : c.rest.length ≤ bound) (reading : declarations bound c = .ok ss d) :
    ∃ used, c.rest = used ++ d.rest ∧ (∀ t ∈ used, t.kind.isEnd = false) ∧
      (∀ t ∈ d.rest.head?, t.kind.isEnd = true) ∧ Program used (ss.map Stmt.plain) := by
  induction bound generalizing c ss with
  | zero =>
    cases reading
    have none := List.length_eq_zero_iff.1 (Nat.le_zero.1 enough)
    exact ⟨[], rfl, List.forall_mem_nil _, by simp [none], [], List.forall_mem_nil _, rfl, rfl⟩
  | succ bound ih =>
    rw [declarations] at reading
    obtain ⟨t, u, peeked, reading⟩ := bind_ok_iff.1 reading
    cases peeked
    split at reading
    · rename_i ended
      cases reading
      refine ⟨[], rfl, List.forall_mem_nil _, ?_, [], List.forall_mem_nil _, rfl, rfl⟩
      intro t first
      rwa [Cursor.next, List.headD_eq_head?_getD, first] at ended
    · obtain ⟨s, u, first, reading⟩ := bind_ok_iff.1 reading
      obtain ⟨rest, v, later, made⟩ := bind_ok_iff.1 reading
      cases made
      obtain ⟨ts, split, inside, formed⟩ := (statements_take (bound + 1)).1 c s u first
      have shorter : u.rest.length ≤ bound := by
        obtain ⟨t, us, rfl, -⟩ := formed.first
        rw [split] at enough
        simp only [List.cons_append, List.length_cons, List.length_append] at enough
        omega
      obtain ⟨used, split', inside', ends, parts, each, rfl, trees⟩ := ih shorter later
      refine ⟨ts ++ parts.tokens, by rw [split, split', List.append_assoc], ?_, ends,
        (ts, s.plain) :: parts, List.forall_mem_cons.2 ⟨formed, each⟩, rfl, ?_⟩
      · intro t member
        exact (List.mem_append.1 member).elim (inside t) (inside' t)
      · exact congrArg (s.plain :: ·) trees

/-- What stands before the first end token. -/
theorem takeWhile_inside {used rest : List Token} (inside : ∀ t ∈ used, t.kind.isEnd = false)
    (ends : ∀ t ∈ rest.head?, t.kind.isEnd = true) :
    (used ++ rest).takeWhile (fun t => !t.kind.isEnd) = used := by
  rw [List.takeWhile_append_of_pos fun t member => by rw [inside t member]; rfl]
  cases rest with
  | nil => exact List.append_nil used
  | cons t rest =>
    have ended := ends t rfl
    simp [ended]

variable {tokens : List Token} {firstId : ExprId}

/-- The tokens of a program that is read without error stand for it. -/
theorem readProgram_sound {program : List Stmt}
    (read : (readProgram tokens firstId).value = .ok program) :
    Program (tokens.takeWhile fun t => !t.kind.isEnd) (program.map Stmt.plain) := by
  unfold readProgram readingOf at read
  cases reading : declarations tokens.length ⟨tokens, firstId⟩ with
  | error e d =>
    rw [reading] at read
    cases read
  | ok ss d =>
    rw [reading] at read
    cases read
    obtain ⟨used, split, inside, ends, derived⟩ := declarations_takes tokens.length (Nat.le_refl _) reading
    rw [show tokens = used ++ d.rest from split, takeWhile_inside inside ends]
    exact derived

/-- An expression is read whole if it is read and then the end comes. -/
theorem readExpression_ok {e : Expr} (read : (readExpression tokens firstId).value = .ok e) :
    ∃ d, expression tokens.length ⟨tokens, firstId⟩ = .ok e d ∧
      ∀ t ∈ d.rest.head?, t.kind.isEnd = true := by
  unfold readExpression readingOf at read
  cases reading : wholeExpression tokens.length ⟨tokens, firstId⟩ with
  | error e d =>
    rw [reading] at read
    cases read
  | ok e' d =>
    rw [reading] at read
    cases read
    obtain ⟨_, u, first, reading⟩ := bind_ok_iff.1 reading
    obtain ⟨t, v, peeked, reading⟩ := bind_ok_iff.1 reading
    cases peeked
    split at reading
    · rename_i ended
      cases reading
      refine ⟨d, first, fun t first => ?_⟩
      rwa [Cursor.next, List.headD_eq_head?_getD, first] at ended
    · cases reading

theorem readExpression_sound {e : Expr} (read : (readExpression tokens firstId).value = .ok e) :
    Derives .expression (tokens.takeWhile fun t => !t.kind.isEnd) e.plain := by
  obtain ⟨d, reading, ends⟩ := readExpression_ok read
  obtain ⟨used, split, inside, derived⟩ := expression_takes tokens.length _ _ _ reading
  rw [show tokens = used ++ d.rest from split, takeWhile_inside inside ends]
  exact derived

end Grammar

end Lox
