import Mathlib
import Lox.Proofs.SoundReading

/-!
What is derived is read: where the tokens in front stand for a tree and no token after them could go
on with it, the reader takes just these tokens and gives the tree, up to ids. Together with soundness
reading accepts exactly the grammar, and no tokens stand for two trees.
-/

namespace Lox

/-- The rank of the loosest rule that can go on with a token of this kind. -/
def TokenKind.reach : TokenKind → Nat
  | .mark .leftParen | .mark .dot => 1
  | .mark .slash | .mark .star => 2
  | .mark .minus | .mark .plus => 3
  | .mark .greater | .mark .greaterEqual | .mark .less | .mark .lessEqual => 4
  | .mark .bangEqual | .mark .equalEqual => 5
  | .keyword .and => 6
  | .keyword .or => 7
  | .mark .question | .mark .equal => 8
  | .mark .comma => 9
  | _ => 10

namespace Grammar

open Reader

def Nonterminal.rank : Nonterminal → Nat
  | .primary => 0
  | .call | .unary => 1
  | .factor => 2
  | .term => 3
  | .comparison => 4
  | .equality => 5
  | .and => 6
  | .or => 7
  | .ternary | .assignment => 8
  | .expression => 9

/-- What follows cannot go on with what has been read. -/
def Stops (n : Nonterminal) (rest : List Token) : Prop := ∀ t ∈ rest.head?, n.rank < t.kind.reach

theorem Stops.mono {n n' : Nonterminal} {rest : List Token} (stops : Stops n rest)
    (tighter : n'.rank ≤ n.rank) : Stops n' rest :=
  fun t first => Nat.lt_of_le_of_lt tighter (stops t first)

theorem Stops.not_next {n : Nonterminal} {rest : List Token} (stops : Stops n rest)
    {fits : TokenKind → Bool} (goesOn : ∀ k, fits k = true → k.reach ≤ n.rank) : ¬ Next fits rest := by
  rintro ⟨t, first, -, fitting⟩
  exact Nat.not_lt_of_le (goesOn t.kind fitting) (stops t first)

theorem Stops.before {n : Nonterminal} {k : TokenKind} (t : TokenOf k) (rest : List Token)
    (beyond : n.rank < k.reach) : Stops n (t.val :: rest) := by
  intro t' first
  obtain rfl : t.val = t' := Option.some.inj first
  rwa [t.property]

theorem TokenKind.reach_mark {m : Mark} {k : TokenKind} (is : k.isMark m = true) :
    k.reach = (TokenKind.mark m).reach := by rw [TokenKind.isMark_iff.1 is]

theorem not_next {fits : TokenKind → Bool} {k : TokenKind} (t : TokenOf k) (rest : List Token)
    (other : (!k.isEnd && fits k) = false) : ¬ Next fits (t.val :: rest) := by
  rintro ⟨t', first, inside, fitting⟩
  obtain rfl : t.val = t' := Option.some.inj first
  rw [t.property] at inside fitting
  simp [inside, fitting] at other

/-- The reader takes just these tokens, and what it gives fulfils `A`. -/
def Gives {α : Type} (r : Reader α) (ts rest : List Token) (A : α → Prop) : Prop :=
  ∀ id, ∃ a id', r ⟨ts ++ rest, id⟩ = .ok a ⟨rest, id'⟩ ∧ A a

namespace Gives

variable {α β : Type} {r : Reader α} {f : α → Reader β} {g : α → β} {ts us rest : List Token}
  {t : Token} {A : α → Prop} {B : β → Prop}

theorem imp {A' : α → Prop} (gives : Gives r ts rest A) (weaker : ∀ a, A a → A' a) :
    Gives r ts rest A' := by
  intro id
  obtain ⟨a, id', reading, holds⟩ := gives id
  exact ⟨a, id', reading, weaker a holds⟩

theorem bind (first : Gives r ts (us ++ rest) A) (second : ∀ a, A a → Gives (f a) us rest B) :
    Gives (r >>= f) (ts ++ us) rest B := by
  intro id
  obtain ⟨a, id', reading, holds⟩ := first id
  obtain ⟨b, id'', reading', holds'⟩ := second a holds id'
  exact ⟨b, id'', by rw [List.append_assoc, bind_of_ok reading, reading'], holds'⟩

theorem pure {a : α} (given : A a) : Gives (Pure.pure a) [] rest A := fun id => ⟨a, id, rfl, given⟩

theorem last (first : Gives r ts rest A) (given : ∀ a, A a → B (g a)) :
    Gives (r >>= fun a => Pure.pure (g a)) ts rest B := by
  intro id
  obtain ⟨a, id', reading, holds⟩ := first id
  exact ⟨g a, id', by rw [bind_of_ok reading]; rfl, given a holds⟩

/-- An expression made of what has been read. -/
theorem lastMake {build : α → ExprId → Expr} {B : Expr → Prop} (first : Gives r ts rest A)
    (given : ∀ a id, A a → B (build a id)) :
    Gives (r >>= fun a => Reader.make (build a)) ts rest B := by
  intro id
  obtain ⟨a, id', reading, holds⟩ := first id
  exact ⟨build a id', id' + 1, by rw [bind_of_ok reading]; rfl, given a id' holds⟩

theorem make {build : ExprId → Expr} {B : Expr → Prop} (given : ∀ id, B (build id)) :
    Gives (Reader.make build) [] rest B := fun id => ⟨build id, id + 1, rfl, given id⟩

theorem makeThen {build : ExprId → Expr} {f : Expr → Reader β}
    (second : ∀ id, Gives (f (build id)) us rest B) : Gives (Reader.make build >>= f) us rest B := by
  intro id
  obtain ⟨b, id', reading, holds⟩ := second id (id + 1)
  exact ⟨b, id', reading, holds⟩

theorem accepted {fits : TokenKind → Bool} {k : TokenKind} (t : TokenOf k)
    (fitting : (!k.isEnd && fits k) = true) (ts : List Token) (id : ExprId) :
    Reader.accept? fits ⟨t.val :: ts, id⟩ = .ok (some t.val) ⟨ts, id⟩ := by
  rw [← t.property] at fitting
  exact if_pos fitting

/-- The next token fits, and is taken. -/
theorem take {fits : TokenKind → Bool} {f : Option Token → Reader β} {k : TokenKind} (t : TokenOf k)
    (fitting : (!k.isEnd && fits k) = true) (second : Gives (f (some t.val)) us rest B) :
    Gives (Reader.accept? fits >>= f) (t.val :: us) rest B := by
  intro id
  obtain ⟨b, id', reading, holds⟩ := second id
  exact ⟨b, id', by rw [List.cons_append, bind_of_ok (accepted t fitting _ id), reading], holds⟩

/-- The next token does not fit, and is left. -/
theorem leave {fits : TokenKind → Bool} {f : Option Token → Reader β}
    (absent : ¬ Next fits (us ++ rest)) (second : Gives (f none) us rest B) :
    Gives (Reader.accept? fits >>= f) us rest B := by
  intro id
  obtain ⟨b, id', reading, holds⟩ := second id
  refine ⟨b, id', ?_, holds⟩
  have left : Reader.accept? fits ⟨us ++ rest, id⟩ = .ok none ⟨us ++ rest, id⟩ := by
    unfold Reader.accept?
    cases next : us ++ rest with
    | nil => rfl
    | cons t ts =>
      refine if_neg fun fitting => absent ⟨t, ?_, ?_⟩
      · rw [next]
        rfl
      · simpa using fitting
  rw [bind_of_ok left, reading]

theorem alone {fits : TokenKind → Bool} {what : Expectation} {k : TokenKind} (t : TokenOf k)
    (fitting : (!k.isEnd && fits k) = true) :
    Gives (Reader.expect fits what) [t.val] rest (· = t.val) := by
  intro id
  refine ⟨t.val, id, ?_, rfl⟩
  unfold Reader.expect
  rw [List.singleton_append, bind_of_ok (accepted t fitting _ id)]
  rfl

theorem expected {fits : TokenKind → Bool} {what : Expectation} {f : Token → Reader β}
    {k : TokenKind} (t : TokenOf k) (fitting : (!k.isEnd && fits k) = true)
    (second : Gives (f t.val) us rest B) :
    Gives (Reader.expect fits what >>= f) (t.val :: us) rest B :=
  Gives.bind (alone t fitting) fun t' same => by rwa [same]

theorem mark {m : Mark} {what : Expectation} {f : Token → Reader β} (t : TokenOf (.mark m))
    (second : Gives (f t.val) us rest B) :
    Gives (Reader.expectMark m what >>= f) (t.val :: us) rest B :=
  expected t (by simp [TokenKind.isEnd, TokenKind.isMark]) second

theorem name {what : Expectation} {f : Token → Reader β} (t : TokenOf .identifier)
    (second : Gives (f t.val) us rest B) :
    Gives (Reader.expectName what >>= f) (t.val :: us) rest B := expected t rfl second

/-- What is done after a look at the next token. -/
theorem look {f : Token → Reader β} (goesOn : Gives (f t) (t :: us) rest B) :
    Gives (Reader.peek >>= f) (t :: us) rest B := goesOn

theorem skip {r : Reader β} (goesOn : Gives r us rest B) :
    Gives (Reader.skip >>= fun _ => r) (t :: us) rest B := goesOn

theorem check {fits : TokenKind → Bool} {f : Bool → Reader β} {k : TokenKind} {next : List Token}
    (t : TokenOf k) (split : us ++ rest = t.val :: next)
    (goesOn : Gives (f (!k.isEnd && fits k)) us rest B) : Gives (Reader.check fits >>= f) us rest B := by
  obtain ⟨t, rfl⟩ := t
  intro id
  obtain ⟨b, id', reading, holds⟩ := goesOn id
  refine ⟨b, id', ?_, holds⟩
  rw [split] at reading ⊢
  exact reading

end Gives

/-! ### Lists -/

/-- What follows an item of a list: a comma, or the closing parenthesis. -/
def EndsItem (rest : List Token) : Prop :=
  ∃ t ∈ rest.head?, t.kind = .mark .comma ∨ t.kind = .mark .rightParen

theorem EndsItem.stops {rest : List Token} (ends : EndsItem rest) : Stops .assignment rest := by
  obtain ⟨t, first, is⟩ := ends
  intro t' first'
  obtain rfl : t = t' := Option.some.inj (first.symm.trans first')
  rcases is with is | is <;> rw [is] <;> decide

theorem Separated.length_le {items : List (List Token)} {joined : List Token}
    (separated : Separated items joined) : items.length ≤ joined.length + 1 := by
  induction separated with
  | none => exact Nat.zero_le _
  | one ts => simp
  | more ts comma _ ih =>
    simp only [List.length_cons, List.length_append] at ih ⊢
    omega

theorem Separated.length_item {items : List (List Token)} {joined : List Token}
    (separated : Separated items joined) {ts : List Token} (among : ts ∈ items) :
    ts.length ≤ joined.length := by
  induction separated with
  | none => cases among
  | one ts => rw [List.mem_singleton.1 among]
  | more us comma _ ih =>
    rw [List.length_append, List.length_cons]
    rcases List.mem_cons.1 among with rfl | later
    · exact Nat.le_add_right _ _
    · exact Nat.le_trans (ih later) (by omega)

section Lists

variable {α β : Type} {r : Reader α} {view : α → β} {rest : List Token}

theorem moreItems_gives {role : ListRole} (p : List Token × β) (parts : Parts β) {bound count : Nat}
    (each : ∀ q ∈ parts, ∀ after, EndsItem after → Gives r q.1 after (view · = q.2))
    {joined : List Token} (separated : Separated ((p :: parts).map Prod.fst) joined)
    (enough : parts.length ≤ bound) (few : count + parts.length ≤ maxArity)
    (closing : TokenOf (.mark .rightParen)) (next : List Token) (ends : rest = closing.val :: next) :
    ∃ tail, joined = p.1 ++ tail ∧ EndsItem (tail ++ rest) ∧
      Gives (moreItems role r bound count) tail rest (·.map view = parts.trees) := by
  induction parts generalizing p joined bound count with
  | nil =>
    cases separated
    refine ⟨[], (List.append_nil _).symm, ⟨closing.val, by rw [ends]; rfl, .inr closing.property⟩, ?_⟩
    cases bound with
    | zero => exact Gives.pure rfl
    | succ bound =>
      refine Gives.leave ?_ (Gives.pure rfl)
      rintro ⟨t, first, -, isComma⟩
      rw [ends] at first
      cases first
      rw [closing.property] at isComma
      cases isComma
  | cons q parts ih =>
    rcases separated with _ | _ | ⟨_, comma, separated⟩
    cases bound with
    | zero => exact absurd enough (Nat.not_succ_le_zero _)
    | succ bound =>
      have few' : count + 1 + parts.length ≤ maxArity := by
        rw [List.length_cons] at few
        omega
      obtain ⟨tail, rfl, endsItem, gives⟩ := ih q (fun q' member => each q' (List.mem_cons_of_mem _ member))
        separated (Nat.le_of_succ_le_succ enough) few'
      refine ⟨_, rfl, ⟨comma.val, rfl, .inl comma.property⟩, Gives.take comma rfl ?_⟩
      have room : ¬ maxArity ≤ count := by omega
      simp only [if_neg room]
      refine (each q List.mem_cons_self _ endsItem).bind fun x same => ?_
      exact gives.last fun xs sames => by rw [List.map_cons, same, sames]; rfl

/-- Items that do not begin with the closing parenthesis. -/
theorem items_gives {role : ListRole} (parts : Parts β) {bound : Nat}
    (each : ∀ q ∈ parts, ∀ after, EndsItem after → Gives r q.1 after (view · = q.2))
    (opens : ∀ q ∈ parts, ∃ t us, q.1 = t :: us ∧ opensExpression t.kind = true)
    {joined : List Token} (separated : Separated (parts.map Prod.fst) joined)
    (enough : parts.length ≤ bound + 1) (few : parts.length ≤ maxArity)
    (closing : TokenOf (.mark .rightParen)) (next : List Token) (ends : rest = closing.val :: next) :
    Gives (items role r bound) joined rest (·.map view = parts.trees) := by
  cases parts with
  | nil =>
    cases separated
    exact Gives.check closing ends (Gives.pure rfl)
  | cons p parts =>
    rw [List.length_cons] at enough few
    obtain ⟨tail, rfl, endsItem, gives⟩ : ∃ tail, joined = p.1 ++ tail ∧ EndsItem (tail ++ rest) ∧
        Gives (moreItems role r bound 1) tail rest (·.map view = Parts.trees parts) :=
      moreItems_gives p parts (fun q member => each q (List.mem_cons_of_mem _ member)) separated
        (Nat.le_of_succ_le_succ enough) (Nat.add_comm _ _ ▸ few) closing next ends
    obtain ⟨t, us, split, opens⟩ := opens p List.mem_cons_self
    have begins : p.1 ++ tail ++ rest = t :: (us ++ (tail ++ rest)) := by
      rw [split, List.append_assoc]
      rfl
    refine Gives.check (k := t.kind) ⟨t, rfl⟩ begins ?_
    · have other : (!t.kind.isEnd && t.kind.isMark .rightParen) = false := by
        by_contra is
        simp only [Bool.not_eq_false, Bool.and_eq_true, TokenKind.isMark_iff] at is
        rw [is.2] at opens
        cases opens
      simp only [other]
      refine (each p List.mem_cons_self _ endsItem).bind fun x same => ?_
      exact gives.last fun xs sames => by rw [List.map_cons, same, sames]; rfl

end Lists

/-! ### Chains of operators -/

theorem Nonterminal.operator_reach {n : Nonterminal} {rule : Repetition}
    (of : n.repetition? = some rule) {k : TokenKind} (among : k ∈ rule.operators) :
    k.reach = n.rank ∧ k.isEnd = false := by
  cases n <;> cases of <;> revert k <;> decide +revert

theorem Nonterminal.operand_rank {n : Nonterminal} {rule : Repetition}
    (of : n.repetition? = some rule) : rule.operand.rank < n.rank := by
  cases n <;> cases of <;> decide

section Chains

variable {level : Level} {rule : Repetition} {operand : Reader Expr} {n : Nonterminal}
  (of : n.repetition? = some rule)
include of

theorem Stops.not_operator (builds : level.Builds rule) {rest : List Token} (stops : Stops n rest) :
    ¬ Next level.isOperator rest :=
  stops.not_next fun k is => (Nonterminal.operator_reach of ((builds.operators k).1 is)).1.le

/-- An operand ends where an operation follows it or the chain ends. -/
theorem Stops.operations {more : List Operation} {rest : List Token} (stops : Stops n rest)
    (operators : ∀ o ∈ more, o.operator.kind ∈ rule.operators) :
    Stops rule.operand (more.flatMap Operation.all ++ rest) := by
  have tighter := Nonterminal.operand_rank of
  cases more with
  | nil => exact stops.mono tighter.le
  | cons o more =>
    intro t first
    obtain rfl : o.operator = t := Option.some.inj first
    rwa [(Nonterminal.operator_reach of (operators o List.mem_cons_self)).1]

variable (builds : level.Builds rule)
include builds

theorem chainFrom_gives {more : List Operation} {rest : List Token} {bound : Nat}
    (operators : ∀ o ∈ more, o.operator.kind ∈ rule.operators)
    (gives : ∀ o ∈ more, ∀ after, Stops rule.operand after →
      Gives operand o.tokens after (·.plain = o.operand))
    (enough : more.length ≤ bound) (stops : Stops n rest) (left : Expr) :
    Gives (chainFrom level operand bound left) (more.flatMap Operation.all) rest
      (·.plain = rule.fold left.plain more) := by
  induction more generalizing bound left with
  | nil =>
    cases bound with
    | zero => exact Gives.pure rfl
    | succ bound => exact Gives.leave (stops.not_operator of builds) (Gives.pure rfl)
  | cons o more ih =>
    cases bound with
    | zero => exact absurd enough (Nat.not_succ_le_zero _)
    | succ bound =>
      obtain ⟨isOperator, operators⟩ := List.forall_mem_cons.1 operators
      obtain ⟨givesFirst, gives⟩ := List.forall_mem_cons.1 gives
      have inside := (Nonterminal.operator_reach of isOperator).2
      refine Gives.take (k := o.operator.kind) ⟨o.operator, rfl⟩ ?_ ?_
      · rw [inside, (builds.operators _).2 isOperator]
        rfl
      · refine (givesFirst _ (stops.operations of operators)).bind fun right same => ?_
        refine Gives.makeThen fun id => ?_
        refine (ih operators gives (Nat.le_of_succ_le_succ enough) _).imp fun e folded => ?_
        rw [folded, builds.tree, same]
        rfl

theorem chain_gives {ts : List Token} {e : Expr} {more : List Operation} {rest : List Token}
    {bound : Nat} (first : ∀ after, Stops rule.operand after → Gives operand ts after (·.plain = e))
    (operators : ∀ o ∈ more, o.operator.kind ∈ rule.operators)
    (gives : ∀ o ∈ more, ∀ after, Stops rule.operand after →
      Gives operand o.tokens after (·.plain = o.operand))
    (enough : more.length ≤ bound) (stops : Stops n rest) :
    Gives (chain level operand bound) (ts ++ more.flatMap Operation.all) rest
      (·.plain = rule.fold e more) := by
  refine (first _ (stops.operations of operators)).bind fun left same => ?_
  rw [← same]
  exact chainFrom_gives of builds operators gives enough stops left

/-- An operand that no operator follows. -/
theorem chain_alone {ts rest : List Token} (bound : Nat) {A : Expr → Prop}
    (gives : Gives operand ts rest A) (stops : Stops n rest) :
    Gives (chain level operand bound) ts rest A := by
  rw [← List.append_nil ts]
  refine Gives.bind gives fun left holds => ?_
  cases bound with
  | zero => exact Gives.pure holds
  | succ bound => exact Gives.leave (stops.not_operator of builds) (Gives.pure holds)

end Chains

theorem Operation.length_all (more : List Operation) :
    more.length ≤ (more.flatMap Operation.all).length := by
  induction more with
  | nil => exact Nat.le_refl _
  | cons o more ih =>
    simp only [List.flatMap_cons, List.length_append, List.length_cons, Operation.all]
    omega

theorem Operation.length_tokens {more : List Operation} {o : Operation} (among : o ∈ more) :
    o.tokens.length ≤ (more.flatMap Operation.all).length := by
  have part := (List.sublist_flatten_of_mem (List.mem_map_of_mem (f := Operation.all) among)).length_le
  rw [← List.flatMap_def, Operation.all, List.length_cons] at part
  exact Nat.le_of_succ_le part

/-! ### Expressions -/

/-- The reader of what a nonterminal stands for. -/
def readerOf (nested : Reader Expr) (bound : Nat) : Nonterminal → Reader Expr
  | .expression => expressionOf nested bound
  | .assignment => nested
  | .ternary => ternary nested bound
  | .or => binary nested bound levels
  | .and => binary nested bound (levels.drop 1)
  | .equality => binary nested bound (levels.drop 2)
  | .comparison => binary nested bound (levels.drop 3)
  | .term => binary nested bound (levels.drop 4)
  | .factor => binary nested bound (levels.drop 5)
  | .unary => unary nested bound
  | .call => call nested bound
  | .primary => primary nested bound

theorem readerOf_repetition {n : Nonterminal} {rule : Repetition}
    (of : n.repetition? = some rule) : ∃ level : Level, level.Builds rule ∧ ∀ nested bound,
      readerOf nested bound n = chain level (readerOf nested bound rule.operand) bound := by
  cases n <;> cases of
  · exact ⟨commaLevel, commaLevel_builds, fun _ _ => rfl⟩
  · exact ⟨_, Level.word_builds .and .or, fun _ _ => rfl⟩
  · exact ⟨_, Level.word_builds .equality .and, fun _ _ => rfl⟩
  · exact ⟨_, Level.marks_builds .comparison [.bangEqual, .equalEqual], fun _ _ => rfl⟩
  · exact ⟨_, Level.marks_builds .term [.greater, .greaterEqual, .less, .lessEqual], fun _ _ => rfl⟩
  · exact ⟨_, Level.marks_builds .factor [.minus, .plus], fun _ _ => rfl⟩
  · exact ⟨_, Level.marks_builds .unary [.slash, .star], fun _ _ => rfl⟩

/-- How many tokens a reader can take beyond the bound of the assignments nested in it. -/
def Nonterminal.slack : Nonterminal → Nat
  | .expression | .assignment => 0
  | _ => 1

theorem Nonterminal.operand_slack {n : Nonterminal} {rule : Repetition}
    (of : n.repetition? = some rule) : rule.operand.slack = n.slack := by
  cases n <;> cases of <;> rfl

/-- A callee is read, and then what follows as its suffixes. -/
def ReadsOn (ts : List Token) (e : Expr) : Prop :=
  ∀ inner bound tail rest (B : Expr → Prop), ts.length ≤ inner + 1 → ts.length ≤ bound →
    (∀ e' left, e'.plain = e → bound ≤ left + ts.length →
      Gives (suffixesFrom (assignment inner) left e') tail rest B) →
    Gives (call (assignment inner) bound) (ts ++ tail) rest B

/-- The tokens are read as this tree where nothing after them goes on with it. -/
structure Complete (n : Nonterminal) (ts : List Token) (e : Expr) : Prop where
  gives : ∀ inner bound rest, ts.length ≤ inner + n.slack → ts.length ≤ bound → Stops n rest →
    Gives (readerOf (assignment inner) bound n) ts rest (·.plain = e)
  callee : n = .call → ReadsOn ts e
  signed : n = .unary → ∀ inner bound signs rest, ts.length ≤ inner + 1 → ts.length ≤ bound →
    ts.length ≤ signs → Stops .unary rest →
      Gives (unaryFrom (assignment inner) bound signs) ts rest (·.plain = e)

section Calls

theorem suffixesFrom_ends {nested : Reader Expr} {bound : Nat} {e : Expr} {rest : List Token}
    (stops : Stops .call rest) : Gives (suffixesFrom nested bound e) [] rest (· = e) := by
  cases bound with
  | zero => exact Gives.pure rfl
  | succ bound =>
    refine Gives.leave ?_ (Gives.leave ?_ (Gives.pure rfl))
    · exact stops.not_next fun k is => (TokenKind.reach_mark is).le
    · exact stops.not_next fun k is => (TokenKind.reach_mark is).le

variable {ts : List Token} {e : Expr}

theorem ReadsOn.gives {rest : List Token} {inner bound : Nat} (reads : ReadsOn ts e)
    (enough : ts.length ≤ inner + 1) (enough' : ts.length ≤ bound) (stops : Stops .call rest) :
    Gives (call (assignment inner) bound) ts rest (·.plain = e) := by
  rw [← List.append_nil ts]
  refine reads inner bound [] rest _ enough enough' fun e' left same _ => ?_
  exact (suffixesFrom_ends stops).imp fun e'' is => by rw [is, same]

/-- An expression without a suffix. -/
theorem ReadsOn.primary (gives : ∀ inner bound rest, ts.length ≤ inner + 1 → ts.length ≤ bound →
    Gives (Grammar.primary (assignment inner) bound) ts rest (·.plain = e)) : ReadsOn ts e := by
  intro inner bound tail rest B enough enough' goesOn
  exact (gives inner bound _ enough enough').bind fun e' same => goesOn e' bound same (Nat.le_add_right _ _)

theorem ReadsOn.get (reads : ReadsOn ts e) (dot : TokenOf (.mark .dot)) (name : TokenOf .identifier) :
    ReadsOn (ts ++ [dot.val, name.val]) (.get 0 e name) := by
  intro inner bound tail rest B enough enough' goesOn
  have length : (ts ++ [dot.val, name.val]).length = ts.length + 2 := List.length_append
  rw [length] at enough enough'
  rw [List.append_assoc]
  refine reads inner bound _ rest B (by omega) (by omega) fun e' left same room => ?_
  obtain ⟨left, rfl⟩ : ∃ l, left = l + 1 := ⟨left - 1, by omega⟩
  refine Gives.leave ?_ (Gives.take dot rfl (Gives.name name (Gives.makeThen fun id => ?_)))
  · exact not_next dot _ rfl
  · refine goesOn _ left ?_ (by omega)
    rw [← same]
    rfl

theorem ReadsOn.call (reads : ReadsOn ts e) (opening : TokenOf (.mark .leftParen))
    {arguments : Parts Expr} (each : ∀ a ∈ arguments, Complete .assignment a.1 a.2)
    (opens : ∀ a ∈ arguments, ∃ t us, a.1 = t :: us ∧ opensExpression t.kind = true)
    {joined : List Token} (separated : Separated (arguments.map Prod.fst) joined)
    (few : arguments.length ≤ 255) (paren : TokenOf (.mark .rightParen)) :
    ReadsOn (ts ++ opening.val :: (joined ++ [paren.val])) (.call 0 e paren arguments.trees) := by
  intro inner bound tail rest B enough enough' goesOn
  have length : (ts ++ opening.val :: (joined ++ [paren.val])).length = ts.length + joined.length + 2 := by
    simp only [List.length_append, List.length_cons, List.length_nil]
    omega
  rw [length] at enough enough'
  have count := separated.length_le
  rw [List.length_map] at count
  rw [List.append_assoc, List.cons_append, List.append_assoc]
  refine reads inner bound _ rest B (by omega) (by omega) fun e' left same room => ?_
  obtain ⟨left, rfl⟩ : ∃ l, left = l + 1 := ⟨left - 1, by omega⟩
  refine Gives.take opening rfl ?_
  have listed : Gives (items .arguments (assignment inner) left) joined
      ([paren.val] ++ tail ++ rest) (·.map Expr.plain = arguments.trees) := by
    refine items_gives arguments (fun a member after ends => ?_) opens separated (by omega) few paren
      (tail ++ rest) rfl
    have part := separated.length_item (List.mem_map_of_mem member)
    exact (each a member).gives inner bound after (by simp only [Nonterminal.slack]; omega) (by omega)
      ends.stops
  refine Gives.bind listed fun es trees => Gives.mark paren (Gives.makeThen fun id => ?_)
  refine goesOn _ left ?_ (by omega)
  rw [← same, ← trees, ← Expr.plain_list]
  rfl

end Calls

section Targets

variable {ts rest : List Token} {e : Expr} {inner bound : Nat}

theorem not_sign {t : Token} {us : List Token} (opens : opensPrimary t.kind = true) :
    ¬ Next (fun k => k.isMark .bang || k.isMark .minus) (t :: us) := by
  refine not_next ⟨t, rfl⟩ us ?_
  by_contra sign
  simp only [Bool.not_eq_false, Bool.and_eq_true, Bool.or_eq_true, TokenKind.isMark_iff] at sign
  rcases sign.2 with is | is <;> rw [is] at opens <;> cases opens

/-- An expression that no sign stands in front of. -/
theorem unsigned_gives {nested : Reader Expr} {A : Expr → Prop} (signs : Nat)
    (gives : Gives (call nested bound) ts rest A)
    (opens : ∃ t us, ts = t :: us ∧ opensPrimary t.kind = true) :
    Gives (unaryFrom nested bound signs) ts rest A := by
  cases signs with
  | zero => exact gives
  | succ signs =>
    obtain ⟨t, us, rfl, opens⟩ := opens
    exact Gives.leave (not_sign opens) gives

/-- A callee alone is read as an operand of every level. -/
theorem or_alone {nested : Reader Expr} {A : Expr → Prop} (gives : Gives (call nested bound) ts rest A)
    (opens : ∃ t us, ts = t :: us ∧ opensPrimary t.kind = true) (stops : Stops .or rest) :
    Gives (binary nested bound levels) ts rest A := by
  have factor := chain_alone (n := .factor) rfl (Level.marks_builds .unary [.slash, .star]) bound
    (unsigned_gives bound gives opens) (stops.mono (by decide))
  have term := chain_alone (n := .term) rfl (Level.marks_builds .factor [.minus, .plus]) bound factor
    (stops.mono (by decide))
  have comparison := chain_alone (n := .comparison) rfl
    (Level.marks_builds .term [.greater, .greaterEqual, .less, .lessEqual]) bound term
    (stops.mono (by decide))
  have equality := chain_alone (n := .equality) rfl
    (Level.marks_builds .comparison [.bangEqual, .equalEqual]) bound comparison
    (stops.mono (by decide))
  have and := chain_alone (n := .and) rfl (Level.word_builds .equality .and) bound equality
    (stops.mono (by decide))
  exact chain_alone (n := .or) rfl (Level.word_builds .and .or) bound and stops

theorem target_gives (reads : ReadsOn ts e)
    (opens : ∃ t us, ts = t :: us ∧ opensPrimary t.kind = true) (equals : TokenOf (.mark .equal))
    (enough : ts.length ≤ inner + 1) (enough' : ts.length ≤ bound) :
    Gives (ternary (assignment inner) bound) ts (equals.val :: rest) (·.plain = e) := by
  rw [← List.append_nil ts]
  have alone : Gives (binary (assignment inner) bound levels) ts ([] ++ equals.val :: rest)
      (·.plain = e) :=
    or_alone (reads.gives enough enough' (.before equals rest (by decide))) opens
      (.before equals rest (by decide))
  exact Gives.bind alone fun e' same => Gives.leave (not_next equals rest rfl) (Gives.pure same)

theorem plain_var {e : Expr} {name : Token} (same : e.plain = .var 0 name) : ∃ id, e = .var id name := by
  cases e <;> cases same
  exact ⟨_, rfl⟩

theorem plain_get {e object : Expr} {name : Token} (same : e.plain = .get 0 object name) :
    ∃ id held, e = .get id held name ∧ held.plain = object := by
  cases e <;> cases same
  exact ⟨_, _, rfl, rfl⟩

end Targets

theorem ReadsOn.complete {ts : List Token} {e : Expr} (reads : ReadsOn ts e) : Complete .call ts e :=
  ⟨fun _ _ _ => reads.gives, fun _ => reads, nofun⟩

theorem Complete.primary {ts : List Token} {e : Expr}
    (gives : ∀ inner bound rest, ts.length ≤ inner + 1 → ts.length ≤ bound →
      Gives (Grammar.primary (assignment inner) bound) ts rest (·.plain = e)) : Complete .primary ts e :=
  ⟨fun inner bound rest enough enough' _ => gives inner bound rest enough enough', nofun, nofun⟩

theorem Complete.repetition {n : Nonterminal} {rule : Repetition} (of : n.repetition? = some rule)
    {ts : List Token} {e : Expr} (first : Complete rule.operand ts e) {more : List Operation}
    (operators : ∀ o ∈ more, o.operator.kind ∈ rule.operators)
    (operands : ∀ o ∈ more, Complete rule.operand o.tokens o.operand) :
    Complete n (ts ++ more.flatMap Operation.all) (rule.fold e more) := by
  have other : n ≠ .call ∧ n ≠ .unary := by
    constructor <;> rintro rfl <;> cases of
  refine ⟨fun inner bound rest enough enough' stops => ?_, fun is => absurd is other.1,
    fun is => absurd is other.2⟩
  obtain ⟨level, builds, same⟩ := readerOf_repetition of
  rw [List.length_append, ← Nonterminal.operand_slack of] at enough
  rw [List.length_append] at enough'
  have count := Operation.length_all more
  rw [same]
  refine chain_gives of builds (fun after ends => ?_) operators (fun o member after ends => ?_)
    (by omega) stops
  · exact first.gives inner bound after (by omega) (by omega) ends
  · have part := Operation.length_tokens member
    exact (operands o member).gives inner bound after (by omega) (by omega) ends

/-- A target, an equals sign and a value. -/
theorem ReadsOn.assigned {os ts : List Token} {object value e : Expr} (reads : ReadsOn os object)
    (opens : ∃ t us, os = t :: us ∧ opensPrimary t.kind = true) (equals : TokenOf (.mark .equal))
    (assigns : ∀ target v, target.plain = object → v.plain = value →
      ∃ build, assignTo target equals v = Reader.make build ∧ ∀ id, (build id).plain = e)
    (given : Complete .assignment ts value) : Complete .assignment (os ++ equals.val :: ts) e := by
  refine ⟨fun inner bound rest enough enough' stops => ?_, nofun, nofun⟩
  have length : (os ++ equals.val :: ts).length = os.length + ts.length + 1 := by
    simp only [List.length_append, List.length_cons]
    omega
  rw [length] at enough enough'
  cases inner with
  | zero => exact absurd enough (Nat.not_succ_le_zero _)
  | succ inner =>
    have room : os.length + ts.length ≤ inner := Nat.le_of_succ_le_succ enough
    simp only [readerOf, assignment]
    refine Gives.bind (target_gives reads opens equals (by omega) (by omega)) fun target same => ?_
    refine Gives.take equals rfl ?_
    rw [← List.append_nil ts]
    refine Gives.bind (given.gives inner bound _ (by simp only [Nonterminal.slack]; omega) (by omega) stops)
      fun v same' => ?_
    obtain ⟨build, is, built⟩ := assigns target v same same'
    simp only [is]
    exact Gives.make built

theorem stops_primary (rest : List Token) : Stops .primary rest := by
  intro t _
  unfold TokenKind.reach
  split <;> decide

theorem primary_name {nested : Reader Expr} {bound : Nat} {rest : List Token}
    (name : TokenOf .identifier) :
    Gives (Grammar.primary nested bound) [name.val] rest (·.plain = .var 0 name) := by
  refine Gives.look ?_
  simp only [name.property]
  exact Gives.skip (Gives.make fun _ => rfl)

theorem ReadsOn.name (name : TokenOf .identifier) : ReadsOn [name.val] (.var 0 name) :=
  ReadsOn.primary fun _ _ _ _ _ => primary_name name

theorem Complete.assign (name : TokenOf .identifier) (equals : TokenOf (.mark .equal))
    {ts : List Token} {value : Expr} (given : Complete .assignment ts value) :
    Complete .assignment (name.val :: equals.val :: ts) (.assign 0 name value) := by
  have opens : ∃ t us, [name.val] = t :: us ∧ opensPrimary t.kind = true :=
    ⟨_, _, rfl, by rw [name.property]; rfl⟩
  refine (ReadsOn.name name).assigned opens equals (fun target v same same' => ?_) given
  obtain ⟨id, rfl⟩ := plain_var same
  exact ⟨fun id => .assign id name v, rfl, fun _ => by rw [← same']; rfl⟩

theorem Complete.set {os : List Token} {object : Expr} (holder : ReadsOn os object)
    (opens : ∃ t us, os = t :: us ∧ opensPrimary t.kind = true) (dot : TokenOf (.mark .dot))
    (name : TokenOf .identifier) (equals : TokenOf (.mark .equal)) {ts : List Token} {value : Expr}
    (given : Complete .assignment ts value) :
    Complete .assignment (os ++ dot.val :: name.val :: equals.val :: ts) (.set 0 object name value) := by
  obtain ⟨t, us, rfl, opens⟩ := opens
  have target := (holder.get dot name).assigned (e := .set 0 object name value)
    ⟨t, _, rfl, opens⟩ equals (fun target v same same' => ?_) given
  · rwa [List.append_assoc] at target
  · obtain ⟨id, held, rfl, rfl⟩ := plain_get same
    exact ⟨fun id => .set id held name v, rfl, fun _ => by rw [← same']; rfl⟩

theorem Complete.unassigned {ts : List Token} {e : Expr} (only : Complete .ternary ts e)
    (nonempty : ts ≠ []) : Complete .assignment ts e := by
  refine ⟨fun inner bound rest enough enough' stops => ?_, nofun, nofun⟩
  cases inner with
  | zero => exact absurd (List.length_eq_zero_iff.1 (Nat.le_zero.1 enough)) nonempty
  | succ inner =>
    simp only [readerOf, assignment]
    rw [← List.append_nil ts]
    refine Gives.bind (only.gives inner (inner + 1) _ enough enough (stops.mono (Nat.le_refl _)))
      fun target same => ?_
    exact Gives.leave (stops.not_next fun k is => (TokenKind.reach_mark is).le) (Gives.pure same)

theorem Complete.ternary {cs ys ns : List Token} {condition yes no : Expr}
    (first : Complete .or cs condition) (question : TokenOf (.mark .question))
    (second : Complete .assignment ys yes) (colon : TokenOf (.mark .colon))
    (third : Complete .assignment ns no) :
    Complete .ternary (cs ++ question.val :: (ys ++ colon.val :: ns)) (.ternary 0 condition yes no) := by
  refine ⟨fun inner bound rest enough enough' stops => ?_, nofun, nofun⟩
  simp only [List.length_append, List.length_cons, Nonterminal.slack] at enough enough'
  have inside {n : Nat} (le : n ≤ inner) : n ≤ inner + Nonterminal.assignment.slack := le
  refine Gives.bind (first.gives inner bound _ ?_ (by omega) (.before question _ (by decide)))
    fun c sameC => Gives.take question rfl ?_
  · simp only [Nonterminal.slack]
    omega
  refine Gives.bind (second.gives inner bound _ (inside (by omega)) (by omega)
    (.before colon _ (by decide))) fun y sameY => Gives.mark colon ?_
  refine Gives.lastMake (third.gives inner bound rest (inside (by omega)) (by omega) stops)
    fun n id sameN => ?_
  rw [← sameC, ← sameY, ← sameN]
  rfl

theorem Complete.unconditional {ts : List Token} {e : Expr} (only : Complete .or ts e) :
    Complete .ternary ts e := by
  refine ⟨fun inner bound rest enough enough' stops => ?_, nofun, nofun⟩
  rw [← List.append_nil ts]
  refine Gives.bind (only.gives inner bound _ enough enough' (stops.mono (by decide)))
    fun c same => Gives.leave ?_ (Gives.pure same)
  exact stops.not_next fun k is => (TokenKind.reach_mark is).le

theorem Complete.unary {operator : Token} (sign : operator.kind ∈ [.mark .bang, .mark .minus])
    {ts : List Token} {operand : Expr} (rest : Complete .unary ts operand) :
    Complete .unary (operator :: ts) (.unary 0 operator operand) := by
  have signed : ∀ inner bound signs after, (operator :: ts).length ≤ inner + 1 →
      (operator :: ts).length ≤ bound → (operator :: ts).length ≤ signs → Stops .unary after →
        Gives (unaryFrom (assignment inner) bound signs) (operator :: ts) after
          (·.plain = .unary 0 operator operand) := by
    intro inner bound signs after enough enough' enough'' stops
    rw [List.length_cons] at enough enough' enough''
    cases signs with
    | zero => exact absurd enough'' (Nat.not_succ_le_zero _)
    | succ signs =>
      refine Gives.take (k := operator.kind) ⟨operator, rfl⟩ ?_ ?_
      · simp only [List.mem_cons, List.not_mem_nil, or_false] at sign
        rcases sign with is | is <;> rw [is] <;> rfl
      · refine Gives.lastMake (rest.signed rfl inner bound signs after (by omega) (by omega)
          (by omega) stops) fun e id same => ?_
        rw [← same]
        rfl
  exact ⟨fun inner bound after enough enough' => signed inner bound bound after enough enough' enough',
    nofun, fun _ => signed⟩

theorem Complete.unsigned {ts : List Token} {e : Expr} (only : Complete .call ts e)
    (opens : ∃ t us, ts = t :: us ∧ opensPrimary t.kind = true) : Complete .unary ts e := by
  have signed : ∀ inner bound signs rest, ts.length ≤ inner + 1 → ts.length ≤ bound →
      ts.length ≤ signs → Stops .unary rest →
        Gives (unaryFrom (assignment inner) bound signs) ts rest (·.plain = e) :=
    fun inner bound signs rest enough enough' _ stops =>
      unsigned_gives signs (only.gives inner bound rest enough enough' stops) opens
  exact ⟨fun inner bound rest enough enough' => signed inner bound bound rest enough enough' enough',
    nofun, fun _ => signed⟩

/-- What is derived is read. -/
theorem Derives.complete {n : Nonterminal} {ts : List Token} {e : Expr} (derived : Derives n ts e) :
    Complete n ts e := by
  induction derived with
  | repetition rule _ more operators _ first operands => exact .repetition rule first operators operands
  | assign name equals _ given => exact .assign name equals given
  | set holder dot name equals _ reads given =>
    obtain ⟨t, us, rfl, -, opens⟩ := holder.first
    exact .set (reads.callee rfl) ⟨t, us, rfl, opens (.inl rfl)⟩ dot name equals given
  | unassigned derived only =>
    obtain ⟨t, us, rfl, -⟩ := derived.first
    exact only.unassigned (List.cons_ne_nil t us)
  | ternary _ question _ colon _ first second third => exact .ternary first question second colon third
  | unconditional _ only => exact only.unconditional
  | unary operator sign _ rest => exact .unary sign rest
  | unsigned derived only =>
    obtain ⟨t, us, rfl, -, opens⟩ := derived.first
    exact only.unsigned ⟨t, us, rfl, opens (.inl rfl)⟩
  | call _ opening arguments derived separated few paren reads each =>
    refine ((reads.callee rfl).call opening each (fun a member => ?_) separated few paren).complete
    obtain ⟨t, us, split, opens, -⟩ := (derived a member).first
    exact ⟨t, us, split, opens⟩
  | get _ dot name reads => exact ((reads.callee rfl).get dot name).complete
  | uncalled _ only =>
    refine (ReadsOn.primary fun inner bound rest enough enough' => ?_).complete
    exact only.gives inner bound rest enough enough' (stops_primary rest)
  | number t | string t | true_ t | false_ t | nil t | this t =>
    refine Complete.primary fun inner bound rest _ _ => Gives.look ?_
    simp only [t.property]
    exact Gives.skip (Gives.make fun _ => rfl)
  | name t => exact Complete.primary fun _ _ _ _ _ => primary_name t
  | super keyword dot method =>
    refine Complete.primary fun inner bound rest _ _ => Gives.look ?_
    simp only [keyword.property]
    exact Gives.skip (Gives.mark dot (Gives.name method (Gives.make fun _ => rfl)))
  | @grouping opening ts inner _ closing inside =>
    refine Complete.primary fun nested bound rest enough enough' => Gives.look ?_
    simp only [List.length_cons, List.length_append, List.length_nil] at enough enough'
    simp only [opening.property]
    have read := inside.gives nested bound ([closing.val] ++ rest)
      (by simp only [Nonterminal.slack]; omega) (by omega) (.before closing rest (by decide))
    exact Gives.skip (Gives.bind read fun e same => Gives.mark closing (Gives.make fun id => by
      rw [← same]
      rfl))

/-! ### Statements -/

theorem expression_gives {ts rest : List Token} {e : Expr} {bound : Nat}
    (derived : Derives .expression ts e) (enough : ts.length ≤ bound) {k : TokenKind} (t : TokenOf k)
    (beyond : Nonterminal.expression.rank < k.reach) :
    Gives (expression bound) ts (t.val :: rest) (·.plain = e) :=
  derived.complete.gives bound bound _ enough enough (.before t rest beyond)

/-- What no expression begins with does not fit the first token of one. -/
theorem opening_unfit {fits : TokenKind → Bool} {k : TokenKind} (opens : opensExpression k = true)
    (closes : ∀ k, fits k = true → opensExpression k = false) : (!k.isEnd && fits k) = false := by
  cases fitting : fits k with
  | false => exact Bool.and_false _
  | true =>
    rw [closes k fitting] at opens
    cases opens

theorem opensExpression_mark {m : Mark} (closes : opensExpression (.mark m) = false) (k : TokenKind)
    (is : k.isMark m = true) : opensExpression k = false := by rwa [TokenKind.isMark_iff.1 is]

/-- An expression, or nothing before the token that ends its place. -/
theorem expressionUnless_gives {m : Mark} {ts us rest : List Token} {e : Option Expr} {bound : Nat}
    {β : Type} {f : Option Expr → Reader β} {B : β → Prop} (possibly : Possibly ts e)
    (enough : ts.length ≤ bound) (closing : TokenOf (.mark m))
    (closes : opensExpression (.mark m) = false) (beyond : 9 < (TokenKind.mark m).reach)
    (goesOn : ∀ e', e'.map Expr.plain = e → Gives (f e') (closing.val :: us) rest B) :
    Gives (expressionUnless m bound >>= f) (ts ++ closing.val :: us) rest B := by
  cases possibly with
  | absent =>
    have nothing : Gives (expressionUnless m bound) [] (closing.val :: (us ++ rest)) (· = none) := by
      refine Gives.check closing rfl ?_
      simp only [TokenKind.isEnd, TokenKind.isMark, Bool.not_false, decide_true, Bool.and_self, if_true]
      exact Gives.pure rfl
    exact Gives.bind nothing fun e' is => goesOn e' (by rw [is]; rfl)
  | @present _ e derived =>
    have given : Gives (expressionUnless m bound) ts (closing.val :: (us ++ rest))
        (·.map Expr.plain = some e) := by
      obtain ⟨t, vs, rfl, opens, -⟩ := derived.first
      refine Gives.check (k := t.kind) ⟨t, rfl⟩ rfl ?_
      simp only [opening_unfit opens (opensExpression_mark closes)]
      exact (expression_gives derived enough closing beyond).last fun e same => by rw [← same]; rfl
    exact Gives.bind given goesOn

theorem varDeclaration_gives {ts : List Token} {s : Stmt} {bound : Nat} (rest : List Token)
    (declares : VarDecl ts s)
    (enough : ts.length ≤ bound) : ∃ var : TokenOf (.keyword .var), ∃ us, ts = var.val :: us ∧
      Gives (varDeclaration bound) us rest (·.plain = s) := by
  cases declares with
  | bare var name semicolon =>
    refine ⟨var, _, rfl, Gives.name name (Gives.leave (not_next semicolon _ rfl) ?_)⟩
    exact Gives.mark semicolon (Gives.pure rfl)
  | initialized var name equals value semicolon =>
    refine ⟨var, _, rfl, Gives.name name (Gives.take equals rfl ?_)⟩
    simp only [List.length_cons, List.length_append] at enough
    refine Gives.bind (expression_gives value (by omega) semicolon (by decide)) fun e same => ?_
    exact Gives.mark semicolon (Gives.pure (by rw [← same]; rfl))

theorem expressionStatement_gives {ts : List Token} {s : Stmt} {bound : Nat} (rest : List Token)
    (evaluates : ExpressionStatement ts s) (enough : ts.length ≤ bound) :
    Gives (expressionStatement bound) ts rest (·.plain = s) := by
  obtain ⟨value, semicolon⟩ := evaluates
  rw [List.length_append] at enough
  refine Gives.bind (expression_gives value (by omega) semicolon (by decide)) fun e same => ?_
  exact Gives.mark semicolon (Gives.pure (by rw [← same]; rfl))

theorem forInitializer_gives {ts rest : List Token} {s : Option Stmt} {bound : Nat}
    (begins : Initializer ts s) (enough : ts.length ≤ bound) :
    Gives (forInitializer bound) ts rest (·.map Stmt.plain = s) := by
  cases begins with
  | absent semicolon => exact Gives.take semicolon rfl (Gives.pure rfl)
  | declaration declares =>
    obtain ⟨var, us, rfl, gives⟩ := varDeclaration_gives rest declares enough
    refine Gives.leave (not_next var _ rfl) (Gives.take var rfl ?_)
    exact gives.last fun s same => by rw [← same]; rfl
  | expression evaluates =>
    have gives := expressionStatement_gives rest evaluates enough
    obtain ⟨value, semicolon⟩ := evaluates
    obtain ⟨t, us, rfl, opens, -⟩ := value.first
    refine Gives.leave (not_next ⟨t, rfl⟩ _ (opening_unfit opens (opensExpression_mark rfl))) ?_
    refine Gives.leave (not_next ⟨t, rfl⟩ _ (opening_unfit opens fun k is => ?_)) ?_
    · rw [TokenKind.isKeyword_iff.1 is]
      rfl
    · exact gives.last fun s same => by rw [← same]; rfl

/-- An `else` does not follow. -/
def NoElse (rest : List Token) : Prop := ¬ Next (·.isKeyword .else_) rest

theorem noElse_opening {t : Token} {us : List Token} (opens : opensDeclaration t.kind = true) :
    NoElse (t :: us) := by
  refine not_next ⟨t, rfl⟩ us ?_
  by_contra is
  simp only [Bool.not_eq_false, Bool.and_eq_true, TokenKind.isKeyword_iff] at is
  rw [is.2] at opens
  cases opens

theorem opensDeclaration_inside {k : TokenKind} (opens : opensDeclaration k = true) :
    (k.isEnd || k.isMark .rightBrace) = false := by
  cases k with
  | mark m => cases m <;> first | rfl | cases opens
  | endOfText => cases opens
  | _ => rfl

section Sequences

variable {α β : Type} {r : Reader α} {view : α → β}

theorem itemsToBrace_gives (parts : Parts β) {bound : Nat}
    (each : ∀ p ∈ parts, ∀ after, NoElse after → Gives r p.1 after (view · = p.2))
    (opens : ∀ p ∈ parts, ∃ t us, p.1 = t :: us ∧ opensDeclaration t.kind = true)
    (enough : parts.length ≤ bound) (closing : TokenOf (.mark .rightBrace)) (next : List Token) :
    NoElse (parts.tokens ++ closing.val :: next) ∧
      Gives (itemsToBrace r bound) parts.tokens (closing.val :: next) (·.map view = parts.trees) := by
  induction parts generalizing bound with
  | nil =>
    refine ⟨not_next closing next rfl, ?_⟩
    cases bound with
    | zero => exact Gives.pure rfl
    | succ bound =>
      intro id
      refine ⟨[], id, ?_, rfl⟩
      show (if closing.val.kind.isEnd || closing.val.kind.isMark .rightBrace then _ else _ : Reader _) _ = _
      rw [closing.property]
      rfl
  | cons p parts ih =>
    obtain ⟨first, each⟩ := List.forall_mem_cons.1 each
    obtain ⟨⟨t, us, split, opensFirst⟩, opens⟩ := List.forall_mem_cons.1 opens
    have tokens : Parts.tokens (p :: parts) = t :: (us ++ Parts.tokens parts) := by
      rw [Parts.tokens_cons, split, List.cons_append]
    rw [tokens]
    refine ⟨noElse_opening opensFirst, ?_⟩
    cases bound with
    | zero => exact absurd enough (Nat.not_succ_le_zero _)
    | succ bound =>
      obtain ⟨alone, gives⟩ := ih each opens (Nat.le_of_succ_le_succ enough)
      refine Gives.look ?_
      simp only [opensDeclaration_inside opensFirst]
      rw [split] at first
      refine (first _ alone).bind fun x same => ?_
      exact gives.last fun xs sames => by rw [List.map_cons, same, sames]; rfl

end Sequences

theorem Parts.length_le {α : Type} {parts : Parts α}
    (opens : ∀ p ∈ parts, ∃ t us, p.1 = t :: us ∧ opensDeclaration t.kind = true) :
    List.length parts ≤ parts.tokens.length := by
  induction parts with
  | nil => exact Nat.le_refl _
  | cons p parts ih =>
    obtain ⟨⟨t, us, split, -⟩, opens⟩ := List.forall_mem_cons.1 opens
    have rest := ih opens
    rw [Parts.tokens_cons, List.length_append, split, List.length_cons, List.length_cons]
    omega

theorem Parts.length_part {α : Type} {parts : Parts α} {p : List Token × α} (among : p ∈ parts) :
    p.1.length ≤ parts.tokens.length := by
  rw [Parts.tokens, List.flatMap_def]
  exact (List.sublist_flatten_of_mem (List.mem_map_of_mem among)).length_le

/-- What is read of a phrase: declarations inside it are nested. -/
def ReadsWhole : Phrase → List Token → Stmt → Prop
  | .declaration, ts, s => ∀ inner rest, ts.length ≤ inner + 1 → NoElse rest →
      Gives (declarationOf (declaration inner) (statement inner) (inner + 1)) ts rest (·.plain = s)
  | .statement isOpen, ts, s => ∀ inner rest, ts.length ≤ inner + 1 → (isOpen = true → NoElse rest) →
      Gives (statementOf (declaration inner) (statement inner) (inner + 1)) ts rest (·.plain = s)
  | .function, ts, s => ∀ role inner bound rest, ts.length ≤ inner + 1 → ts.length ≤ bound →
      Gives (function role (declaration inner) bound) ts rest fun f => .funDecl f.plain = s

section Phrases

variable {ts rest : List Token} {s : Stmt} {bound : Nat}

theorem ReadsWhole.declaration (reads : ReadsWhole .declaration ts s) (formed : Forms .declaration ts s)
    (enough : ts.length ≤ bound) (alone : NoElse rest) :
    Gives (Grammar.declaration bound) ts rest (·.plain = s) := by
  obtain ⟨t, us, rfl, -⟩ := formed.first
  cases bound with
  | zero => exact absurd enough (Nat.not_succ_le_zero _)
  | succ bound =>
    rw [Grammar.declaration]
    exact reads bound rest enough alone

theorem ReadsWhole.statement {isOpen : Bool} (reads : ReadsWhole (.statement isOpen) ts s)
    (formed : Forms (.statement isOpen) ts s) (enough : ts.length ≤ bound)
    (alone : isOpen = true → NoElse rest) :
    Gives (Grammar.statement bound) ts rest (·.plain = s) := by
  obtain ⟨t, us, rfl, -⟩ := formed.first
  cases bound with
  | zero => exact absurd enough (Nat.not_succ_le_zero _)
  | succ bound =>
    rw [Grammar.statement]
    exact reads bound rest enough alone

theorem declarationOf_statement {declaration statement : Reader Stmt} {t : Token} {us : List Token}
    {B : Stmt → Prop} (opens : opensStatement t.kind = true)
    (gives : Gives (statementOf declaration statement bound) (t :: us) rest B) :
    Gives (declarationOf declaration statement bound) (t :: us) rest B := by
  refine Gives.look ?_
  cases kind : t.kind with
  | keyword w =>
    rw [kind] at opens
    cases w <;> first | exact gives | cases opens
  | _ => exact gives

theorem statementOf_expression {declaration statement : Reader Stmt} {t : Token} {us : List Token}
    {B : Stmt → Prop} (opens : opensExpression t.kind = true)
    (gives : Gives (expressionStatement bound) (t :: us) rest B) :
    Gives (statementOf declaration statement bound) (t :: us) rest B := by
  refine Gives.look ?_
  cases kind : t.kind with
  | keyword w =>
    rw [kind] at opens
    cases w <;> first | exact gives | cases opens
  | mark m =>
    rw [kind] at opens
    cases m <;> first | exact gives | cases opens
  | _ => exact gives

/-- Declarations in braces, the first of which has been read. -/
theorem block_gives {body : Parts Stmt} {inner : Nat}
    (each : ∀ d ∈ body, Forms .declaration d.1 d.2) (reads : ∀ d ∈ body, ReadsWhole .declaration d.1 d.2)
    (enough : body.tokens.length ≤ inner) (enough' : body.tokens.length ≤ bound)
    (closing : TokenOf (.mark .rightBrace)) :
    Gives (block (Grammar.declaration inner) bound) (body.tokens ++ [closing.val]) rest
      (·.map Stmt.plain = body.trees) := by
  have opens : ∀ d ∈ body, ∃ t us, d.1 = t :: us ∧ opensDeclaration t.kind = true := by
    intro d member
    obtain ⟨t, us, split, opens, -⟩ := (each d member).first
    exact ⟨t, us, split, opens⟩
  have listed : Gives (itemsToBrace (Grammar.declaration inner) bound) body.tokens
      (closing.val :: rest) (·.map Stmt.plain = body.trees) :=
    (itemsToBrace_gives body (fun d member after alone => (reads d member).declaration (each d member)
        (Nat.le_trans (Parts.length_part member) enough) alone)
      opens (Nat.le_trans (Parts.length_le opens) enough') closing rest).2
  exact Gives.bind listed fun ss trees => Gives.mark closing (Gives.pure trees)

/-- The methods of a class, the brace before them having been read. -/
theorem methods_give {methods : Parts FunctionDecl} {inner : Nat}
    (each : ∀ m ∈ methods, Forms .function m.1 (.funDecl m.2))
    (reads : ∀ m ∈ methods, ReadsWhole .function m.1 (.funDecl m.2))
    (enough : methods.tokens.length ≤ inner) (closing : TokenOf (.mark .rightBrace))
    (rest : List Token) :
    Gives (itemsToBrace (function .method (Grammar.declaration inner) (inner + 1)) (inner + 1))
      methods.tokens (closing.val :: rest) (·.map FunctionDecl.plain = methods.trees) := by
  have opens : ∀ m ∈ methods, ∃ t us, m.1 = t :: us ∧ opensDeclaration t.kind = true := by
    intro m member
    obtain ⟨t, us, split, opens, -⟩ := (each m member).first
    exact ⟨t, us, split, opens⟩
  have count := Parts.length_le opens
  refine (itemsToBrace_gives methods (fun m member after _ => ?_) opens (by omega) closing rest).2
  have part := Parts.length_part member
  have read : ReadsWhole .function m.1 (.funDecl m.2) := reads m member
  exact (read .method inner (inner + 1) after (by omega) (by omega)).imp
    fun f same => Stmt.funDecl.inj same

/-- Names in parentheses, parted by commas. -/
theorem parameters_give {parameters joined : List Token} (names : ∀ p ∈ parameters, p.kind = .identifier)
    (separated : Separated (parameters.map fun p => [p]) joined) (few : parameters.length ≤ 255)
    (enough : parameters.length ≤ bound + 1) (closing : TokenOf (.mark .rightParen))
    (next : List Token) : Gives (items .parameters (expectName .parameterName) bound) joined
      (closing.val :: next) (· = parameters) := by
  let parts : Parts Token := parameters.map fun p => ([p], p)
  have length : List.length parts = parameters.length := List.length_map _
  have trees : parts.trees = parameters := by simp [parts, Parts.trees, Function.comp_def]
  have tokens : parts.map Prod.fst = parameters.map fun p => [p] := List.map_map
  have listed : Gives (items .parameters (expectName .parameterName) bound) joined
      (closing.val :: next) (·.map id = parts.trees) := by
    refine items_gives parts (fun q member after _ => ?_) (fun q member => ?_) (tokens ▸ separated)
      (length ▸ enough) (length ▸ few) closing next rfl
    · obtain ⟨p, among, rfl⟩ := List.mem_map.1 member
      exact Gives.alone ⟨p, names p among⟩ rfl
    · obtain ⟨p, among, rfl⟩ := List.mem_map.1 member
      exact ⟨p, [], rfl, by rw [names p among]; rfl⟩
  exact listed.imp fun ps same => by rw [← trees, ← same, List.map_id]

theorem superclass_gives {e : Option Expr} (inherits : Superclass ts e)
    (opening : TokenOf (.mark .leftBrace)) :
    Gives superclass ts (opening.val :: rest) (·.map Expr.plain = e) := by
  cases inherits with
  | absent => exact Gives.leave (not_next opening rest rfl) (Gives.pure rfl)
  | named less name =>
    exact Gives.take less rfl (Gives.name name (Gives.makeThen fun id => Gives.pure rfl))

/-- The clauses of a loop and its body. Without a condition one is made. -/
theorem forStatement_gives {is cs ns bs : List Token} {initializer : Option Stmt}
    {condition increment : Option Expr} {body : Stmt} {statement : Reader Stmt}
    (opening : TokenOf (.mark .leftParen)) (begins : Initializer is initializer)
    (asked : Possibly cs condition) (semicolon : TokenOf (.mark .semicolon))
    (goesOn : Possibly ns increment) (closing : TokenOf (.mark .rightParen))
    (enough : (is ++ (cs ++ ns)).length ≤ bound)
    (repeated : Gives statement bs rest (·.plain = body)) :
    Gives (forStatement statement bound)
      (opening.val :: (is ++ (cs ++ semicolon.val :: (ns ++ closing.val :: bs)))) rest
      (·.plain = .forLoop initializer (condition.getD (.literal 0 (.bool true))) increment body) := by
  simp only [List.length_append] at enough
  refine Gives.mark opening ?_
  refine Gives.bind (forInitializer_gives begins (by omega)) fun i sameI => ?_
  refine expressionUnless_gives asked (by omega) semicolon rfl (by decide) fun c sameC => ?_
  refine Gives.mark semicolon ?_
  refine expressionUnless_gives goesOn (by omega) closing rfl (by decide) fun n sameN => ?_
  refine Gives.mark closing ?_
  rw [← List.append_nil bs]
  refine Gives.bind repeated fun b sameB => ?_
  rw [← sameI, ← sameC, ← sameN, ← sameB]
  cases c with
  | none =>
    simp only [forCondition]
    refine Gives.makeThen fun id => ?_
    exact Gives.pure (Stmt.plain_forLoop i _ n b)
  | some c => exact Gives.pure (Stmt.plain_forLoop i c n b)

end Phrases

/-- What is formed is read. -/
theorem Forms.reads {phrase : Phrase} {ts : List Token} {s : Stmt} (formed : Forms phrase ts s) :
    ReadsWhole phrase ts s := by
  induction formed with
  | @classDecl keyword name ps parent inherits opening methods each closing reads =>
    intro inner rest enough _
    simp only [List.length_cons, List.length_append] at enough
    have listed := methods_give each reads (by omega : methods.tokens.length ≤ inner) closing rest
    refine Gives.look ?_
    simp only [keyword.property]
    refine Gives.skip (Gives.name name ?_)
    refine Gives.bind (superclass_gives inherits opening) fun parent' same => Gives.mark opening ?_
    refine Gives.bind listed fun fs trees => Gives.mark closing (Gives.pure ?_)
    rw [← same, ← trees, ← FunctionDecl.plain_list]
    rfl
  | funDecl keyword _ reads =>
    intro inner rest enough _
    rw [List.length_cons] at enough
    refine Gives.look ?_
    simp only [keyword.property]
    exact Gives.skip ((reads .function inner (inner + 1) rest (by omega) (by omega)).last fun f same => same)
  | varDecl declares =>
    intro inner rest enough _
    obtain ⟨var, us, rfl, gives⟩ := varDeclaration_gives rest declares enough
    refine Gives.look ?_
    simp only [var.property]
    exact Gives.skip gives
  | statement only reads =>
    intro inner rest enough alone
    obtain ⟨t, us, rfl, -, opens⟩ := only.first
    exact declarationOf_statement (opens nofun) (reads inner rest enough fun _ => alone)
  | @function name opening parameters names joined separated few closing start body each last reads =>
    intro role inner bound rest enough enough'
    simp only [List.length_cons, List.length_append] at enough enough'
    have count := separated.length_le
    rw [List.length_map] at count
    have listed := parameters_give names separated few (Nat.le_trans count (by omega : _ ≤ bound + 1))
      closing (start.val :: (body.tokens ++ [last.val]) ++ rest)
    refine Gives.name name (Gives.mark opening ?_)
    refine Gives.bind listed fun ps same => Gives.mark closing (Gives.mark start ?_)
    refine (block_gives each reads (by omega) (by omega) last).last fun ss trees => ?_
    rw [same, ← trees, ← Stmt.plain_list]
    rfl
  | expression evaluates =>
    intro inner rest enough _
    have gives := expressionStatement_gives rest evaluates enough
    obtain ⟨value, semicolon⟩ := evaluates
    obtain ⟨t, us, rfl, opens, -⟩ := value.first
    exact statementOf_expression opens gives
  | @print keyword ts e value semicolon =>
    intro inner rest enough _
    simp only [List.length_cons, List.length_append] at enough
    refine Gives.look ?_
    simp only [keyword.property]
    refine Gives.skip (Gives.bind (expression_gives value (by omega) semicolon (by decide)) ?_)
    exact fun e same => Gives.mark semicolon (Gives.pure (by rw [← same]; rfl))
  | @returnStmt keyword ts e value semicolon =>
    intro inner rest enough _
    simp only [List.length_cons, List.length_append] at enough
    refine Gives.look ?_
    simp only [keyword.property]
    refine Gives.skip (expressionUnless_gives value (by omega) semicolon rfl (by decide) ?_)
    exact fun e same => Gives.mark semicolon (Gives.pure (by rw [← same]; rfl))
  | @block opening body each closing reads =>
    intro inner rest enough _
    simp only [List.length_cons, List.length_append] at enough
    refine Gives.look ?_
    simp only [opening.property]
    refine Gives.skip ((block_gives each reads (by omega) (by omega) closing).last fun ss trees => ?_)
    rw [← trees, ← Stmt.plain_list]
    rfl
  | @ifThen keyword opening cs condition asked closing isOpen ys yes branch reads =>
    intro inner rest enough alone
    simp only [List.length_cons, List.length_append] at enough
    refine Gives.look ?_
    simp only [keyword.property]
    refine Gives.skip (Gives.mark opening ?_)
    refine Gives.bind (expression_gives asked (by omega) closing (by decide)) fun c sameC => ?_
    refine Gives.mark closing ?_
    rw [← List.append_nil ys]
    refine Gives.bind (reads.statement branch (by omega) fun _ => alone rfl) fun y sameY => ?_
    exact Gives.leave (alone rfl) (Gives.pure (by rw [← sameC, ← sameY]; rfl))
  | @ifElse keyword opening cs condition asked closing ys yes branch otherwise isOpen ns no other reads
      readsOther =>
    intro inner rest enough alone
    simp only [List.length_cons, List.length_append] at enough
    refine Gives.look ?_
    simp only [keyword.property]
    refine Gives.skip (Gives.mark opening ?_)
    refine Gives.bind (expression_gives asked (by omega) closing (by decide)) fun c sameC => ?_
    refine Gives.mark closing ?_
    refine Gives.bind (reads.statement branch (by omega) nofun) fun y sameY => ?_
    refine Gives.take otherwise rfl ?_
    refine (readsOther.statement other (by omega) alone).last fun n sameN => ?_
    rw [← sameC, ← sameY, ← sameN]
    rfl
  | @whileLoop keyword opening cs condition asked closing isOpen bs body repeated reads =>
    intro inner rest enough alone
    simp only [List.length_cons, List.length_append] at enough
    refine Gives.look ?_
    simp only [keyword.property]
    refine Gives.skip (Gives.mark opening ?_)
    refine Gives.bind (expression_gives asked (by omega) closing (by decide)) fun c sameC => ?_
    refine Gives.mark closing ?_
    refine (reads.statement repeated (by omega) alone).last fun b sameB => ?_
    rw [← sameC, ← sameB]
    rfl
  | @forLoop keyword opening is initializer begins cs condition asked semicolon ns increment goesOn
      closing isOpen bs body repeated reads =>
    intro inner rest enough alone
    simp only [List.length_cons, List.length_append] at enough
    refine Gives.look ?_
    simp only [keyword.property]
    refine Gives.skip (forStatement_gives opening begins asked semicolon goesOn closing ?_ ?_)
    · simp only [List.length_append]
      omega
    · exact reads.statement repeated (by omega) alone

/-! ### Programs -/

theorem Cursor.ended {rest : List Token} (ends : ∀ t ∈ rest.head?, t.kind.isEnd = true) (id : ExprId) :
    (Cursor.next ⟨rest, id⟩).kind.isEnd = true := by
  cases rest with
  | nil => rfl
  | cons t rest => exact ends t rfl

theorem declarations_give {parts : Parts Stmt} (each : ∀ d ∈ parts, Forms .declaration d.1 d.2)
    {bound : Nat} (enough : parts.tokens.length ≤ bound) {rest : List Token}
    (ends : ∀ t ∈ rest.head?, t.kind.isEnd = true) : NoElse (parts.tokens ++ rest) ∧
      Gives (declarations bound) parts.tokens rest (·.map Stmt.plain = parts.trees) := by
  induction parts generalizing bound with
  | nil =>
    constructor
    · rintro ⟨t, first, inside, -⟩
      rw [ends t first] at inside
      cases inside
    · cases bound with
      | zero => exact Gives.pure rfl
      | succ bound =>
        intro id
        refine ⟨[], id, ?_, rfl⟩
        show (if (Cursor.next ⟨rest, id⟩).kind.isEnd then _ else _ : Reader _) _ = _
        rw [if_pos (Cursor.ended ends id)]
        rfl
  | cons p parts ih =>
    obtain ⟨formed, each⟩ := List.forall_mem_cons.1 each
    obtain ⟨t, us, split, opens, -⟩ := formed.first
    have tokens : Parts.tokens (p :: parts) = t :: (us ++ Parts.tokens parts) := by
      rw [Parts.tokens_cons, split, List.cons_append]
    rw [tokens] at enough ⊢
    refine ⟨noElse_opening opens, ?_⟩
    cases bound with
    | zero => exact absurd enough (Nat.not_succ_le_zero _)
    | succ bound =>
      rw [List.length_cons, List.length_append] at enough
      obtain ⟨alone, gives⟩ := ih each
        (Nat.le_trans (Nat.le_add_left _ us.length) (Nat.le_of_succ_le_succ enough))
      have first : Gives (declaration (bound + 1)) (t :: us) (Parts.tokens parts ++ rest)
          (·.plain = p.2) := by
        rw [← split]
        exact formed.reads.declaration formed (by rw [split, List.length_cons]; omega) alone
      have inside : t.kind.isEnd = false :=
        (Bool.or_eq_false_iff.1 (opensDeclaration_inside opens)).1
      refine Gives.look ?_
      simp only [inside]
      refine first.bind fun s same => ?_
      exact gives.last fun ss sames => by rw [List.map_cons, same, sames]; rfl

/-- The rest of the tokens, from the first end token on. -/
theorem dropWhile_ends (tokens : List Token) :
    ∀ t ∈ (tokens.dropWhile fun t => !t.kind.isEnd).head?, t.kind.isEnd = true := by
  intro t first
  have stopped := List.head?_dropWhile_not (fun t : Token => !t.kind.isEnd) tokens
  rw [Option.mem_def.1 first] at stopped
  simpa using stopped

variable {tokens : List Token}

theorem readProgram_complete {tree : List Stmt} (firstId : ExprId)
    (program : Program (tokens.takeWhile fun t => !t.kind.isEnd) tree) :
    ∃ stmts, (readProgram tokens firstId).value = .ok stmts ∧ stmts.map Stmt.plain = tree := by
  obtain ⟨parts, each, split, rfl⟩ := program
  have enough : parts.tokens.length ≤ tokens.length := split ▸ (List.takeWhile_sublist _).length_le
  obtain ⟨stmts, id, reading, same⟩ :=
    (declarations_give each enough (dropWhile_ends tokens)).2 firstId
  rw [split, List.takeWhile_append_dropWhile] at reading
  refine ⟨stmts, ?_, same⟩
  rw [readProgram, reading]
  rfl

theorem readExpression_complete {tree : Expr} (firstId : ExprId)
    (derived : Derives .expression (tokens.takeWhile fun t => !t.kind.isEnd) tree) :
    ∃ e, (readExpression tokens firstId).value = .ok e ∧ e.plain = tree := by
  have enough := (List.takeWhile_sublist (l := tokens) fun t => !t.kind.isEnd).length_le
  have ends := dropWhile_ends tokens
  have stops : Stops .expression (tokens.dropWhile fun t => !t.kind.isEnd) := by
    intro t first
    have ended := ends t first
    cases kind : t.kind with
    | endOfText => decide
    | _ =>
      rw [kind] at ended
      cases ended
  obtain ⟨e, id, reading, same⟩ :=
    derived.complete.gives tokens.length tokens.length _ enough enough stops firstId
  rw [List.takeWhile_append_dropWhile] at reading
  refine ⟨e, ?_, same⟩
  have whole : wholeExpression tokens.length ⟨tokens, firstId⟩ =
      .ok e ⟨tokens.dropWhile fun t => !t.kind.isEnd, id⟩ := by
    rw [wholeExpression, bind_of_ok (show expression tokens.length ⟨tokens, firstId⟩ = _ from reading)]
    show (if (Cursor.next ⟨_, id⟩).kind.isEnd then _ else _ : Reader _) _ = _
    rw [if_pos (Cursor.ended ends id)]
    rfl
  rw [readExpression, whole]
  rfl

/-- A program is read if and only if its tokens, up to the first end token, stand for one, and what
is read is the tree that they stand for, up to ids. The same holds for a single expression. -/
theorem reads_exactly_derived (tokens : List Token) (firstId : ExprId) :
    (∀ tree, Program (tokens.takeWhile fun t => !t.kind.isEnd) tree ↔
      ∃ stmts, (readProgram tokens firstId).value = .ok stmts ∧
        Stmt.renumberList (fun _ => 0) stmts = tree) ∧
    ∀ tree, Derives .expression (tokens.takeWhile fun t => !t.kind.isEnd) tree ↔
      ∃ e, (readExpression tokens firstId).value = .ok e ∧ e.renumber (fun _ => 0) = tree := by
  refine ⟨fun tree => ⟨fun program => ?_, ?_⟩, fun tree => ⟨readExpression_complete firstId, ?_⟩⟩
  · simp only [Stmt.plain_list]
    exact readProgram_complete firstId program
  · rintro ⟨stmts, read, rfl⟩
    rw [Stmt.plain_list]
    exact readProgram_sound read
  · rintro ⟨e, read, rfl⟩
    exact readExpression_sound read

end Grammar

end Lox
