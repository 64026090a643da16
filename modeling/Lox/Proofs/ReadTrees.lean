import Lox.Grammar.Program
import Lox.Proofs.Stateful
import Lox.Proofs.TreeShapes
import Mathlib.Data.List.Nodup

/-!
What reading gives: every tree is formed from the tokens read, and its ids are fresh, none of them
given twice. Readers take tokens off the front and count ids upward, in error too.
-/

namespace Lox

/-- Ids given out in this order between two values of the counter. -/
structure Ascending (lo hi : ExprId) (ids : List ExprId) : Prop where
  le : lo ≤ hi
  sorted : ids.Pairwise (· < ·)
  bounds : ∀ id ∈ ids, lo ≤ id ∧ id < hi

/-- Ids given out between two values of the counter, in any order. -/
structure Handed (lo hi : ExprId) (ids : List ExprId) : Prop where
  le : lo ≤ hi
  distinct : ids.Nodup
  bounds : ∀ id ∈ ids, lo ≤ id ∧ id < hi

section Ids

variable {lo mid hi : ExprId} {ids more : List ExprId}

theorem Ascending.nil (lo : ExprId) : Ascending lo lo [] :=
  ⟨Nat.le_refl lo, List.Pairwise.nil, fun _ member => nomatch member⟩

theorem Ascending.append (first : Ascending lo mid ids) (second : Ascending mid hi more) :
    Ascending lo hi (ids ++ more) := by
  refine ⟨Nat.le_trans first.le second.le, ?_, ?_⟩
  · refine List.pairwise_append.2 ⟨first.sorted, second.sorted, fun a inFirst b inSecond => ?_⟩
    exact Nat.lt_of_lt_of_le (first.bounds a inFirst).2 (second.bounds b inSecond).1
  · intro id member
    rcases List.mem_append.1 member with member | member
    · have between := first.bounds id member
      exact ⟨between.1, Nat.lt_of_lt_of_le between.2 second.le⟩
    · have between := second.bounds id member
      exact ⟨Nat.le_trans first.le between.1, between.2⟩

/-- A tree gets its id after all that is inside it. -/
theorem Ascending.last (inside : Ascending lo mid ids) : Ascending lo (mid + 1) (ids ++ [mid]) := by
  refine inside.append ⟨Nat.le_succ mid, List.pairwise_singleton _ _, fun id member => ?_⟩
  rw [List.mem_singleton.1 member]
  exact ⟨Nat.le_refl mid, Nat.lt_succ_self mid⟩

theorem Ascending.handed (ascending : Ascending lo hi ids) : Handed lo hi ids :=
  ⟨ascending.le, ascending.sorted.imp Nat.ne_of_lt, ascending.bounds⟩

theorem Handed.nil (lo : ExprId) : Handed lo lo [] := (Ascending.nil lo).handed

theorem Handed.append (first : Handed lo mid ids) (second : Handed mid hi more) :
    Handed lo hi (ids ++ more) := by
  refine ⟨Nat.le_trans first.le second.le, ?_, ?_⟩
  · refine List.Nodup.append first.distinct second.distinct fun id inFirst inSecond => ?_
    have below := (first.bounds id inFirst).2
    have above := (second.bounds id inSecond).1
    exact Nat.lt_irrefl id (Nat.lt_of_lt_of_le below above)
  · intro id member
    rcases List.mem_append.1 member with member | member
    · have between := first.bounds id member
      exact ⟨between.1, Nat.lt_of_lt_of_le between.2 second.le⟩
    · have between := second.bounds id member
      exact ⟨Nat.le_trans first.le between.1, between.2⟩

theorem Handed.perm (handed : Handed lo hi ids) (same : ids.Perm more) : Handed lo hi more :=
  ⟨handed.le, same.nodup handed.distinct, fun id member => handed.bounds id (same.symm.subset member)⟩

end Ids

/-- The items of a list, each read after the one before. -/
def Listed {α : Type} (G : α → ExprId → ExprId → Prop) : List α → ExprId → ExprId → Prop
  | [], lo, hi => lo = hi
  | x :: xs, lo, hi => ∃ mid, G x lo mid ∧ Listed G xs mid hi

/-- From tokens that all fulfil `P` the reader gives something that fulfils `G` with the next id
before and after. -/
def Reads {α : Type} (P : Token → Prop) (r : Reader α) (G : α → ExprId → ExprId → Prop) : Prop :=
  ∀ c : Cursor, (∀ t ∈ c.rest, P t) →
    match r c with
    | .ok a d => d.rest <:+ c.rest ∧ c.nextId ≤ d.nextId ∧ G a c.nextId d.nextId
    | .error _ d => d.rest <:+ c.rest ∧ c.nextId ≤ d.nextId

namespace Reads

open Reader

variable {P : Token → Prop} {α β : Type} {r : Reader α} {f : α → Reader β}
  {G G' : α → ExprId → ExprId → Prop} {K : β → ExprId → ExprId → Prop}

theorem imp (reads : Reads P r G) (weaker : ∀ a lo hi, G a lo hi → G' a lo hi) : Reads P r G' := by
  intro c good
  have result := reads c good
  cases reading : r c with
  | ok a d =>
    rw [reading] at result
    exact ⟨result.1, result.2.1, weaker a _ _ result.2.2⟩
  | error e d =>
    rw [reading] at result
    exact result

theorem andThen (first : Reads P r G)
    (second : ∀ a lo mid, lo ≤ mid → G a lo mid →
      Reads P (f a) fun b start hi => start = mid → K b lo hi) :
    Reads P (r >>= f) K := by
  intro c good
  have begun := first c good
  cases reading : r c with
  | error e d =>
    rw [reading] at begun
    rw [bind_of_error reading]
    exact begun
  | ok a d =>
    rw [reading] at begun
    obtain ⟨shorter, grown, given⟩ := begun
    have rest := second a _ _ grown given d fun t member => good t (shorter.subset member)
    rw [bind_of_ok reading]
    cases reading' : f a d with
    | ok b e =>
      rw [reading'] at rest
      exact ⟨rest.1.trans shorter, Nat.le_trans grown rest.2.1, rest.2.2 rfl⟩
    | error x e =>
      rw [reading'] at rest
      exact ⟨rest.1.trans shorter, Nat.le_trans grown rest.2⟩

theorem bind (first : Reads P r G)
    (second : ∀ a, Reads P (f a) fun b mid hi => ∀ lo, lo ≤ mid → G a lo mid → K b lo hi) :
    Reads P (r >>= f) K :=
  first.andThen fun a lo _ le given => (second a).imp fun _ _ _ result same =>
    result lo (same ▸ le) (same ▸ given)

/-- A first step that hands out no id. -/
theorem step {A : α → Prop} (first : Reads P r fun a lo hi => lo = hi ∧ A a)
    (second : ∀ a, A a → Reads P (f a) K) : Reads P (r >>= f) K :=
  first.andThen fun a _ _ _ given => (second a given.2).imp fun _ _ _ result same =>
    (same.trans given.1.symm) ▸ result

theorem pure {a : α} (given : ∀ n, G a n n) : Reads P (Pure.pure a) G :=
  fun c _ => ⟨List.suffix_refl _, Nat.le_refl _, given c.nextId⟩

theorem refuse {cause : SyntaxCause} : Reads P (refuse cause) G :=
  fun _ _ => ⟨List.suffix_refl _, Nat.le_refl _⟩

theorem throw {e : SyntaxError} : Reads P (throw e : Reader α) G :=
  fun _ _ => ⟨List.suffix_refl _, Nat.le_refl _⟩

/-- The next token fulfils `P` unless it is the end of the text. -/
theorem peek : Reads P peek fun t lo hi => lo = hi ∧ (t.kind.isEnd = false → P t) := by
  intro c good
  refine ⟨List.suffix_refl _, Nat.le_refl _, rfl, fun inside => ?_⟩
  cases rest : c.rest with
  | nil => simp [Cursor.next, rest, Token.endOfInput, TokenKind.isEnd] at inside
  | cons t ts =>
    have first : c.next = t := by simp [Cursor.next, rest]
    rw [first]
    exact good t (by simp [rest])

theorem skip : Reads P skip fun _ lo hi => lo = hi ∧ True :=
  fun c _ => ⟨List.tail_suffix c.rest, Nat.le_refl _, rfl, trivial⟩

theorem check (fits : TokenKind → Bool) : Reads P (check fits) fun _ lo hi => lo = hi ∧ True :=
  fun _ _ => ⟨List.suffix_refl _, Nat.le_refl _, rfl, trivial⟩

theorem accept? (fits : TokenKind → Bool) :
    Reads P (accept? fits) fun t? lo hi => lo = hi ∧ ∀ t, t? = some t → P t ∧ fits t.kind = true := by
  rintro ⟨rest, next⟩ good
  cases rest with
  | nil => exact ⟨List.suffix_refl _, Nat.le_refl _, rfl, fun t eq => nomatch eq⟩
  | cons t rest =>
    by_cases fitting : (!t.kind.isEnd && fits t.kind) = true
    · unfold Reader.accept?
      dsimp only
      rw [if_pos fitting]
      refine ⟨List.suffix_cons t rest, Nat.le_refl _, rfl, fun t' same => ?_⟩
      cases same
      exact ⟨good t List.mem_cons_self, (Bool.and_eq_true _ _ ▸ fitting).2⟩
    · unfold Reader.accept?
      dsimp only
      rw [if_neg fitting]
      exact ⟨List.suffix_refl _, Nat.le_refl _, rfl, fun t' eq => nomatch eq⟩

theorem expect (fits : TokenKind → Bool) (what : Expectation) :
    Reads P (expect fits what) fun t lo hi => lo = hi ∧ P t ∧ fits t.kind = true := by
  refine (accept? fits).step fun t? given => ?_
  cases t? with
  | none => exact refuse
  | some t => exact pure fun n => ⟨rfl, given t rfl⟩

theorem expectMark (m : Mark) (what : Expectation) :
    Reads P (expectMark m what) fun _ lo hi => lo = hi ∧ True :=
  (expect _ what).imp fun _ _ _ given => ⟨given.1, trivial⟩

theorem expectName (what : Expectation) :
    Reads P (expectName what) fun t lo hi => lo = hi ∧ t.IsName P :=
  expect _ what

theorem make (build : ExprId → Expr) :
    Reads P (make build) fun tree lo hi => tree = build lo ∧ hi = lo + 1 :=
  fun _ _ => ⟨List.suffix_refl _, Nat.le_succ _, rfl, rfl⟩

theorem moreItems {role : ListRole} (item : Reads P r G) (bound count : Nat) :
    Reads P (moreItems role r bound count) (Listed G) := by
  induction bound generalizing count with
  | zero => exact pure fun n => rfl
  | succ bound ih =>
    refine (accept? _).step fun comma _ => ?_
    cases comma with
    | none => exact pure fun n => rfl
    | some comma =>
      simp only
      split
      · exact refuse
      · refine item.bind fun x => (ih (count + 1)).bind fun xs => pure ?_
        intro n mid _ tail lo _ first
        exact ⟨mid, first, tail⟩

theorem items {role : ListRole} (item : Reads P r G) (bound : Nat) :
    Reads P (items role r bound) (Listed G) := by
  refine (check _).step fun closing _ => ?_
  cases closing with
  | true => exact pure fun n => rfl
  | false =>
    refine item.bind fun x => (moreItems item bound 1).bind fun xs => pure ?_
    intro n mid _ tail lo _ first
    exact ⟨mid, first, tail⟩

theorem itemsToBrace (item : Reads P r G) (bound : Nat) :
    Reads P (itemsToBrace r bound) (Listed G) := by
  induction bound with
  | zero => exact pure fun n => rfl
  | succ bound ih =>
    refine peek.step fun t _ => ?_
    split
    · exact pure fun n => rfl
    · refine item.bind fun x => ih.bind fun xs => pure ?_
      intro n mid _ tail lo _ first
      exact ⟨mid, first, tail⟩

end Reads

/-- The expression is formed, and its ids were given out while it was read. -/
def Expr.Read (P : Token → Prop) (e : Expr) (lo hi : ExprId) : Prop :=
  e.Formed P ∧ Ascending lo hi e.ids

theorem Expr.listed_read {P : Token → Prop} {es : List Expr} {lo hi : ExprId}
    (listed : Listed (Expr.Read P) es lo hi) :
    Expr.FormedList P es ∧ Ascending lo hi (Expr.idsList es) := by
  induction es generalizing lo with
  | nil =>
    subst listed
    exact ⟨trivial, Ascending.nil lo⟩
  | cons e es ih =>
    obtain ⟨mid, ⟨formed, ids⟩, rest⟩ := listed
    obtain ⟨formedRest, idsRest⟩ := ih rest
    exact ⟨⟨formed, formedRest⟩, ids.append idsRest⟩

namespace Grammar

open Reader

variable {P : Token → Prop}

/-- The tree of a level holds its two operands, and its operator is one of the level. -/
structure Level.Sound (level : Level) : Prop where
  formed : ∀ (P : Token → Prop) id left operator right, left.Formed P → P operator →
    level.isOperator operator.kind = true → right.Formed P →
      (level.combine id left operator right).Formed P
  ids : ∀ id left operator right,
    (level.combine id left operator right).ids = left.ids ++ right.ids ++ [id]

theorem Level.sound_marks {ms : List Mark}
    (known : ∀ k : TokenKind, (ms.any fun m => k.isMark m) = true → k.isBinary = true) :
    (Level.marks ms).Sound :=
  ⟨fun _ _ _ operator _ formed good fits formed' => ⟨formed, good, known operator.kind fits, formed'⟩,
    fun _ _ _ _ => rfl⟩

theorem commaLevel_sound : commaLevel.Sound :=
  ⟨fun _ _ _ _ _ formed _ _ formed' => ⟨formed, formed'⟩, fun _ _ _ _ => rfl⟩

theorem levels_sound : ∀ level ∈ levels, level.Sound := by
  have binary (ms : List Mark) (among : ∀ m ∈ ms, (TokenKind.mark m).isBinary = true) :
      (Level.marks ms).Sound := by
    refine Level.sound_marks fun k fits => ?_
    obtain ⟨m, member, same⟩ := List.any_eq_true.1 fits
    cases k with
    | mark m' =>
      obtain rfl : m' = m := by simpa [TokenKind.isMark] using same
      exact among m' member
    | _ => exact absurd same (by simp [TokenKind.isMark])
  intro level member
  simp only [levels, List.mem_cons, List.not_mem_nil, or_false] at member
  rcases member with rfl | rfl | rfl | rfl | rfl | rfl
  · refine ⟨fun _ _ _ operator _ formed good fits formed' => ?_, fun _ _ _ _ => rfl⟩
    exact ⟨formed, good, by simp_all [TokenKind.isLogical], formed'⟩
  · refine ⟨fun _ _ _ operator _ formed good fits formed' => ?_, fun _ _ _ _ => rfl⟩
    exact ⟨formed, good, by simp_all [TokenKind.isLogical], formed'⟩
  all_goals exact binary _ (by decide)

theorem chainFrom_reads {level : Level} (sound : level.Sound) {operand : Reader Expr}
    (reads : Reads P operand (Expr.Read P)) (bound : Nat) (left : Expr) :
    Reads P (chainFrom level operand bound left) fun e mid hi =>
      ∀ lo, lo ≤ mid → left.Read P lo mid → e.Read P lo hi := by
  induction bound generalizing left with
  | zero => exact Reads.pure fun _ _ _ read => read
  | succ bound ih =>
    refine (Reads.accept? _).step fun operator token => ?_
    cases operator with
    | none => exact Reads.pure fun _ _ _ read => read
    | some operator =>
      obtain ⟨good, fits⟩ := token operator rfl
      refine reads.bind fun right => (Reads.make _).bind fun tree => (ih tree).imp ?_
      intro e n hi rest mid _ built lo _ readRight first first_le readLeft
      obtain ⟨rfl, rfl⟩ := built
      have read : (level.combine mid left operator right).Read P first (mid + 1) := by
        refine ⟨sound.formed P mid _ _ _ readLeft.1 good fits readRight.1, ?_⟩
        rw [sound.ids]
        exact (readLeft.2.append readRight.2).last
      exact rest first read.2.le read

theorem chain_reads {level : Level} (sound : level.Sound) {operand : Reader Expr}
    (reads : Reads P operand (Expr.Read P)) (bound : Nat) :
    Reads P (chain level operand bound) (Expr.Read P) :=
  reads.bind fun left => chainFrom_reads sound reads bound left

/-- An expression that holds no other. -/
theorem leaf_reads {build : ExprId → Expr} (formed : ∀ n, (build n).Formed P)
    (ids : ∀ n, (build n).ids = [n]) : Reads P (make build) (Expr.Read P) := by
  refine (Reads.make build).imp ?_
  rintro tree lo hi ⟨rfl, rfl⟩
  refine ⟨formed lo, ?_⟩
  rw [ids]
  exact (Ascending.nil lo).last

section Nested

variable {nested : Reader Expr} (reads : Reads P nested (Expr.Read P))
include reads

theorem expressionOf_reads (bound : Nat) : Reads P (expressionOf nested bound) (Expr.Read P) :=
  chain_reads commaLevel_sound reads bound

theorem primary_reads (bound : Nat) : Reads P (primary nested bound) (Expr.Read P) := by
  refine Reads.peek.step fun t token => ?_
  have good {k : TokenKind} (kind : t.kind = k) (inside : k.isEnd = false) : P t :=
    token (by rw [kind, inside])
  cases kind : t.kind with
  | number n => exact Reads.skip.step fun _ _ => leaf_reads (fun _ => trivial) fun _ => rfl
  | string s => exact Reads.skip.step fun _ _ => leaf_reads (fun _ => trivial) fun _ => rfl
  | endOfText => exact Reads.refuse
  | identifier =>
    refine Reads.skip.step fun _ _ => leaf_reads (fun _ => ?_) fun _ => rfl
    exact ⟨good kind rfl, by rw [kind]; rfl⟩
  | mark m =>
    cases m
    case leftParen =>
      refine Reads.skip.step fun _ _ => (expressionOf_reads reads bound).bind fun inner => ?_
      refine (Reads.expectMark _ _).step fun _ _ => (Reads.make _).imp ?_
      rintro tree mid hi ⟨rfl, rfl⟩ lo _ ⟨formed, ids⟩
      exact ⟨formed, ids.last⟩
    all_goals exact Reads.refuse
  | keyword k =>
    cases k
    case false => exact Reads.skip.step fun _ _ => leaf_reads (fun _ => trivial) fun _ => rfl
    case true => exact Reads.skip.step fun _ _ => leaf_reads (fun _ => trivial) fun _ => rfl
    case nil => exact Reads.skip.step fun _ _ => leaf_reads (fun _ => trivial) fun _ => rfl
    case this =>
      refine Reads.skip.step fun _ _ => leaf_reads (fun _ => ?_) fun _ => rfl
      exact ⟨good kind rfl, by rw [kind]; rfl⟩
    case super =>
      refine Reads.skip.step fun _ _ => (Reads.expectMark _ _).step fun _ _ => ?_
      refine (Reads.expectName _).step fun method name => leaf_reads (fun _ => ?_) fun _ => rfl
      exact ⟨good kind rfl, by rw [kind]; rfl, name⟩
    all_goals exact Reads.refuse

theorem suffixesFrom_reads (bound : Nat) (e : Expr) :
    Reads P (suffixesFrom nested bound e) fun tree mid hi =>
      ∀ lo, lo ≤ mid → e.Read P lo mid → tree.Read P lo hi := by
  induction bound generalizing e with
  | zero => exact Reads.pure fun _ _ _ read => read
  | succ bound ih =>
    refine (Reads.accept? _).step fun opening _ => ?_
    cases opening with
    | some opening =>
      refine (Reads.items reads bound).bind fun arguments => ?_
      refine (Reads.expect _ _).step fun paren token => (Reads.make _).bind fun tree => ?_
      refine (ih tree).imp ?_
      intro last n hi rest mid _ built lo _ listed first _ ⟨formed, ids⟩
      obtain ⟨rfl, rfl⟩ := built
      obtain ⟨formedArguments, idsArguments⟩ := Expr.listed_read listed
      have all := (ids.append idsArguments).last
      exact rest first all.le ⟨⟨formed, token.1, formedArguments⟩, all⟩
    | none =>
      refine (Reads.accept? _).step fun dot _ => ?_
      cases dot with
      | some dot =>
        refine (Reads.expectName _).step fun name token => (Reads.make _).bind fun tree => ?_
        refine (ih tree).imp ?_
        intro last n hi rest mid _ built first _ ⟨formed, ids⟩
        obtain ⟨rfl, rfl⟩ := built
        exact rest first ids.last.le ⟨⟨formed, token⟩, ids.last⟩
      | none => exact Reads.pure fun _ _ _ read => read

theorem call_reads (bound : Nat) : Reads P (call nested bound) (Expr.Read P) :=
  (primary_reads reads bound).bind fun e => suffixesFrom_reads reads bound e

theorem unaryFrom_reads (bound operators : Nat) :
    Reads P (unaryFrom nested bound operators) (Expr.Read P) := by
  induction operators with
  | zero => exact call_reads reads bound
  | succ operators ih =>
    refine (Reads.accept? _).step fun operator token => ?_
    cases operator with
    | none => exact call_reads reads bound
    | some operator =>
      obtain ⟨good, fits⟩ := token operator rfl
      refine ih.bind fun operand => (Reads.make _).imp ?_
      rintro tree mid hi ⟨rfl, rfl⟩ lo _ ⟨formed, ids⟩
      exact ⟨⟨good, fits, formed⟩, ids.last⟩

theorem binary_reads (bound : Nat) {levels : List Level} (sound : ∀ level ∈ levels, level.Sound) :
    Reads P (binary nested bound levels) (Expr.Read P) := by
  induction levels with
  | nil => exact unaryFrom_reads reads bound bound
  | cons level tighter ih =>
    refine chain_reads (sound level List.mem_cons_self) ?_ bound
    exact ih fun tight member => sound tight (List.mem_cons_of_mem _ member)

theorem ternary_reads (bound : Nat) : Reads P (ternary nested bound) (Expr.Read P) := by
  refine (binary_reads reads bound levels_sound).bind fun condition => ?_
  refine (Reads.accept? _).step fun question _ => ?_
  cases question with
  | none => exact Reads.pure fun _ _ _ read => read
  | some question =>
    refine reads.bind fun yes => (Reads.expectMark _ _).step fun _ _ => ?_
    refine reads.bind fun no => (Reads.make _).imp ?_
    rintro tree mid hi ⟨rfl, rfl⟩ lo _ readNo lo' _ readYes first _ readCondition
    exact ⟨⟨readCondition.1, readYes.1, readNo.1⟩,
      ((readCondition.2.append readYes.2).append readNo.2).last⟩

end Nested

/-- An assignment takes the place of its target, whose own id is given up. -/
theorem assignTo_reads (target : Expr) (equals : Token) (value : Expr) :
    Reads P (assignTo target equals value) fun tree mid hi =>
      ∀ lo, lo ≤ mid → value.Read P lo mid → ∀ first, first ≤ lo → target.Read P first lo →
        tree.Read P first hi := by
  match target with
  | .var _ name =>
    refine (Reads.make fun id => .assign id name value).imp ?_
    rintro tree mid hi ⟨rfl, rfl⟩ lo _ readValue first first_le ⟨formed, ids⟩
    refine ⟨⟨formed, readValue.1⟩, Ascending.last ⟨Nat.le_trans first_le readValue.2.le,
      readValue.2.sorted, fun id member => ?_⟩⟩
    have between := readValue.2.bounds id member
    exact ⟨Nat.le_trans first_le between.1, between.2⟩
  | .get id object name =>
    refine (Reads.make fun id => .set id object name value).imp ?_
    rintro tree mid hi ⟨rfl, rfl⟩ lo _ readValue first first_le ⟨formed, ids⟩
    have inside : Ascending first lo object.ids := by
      refine ⟨ids.le, (List.pairwise_append.1 ids.sorted).1, fun i member => ?_⟩
      exact ids.bounds i (List.mem_append_left _ member)
    exact ⟨⟨formed.1, formed.2, readValue.1⟩, (inside.append readValue.2).last⟩
  | .literal .. | .grouping .. | .unary .. | .binary .. | .logical .. | .assign .. | .call ..
  | .set .. | .this .. | .super .. | .comma .. | .ternary .. => exact Reads.throw

theorem assignment_reads (bound : Nat) : Reads P (assignment bound) (Expr.Read P) := by
  induction bound with
  | zero => exact Reads.refuse
  | succ bound ih =>
    refine (ternary_reads ih (bound + 1)).bind fun target => ?_
    refine (Reads.accept? _).step fun equals _ => ?_
    cases equals with
    | none => exact Reads.pure fun _ _ _ read => read
    | some equals => exact ih.bind fun value => assignTo_reads target equals value

theorem expression_reads (bound : Nat) : Reads P (expression bound) (Expr.Read P) :=
  expressionOf_reads (assignment_reads bound) bound

end Grammar

/-- The statement is formed, and its ids were given out while it was read, those of an expression
in order. -/
def Stmt.Read (P : Token → Prop) (s : Stmt) (lo hi : ExprId) : Prop :=
  s.Formed P ∧ Handed lo hi s.ids ∧ s.Ordered

def FunctionDecl.Read (P : Token → Prop) (f : FunctionDecl) (lo hi : ExprId) : Prop :=
  f.Formed P ∧ Handed lo hi f.ids ∧ f.Ordered

/-- A statement that may stand where no declaration may. -/
def Stmt.ReadBranch (P : Token → Prop) (s : Stmt) (lo hi : ExprId) : Prop :=
  s.Read P lo hi ∧ s.isBranch = true

section Lists

variable {P : Token → Prop} {lo hi : ExprId}

theorem Stmt.listed_read {ss : List Stmt} (listed : Listed (Stmt.Read P) ss lo hi) :
    Stmt.FormedList P ss ∧ Handed lo hi (Stmt.idsList ss) ∧ Stmt.OrderedList ss := by
  induction ss generalizing lo with
  | nil =>
    subst listed
    exact ⟨trivial, Handed.nil lo, trivial⟩
  | cons s ss ih =>
    obtain ⟨mid, ⟨formed, ids, ordered⟩, rest⟩ := listed
    obtain ⟨formedRest, idsRest, orderedRest⟩ := ih rest
    exact ⟨⟨formed, formedRest⟩, ids.append idsRest, ordered, orderedRest⟩

theorem FunctionDecl.listed_read {fs : List FunctionDecl}
    (listed : Listed (FunctionDecl.Read P) fs lo hi) :
    FunctionDecl.FormedList P fs ∧ Handed lo hi (FunctionDecl.idsList fs) ∧
      FunctionDecl.OrderedList fs := by
  induction fs generalizing lo with
  | nil =>
    subst listed
    exact ⟨trivial, Handed.nil lo, trivial⟩
  | cons f fs ih =>
    obtain ⟨mid, ⟨formed, ids, ordered⟩, rest⟩ := listed
    obtain ⟨formedRest, idsRest, orderedRest⟩ := ih rest
    exact ⟨⟨formed, formedRest⟩, ids.append idsRest, ordered, orderedRest⟩

theorem Token.listed_names {ts : List Token}
    (listed : Listed (fun t lo hi => lo = hi ∧ t.IsName P) ts lo hi) :
    lo = hi ∧ ∀ t ∈ ts, t.IsName P := by
  induction ts generalizing lo with
  | nil => exact ⟨listed, fun _ member => nomatch member⟩
  | cons t ts ih =>
    obtain ⟨mid, ⟨rfl, name⟩, rest⟩ := listed
    obtain ⟨same, names⟩ := ih rest
    exact ⟨same, List.forall_mem_cons.2 ⟨name, names⟩⟩

end Lists

namespace Grammar

open Reader

variable {P : Token → Prop}

/-- An expression that may be missing. -/
def OptionRead (P : Token → Prop) (e? : Option Expr) (lo hi : ExprId) : Prop :=
  lo ≤ hi ∧ match e? with
    | none => lo = hi
    | some e => e.Read P lo hi

theorem expressionUnless_reads (last : Mark) (bound : Nat) :
    Reads P (expressionUnless last bound) (OptionRead P) := by
  refine (Reads.check _).step fun closing _ => ?_
  cases closing with
  | true => exact Reads.pure fun n => ⟨Nat.le_refl n, rfl⟩
  | false =>
    refine (expression_reads bound).bind fun e => Reads.pure fun n lo le read => ⟨le, read⟩

theorem varDeclaration_reads (bound : Nat) : Reads P (varDeclaration bound) (Stmt.Read P) := by
  refine (Reads.expectName _).step fun name token => (Reads.accept? _).step fun equal _ => ?_
  cases equal with
  | none =>
    refine (Reads.expectMark _ _).step fun _ _ => Reads.pure fun n => ?_
    exact ⟨token, Handed.nil n, trivial⟩
  | some equal =>
    refine (expression_reads bound).bind fun e => (Reads.expectMark _ _).step fun _ _ => ?_
    exact Reads.pure fun n lo _ read => ⟨⟨token, read.1⟩, read.2.handed, read.2.sorted⟩

theorem expressionStatement_reads (bound : Nat) :
    Reads P (expressionStatement bound) (Stmt.ReadBranch P) := by
  refine (expression_reads bound).bind fun e => (Reads.expectMark _ _).step fun _ _ => ?_
  exact Reads.pure fun n lo _ read => ⟨⟨read.1, read.2.handed, read.2.sorted⟩, rfl⟩

theorem printStatement_reads (bound : Nat) :
    Reads P (printStatement bound) (Stmt.ReadBranch P) := by
  refine (expression_reads bound).bind fun e => (Reads.expectMark _ _).step fun _ _ => ?_
  exact Reads.pure fun n lo _ read => ⟨⟨read.1, read.2.handed, read.2.sorted⟩, rfl⟩

theorem returnStatement_reads {keyword : Token} (good : P keyword) (bound : Nat) :
    Reads P (returnStatement keyword bound) (Stmt.ReadBranch P) := by
  refine (expressionUnless_reads _ bound).bind fun e? => (Reads.expectMark _ _).step fun _ _ => ?_
  refine Reads.pure fun n lo _ read => ?_
  cases e? with
  | none => exact ⟨⟨good, read.2 ▸ Handed.nil lo, trivial⟩, rfl⟩
  | some e => exact ⟨⟨⟨good, read.2.1⟩, read.2.2.handed, read.2.2.sorted⟩, rfl⟩

/-- A superclass is a name, if there is one. -/
def SuperclassRead (P : Token → Prop) (e? : Option Expr) (lo hi : ExprId) : Prop :=
  match e? with
  | none => lo = hi
  | some (.var id name) => name.IsName P ∧ Handed lo hi [id]
  | some _ => False

theorem SuperclassRead.declared {parent : Option Expr} {name : Token} {lo mid hi : ExprId}
    {methods : List FunctionDecl} (read : SuperclassRead P parent lo mid) (token : name.IsName P)
    (listed : Listed (FunctionDecl.Read P) methods mid hi) :
    (Stmt.classDecl name parent methods).Read P lo hi := by
  obtain ⟨formed, ids, ordered⟩ := FunctionDecl.listed_read listed
  cases parent with
  | none =>
    obtain rfl : lo = mid := read
    exact ⟨⟨token, formed⟩, ids, ordered⟩
  | some e =>
    cases e with
    | var id parentName =>
      exact ⟨⟨token, read.1, formed⟩, read.2.append ids, List.pairwise_singleton _ _, ordered⟩
    | _ => exact read.elim

theorem superclass_reads : Reads P superclass (SuperclassRead P) := by
  refine (Reads.accept? _).step fun less _ => ?_
  cases less with
  | none => exact Reads.pure fun n => rfl
  | some less =>
    refine (Reads.expectName _).step fun name token => ?_
    refine (Reads.make _).bind fun tree => Reads.pure ?_
    rintro n lo _ ⟨rfl, rfl⟩
    exact ⟨token, (Ascending.nil lo).last.handed⟩

section Nested

variable {declaration statement : Reader Stmt} (reads : Reads P declaration (Stmt.Read P))
  (readsBranch : Reads P statement (Stmt.ReadBranch P))

section
include reads

theorem block_reads (bound : Nat) : Reads P (block declaration bound) fun ss lo hi =>
    Stmt.FormedList P ss ∧ Handed lo hi (Stmt.idsList ss) ∧ Stmt.OrderedList ss := by
  refine (Reads.itemsToBrace reads bound).bind fun body => ?_
  refine (Reads.expectMark _ _).step fun _ _ => ?_
  exact Reads.pure fun n lo _ listed => Stmt.listed_read listed

theorem function_reads (role : FunctionRole) (bound : Nat) :
    Reads P (function role declaration bound) (FunctionDecl.Read P) := by
  refine (Reads.expectName _).step fun name token => (Reads.expectMark _ _).step fun _ _ => ?_
  refine (Reads.items (Reads.expectName _) bound).bind fun parameters => ?_
  refine (Reads.expectMark _ _).step fun _ _ => (Reads.expectMark _ _).step fun _ _ => ?_
  refine (block_reads reads bound).bind fun body => Reads.pure ?_
  intro n mid _ readBody lo _ listed
  obtain ⟨rfl, names⟩ := Token.listed_names listed
  exact ⟨⟨token, names, readBody.1⟩, readBody.2⟩

theorem classDeclaration_reads (bound : Nat) :
    Reads P (classDeclaration declaration bound) (Stmt.Read P) := by
  refine (Reads.expectName _).step fun name token => superclass_reads.bind fun parent => ?_
  refine (Reads.expectMark _ _).step fun _ _ => ?_
  refine (Reads.itemsToBrace (function_reads reads .method bound) bound).bind fun methods => ?_
  refine (Reads.expectMark _ _).step fun _ _ => Reads.pure ?_
  exact fun n mid _ listed lo _ readParent => readParent.declared token listed

end

section
include readsBranch

theorem ifStatement_reads (bound : Nat) :
    Reads P (ifStatement statement bound) (Stmt.ReadBranch P) := by
  refine (Reads.expectMark _ _).step fun _ _ => (expression_reads bound).bind fun condition => ?_
  refine (Reads.expectMark _ _).step fun _ _ => readsBranch.bind fun yes => ?_
  refine (Reads.accept? _).step fun otherwise _ => ?_
  cases otherwise with
  | none =>
    refine Reads.pure fun n mid _ readYes lo _ readCondition => ?_
    exact ⟨⟨⟨readCondition.1, readYes.1.1, readYes.2⟩,
      readCondition.2.handed.append readYes.1.2.1, readCondition.2.sorted, readYes.1.2.2⟩, rfl⟩
  | some otherwise =>
    refine readsBranch.bind fun no => Reads.pure ?_
    intro n mid _ readNo lo' _ readYes lo _ readCondition
    exact ⟨⟨⟨readCondition.1, ⟨readYes.1.1, readYes.2⟩, readNo.1.1, readNo.2⟩,
      (readCondition.2.handed.append readYes.1.2.1).append readNo.1.2.1,
      readCondition.2.sorted, readYes.1.2.2, readNo.1.2.2⟩, rfl⟩

theorem whileStatement_reads (bound : Nat) :
    Reads P (whileStatement statement bound) (Stmt.ReadBranch P) := by
  refine (Reads.expectMark _ _).step fun _ _ => (expression_reads bound).bind fun condition => ?_
  refine (Reads.expectMark _ _).step fun _ _ => readsBranch.bind fun body => Reads.pure ?_
  intro n mid _ readBody lo _ readCondition
  exact ⟨⟨⟨readCondition.1, readBody.1.1, readBody.2⟩,
    readCondition.2.handed.append readBody.1.2.1, readCondition.2.sorted, readBody.1.2.2⟩, rfl⟩

end

/-- The initializer of a loop, where there is one. -/
def InitializerRead (P : Token → Prop) (s? : Option Stmt) (lo hi : ExprId) : Prop :=
  lo ≤ hi ∧ match s? with
    | none => lo = hi
    | some s => s.Read P lo hi

theorem forInitializer_reads (bound : Nat) :
    Reads P (forInitializer bound) (InitializerRead P) := by
  refine (Reads.accept? _).step fun semicolon _ => ?_
  cases semicolon with
  | some semicolon => exact Reads.pure fun n => ⟨Nat.le_refl n, rfl⟩
  | none =>
    refine (Reads.accept? _).step fun var _ => ?_
    cases var with
    | some var =>
      exact (varDeclaration_reads bound).bind fun s => Reads.pure fun n lo le read => ⟨le, read⟩
    | none =>
      refine (expressionStatement_reads bound).bind fun s => ?_
      exact Reads.pure fun n lo le read => ⟨le, read.1⟩

/-- The body of a loop with the increment that follows it. -/
theorem increment_read {e : Expr} {body : Stmt} {lo mid hi : ExprId} (read : e.Read P lo mid)
    (readBody : body.ReadBranch P mid hi) :
    (Stmt.block [body, .expression e]).ReadBranch P lo hi := by
  have swapped : (e.ids ++ body.ids).Perm (Stmt.ids (.block [body, .expression e])) := by
    simpa [Stmt.ids, Stmt.idsList] using List.perm_append_comm
  exact ⟨⟨⟨readBody.1.1, read.1, trivial⟩, (read.2.handed.append readBody.1.2.1).perm swapped,
    readBody.1.2.2, read.2.sorted, trivial⟩, rfl⟩

/-- A condition gets its ids before the body of its loop, or after it. -/
theorem loop_read {condition : Expr} {body : Stmt} {before after : List ExprId}
    {a b c hi : ExprId} (formed : condition.Formed P) (ordered : condition.Ordered)
    (ids : condition.ids = before ++ after) (idsBefore : Handed a b before)
    (readBody : body.ReadBranch P b c) (idsAfter : Handed c hi after) :
    (Stmt.whileLoop condition body).ReadBranch P a hi := by
  refine ⟨⟨⟨formed, readBody.1.1, readBody.2⟩, ?_, ordered, readBody.1.2.2⟩, rfl⟩
  refine ((idsBefore.append readBody.1.2.1).append idsAfter).perm ?_
  rw [Stmt.ids, ids, List.append_assoc, List.append_assoc]
  exact List.perm_append_comm.append_left before

/-- The parts of a loop get their ids in the order of the text, which is not that of the tree: a
condition that is left out comes last. -/
theorem forLoop_read {initializer : Option Stmt} {condition : Expr} {increment : Option Expr}
    {body : Stmt} {before after : List ExprId} {a b c d lo hi : ExprId}
    (readInitializer : InitializerRead P initializer lo a) (formed : condition.Formed P)
    (ordered : condition.Ordered) (ids : condition.ids = before ++ after)
    (idsBefore : Handed a b before) (readIncrement : OptionRead P increment b c)
    (readBody : body.ReadBranch P c d) (idsAfter : Handed d hi after) :
    (Stmt.forLoop initializer condition increment body).ReadBranch P lo hi := by
  have initialized (s : Stmt) (loop : Stmt) (read : s.Read P lo a)
      (readLoop : loop.ReadBranch P a hi) : (Stmt.block [s, loop]).ReadBranch P lo hi := by
    refine ⟨⟨⟨read.1, readLoop.1.1, trivial⟩, ?_, read.2.2, readLoop.1.2.2, trivial⟩, rfl⟩
    simpa [Stmt.ids, Stmt.idsList] using read.2.1.append readLoop.1.2.1
  have whole (inner : Stmt) (readInner : inner.ReadBranch P b d) :
      (Stmt.forLoop initializer condition none inner).ReadBranch P lo hi := by
    have loop := loop_read formed ordered ids idsBefore readInner idsAfter
    cases initializer with
    | none =>
      obtain ⟨-, rfl⟩ := readInitializer
      exact loop
    | some s => exact initialized s _ readInitializer.2 loop
  cases increment with
  | none =>
    obtain ⟨-, rfl⟩ := readIncrement
    exact whole body readBody
  | some e => exact whole _ (increment_read readIncrement.2 readBody)

include readsBranch in
theorem forStatement_reads (bound : Nat) :
    Reads P (forStatement statement bound) (Stmt.ReadBranch P) := by
  refine (Reads.expectMark _ _).step fun _ _ => (forInitializer_reads bound).bind fun first => ?_
  refine (expressionUnless_reads _ bound).bind fun condition? => ?_
  refine (Reads.expectMark _ _).step fun _ _ => ?_
  refine (expressionUnless_reads _ bound).bind fun increment => ?_
  refine (Reads.expectMark _ _).step fun _ _ => readsBranch.bind fun body => ?_
  cases condition? with
  | some condition =>
    refine Reads.pure ?_
    intro d c _ readBody b _ readIncrement a _ readCondition lo _ readInitializer
    obtain ⟨-, formed, ids⟩ := readCondition
    exact forLoop_read readInitializer formed ids.sorted (List.append_nil _).symm ids.handed
      readIncrement readBody (Handed.nil d)
  | none =>
    refine (Reads.make (.literal · (.bool true))).bind fun condition => Reads.pure ?_
    intro hi d _ built c _ readBody b _ readIncrement a _ left lo _ readInitializer
    obtain ⟨rfl, rfl⟩ := built
    obtain ⟨-, rfl⟩ := left
    exact forLoop_read readInitializer (by exact trivial) (List.pairwise_singleton _ _) rfl
      (Handed.nil a) readIncrement readBody (Ascending.nil d).last.handed

include reads readsBranch in
theorem statementOf_reads (bound : Nat) :
    Reads P (statementOf declaration statement bound) (Stmt.ReadBranch P) := by
  refine Reads.peek.step fun t token => ?_
  split
  · exact Reads.skip.step fun _ _ => forStatement_reads readsBranch bound
  · exact Reads.skip.step fun _ _ => ifStatement_reads readsBranch bound
  · exact Reads.skip.step fun _ _ => whileStatement_reads readsBranch bound
  · rename_i kind
    exact Reads.skip.step fun _ _ => returnStatement_reads (token (by rw [kind]; rfl)) bound
  · exact Reads.skip.step fun _ _ => printStatement_reads bound
  · refine Reads.skip.step fun _ _ => (block_reads reads bound).bind fun body => ?_
    exact Reads.pure fun n lo _ read => ⟨read, rfl⟩
  · exact expressionStatement_reads bound

include reads readsBranch in
theorem declarationOf_reads (bound : Nat) :
    Reads P (declarationOf declaration statement bound) (Stmt.Read P) := by
  refine Reads.peek.step fun t _ => ?_
  split
  · exact Reads.skip.step fun _ _ => classDeclaration_reads reads bound
  · refine Reads.skip.step fun _ _ => (function_reads reads .function bound).bind fun f => ?_
    exact Reads.pure fun n lo _ read => read
  · exact Reads.skip.step fun _ _ => varDeclaration_reads bound
  · exact (statementOf_reads reads readsBranch bound).imp fun _ _ _ read => read.1

end Nested

theorem statements_read (bound : Nat) :
    Reads P (declaration bound) (Stmt.Read P) ∧ Reads P (statement bound) (Stmt.ReadBranch P) := by
  induction bound with
  | zero =>
    rw [declaration, statement]
    exact ⟨Reads.refuse, Reads.refuse⟩
  | succ bound ih =>
    rw [declaration, statement]
    exact ⟨declarationOf_reads ih.1 ih.2 (bound + 1), statementOf_reads ih.1 ih.2 (bound + 1)⟩

/-! At the end nothing more is read. -/

theorem declarations_ended {c : Cursor} (ends : c.atEnd = true) (bound : Nat) :
    declarations bound c = .ok [] c := by
  cases bound with
  | zero => rfl
  | succ bound =>
    show (if c.atEnd = true then _ else _ : Reader _) c = _
    rw [ends]
    rfl

theorem recoverFrom_ended {c : Cursor} (ends : c.atEnd = true) (bound : Nat) :
    recoverFrom bound c = ([], c) := by
  cases bound with
  | zero => rfl
  | succ bound => exact if_pos ends

/-- Passing over tokens in error only takes some off the front. -/
theorem boundaryAfter_suffix (last : Token) (ts : List Token) : boundaryAfter last ts <:+ ts := by
  induction ts generalizing last with
  | nil => exact List.suffix_refl _
  | cons t ts ih =>
    rw [boundaryAfter]
    split
    · exact List.suffix_refl _
    · exact (ih t).trans (List.suffix_cons t ts)

theorem resume_suffix (ts : List Token) : resume ts <:+ ts := by
  cases ts with
  | nil => exact List.suffix_refl _
  | cons t ts =>
    rw [resume]
    split
    · exact List.suffix_refl _
    · exact (boundaryAfter_suffix t ts).trans (List.suffix_cons t ts)

/-- What an item of a recovering reading is: an error uses ids up as well. -/
def ItemRead (P : Token → Prop) (item : Except SyntaxError Stmt) (lo hi : ExprId) : Prop :=
  match item with
  | .ok s => s.Read P lo hi
  | .error _ => lo ≤ hi

theorem recoverFrom_reads (bound : Nat) (c : Cursor) (good : ∀ t ∈ c.rest, P t) :
    Listed (ItemRead P) (recoverFrom bound c).1 c.nextId (recoverFrom bound c).2.nextId := by
  induction bound generalizing c with
  | zero => exact rfl
  | succ bound ih =>
    rw [recoverFrom]
    split
    · exact rfl
    · have first := (statements_read (P := P) (bound + 1)).1 c good
      split
      · rename_i s after reading
        rw [reading] at first
        exact ⟨_, first.2.2, ih after fun t member => good t (first.1.subset member)⟩
      · rename_i e after reading
        rw [reading] at first
        refine ⟨_, first.2, ih { after with rest := resume after.rest } fun t member => ?_⟩
        exact good t (first.1.subset ((resume_suffix after.rest).subset member))

end Grammar

end Lox
