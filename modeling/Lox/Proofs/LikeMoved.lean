import Lox.Proofs.LikeStates
import Lox.Proofs.ScopeInvariant
import Lox.Proofs.Shifts

/-!
What is well formed is like itself moved to another place: trees as they are read. What a sound
store holds is like itself.
-/

namespace Lox

/-- The expression goes over into itself, moved. -/
structure Translation.Moves (c : Translation) (k : Shift) (id : ExprId) : Prop where
  ids : c.ids id = id + k.ids
  line : ∀ l, c.line id l = l + k.lines

/-- What does not belong to expressions goes over into itself, moved. -/
structure Translation.MovesPlain (c : Translation) (k : Shift) : Prop where
  line : ∀ l, c.plain l (l + k.lines)
  renames : c.renames Renaming.same

/-- No scope has other names. -/
def AllSame (scopes : List Renaming) : Prop := ∀ π ∈ scopes, π = Renaming.same

namespace AllSame

variable {scopes : List Renaming}

theorem nil : AllSame [] := fun _ among => nomatch among

theorem cons (all : AllSame scopes) : AllSame (Renaming.same :: scopes) := by
  intro π among
  rcases List.mem_cons.1 among with rfl | among
  · rfl
  · exact all π among

theorem getD (all : AllSame scopes) (d : Nat) : scopes.getD d Renaming.same = Renaming.same := by
  cases inside : scopes[d]? with
  | none => simp [List.getD_eq_getElem?_getD, inside]
  | some π =>
    have known := all π (List.mem_of_getElem? inside)
    simp [List.getD_eq_getElem?_getD, inside, known]

theorem use (all : AllSame scopes) (distance : Option Nat) (name : String) :
    Renaming.use scopes distance name = name := by
  cases distance with
  | none => rfl
  | some d =>
    have here := all.getD d
    simp only [Renaming.use, here, Renaming.same_perm]

theorem declare (all : AllSame scopes) (name : String) : Renaming.declare scopes name = name := by
  cases scopes with
  | nil => rfl
  | cons π rest =>
    have here := all π List.mem_cons_self
    simp only [Renaming.declare, List.headD_cons, here, Renaming.same_perm]

end AllSame

section Trees

variable {c : Translation} {k : Shift} {scopes : List Renaming}

theorem Token.LikeIn.moved {id : ExprId} (moves : c.Moves k id) (t : Token) :
    t.LikeIn c id (k.token t) :=
  ⟨rfl, rfl, (moves.line t.line).symm⟩

theorem Token.LikeUse.moved {id : ExprId} (moves : c.Moves k id) (all : AllSame scopes)
    (t : Token) : t.LikeUse c scopes id (k.token t) :=
  ⟨rfl, (all.use _ _).symm, (moves.line t.line).symm⟩

mutual

theorem Expr.Like.moved (all : AllSame scopes) (e : Expr) (moves : ∀ id ∈ e.ids, c.Moves k id) :
    e.Like c scopes (e.moved k) := by
  match e with
  | .literal id v =>
    have here := moves id (by simp [Expr.ids])
    rw [Expr.Like, here.ids, Expr.moved]
  | .grouping id a =>
    simp only [Expr.ids, List.mem_append, List.mem_singleton] at moves
    have here := moves id (.inr rfl)
    exact ⟨a.moved k, by rw [here.ids, Expr.moved],
      Expr.Like.moved all a fun i m => moves i (.inl m)⟩
  | .unary id t a =>
    simp only [Expr.ids, List.mem_append, List.mem_singleton] at moves
    have here := moves id (.inr rfl)
    exact ⟨k.token t, a.moved k, by rw [here.ids, Expr.moved], .moved here t,
      Expr.Like.moved all a fun i m => moves i (.inl m)⟩
  | .binary id a t b | .logical id a t b | .set id a t b =>
    simp only [Expr.ids, List.mem_append, List.mem_singleton] at moves
    have here := moves id (.inr rfl)
    exact ⟨a.moved k, k.token t, b.moved k, by rw [here.ids, Expr.moved],
      Expr.Like.moved all a fun i m => moves i (.inl (.inl m)), .moved here t,
      Expr.Like.moved all b fun i m => moves i (.inl (.inr m))⟩
  | .assign id t a =>
    simp only [Expr.ids, List.mem_append, List.mem_singleton] at moves
    have here := moves id (.inr rfl)
    exact ⟨k.token t, a.moved k, by rw [here.ids, Expr.moved], .moved here all t,
      Expr.Like.moved all a fun i m => moves i (.inl m)⟩
  | .var id t | .this id t =>
    have here := moves id (by simp [Expr.ids])
    exact ⟨k.token t, by rw [here.ids, Expr.moved], .moved here all t⟩
  | .call id a t as =>
    simp only [Expr.ids, List.mem_append, List.mem_singleton] at moves
    have here := moves id (.inr rfl)
    exact ⟨a.moved k, k.token t, Expr.movedList k as, by rw [here.ids, Expr.moved],
      Expr.Like.moved all a fun i m => moves i (.inl (.inl m)), .moved here t,
      Expr.LikeList.moved all as fun i m => moves i (.inl (.inr m))⟩
  | .get id a t =>
    simp only [Expr.ids, List.mem_append, List.mem_singleton] at moves
    have here := moves id (.inr rfl)
    exact ⟨a.moved k, k.token t, by rw [here.ids, Expr.moved],
      Expr.Like.moved all a fun i m => moves i (.inl m), .moved here t⟩
  | .super id t u =>
    have here := moves id (by simp [Expr.ids])
    exact ⟨k.token t, k.token u, by rw [here.ids, Expr.moved], .moved here all t, .moved here u⟩
  | .comma id a b =>
    simp only [Expr.ids, List.mem_append, List.mem_singleton] at moves
    have here := moves id (.inr rfl)
    exact ⟨a.moved k, b.moved k, by rw [here.ids, Expr.moved],
      Expr.Like.moved all a fun i m => moves i (.inl (.inl m)),
      Expr.Like.moved all b fun i m => moves i (.inl (.inr m))⟩
  | .ternary id a b d =>
    simp only [Expr.ids, List.mem_append, List.mem_singleton] at moves
    have here := moves id (.inr rfl)
    exact ⟨a.moved k, b.moved k, d.moved k, by rw [here.ids, Expr.moved],
      Expr.Like.moved all a fun i m => moves i (.inl (.inl (.inl m))),
      Expr.Like.moved all b fun i m => moves i (.inl (.inl (.inr m))),
      Expr.Like.moved all d fun i m => moves i (.inl (.inr m))⟩

theorem Expr.LikeList.moved (all : AllSame scopes) (es : List Expr)
    (moves : ∀ id ∈ Expr.idsList es, c.Moves k id) :
    Expr.LikeList c scopes es (Expr.movedList k es) := by
  match es with
  | [] => exact rfl
  | e :: es =>
    simp only [Expr.idsList, List.mem_append] at moves
    exact ⟨e.moved k, Expr.movedList k es, rfl, Expr.Like.moved all e fun i m => moves i (.inl m),
      Expr.LikeList.moved all es fun i m => moves i (.inr m)⟩

end

variable (plain : c.MovesPlain k)
include plain

theorem Token.LikePlain.moved (t : Token) : t.LikePlain c (k.token t) :=
  ⟨rfl, rfl, plain.line t.line⟩

theorem Token.LikeDeclaration.moved (all : AllSame scopes) (t : Token) :
    t.LikeDeclaration c scopes (k.token t) :=
  ⟨rfl, (all.declare t.lexeme).symm, plain.line t.line⟩

theorem Token.LikeName.moved (all : AllSame scopes) (t : Token) :
    t.LikeName c scopes (k.token t) :=
  ⟨.moved plain t, all.declare t.lexeme⟩

end Trees

section Statements

variable {c : Translation} {k : Shift} {P : Token → Prop}

mutual

theorem Stmt.Like.moved (plain : c.MovesPlain k) {scopes : List Renaming} (all : AllSame scopes)
    (s : Stmt) (formed : s.Formed P) (moves : ∀ id ∈ s.ids, c.Moves k id) :
    s.Like c scopes (s.moved k) := by
  match s with
  | .expression e | .print e => exact ⟨e.moved k, by rw [Stmt.moved], .moved all e moves⟩
  | .varDecl t none => exact ⟨k.token t, by rw [Stmt.moved, Option.map_none], .moved plain all t⟩
  | .varDecl t (some e) =>
    exact ⟨k.token t, e.moved k, by rw [Stmt.moved, Option.map_some], .moved plain all t,
      .moved all e moves⟩
  | .block ss =>
    exact ⟨Renaming.same, Stmt.movedList k ss, by rw [Stmt.moved], plain.renames,
      Stmt.LikeList.moved plain all.cons ss formed moves⟩
  | .ifThen e u | .whileLoop e u =>
    simp only [Stmt.ids, List.mem_append] at moves
    exact ⟨e.moved k, u.moved k, by rw [Stmt.moved], .moved all e fun i m => moves i (.inl m),
      Stmt.Like.moved plain all u formed.2.1 fun i m => moves i (.inr m)⟩
  | .ifElse e v u =>
    simp only [Stmt.ids, List.mem_append] at moves
    exact ⟨e.moved k, v.moved k, u.moved k, by rw [Stmt.moved],
      .moved all e fun i m => moves i (.inl (.inl m)),
      Stmt.Like.moved plain all v formed.2.1.1 fun i m => moves i (.inl (.inr m)),
      Stmt.Like.moved plain all u formed.2.2.1 fun i m => moves i (.inr m)⟩
  | .funDecl f =>
    refine ⟨f.moved k, by rw [Stmt.moved], ?_, FunctionDecl.Like.moved plain all f formed moves⟩
    obtain ⟨t, ts, ss⟩ := f
    rw [FunctionDecl.moved]
    exact .moved plain all t
  | .returnStmt t none => exact ⟨k.token t, by rw [Stmt.moved, Option.map_none], .moved plain t⟩
  | .returnStmt t (some e) =>
    exact ⟨k.token t, e.moved k, by rw [Stmt.moved, Option.map_some], .moved plain t,
      .moved all e moves⟩
  | .classDecl t none fs =>
    exact ⟨k.token t, FunctionDecl.movedList k fs, by rw [Stmt.moved, Option.map_none],
      .moved plain all t, FunctionDecl.LikeList.moved plain all.cons fs formed.className.2 moves⟩
  | .classDecl t (some e) fs =>
    simp only [Stmt.ids, List.mem_append] at moves
    obtain ⟨id, used, isName, -⟩ := formed.superclass
    exact ⟨k.token t, e.moved k, FunctionDecl.movedList k fs, by rw [Stmt.moved, Option.map_some],
      .moved plain all t, ⟨⟨id, used, isName⟩, .moved all e fun i m => moves i (.inl m)⟩,
      FunctionDecl.LikeList.moved plain all.cons.cons fs formed.className.2 fun i m =>
        moves i (.inr m)⟩

theorem Stmt.LikeList.moved (plain : c.MovesPlain k) {scopes : List Renaming}
    (all : AllSame scopes) (ss : List Stmt) (formed : Stmt.FormedList P ss)
    (moves : ∀ id ∈ Stmt.idsList ss, c.Moves k id) :
    Stmt.LikeList c scopes ss (Stmt.movedList k ss) := by
  match ss with
  | [] => exact rfl
  | s :: ss =>
    simp only [Stmt.idsList, List.mem_append] at moves
    exact ⟨s.moved k, Stmt.movedList k ss, rfl,
      Stmt.Like.moved plain all s formed.1 fun i m => moves i (.inl m),
      Stmt.LikeList.moved plain all ss formed.2 fun i m => moves i (.inr m)⟩

theorem FunctionDecl.Like.moved (plain : c.MovesPlain k) {scopes : List Renaming}
    (all : AllSame scopes) (f : FunctionDecl) (formed : f.Formed P)
    (moves : ∀ id ∈ f.ids, c.Moves k id) : f.Like c scopes (f.moved k) := by
  match f with
  | ⟨t, ts, ss⟩ =>
    refine ⟨Renaming.same, k.token t, ts.map k.token, Stmt.movedList k ss, rfl, plain.renames,
      .moved plain t, ?_, Stmt.LikeList.moved plain all.cons ss formed.2.2 moves⟩
    exact List.forall₂_map_right_iff.2 (List.forall₂_same.2 fun t _ => .moved plain all.cons t)

theorem FunctionDecl.LikeList.moved (plain : c.MovesPlain k) {scopes : List Renaming}
    (all : AllSame scopes) (fs : List FunctionDecl) (formed : FunctionDecl.FormedList P fs)
    (moves : ∀ id ∈ FunctionDecl.idsList fs, c.Moves k id) :
    FunctionDecl.LikeList c scopes fs (FunctionDecl.movedList k fs) := by
  match fs with
  | [] => exact rfl
  | f :: fs =>
    simp only [FunctionDecl.idsList, List.mem_append] at moves
    exact ⟨f.moved k, FunctionDecl.movedList k fs, rfl,
      FunctionDecl.Like.moved plain all f formed.1 fun i m => moves i (.inl m),
      FunctionDecl.LikeList.moved plain all fs formed.2 fun i m => moves i (.inr m)⟩

end

end Statements

/-! ### Stores -/

/-- A world of so many scopes in which no name is changed. -/
def World.still (n : Nat) : World := List.replicate n Renaming.same

theorem World.at_still (n : Nat) (scope : ScopeId) : (World.still n).at_ scope = Renaming.same := by
  simp only [World.at_, World.still]
  exact AllSame.getD (fun _ among => List.eq_of_mem_replicate among) scope

theorem World.along_still (n : Nat) (chain : Chain) : AllSame ((World.still n).along chain) := by
  intro π among
  obtain ⟨scope, -, rfl⟩ := List.mem_map.1 among
  exact World.at_still n scope

/-- All scopes of a chain are there. -/
theorem Store.Matches.held {s : Store} {chain : Chain} {frames : List Frame}
    (matches_ : s.Matches chain frames) (global : 0 < s.scopes.size) :
    ∀ scope ∈ chain, scope < s.scopes.size := by
  induction frames generalizing chain with
  | nil =>
    intro scope among
    obtain rfl : chain = globalChain := matches_
    obtain rfl := List.mem_singleton.1 among
    exact global
  | cons frame frames ih =>
    obtain ⟨first, outer, rfl, ⟨-, known⟩, -, rest⟩ := matches_
    intro scope among
    rcases List.mem_cons.1 among with rfl | among
    · exact known
    · exact ih rest scope among

section Stores

variable {c : Translation} {R : ExprId → Option Nat → Prop} {s : Store}
  (recorded : ∀ id d, R id d → c.known id ∧ c.Moves .none id) (plain : c.MovesPlain .none)
  (global : 0 < s.scopes.size)
include recorded plain global

theorem Closure.Like.self {inner : List Renaming} (all : AllSame inner) {a : Closure}
    {frames : List Frame} {p : Place} (matches_ : s.Matches a.chain frames)
    (body : a.function.Scoped R p) (formed : a.function.Formed Token.Spelled) :
    a.Like c (World.still s.scopes.size) inner a := by
  have known : ∀ id ∈ a.function.ids, c.known id ∧ c.Moves .none id := by
    intro id among
    obtain ⟨d, given⟩ := body.recorded id among
    exact recorded id d given
  have scopes : AllSame (inner ++ (World.still s.scopes.size).along a.chain) := by
    intro π among
    rcases List.mem_append.1 among with among | among
    · exact all π among
    · exact World.along_still _ _ π among
  have function := FunctionDecl.Like.moved plain scopes a.function formed fun id among =>
    (known id among).2
  rw [FunctionDecl.moved_none] at function
  refine ⟨function, fun id among => (known id among).1, rfl, fun scope among => ?_, rfl⟩
  rw [World.still, List.length_replicate]
  exact matches_.held global scope among

theorem Class.Like.self {a : Class} (sound : a.Sound R s) :
    a.Like c (World.still s.scopes.size) a := by
  induction sound with
  | @mk n name superclass methods _ own ih =>
    have likeOwn : methods.Like (Closure.Like c (World.still s.scopes.size) [Renaming.same])
        Renaming.same methods := by
      refine ⟨fun key m found => ?_, fun key missing => missing⟩
      obtain ⟨p, method⟩ := own key m found
      exact ⟨m, found, .self recorded plain global AllSame.nil.cons method.chain method.body
        method.formed⟩
    cases superclass with
    | none => exact .base likeOwn
    | some b => exact .derived (ih b rfl) likeOwn

theorem Value.Like.self {v : Value} (sound : v.Sound R s) :
    v.Like c (World.still s.scopes.size) v := by
  cases v with
  | function n a =>
    obtain ⟨p, callable⟩ := sound
    exact ⟨a, rfl, .self recorded plain global AllSame.nil callable.chain callable.body
      callable.formed⟩
  | class_ a => exact ⟨a, rfl, .self recorded plain global sound⟩
  | object i a => exact ⟨a, rfl, .self recorded plain global sound.2⟩
  | _ => exact rfl

theorem Store.Like.self (sound : s.Sound R) : s.Like c (World.still s.scopes.size) s := by
  refine ⟨rfl, List.length_replicate, ?_, fun scope => ?_, rfl, fun object => ?_⟩
  · rw [World.still, List.head?_replicate, if_neg (Nat.ne_of_gt global)]
  · rw [World.at_still]
    refine ⟨fun name v found => ⟨v, found, ?_⟩, fun name missing => missing⟩
    exact .self recorded plain global (sound.bound scope name v found)
  · refine ⟨fun name v found => ⟨v, found, ?_⟩, fun name missing => missing⟩
    exact .self recorded plain global (sound.fields object name v found)

end Stores

end Lox
