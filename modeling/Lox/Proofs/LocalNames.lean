import Mathlib
import Lox.Proofs.LikeWalks
import Lox.Proofs.NewNames
import Lox.Proofs.RejectedPrograms
import Lox.Proofs.ResolvedRuns

/-!
The names of local variables do not matter: with a new name for one of them a program is accepted
with the same distances, and it runs the same.
-/

namespace Lox

/-! ### A scope gives a name once -/

namespace NewName

variable {n : NewName} {s : Stmt} {ss : List Stmt}

theorem keeps_of_free (free : n.old ∉ s.declared) : n.Keeps s := by
  cases s with
  | funDecl f => exact fun same => free (List.mem_singleton.2 same.symm)
  | classDecl name _ _ => exact fun same => free (List.mem_singleton.2 same.symm)
  | _ => trivial

/-- Where the name is that of a variable, it is that of no function or class. -/
theorem DeclaredIn.keeps (declared : n.DeclaredIn ss)
    (distinct : (ss.flatMap Stmt.declared).Nodup) : ∀ s ∈ ss, n.Keeps s := by
  obtain ⟨name, e, member, same⟩ := declared
  intro s among
  by_cases itself : s = .varDecl name e
  · subst itself
    exact trivial
  · have symm : Std.Symm (Function.onFun List.Disjoint Stmt.declared) :=
      ⟨fun _ _ disjoint => disjoint.symm⟩
    have apart := (List.nodup_flatMap.1 distinct).2.forall among member itself
    exact keeps_of_free fun declares => apart declares (List.mem_singleton.2 same.symm)

/-- The same in the scope of a function. -/
theorem keeps_body {f : FunctionDecl}
    (declared : (∃ p ∈ f.parameters, p.lexeme = n.old) ∨ n.DeclaredIn f.body)
    (distinct : f.names.Nodup) : ∀ s ∈ f.body, n.Keeps s := by
  obtain ⟨-, inBody, apart⟩ := List.nodup_append.1 distinct
  rcases declared with ⟨p, among, same⟩ | declared
  · intro s member
    refine keeps_of_free fun declares => ?_
    exact apart n.old (List.mem_map.2 ⟨p, among, same⟩) n.old
      (List.mem_flatMap.2 ⟨s, member, declares⟩) rfl
  · exact declared.keeps inBody

end NewName

/-! ### What is around the scope is like itself -/

section Unchanged

variable {n : NewName} {known : ExprId → Prop} {π : Renaming} {scopes : List Renaming}
  {P : Token → Prop}

theorem NewName.moves (id : ExprId) : (n.translation known π).Moves .none id :=
  ⟨rfl, fun _ => rfl⟩

theorem NewName.movesPlain : (n.translation known π).MovesPlain .none := ⟨fun _ => rfl, .inl rfl⟩

theorem Expr.Like.unchanged (all : AllSame scopes) (e : Expr) :
    e.Like (n.translation known π) scopes e := by
  have like : e.Like (n.translation known π) scopes (e.moved .none) :=
    Expr.Like.moved all e fun id _ => NewName.moves id
  rwa [Expr.moved_none] at like

theorem Stmt.Like.unchanged (all : AllSame scopes) (s : Stmt) (formed : s.Formed P) :
    s.Like (n.translation known π) scopes s := by
  have like : s.Like (n.translation known π) scopes (s.moved .none) :=
    Stmt.Like.moved NewName.movesPlain all s formed fun id _ => NewName.moves id
  rwa [Stmt.moved_none] at like

theorem Stmt.LikeList.unchanged (all : AllSame scopes) (ss : List Stmt)
    (formed : Stmt.FormedList P ss) : Stmt.LikeList (n.translation known π) scopes ss ss := by
  have like : Stmt.LikeList (n.translation known π) scopes ss (Stmt.movedList .none ss) :=
    Stmt.LikeList.moved NewName.movesPlain all ss formed fun id _ => NewName.moves id
  rwa [Stmt.movedList_none] at like

theorem FunctionDecl.Like.unchanged (all : AllSame scopes) (f : FunctionDecl)
    (formed : f.Formed P) : f.Like (n.translation known π) scopes f := by
  have like : f.Like (n.translation known π) scopes (f.moved .none) :=
    FunctionDecl.Like.moved NewName.movesPlain all f formed fun id _ => NewName.moves id
  rwa [FunctionDecl.moved_none] at like

theorem FunctionDecl.LikeList.unchanged (all : AllSame scopes) (fs : List FunctionDecl)
    (formed : FunctionDecl.FormedList P fs) :
    FunctionDecl.LikeList (n.translation known π) scopes fs fs := by
  have like : FunctionDecl.LikeList (n.translation known π) scopes fs
      (FunctionDecl.movedList .none fs) :=
    FunctionDecl.LikeList.moved NewName.movesPlain all fs formed fun id _ => NewName.moves id
  rwa [FunctionDecl.movedList_none] at like

end Unchanged

section Renames

variable {n : NewName} {known : ExprId → Prop} {π : Renaming}

theorem NewName.parameters_like (swaps : π.perm = Equiv.swap n.old n.new) {scopes : List Renaming}
    {ts : List Token} (clear : ∀ t ∈ ts, t.IsName n.Clear) :
    List.Forall₂ (Token.LikeDeclaration (n.translation known π) (π :: scopes)) ts
      (ts.map n.token) :=
  List.forall₂_map_right_iff.2 <| List.forall₂_same.2 fun t among =>
    ⟨(NewName.token_same t).1, NewName.token_lexeme swaps (clear t among).1.2,
      (NewName.token_same t).2.symm⟩

mutual

/-- A statement is like itself with the new name in one scope inside it. -/
theorem Stmt.Like.renames (swaps : π.perm = Equiv.swap n.old n.new) {scopes : List Renaming}
    (all : AllSame scopes) (s : Stmt) {s' : Stmt} {site : Site} (formed : s.Formed n.Clear)
    (lawful : s.Lawful site) (renames : Stmt.Renames n s s') :
    s.Like (n.translation known π) scopes s' := by
  match s with
  | .expression _ | .print _ | .varDecl _ _ | .returnStmt _ _ => cases renames
  | .block ss =>
    cases renames with
    | here declared =>
      have inside : Stmt.LikeList (n.translation known π) (π :: scopes) ss
          (Stmt.renamedList n 0 ss) :=
        Stmt.LikeList.renamed swaps all 0 ss formed fun _ => declared.keeps lawful.1
      exact ⟨π, _, rfl, .inr rfl, inside⟩
    | block inside =>
      exact ⟨Renaming.same, _, rfl, .inl rfl,
        Stmt.LikeList.renames swaps all.cons ss formed lawful.2 inside⟩
  | .ifThen e u =>
    cases renames with
    | ifThen inside =>
      exact ⟨_, _, rfl, .unchanged all e,
        Stmt.Like.renames swaps all u formed.2.1 lawful.2 inside⟩
  | .ifElse e v u =>
    cases renames with
    | ifElseYes inside =>
      exact ⟨_, _, _, rfl, .unchanged all e,
        Stmt.Like.renames swaps all v formed.2.1.1 lawful.2.1 inside,
        .unchanged all u formed.2.2.1⟩
    | ifElseNo inside =>
      exact ⟨_, _, _, rfl, .unchanged all e, .unchanged all v formed.2.1.1,
        Stmt.Like.renames swaps all u formed.2.2.1 lawful.2.2 inside⟩
  | .whileLoop e u =>
    cases renames with
    | whileLoop inside =>
      exact ⟨_, _, rfl, .unchanged all e,
        Stmt.Like.renames swaps all u formed.2.1 lawful.2 inside⟩
  | .funDecl f =>
    cases renames with
    | @funDecl _ f' inside =>
      have name : f'.name = f.name := by cases inside <;> rfl
      refine ⟨f', rfl, ?_, FunctionDecl.Like.renames swaps all f formed lawful inside⟩
      rw [name]
      exact ⟨⟨rfl, rfl, rfl⟩, all.declare _⟩
  | .classDecl t none fs =>
    cases renames with
    | classDecl inside =>
      exact ⟨_, _, rfl, ⟨⟨rfl, rfl, rfl⟩, all.declare _⟩,
        FunctionDecl.LikeList.renames swaps all.cons fs formed.className.2 lawful.methods inside⟩
  | .classDecl t (some e) fs =>
    cases renames with
    | classDecl inside =>
      obtain ⟨id, used, isName, -⟩ := formed.superclass
      exact ⟨_, _, _, rfl, ⟨⟨rfl, rfl, rfl⟩, all.declare _⟩, ⟨⟨id, used, isName⟩, .unchanged all e⟩,
        FunctionDecl.LikeList.renames swaps all.cons.cons fs formed.className.2 lawful.methods
          inside⟩

theorem Stmt.LikeList.renames (swaps : π.perm = Equiv.swap n.old n.new) {scopes : List Renaming}
    (all : AllSame scopes) (ss : List Stmt) {ss' : List Stmt} {site : Site}
    (formed : Stmt.FormedList n.Clear ss) (lawful : Stmt.LawfulList site ss)
    (renames : Stmt.RenamesIn n ss ss') :
    Stmt.LikeList (n.translation known π) scopes ss ss' := by
  match ss with
  | [] => cases renames
  | s :: ss =>
    cases renames with
    | first inside =>
      exact ⟨_, _, rfl, Stmt.Like.renames swaps all s formed.1 lawful.1 inside,
        .unchanged all ss formed.2⟩
    | later inside =>
      exact ⟨_, _, rfl, .unchanged all s formed.1,
        Stmt.LikeList.renames swaps all ss formed.2 lawful.2 inside⟩

theorem FunctionDecl.Like.renames (swaps : π.perm = Equiv.swap n.old n.new)
    {scopes : List Renaming} (all : AllSame scopes) (f : FunctionDecl) {f' : FunctionDecl}
    {site : Site} (formed : f.Formed n.Clear) (lawful : f.Lawful site)
    (renames : FunctionDecl.Renames n f f') : f.Like (n.translation known π) scopes f' := by
  match f with
  | ⟨t, ts, ss⟩ =>
    cases renames with
    | here declared =>
      have inside : Stmt.LikeList (n.translation known π) (π :: scopes) ss
          (Stmt.renamedList n 0 ss) :=
        Stmt.LikeList.renamed swaps all 0 ss formed.2.2 fun _ =>
          NewName.keeps_body (f := ⟨t, ts, ss⟩) declared lawful.1
      exact ⟨π, _, _, _, rfl, .inr rfl, ⟨rfl, rfl, rfl⟩, NewName.parameters_like swaps formed.2.1, inside⟩
    | body inside =>
      have names : List.Forall₂ (Token.LikeDeclaration (n.translation known π)
          (Renaming.same :: scopes)) ts ts := List.forall₂_same.2 fun p _ => ⟨rfl, rfl, rfl⟩
      exact ⟨Renaming.same, _, _, _, rfl, .inl rfl, ⟨rfl, rfl, rfl⟩, names,
        Stmt.LikeList.renames swaps all.cons ss formed.2.2 lawful.2 inside⟩

theorem FunctionDecl.LikeList.renames (swaps : π.perm = Equiv.swap n.old n.new)
    {scopes : List Renaming} (all : AllSame scopes) (fs : List FunctionDecl)
    {fs' : List FunctionDecl} {site : Site} (formed : FunctionDecl.FormedList n.Clear fs)
    (lawful : FunctionDecl.LawfulList site fs) (renames : FunctionDecl.RenamesIn n fs fs') :
    FunctionDecl.LikeList (n.translation known π) scopes fs fs' := by
  match fs with
  | [] => cases renames
  | f :: fs =>
    obtain ⟨first, rest⟩ := List.forall_mem_cons.1 (FunctionDecl.lawfulList_iff.1 lawful)
    cases renames with
    | first inside =>
      exact ⟨_, _, rfl, FunctionDecl.Like.renames swaps all f formed.1 first inside,
        .unchanged all fs formed.2⟩
    | later inside =>
      exact ⟨_, _, rfl, .unchanged all f formed.1,
        FunctionDecl.LikeList.renames swaps all fs formed.2 (FunctionDecl.lawfulList_iff.2 rest) inside⟩

end

/-- A variable is never called like what the language binds by itself. -/
theorem NewName.old_spelled {t : Token} (name : t.IsName n.Clear) (same : t.lexeme = n.old) :
    n.old ≠ "this" ∧ n.old ≠ "super" := by
  have spelled : t.IsName Token.Spelled := ⟨name.1.1, name.2⟩
  rw [← same]
  exact ⟨spelled.ne_this, spelled.ne_super⟩

theorem NewName.DeclaredIn.spelled {ss : List Stmt} (declared : n.DeclaredIn ss)
    (formed : Stmt.FormedList n.Clear ss) : n.old ≠ "this" ∧ n.old ≠ "super" := by
  obtain ⟨name, e, member, same⟩ := declared
  induction ss with
  | nil => cases member
  | cons s ss ih =>
    rcases List.mem_cons.1 member with rfl | member
    · cases e with
      | none => exact NewName.old_spelled formed.1 same
      | some e => exact NewName.old_spelled formed.1.1 same
    · exact ih formed.2 member

mutual

theorem Stmt.Renames.spelled (s : Stmt) {s' : Stmt} (formed : s.Formed n.Clear)
    (renames : Stmt.Renames n s s') : n.old ≠ "this" ∧ n.old ≠ "super" := by
  match s with
  | .expression _ | .print _ | .varDecl _ _ | .returnStmt _ _ => cases renames
  | .block ss =>
    cases renames with
    | here declared => exact declared.spelled formed
    | block inside => exact Stmt.RenamesIn.spelled ss formed inside
  | .ifThen _ u =>
    cases renames with
    | ifThen inside => exact Stmt.Renames.spelled u formed.2.1 inside
  | .ifElse _ v u =>
    cases renames with
    | ifElseYes inside => exact Stmt.Renames.spelled v formed.2.1.1 inside
    | ifElseNo inside => exact Stmt.Renames.spelled u formed.2.2.1 inside
  | .whileLoop _ u =>
    cases renames with
    | whileLoop inside => exact Stmt.Renames.spelled u formed.2.1 inside
  | .funDecl f =>
    cases renames with
    | funDecl inside => exact FunctionDecl.Renames.spelled f formed inside
  | .classDecl _ _ fs =>
    cases renames with
    | classDecl inside => exact FunctionDecl.RenamesIn.spelled fs formed.className.2 inside

theorem Stmt.RenamesIn.spelled (ss : List Stmt) {ss' : List Stmt}
    (formed : Stmt.FormedList n.Clear ss) (renames : Stmt.RenamesIn n ss ss') :
    n.old ≠ "this" ∧ n.old ≠ "super" := by
  match ss with
  | [] => cases renames
  | s :: ss =>
    cases renames with
    | first inside => exact Stmt.Renames.spelled s formed.1 inside
    | later inside => exact Stmt.RenamesIn.spelled ss formed.2 inside

theorem FunctionDecl.Renames.spelled (f : FunctionDecl) {f' : FunctionDecl}
    (formed : f.Formed n.Clear) (renames : FunctionDecl.Renames n f f') :
    n.old ≠ "this" ∧ n.old ≠ "super" := by
  match f with
  | ⟨_, _, ss⟩ =>
    cases renames with
    | here declared =>
      rcases declared with ⟨p, among, same⟩ | declared
      · exact NewName.old_spelled (formed.2.1 p among) same
      · exact declared.spelled formed.2.2
    | body inside => exact Stmt.RenamesIn.spelled ss formed.2.2 inside

theorem FunctionDecl.RenamesIn.spelled (fs : List FunctionDecl) {fs' : List FunctionDecl}
    (formed : FunctionDecl.FormedList n.Clear fs) (renames : FunctionDecl.RenamesIn n fs fs') :
    n.old ≠ "this" ∧ n.old ≠ "super" := by
  match fs with
  | [] => cases renames
  | f :: fs =>
    cases renames with
    | first inside => exact FunctionDecl.Renames.spelled f formed.1 inside
    | later inside => exact FunctionDecl.RenamesIn.spelled fs formed.2 inside

end

end Renames

/-! ### Sessions -/

namespace NewName

variable {n : NewName}

/-- The old and the new name change places. -/
def swap (n : NewName) (old : n.old ≠ "this" ∧ n.old ≠ "super")
    (new : n.new ≠ "this" ∧ n.new ≠ "super") : Renaming :=
  ⟨Equiv.swap n.old n.new, Equiv.swap_apply_of_ne_of_ne old.1.symm new.1.symm,
    Equiv.swap_apply_of_ne_of_ne old.2.symm new.2.symm⟩

/-- Where the new name does not occur, no two names become one. -/
theorem fair {known : ExprId → Prop} {π : Renaming} (swaps : π.perm = Equiv.swap n.old n.new)
    (new : n.new ≠ "this" ∧ n.new ≠ "super") : (n.translation known π).Fair (· ≠ n.new) := by
  have differ {a b : String} (clear : a ≠ n.new) (same : a = Equiv.swap n.old n.new b)
      (clear' : b ≠ n.new) : a = b := by
    rw [Equiv.swap_apply_def] at same
    split at same
    · exact absurd same clear
    · exact same
  refine ⟨.inl rfl, fun σ ρ renames renames' a b clear clear' same => ?_, new.1.symm, new.2.symm⟩
  rcases renames with rfl | rfl <;> rcases renames' with rfl | rfl
  · exact same
  · rw [swaps] at same
    exact differ clear same clear'
  · rw [swaps] at same
    exact (differ clear' same.symm clear).symm
  · exact Equiv.injective _ same

end NewName

namespace Session

variable {s : Session} {source : String} {old new : String} {program' : List Stmt}

/-- Another name for local variables of the text, with the distances recorded for its uses. -/
def newName (s : Session) (source old new : String) : NewName :=
  ⟨old, new, fun id => (s.bound source).machine.distances[id]?⟩

/-- The tokens of the tree are among those of the text. -/
theorem program_clear {n : NewName}
    (fresh : ∀ t ∈ Scan.tokens (Scan.items source), t.lexeme ≠ n.new) :
    Stmt.FormedList n.Clear (s.program source) :=
  (statements_read (Grammar.recoverFrom_reads _ ⟨_, s.nextId⟩ fun t among =>
    ⟨Scan.tokens_spelled source t among, fresh t among⟩)).1

/-- The two programs are alike, wherever no scope around them is renamed. -/
theorem Accepts.renames (accepts : s.Accepts source) (known : ExprId → Prop)
    (renames : Stmt.RenamesIn (s.newName source old new) (s.program source) program')
    (fresh : ∀ t ∈ Scan.tokens (Scan.items source), t.lexeme ≠ new)
    (this : new ≠ "this") (super : new ≠ "super") :
    ∃ π, ((s.newName source old new).translation known π).Fair (· ≠ new) ∧
      ∀ scopes, AllSame scopes →
        Stmt.LikeList ((s.newName source old new).translation known π) scopes (s.program source)
          program' := by
  have formed := program_clear (s := s) (n := s.newName source old new) fresh
  have spelled := Stmt.RenamesIn.spelled _ formed renames
  refine ⟨(s.newName source old new).swap spelled ⟨this, super⟩,
    NewName.fair rfl ⟨this, super⟩, fun scopes all => ?_⟩
  exact Stmt.LikeList.renames rfl all _ formed accepts.lawful renames

/-- The session whose next ids are those after the text. -/
def read (s : Session) (source : String) : Session :=
  { s with nextId := (s.reading source).nextId }

/-- What is told of a program that is accepted with the distances of the text: how its run on the
machine of the text ends. -/
theorem runStatements_read (accepted : (resolve program').error = none)
    (found : (resolve program').found = (resolve (s.program source)).found) (fuel : Nat) :
    (s.read source).runStatements fuel program' =
      (reportOf (haltOf (Run.interpret fuel program' (s.bound source).machine)),
        { s.bound source with
          machine := stateOf (Run.interpret fuel program' (s.bound source).machine) }) := by
  have bound : (s.read source).machine.bindProgram program' = (none, (s.bound source).machine) := by
    rw [Machine.bindProgram, accepted, found]
    rfl
  simp only [runStatements, bound, Machine.runProgram]
  cases Run.interpret fuel program' (s.bound source).machine <;> rfl

section Renamed

variable (accepts : s.Accepts source)
  (renames : Stmt.RenamesIn (s.newName source old new) (s.program source) program')
  (fresh : ∀ t ∈ Scan.tokens (Scan.items source), t.lexeme ≠ new)
  (this : new ≠ "this") (super : new ≠ "super")
include accepts renames fresh this super

theorem Sound.renamed_resolved (sound : s.Sound) :
    (resolve program').error = none ∧
      (resolve program').found = (resolve (s.program source)).found := by
  obtain ⟨π, fair, like⟩ := accepts.renames (fun _ => True) renames fresh this super
  have clear : Stmt.FormedList (fun t => t.lexeme ≠ new) (s.program source) :=
    (statements_read (Grammar.recoverFrom_reads _ ⟨_, s.nextId⟩ fresh)).1
  have recorded := Stmt.ScopedList.imp (fun _ _ recorded => recorded.2) _ (accepts.scoped sound)
  obtain ⟨found, error⟩ := resolve_alike fair clear (.inr recorded) (like [] AllSame.nil)
  refine ⟨?_, found.trans (List.map_id _)⟩
  rw [accepts.resolved] at error
  cases refused : (resolve program').error with
  | none => rfl
  | some e =>
    rw [refused] at error
    exact error.elim

theorem Sound.renamed_runs (sound : s.Sound) (fuel : Nat) :
    ∃ run run', run = Run.interpret fuel (s.program source) (s.bound source).machine ∧
      run' = Run.interpret fuel program' (s.bound source).machine ∧
        haltOf run' = haltOf run ∧ (stateOf run').sink = (stateOf run).sink := by
  obtain ⟨π, -, like⟩ :=
    accepts.renames (fun id => id < (s.bound source).nextId) renames fresh this super
  have self := sound.bound.like (c := (s.newName source old new).translation _ π)
    (fun id given => ⟨given, NewName.moves id⟩) NewName.movesPlain fun _ _ => ⟨rfl, rfl⟩
  refine ⟨_, _, rfl, rfl, ?_⟩
  rcases Run.interpret_alike fuel self (like _ (World.along_still _ _)) fun id among =>
      ((program_handed s source).bounds id among).2 with
    ⟨_, _, n, n', _, run, run', -, after, -⟩ | ⟨h, h', n, n', v, run, run', -, after, blames⟩
  · rw [run, run']
    exact ⟨rfl, after.sink⟩
  · rw [run, run']
    refine ⟨congrArg some ?_, after.sink⟩
    rcases blames.same (sound.firstStep accepts fuel) with ⟨same, -⟩ | ⟨e, id, -, -, rfl, rfl⟩
    · exact same
    · rfl

end Renamed

/-- The first statement is a block, and the first in it declares the variable. -/
def opensWith (name : String) : List Stmt → Bool
  | .block (.varDecl t _ :: _) :: _ => t.lexeme == name
  | _ => false

theorem renames_opening {n : NewName} {ss : List Stmt} (opens : opensWith n.old ss = true) :
    ∃ ss', Stmt.RenamesIn n ss ss' := by
  unfold opensWith at opens
  split at opens
  · rename_i t e rest more
    have declared : n.DeclaredIn (.varDecl t e :: rest) :=
      ⟨t, e, List.mem_cons_self, eq_of_beq opens⟩
    exact ⟨_, .first (.here declared)⟩
  · cases opens

/-- A counter that a closure holds. -/
def heldCounter : String :=
  "{ var a = 1; fun next() { a = a + 1; return a; } print next() + a; }"

end Session

end Lox
