import Lox.Syntax

/-!
Trees moved to another place of a session: read some lines further down, with ids given out some
steps later.
-/

namespace Lox

/-- How far ids and lines are moved. -/
structure Shift where
  ids : Nat
  lines : Nat

variable (k : Shift)

def Shift.token (t : Token) : Token := { t with line := t.line + k.lines }

mutual

def Expr.moved : Expr → Expr
  | .literal id v => .literal (id + k.ids) v
  | .grouping id inner => .grouping (id + k.ids) inner.moved
  | .unary id operator operand => .unary (id + k.ids) (k.token operator) operand.moved
  | .binary id left operator right =>
      .binary (id + k.ids) left.moved (k.token operator) right.moved
  | .logical id left operator right =>
      .logical (id + k.ids) left.moved (k.token operator) right.moved
  | .assign id name value => .assign (id + k.ids) (k.token name) value.moved
  | .var id name => .var (id + k.ids) (k.token name)
  | .call id callee paren arguments =>
      .call (id + k.ids) callee.moved (k.token paren) (Expr.movedList arguments)
  | .get id object name => .get (id + k.ids) object.moved (k.token name)
  | .set id object name value => .set (id + k.ids) object.moved (k.token name) value.moved
  | .this id keyword => .this (id + k.ids) (k.token keyword)
  | .super id keyword method => .super (id + k.ids) (k.token keyword) (k.token method)
  | .comma id left right => .comma (id + k.ids) left.moved right.moved
  | .ternary id condition yes no =>
      .ternary (id + k.ids) condition.moved yes.moved no.moved

def Expr.movedList : List Expr → List Expr
  | [] => []
  | e :: es => e.moved :: Expr.movedList es

end

mutual

def Stmt.moved : Stmt → Stmt
  | .expression e => .expression (e.moved k)
  | .print e => .print (e.moved k)
  | .varDecl name e => .varDecl (k.token name) (e.map (·.moved k))
  | .block body => .block (Stmt.movedList body)
  | .ifThen condition yes => .ifThen (condition.moved k) yes.moved
  | .ifElse condition yes no => .ifElse (condition.moved k) yes.moved no.moved
  | .whileLoop condition body => .whileLoop (condition.moved k) body.moved
  | .funDecl f => .funDecl f.moved
  | .returnStmt keyword e => .returnStmt (k.token keyword) (e.map (·.moved k))
  | .classDecl name e methods =>
      .classDecl (k.token name) (e.map (·.moved k)) (FunctionDecl.movedList methods)

def Stmt.movedList : List Stmt → List Stmt
  | [] => []
  | s :: ss => s.moved :: Stmt.movedList ss

def FunctionDecl.moved : FunctionDecl → FunctionDecl
  | ⟨name, parameters, body⟩ =>
      ⟨k.token name, parameters.map k.token, Stmt.movedList body⟩

def FunctionDecl.movedList : List FunctionDecl → List FunctionDecl
  | [] => []
  | f :: fs => f.moved :: FunctionDecl.movedList fs

end

theorem Expr.movedList_eq_map (es : List Expr) : Expr.movedList k es = es.map (·.moved k) := by
  induction es with
  | nil => rfl
  | cons e es ih => simp only [Expr.movedList, List.map_cons, ih]

theorem Stmt.movedList_eq_map (ss : List Stmt) : Stmt.movedList k ss = ss.map (·.moved k) := by
  induction ss with
  | nil => rfl
  | cons s ss ih => simp only [Stmt.movedList, List.map_cons, ih]

theorem FunctionDecl.movedList_eq_map (fs : List FunctionDecl) :
    FunctionDecl.movedList k fs = fs.map (·.moved k) := by
  induction fs with
  | nil => rfl
  | cons f fs ih => simp only [FunctionDecl.movedList, List.map_cons, ih]

/-! ### What stays in place -/

/-- Not moved at all. -/
def Shift.none : Shift := ⟨0, 0⟩

theorem Shift.token_none : Shift.none.token = id := rfl

mutual

theorem Expr.moved_none (e : Expr) : e.moved .none = e := by
  match e with
  | .literal _ _ | .var _ _ | .this _ _ | .super _ _ _ => rfl
  | .grouping _ a | .unary _ _ a | .assign _ _ a | .get _ a _ =>
    rw [Expr.moved, a.moved_none]
    rfl
  | .binary _ a _ b | .logical _ a _ b | .set _ a _ b | .comma _ a b =>
    rw [Expr.moved, a.moved_none, b.moved_none]
    rfl
  | .call _ a _ as =>
    rw [Expr.moved, a.moved_none, Expr.movedList_none as]
    rfl
  | .ternary _ a b d =>
    rw [Expr.moved, a.moved_none, b.moved_none, d.moved_none]
    rfl

theorem Expr.movedList_none (es : List Expr) : Expr.movedList .none es = es := by
  match es with
  | [] => rfl
  | e :: es => rw [Expr.movedList, e.moved_none, Expr.movedList_none es]

end

theorem Expr.option_moved_none (e : Option Expr) : e.map (·.moved .none) = e := by
  cases e with
  | none => rfl
  | some e => exact congrArg some e.moved_none

mutual

theorem Stmt.moved_none (s : Stmt) : s.moved .none = s := by
  match s with
  | .expression e | .print e => rw [Stmt.moved, e.moved_none]
  | .varDecl t e | .returnStmt t e =>
    rw [Stmt.moved, Expr.option_moved_none e]
    rfl
  | .block ss => rw [Stmt.moved, Stmt.movedList_none ss]
  | .ifThen e s | .whileLoop e s => rw [Stmt.moved, e.moved_none, s.moved_none]
  | .ifElse e s u => rw [Stmt.moved, e.moved_none, s.moved_none, u.moved_none]
  | .funDecl f => rw [Stmt.moved, f.moved_none]
  | .classDecl t e fs =>
    rw [Stmt.moved, Expr.option_moved_none e, FunctionDecl.movedList_none fs]
    rfl

theorem Stmt.movedList_none (ss : List Stmt) : Stmt.movedList .none ss = ss := by
  match ss with
  | [] => rfl
  | s :: ss => rw [Stmt.movedList, s.moved_none, Stmt.movedList_none ss]

theorem FunctionDecl.moved_none (f : FunctionDecl) : f.moved .none = f := by
  match f with
  | ⟨t, ts, ss⟩ =>
    rw [FunctionDecl.moved, Stmt.movedList_none ss, Shift.token_none, List.map_id]
    rfl

theorem FunctionDecl.movedList_none (fs : List FunctionDecl) :
    FunctionDecl.movedList .none fs = fs := by
  match fs with
  | [] => rfl
  | f :: fs => rw [FunctionDecl.movedList, f.moved_none, FunctionDecl.movedList_none fs]

end

end Lox
