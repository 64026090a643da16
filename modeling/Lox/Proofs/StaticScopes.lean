import Lox.Scoping
import Lox.Proofs.Stores
import Lox.Proofs.TreeShapes

/-!
Static scoping told without a walk: what a place in a program is, how a statement changes the place
for those after it, and when a tree is well scoped at a place. `R` says which distance, or none, is
recorded for an id.
-/

namespace Lox

open Scoping (distance?)

/-- The open scopes, and the kinds of function and class body around. -/
structure Place where
  frames : List Frame
  function : FunctionContext
  class_ : ClassContext

def ScopeState.place (s : ScopeState) : Place := ⟨s.frames, s.function, s.class_⟩

namespace Place

def outermost : Place := ⟨[], .outside, .outside⟩

def enter (p : Place) (frame : Frame) : Place := { p with frames := frame :: p.frames }

def inFunction (p : Place) (context : FunctionContext) : Place := { p with function := context }

def inClass (p : Place) (context : ClassContext) : Place := { p with class_ := context }

/-- The innermost scope, if it is not the global one, holds the name from now on. -/
def hold (p : Place) (name : String) (defined : Bool) : Place :=
  match p.frames with
  | [] => p
  | frame :: outer => { p with frames := frame.insert name defined :: outer }

theorem hold_hold (p : Place) (name : String) (a b : Bool) :
    (p.hold name a).hold name b = p.hold name b := by
  obtain ⟨frames, context, class_⟩ := p
  cases frames with
  | nil => rfl
  | cons frame outer => simp [hold, Table.insert_insert]

theorem hold_enter (p : Place) (frame : Frame) (name : String) (b : Bool) :
    (p.enter frame).hold name b = p.enter (frame.insert name b) := rfl

/-- The innermost scope, if it is not the global one, does not hold the name yet. -/
def Vacant (p : Place) (name : String) : Prop :=
  ∀ frame ∈ p.frames.head?, frame.contains name = false

/-- The scope that a use of the name belongs to has it defined. -/
def Defines (p : Place) (name : String) : Prop :=
  ∀ d, distance? p.frames name = some d →
    ∃ frame, p.frames[d]? = some frame ∧ frame.get? name = some true

/-- If the scope that a use of the name belongs to is not the innermost one, it has the name
defined. -/
def DefinesOutside (p : Place) (name : String) : Prop :=
  ∀ d, distance? p.frames name = some (d + 1) →
    ∃ frame, p.frames[d + 1]? = some frame ∧ frame.get? name = some true

end Place

def thisFrame : Frame := Table.empty.insert "this" true

def superFrame : Frame := Table.empty.insert "super" true

def parameterFrame (parameters : List Token) : Frame :=
  Table.empty.insertAll (parameters.map fun t => (t.lexeme, true))

/-- The place of what follows a statement. -/
def Stmt.after (p : Place) : Stmt → Place
  | .varDecl name _ => p.hold name.lexeme true
  | .funDecl f => p.hold f.name.lexeme true
  | .classDecl name _ _ => p.hold name.lexeme true
  | .ifThen _ yes => yes.after p
  | .ifElse _ yes no => no.after (yes.after p)
  | .whileLoop _ body => body.after p
  | _ => p

/-- The expression is not this name. -/
def Expr.Avoids (name : String) : Expr → Prop
  | .var _ used => used.lexeme ≠ name
  | _ => True

section Scoped

variable (R : ExprId → Option Nat → Prop)

mutual

def Expr.Scoped (p : Place) : Expr → Prop
  | .literal _ _ => True
  | .grouping _ inner => inner.Scoped p
  | .unary _ _ operand => operand.Scoped p
  | .binary _ left _ right => left.Scoped p ∧ right.Scoped p
  | .logical _ left _ right => left.Scoped p ∧ right.Scoped p
  | .assign id name value =>
      value.Scoped p ∧ p.DefinesOutside name.lexeme ∧ R id (distance? p.frames name.lexeme)
  | .var id name => p.Defines name.lexeme ∧ R id (distance? p.frames name.lexeme)
  | .call _ callee _ arguments => callee.Scoped p ∧ Expr.ScopedList p arguments
  | .get _ object _ => object.Scoped p
  | .set _ object _ value => object.Scoped p ∧ value.Scoped p
  | .this id keyword => p.class_ ≠ .outside ∧ R id (distance? p.frames keyword.lexeme)
  | .super id keyword _ => p.class_ = .derived ∧ R id (distance? p.frames keyword.lexeme)
  | .comma _ left right => left.Scoped p ∧ right.Scoped p
  | .ternary _ condition yes no => condition.Scoped p ∧ yes.Scoped p ∧ no.Scoped p

def Expr.ScopedList (p : Place) : List Expr → Prop
  | [] => True
  | e :: es => e.Scoped p ∧ Expr.ScopedList p es

end

mutual

def Stmt.Scoped (p : Place) : Stmt → Prop
  | .expression e => e.Scoped R p
  | .print e => e.Scoped R p
  | .varDecl name none => p.Vacant name.lexeme
  | .varDecl name (some e) => p.Vacant name.lexeme ∧ e.Scoped R (p.hold name.lexeme false)
  | .block body => Stmt.ScopedList (p.enter Table.empty) body
  | .ifThen condition yes => condition.Scoped R p ∧ yes.Scoped p
  | .ifElse condition yes no => condition.Scoped R p ∧ yes.Scoped p ∧ no.Scoped (yes.after p)
  | .whileLoop condition body => condition.Scoped R p ∧ body.Scoped p
  | .funDecl f =>
      p.Vacant f.name.lexeme ∧ f.Scoped ((p.hold f.name.lexeme true).inFunction .function)
  | .returnStmt _ none => p.function ≠ .outside
  | .returnStmt _ (some e) => p.function ≠ .outside ∧ e.Scoped R p
  | .classDecl name none methods =>
      p.Vacant name.lexeme ∧
        FunctionDecl.ScopedList (((p.hold name.lexeme true).inClass .base).enter thisFrame) methods
  | .classDecl name (some e) methods =>
      p.Vacant name.lexeme ∧
        (e.Avoids name.lexeme ∧ e.Scoped R ((p.hold name.lexeme true).inClass .derived)) ∧
          FunctionDecl.ScopedList
            ((((p.hold name.lexeme true).inClass .derived).enter superFrame).enter thisFrame) methods

def Stmt.ScopedList (p : Place) : List Stmt → Prop
  | [] => True
  | s :: ss => s.Scoped p ∧ Stmt.ScopedList (s.after p) ss

/-- Parameters and body share one scope. A function can outlive its chunk: for each expression in it
something is recorded. -/
def FunctionDecl.Scoped (p : Place) : FunctionDecl → Prop
  | ⟨_, parameters, body⟩ =>
      (∀ id ∈ Stmt.idsList body, ∃ d, R id d) ∧
        Stmt.ScopedList (p.enter (parameterFrame parameters)) body

def FunctionDecl.ScopedList (p : Place) : List FunctionDecl → Prop
  | [] => True
  | ⟨name, parameters, body⟩ :: fs =>
      FunctionDecl.Scoped (p.inFunction (Scoping.methodContext name)) ⟨name, parameters, body⟩ ∧
        FunctionDecl.ScopedList p fs

end

end Scoped

section Weaker

variable {R R' : ExprId → Option Nat → Prop}

mutual

theorem Expr.Scoped.imp (weaker : ∀ id d, R id d → R' id d) {p : Place} (e : Expr)
    (inside : e.Scoped R p) : e.Scoped R' p := by
  match e with
  | .literal _ _ => exact trivial
  | .grouping _ inner | .unary _ _ inner | .get _ inner _ =>
    exact Expr.Scoped.imp weaker inner inside
  | .binary _ left _ right | .logical _ left _ right | .comma _ left right | .set _ left _ right =>
    exact ⟨Expr.Scoped.imp weaker left inside.1, Expr.Scoped.imp weaker right inside.2⟩
  | .assign id _ value =>
    exact ⟨Expr.Scoped.imp weaker value inside.1, inside.2.1, weaker id _ inside.2.2⟩
  | .var id _ | .this id _ | .super id _ _ => exact ⟨inside.1, weaker id _ inside.2⟩
  | .call _ callee _ arguments =>
    exact ⟨Expr.Scoped.imp weaker callee inside.1, Expr.ScopedList.imp weaker arguments inside.2⟩
  | .ternary _ condition yes no =>
    exact ⟨Expr.Scoped.imp weaker condition inside.1, Expr.Scoped.imp weaker yes inside.2.1,
      Expr.Scoped.imp weaker no inside.2.2⟩

theorem Expr.ScopedList.imp (weaker : ∀ id d, R id d → R' id d) {p : Place} (es : List Expr)
    (inside : Expr.ScopedList R p es) : Expr.ScopedList R' p es := by
  match es with
  | [] => exact trivial
  | e :: es => exact ⟨Expr.Scoped.imp weaker e inside.1, Expr.ScopedList.imp weaker es inside.2⟩

end

mutual

theorem Stmt.Scoped.imp (weaker : ∀ id d, R id d → R' id d) {p : Place} (s : Stmt)
    (inside : s.Scoped R p) : s.Scoped R' p := by
  match s with
  | .expression e | .print e => exact Expr.Scoped.imp weaker e inside
  | .varDecl _ none => exact inside
  | .varDecl _ (some e) => exact ⟨inside.1, Expr.Scoped.imp weaker e inside.2⟩
  | .block body => exact Stmt.ScopedList.imp weaker body inside
  | .ifThen condition yes =>
    exact ⟨Expr.Scoped.imp weaker condition inside.1, Stmt.Scoped.imp weaker yes inside.2⟩
  | .ifElse condition yes no =>
    exact ⟨Expr.Scoped.imp weaker condition inside.1, Stmt.Scoped.imp weaker yes inside.2.1,
      Stmt.Scoped.imp weaker no inside.2.2⟩
  | .whileLoop condition body =>
    exact ⟨Expr.Scoped.imp weaker condition inside.1, Stmt.Scoped.imp weaker body inside.2⟩
  | .funDecl f => exact ⟨inside.1, FunctionDecl.Scoped.imp weaker f inside.2⟩
  | .returnStmt _ none => exact inside
  | .returnStmt _ (some e) => exact ⟨inside.1, Expr.Scoped.imp weaker e inside.2⟩
  | .classDecl _ none methods =>
    exact ⟨inside.1, FunctionDecl.ScopedList.imp weaker methods inside.2⟩
  | .classDecl _ (some e) methods =>
    exact ⟨inside.1, ⟨inside.2.1.1, Expr.Scoped.imp weaker e inside.2.1.2⟩,
      FunctionDecl.ScopedList.imp weaker methods inside.2.2⟩

theorem Stmt.ScopedList.imp (weaker : ∀ id d, R id d → R' id d) {p : Place} (ss : List Stmt)
    (inside : Stmt.ScopedList R p ss) : Stmt.ScopedList R' p ss := by
  match ss with
  | [] => exact trivial
  | s :: ss => exact ⟨Stmt.Scoped.imp weaker s inside.1, Stmt.ScopedList.imp weaker ss inside.2⟩

theorem FunctionDecl.Scoped.imp (weaker : ∀ id d, R id d → R' id d) {p : Place} (f : FunctionDecl)
    (inside : f.Scoped R p) : f.Scoped R' p := by
  match f with
  | ⟨_, _, body⟩ =>
    refine ⟨fun id among => ?_, Stmt.ScopedList.imp weaker body inside.2⟩
    obtain ⟨d, recorded⟩ := inside.1 id among
    exact ⟨d, weaker id d recorded⟩

theorem FunctionDecl.ScopedList.imp (weaker : ∀ id d, R id d → R' id d) {p : Place}
    (fs : List FunctionDecl) (inside : FunctionDecl.ScopedList R p fs) : FunctionDecl.ScopedList R' p fs := by
  match fs with
  | [] => exact trivial
  | ⟨name, parameters, body⟩ :: fs =>
    exact ⟨FunctionDecl.Scoped.imp weaker ⟨name, parameters, body⟩ inside.1,
      FunctionDecl.ScopedList.imp weaker fs inside.2⟩

end

end Weaker

/-- For each expression of a function something is recorded. -/
theorem FunctionDecl.Scoped.recorded {R : ExprId → Option Nat → Prop} {p : Place}
    {f : FunctionDecl} (inside : f.Scoped R p) : ∀ id ∈ f.ids, ∃ d, R id d := by
  obtain ⟨name, parameters, body⟩ := f
  exact inside.1

end Lox
