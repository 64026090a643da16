import Mathlib
import Lox.Proofs.ScopeSafety
import Lox.Proofs.ScopeWalk
import Lox.Proofs.StaticRules
import Lox.Proofs.Steps

/-!
Positions in a program: statements that follow one another up to the end of their scope, with what
they stand in and the place of static scoping there. What a resolved program fulfils it fulfils at
every position.
-/

namespace Lox

open Scoping (distance?)

/-- These statements stand one after the other in the program, inside of these and from this place
on, up to the end of the innermost scope. A branch stands alone. -/
inductive Stands (program : List Stmt) : List Enclosure → Place → List Stmt → Prop
  | program : Stands program [] Place.outermost program
  | rest {around : List Enclosure} {p : Place} {s : Stmt} {ss : List Stmt}
      (outer : Stands program around p (s :: ss)) : Stands program around (s.after p) ss
  | block {around : List Enclosure} {p : Place} {body ss : List Stmt}
      (outer : Stands program around p (.block body :: ss)) :
      Stands program (.block body :: around) (p.enter Table.empty) body
  | ifThen {around : List Enclosure} {p : Place} {condition : Expr} {yes : Stmt} {ss : List Stmt}
      (outer : Stands program around p (.ifThen condition yes :: ss)) : Stands program around p [yes]
  | ifElseYes {around : List Enclosure} {p : Place} {condition : Expr} {yes no : Stmt}
      {ss : List Stmt} (outer : Stands program around p (.ifElse condition yes no :: ss)) :
      Stands program around p [yes]
  | ifElseNo {around : List Enclosure} {p : Place} {condition : Expr} {yes no : Stmt}
      {ss : List Stmt} (outer : Stands program around p (.ifElse condition yes no :: ss)) :
      Stands program around (yes.after p) [no]
  | whileLoop {around : List Enclosure} {p : Place} {condition : Expr} {body : Stmt}
      {ss : List Stmt} (outer : Stands program around p (.whileLoop condition body :: ss)) :
      Stands program around p [body]
  | function {around : List Enclosure} {p : Place} {f : FunctionDecl} {ss : List Stmt}
      (outer : Stands program around p (.funDecl f :: ss)) :
      Stands program (.function f :: around)
        (((p.hold f.name.lexeme true).inFunction .function).enter (parameterFrame f.parameters))
        f.body
  | method {around : List Enclosure} {p : Place} {name : Token} {superclass : Option Expr}
      {methods : List FunctionDecl} {f : FunctionDecl} {ss : List Stmt}
      (outer : Stands program around p (.classDecl name superclass methods :: ss))
      (isMethod : f ∈ methods) :
      Stands program (.method f :: .class_ superclass :: around)
        (((((p.hold name.lexeme true).ofMethods superclass.isSome).enter thisFrame).inFunction
          (Scoping.methodContext f.name)).enter (parameterFrame f.parameters)) f.body

/-- The place of the expressions of a statement. -/
def Stmt.inner (p : Place) : Stmt → Place
  | .varDecl name _ => p.hold name.lexeme false
  | .classDecl name _ _ => (p.hold name.lexeme true).inClass .derived
  | _ => p

section Lists

variable {R : ExprId → Option Nat → Prop} {P : Token → Prop} {p : Place} {fs : List FunctionDecl}
  {f : FunctionDecl}

theorem FunctionDecl.Scoped.stmts (inside : f.Scoped R p) :
    Stmt.ScopedList R (p.enter (parameterFrame f.parameters)) f.body := by
  obtain ⟨name, parameters, body⟩ := f
  exact inside.2

theorem FunctionDecl.Formed.stmts (formed : f.Formed P) : Stmt.FormedList P f.body := by
  obtain ⟨name, parameters, body⟩ := f
  exact formed.2.2

theorem FunctionDecl.Formed.named (formed : f.Formed P) :
    f.name.IsName P ∧ ∀ t ∈ f.parameters, t.IsName P := by
  obtain ⟨name, parameters, body⟩ := f
  exact ⟨formed.1, formed.2.1⟩

theorem Stmt.Scoped.methods {name : Token} {superclass : Option Expr}
    (inside : (Stmt.classDecl name superclass fs).Scoped R p) :
    FunctionDecl.ScopedList R
      (((p.hold name.lexeme true).ofMethods superclass.isSome).enter thisFrame) fs := by
  cases superclass with
  | none => exact inside.2
  | some e => exact inside.2.2

end Lists

namespace Stands

variable {program : List Stmt} {around : List Enclosure} {p : Place} {ss : List Stmt}

theorem occurs (stands : Stands program around p ss) : ∀ s ∈ ss, Occurs program around s := by
  induction stands with
  | program => exact fun s among => .top among
  | rest _ ih => exact fun s among => ih s (List.mem_cons_of_mem _ among)
  | block _ ih => exact fun s among => .block (ih _ List.mem_cons_self) among
  | ifThen _ ih =>
    intro s among
    obtain rfl := List.mem_singleton.1 among
    exact .ifThen (ih _ List.mem_cons_self)
  | ifElseYes _ ih =>
    intro s among
    obtain rfl := List.mem_singleton.1 among
    exact .ifElseYes (ih _ List.mem_cons_self)
  | ifElseNo _ ih =>
    intro s among
    obtain rfl := List.mem_singleton.1 among
    exact .ifElseNo (ih _ List.mem_cons_self)
  | whileLoop _ ih =>
    intro s among
    obtain rfl := List.mem_singleton.1 among
    exact .whileLoop (ih _ List.mem_cons_self)
  | function _ ih => exact fun s among => .function (ih _ List.mem_cons_self) among
  | method _ isMethod ih => exact fun s among => .method (ih _ List.mem_cons_self) isMethod among

theorem resolved {R : ExprId → Option Nat → Prop} (stands : Stands program around p ss)
    (inside : Stmt.ScopedList R Place.outermost program) : Stmt.ScopedList R p ss := by
  induction stands with
  | program => exact inside
  | rest _ ih => exact ih.2
  | block _ ih => exact ih.1
  | ifThen _ ih | whileLoop _ ih => exact ⟨ih.1.2, trivial⟩
  | ifElseYes _ ih => exact ⟨ih.1.2.1, trivial⟩
  | ifElseNo _ ih => exact ⟨ih.1.2.2, trivial⟩
  | function _ ih => exact ih.1.2.stmts
  | method _ isMethod ih => exact (ih.1.methods.member isMethod).stmts

theorem formed {P : Token → Prop} (stands : Stands program around p ss)
    (formed : Stmt.FormedList P program) : Stmt.FormedList P ss := by
  induction stands with
  | program => exact formed
  | rest _ ih => exact ih.2
  | block _ ih => exact ih.1
  | ifThen _ ih | whileLoop _ ih => exact ⟨ih.1.2.1, trivial⟩
  | ifElseYes _ ih => exact ⟨ih.1.2.1.1, trivial⟩
  | ifElseNo _ ih => exact ⟨ih.1.2.2.1, trivial⟩
  | function _ ih => exact FunctionDecl.Formed.stmts ih.1
  | method _ isMethod ih => exact (ih.1.className.2.member isMethod).stmts

/-- Every name in scope is defined at a position of statements. -/
theorem settled (stands : Stands program around p ss) : p.Settled := by
  induction stands with
  | program =>
    intro frame member
    cases member
  | @rest _ _ s _ _ ih => exact s.after_settled ih
  | block _ ih =>
    apply ih.enter
    intro name b found
    cases found
  | ifThen _ ih | ifElseYes _ ih | whileLoop _ ih => exact ih
  | @ifElseNo _ _ _ yes _ _ _ ih => exact yes.after_settled ih
  | function _ ih =>
    exact Place.Settled.enter (p := (Place.hold _ _ true).inFunction .function) (ih.hold _)
      (settled_parameterFrame _)
  | @method around p name superclass methods f ss _ _ ih =>
    have inClass : ((p.hold name.lexeme true).ofMethods superclass.isSome).Settled := by
      cases superclass with
      | none => exact ih.hold _
      | some e =>
        exact Place.Settled.enter (p := (p.hold name.lexeme true).inClass .derived) (ih.hold _)
          settled_superFrame
    have inThis := inClass.enter settled_thisFrame
    exact Place.Settled.enter
      (p := Place.inFunction (Place.enter _ thisFrame) (Scoping.methodContext f.name)) inThis
      (settled_parameterFrame _)

end Stands

/-! ### Parts of expressions -/

theorem Expr.scopedList_iff {R : ExprId → Option Nat → Prop} {p : Place} {es : List Expr} :
    Expr.ScopedList R p es ↔ ∀ e ∈ es, e.Scoped R p := by
  induction es with
  | nil => simp [Expr.ScopedList]
  | cons e es ih => rw [Expr.ScopedList, ih, List.forall_mem_cons]

theorem Expr.Scoped.part {R : ExprId → Option Nat → Prop} {p : Place} {e part : Expr}
    (held : e.Scoped R p) (inside : part ∈ e.parts) : part.Scoped R p := by
  refine Expr.inward (P := fun e => e.Scoped R p) (fun e held c among => ?_) held inside
  cases e with
  | literal | var | this | super => cases among
  | call =>
    exact List.forall_mem_cons.2 ⟨held.1, Expr.scopedList_iff.1 held.2⟩ c among
  | _ =>
    simp only [Expr.Scoped, Expr.children, List.mem_cons, List.not_mem_nil, or_false] at held among
    grind

/-- How a step lies in the expression that starts it: it is set to work on an expression right
inside, or, after this has been evaluated, on another one, on arguments, or on a call. -/
inductive Step.Inside (fuel : Nat) (e : Expr) (m : Machine) : Step → Prop
  | first {k : Nat} {c : Expr} (inside : c ∈ e.children) : Inside fuel e m ⟨k, .expr c, m⟩
  | next {k l : Nat} {c d : Expr} {v : Value} {n : Machine}
      (starts : Starts ⟨fuel, .expr e, m⟩ ⟨k, .expr c, m⟩) (inside : c ∈ e.children)
      (run : Run.evaluate k c m = .ok v n) (inside' : d ∈ e.children) :
      Inside fuel e m ⟨l, .expr d, n⟩
  | arguments {k l : Nat} {c : Expr} {args : List Expr} {v : Value} {n : Machine}
      (starts : Starts ⟨fuel, .expr e, m⟩ ⟨k, .expr c, m⟩) (inside : c ∈ e.children)
      (run : Run.evaluate k c m = .ok v n) (inside' : args ⊆ e.children) :
      Inside fuel e m ⟨l, .exprs args, n⟩
  | call {k line : Nat} {c : Expr} {args : List Expr} {v : Value} {vs : List Value} {n o : Machine}
      (starts : Starts ⟨fuel, .expr e, m⟩ ⟨k, .expr c, m⟩) (inside : c ∈ e.children)
      (run : Run.evaluate k c m = .ok v n)
      (starts' : Starts ⟨fuel, .expr e, m⟩ ⟨k, .exprs args, n⟩) (inside' : args ⊆ e.children)
      (run' : Run.arguments (Run.evaluate k) args n = .ok vs o) :
      Inside fuel e m ⟨k, .call line vs v, o⟩

theorem Step.Starts.inside {fuel : Nat} {e : Expr} {m : Machine} {part : Step}
    (starts : Starts ⟨fuel, .expr e, m⟩ part) : Inside fuel e m part := by
  cases starts with
  | grouping | unary | binaryLeft | logicalLeft | assigned | callee | getObject | setObject
  | commaLeft | ternaryCondition => exact .first List.mem_cons_self
  | binaryRight first | logicalRight first | setValue first | commaRight first
  | ternaryThen first | ternaryElse first =>
    exact .next (by constructor) List.mem_cons_self first (by simp [Expr.children])
  | arguments first callable =>
    exact .arguments .callee List.mem_cons_self first (List.subset_cons_self _ _)
  | called first second fits =>
    exact .call .callee List.mem_cons_self first (.arguments first fits)
      (List.subset_cons_self _ _) second

end Lox
