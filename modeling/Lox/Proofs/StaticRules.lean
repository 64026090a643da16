import Mathlib
import Lox.Scoping

/-!
The static rules of Lox, told by what stands where in a program. A program is lawful if no statement
in it breaks a rule; this is the same as being lawful from the outside in.
-/

namespace Lox

/-! ### What stands where -/

/-- What a statement can stand in. Parameters and body of a function share one scope. -/
inductive Enclosure where
  | block (body : List Stmt)
  | function (f : FunctionDecl)
  | method (f : FunctionDecl)
  | class_ (superclass : Option Expr)

/-- The statement stands in the program inside of these, the innermost first. -/
inductive Occurs (program : List Stmt) : List Enclosure → Stmt → Prop
  | top {s : Stmt} (among : s ∈ program) : Occurs program [] s
  | block {around : List Enclosure} {body : List Stmt} {s : Stmt}
      (outer : Occurs program around (.block body)) (among : s ∈ body) :
      Occurs program (.block body :: around) s
  | ifThen {around : List Enclosure} {condition : Expr} {yes : Stmt}
      (outer : Occurs program around (.ifThen condition yes)) : Occurs program around yes
  | ifElseYes {around : List Enclosure} {condition : Expr} {yes no : Stmt}
      (outer : Occurs program around (.ifElse condition yes no)) : Occurs program around yes
  | ifElseNo {around : List Enclosure} {condition : Expr} {yes no : Stmt}
      (outer : Occurs program around (.ifElse condition yes no)) : Occurs program around no
  | whileLoop {around : List Enclosure} {condition : Expr} {body : Stmt}
      (outer : Occurs program around (.whileLoop condition body)) : Occurs program around body
  | function {around : List Enclosure} {f : FunctionDecl} {s : Stmt}
      (outer : Occurs program around (.funDecl f)) (among : s ∈ f.body) :
      Occurs program (.function f :: around) s
  | method {around : List Enclosure} {name : Token} {superclass : Option Expr}
      {methods : List FunctionDecl} {f : FunctionDecl} {s : Stmt}
      (outer : Occurs program around (.classDecl name superclass methods)) (isMethod : f ∈ methods)
      (among : s ∈ f.body) : Occurs program (.method f :: .class_ superclass :: around) s

mutual

/-- An expression with all the expressions inside it. -/
def Expr.parts : Expr → List Expr
  | .literal id v => [.literal id v]
  | .grouping id inner => .grouping id inner :: inner.parts
  | .unary id operator operand => .unary id operator operand :: operand.parts
  | .binary id left operator right =>
      .binary id left operator right :: (left.parts ++ right.parts)
  | .logical id left operator right =>
      .logical id left operator right :: (left.parts ++ right.parts)
  | .assign id name value => .assign id name value :: value.parts
  | .var id name => [.var id name]
  | .call id callee paren arguments =>
      .call id callee paren arguments :: (callee.parts ++ Expr.partsList arguments)
  | .get id object name => .get id object name :: object.parts
  | .set id object name value => .set id object name value :: (object.parts ++ value.parts)
  | .this id keyword => [.this id keyword]
  | .super id keyword method => [.super id keyword method]
  | .comma id left right => .comma id left right :: (left.parts ++ right.parts)
  | .ternary id condition yes no =>
      .ternary id condition yes no :: (condition.parts ++ yes.parts ++ no.parts)

def Expr.partsList : List Expr → List Expr
  | [] => []
  | e :: es => e.parts ++ Expr.partsList es

end

namespace Expr

/-- The expressions right inside another. -/
def children : Expr → List Expr
  | .literal .. | .var .. | .this .. | .super .. => []
  | .grouping _ e | .unary _ _ e | .assign _ _ e | .get _ e _ => [e]
  | .binary _ e _ e' | .logical _ e _ e' | .comma _ e e' | .set _ e _ e' => [e, e']
  | .call _ e _ es => e :: es
  | .ternary _ e e' e'' => [e, e', e'']

variable {e c part inner : Expr}

theorem partsList_eq (es : List Expr) : partsList es = es.flatMap parts := by
  induction es with
  | nil => rfl
  | cons e es ih => rw [partsList, ih, List.flatMap_cons]

theorem parts_eq (e : Expr) : e.parts = e :: e.children.flatMap parts := by
  cases e <;> simp [parts, children, partsList_eq]

theorem mem_parts (e : Expr) : e ∈ e.parts := by
  rw [parts_eq]
  exact List.mem_cons_self

theorem parts_of_child (among : c ∈ e.children) : c.parts ⊆ e.parts := by
  intro part inside
  rw [parts_eq e]
  exact List.mem_cons_of_mem e (List.mem_flatMap.2 ⟨c, among, inside⟩)

theorem child_mem_parts (among : c ∈ e.children) : c ∈ e.parts := parts_of_child among c.mem_parts

theorem sizeOf_child (e : Expr) : ∀ c ∈ e.children, sizeOf c < sizeOf e := by
  cases e with
  | call _ callee _ arguments =>
    exact List.forall_mem_cons.2 ⟨by decreasing_tactic, fun _ _ => by decreasing_tactic⟩
  | _ => simp [children] <;> omega

/-- What holds of an expression as soon as it holds of those right inside it holds of all. -/
theorem induct {P : Expr → Prop} (each : ∀ e, (∀ c ∈ e.children, P c) → P e) (e : Expr) : P e :=
  each e fun c _ => induct each c
termination_by sizeOf e
decreasing_by exact sizeOf_child e _ ‹_›

/-- What passes from an expression to those right inside it passes to all its parts. -/
theorem inward {P : Expr → Prop} (each : ∀ e, P e → ∀ c ∈ e.children, P c) (held : P e)
    (inside : part ∈ e.parts) : P part := by
  induction e using induct with
  | each e ih =>
    rw [parts_eq] at inside
    rcases List.mem_cons.1 inside with rfl | inside
    · exact held
    · obtain ⟨c, among, inside⟩ := List.mem_flatMap.1 inside
      exact ih c among (each e held c among) inside

theorem parts_trans (inside : part ∈ e.parts) (within : inner ∈ part.parts) : inner ∈ e.parts :=
  inward (P := fun part => part.parts ⊆ e.parts)
    (fun _ inside _ among => List.Subset.trans (parts_of_child among) inside)
    (List.Subset.refl _) inside within

end Expr

namespace Stmt

/-- The expressions of the statement itself, not of those inside it. -/
def exprs : Stmt → List Expr
  | .expression e => [e]
  | .print e => [e]
  | .varDecl _ e => e.toList
  | .ifThen condition _ => [condition]
  | .ifElse condition _ _ => [condition]
  | .whileLoop condition _ => [condition]
  | .returnStmt _ e => e.toList
  | .classDecl _ superclass _ => superclass.toList
  | _ => []

/-- The name that the statement declares in the scope it stands in. -/
def declared : Stmt → List String
  | .varDecl name _ => [name.lexeme]
  | .funDecl f => [f.name.lexeme]
  | .classDecl name _ _ => [name.lexeme]
  | _ => []

end Stmt

/-- The names that the scope of a function declares. -/
def FunctionDecl.names (f : FunctionDecl) : List String :=
  f.parameters.map (·.lexeme) ++ f.body.flatMap Stmt.declared

namespace Enclosure

/-- The kind of the nearest function around. -/
def functionOf : List Enclosure → FunctionContext
  | [] => .outside
  | .function _ :: _ => .function
  | .method f :: _ => if f.name.lexeme = initializerName then .initializer else .method
  | .block _ :: around => functionOf around
  | .class_ _ :: around => functionOf around

/-- The kind of the nearest class around. -/
def classOf : List Enclosure → ClassContext
  | [] => .outside
  | .class_ none :: _ => .base
  | .class_ (some _) :: _ => .derived
  | .block _ :: around => classOf around
  | .function _ :: around => classOf around
  | .method _ :: around => classOf around

end Enclosure

open Enclosure

/-- The statement breaks a rule where it stands. -/
inductive Violates (around : List Enclosure) : Stmt → Prop
  /-- A variable that is not global is read in its own initializer. -/
  | ownInitializer {name used : Token} {e : Expr} {id : ExprId} (inScope : around ≠ [])
      (reads : .var id used ∈ e.parts) (same : used.lexeme = name.lexeme) :
      Violates around (.varDecl name (some e))
  /-- A block declares a name twice. -/
  | blockRedeclares {body : List Stmt} (twice : ¬ (body.flatMap Stmt.declared).Nodup) :
      Violates around (.block body)
  /-- A function declares a name twice, as parameters or in its body. -/
  | functionRedeclares {f : FunctionDecl} (twice : ¬ f.names.Nodup) : Violates around (.funDecl f)
  | methodRedeclares {name : Token} {superclass : Option Expr} {methods : List FunctionDecl}
      {f : FunctionDecl} (isMethod : f ∈ methods) (twice : ¬ f.names.Nodup) :
      Violates around (.classDecl name superclass methods)
  | returnOutside {keyword : Token} {e : Option Expr} (outside : functionOf around = .outside) :
      Violates around (.returnStmt keyword e)
  /-- An initializer returns a value. -/
  | initializerReturns {keyword : Token} {e : Expr} (inside : functionOf around = .initializer) :
      Violates around (.returnStmt keyword (some e))
  | thisOutside {s : Stmt} {e : Expr} {id : ExprId} {keyword : Token} (among : e ∈ s.exprs)
      (used : .this id keyword ∈ e.parts) (outside : classOf around = .outside) :
      Violates around s
  /-- There is no class around, or it has no superclass. -/
  | superOutside {s : Stmt} {e : Expr} {id : ExprId} {keyword method : Token} (among : e ∈ s.exprs)
      (used : .super id keyword method ∈ e.parts) (outside : classOf around ≠ .derived) :
      Violates around s
  /-- A class is its own superclass. -/
  | ownSuperclass {name used : Token} {id : ExprId} {methods : List FunctionDecl}
      (same : used.lexeme = name.lexeme) :
      Violates around (.classDecl name (some (.var id used)) methods)

/-! ### Lawful trees -/

/-- What a statement stands in, as far as the rules ask for it. -/
structure Site where
  inScope : Bool
  function : FunctionContext
  class_ : ClassContext

namespace Site

def top : Site := ⟨false, .outside, .outside⟩

/-- The site inside a scope of its own. -/
def scope (site : Site) : Site := { site with inScope := true }

def inFunction (site : Site) (context : FunctionContext) : Site :=
  { site with inScope := true, function := context }

def inClass (site : Site) (superclass : Option Expr) : Site :=
  { site with inScope := true, class_ := if superclass.isSome then .derived else .base }

def of (around : List Enclosure) : Site := ⟨!around.isEmpty, functionOf around, classOf around⟩

end Site

/-- The uses of `this` and `super` are inside a class that has them. -/
def Expr.Lawful (context : ClassContext) (e : Expr) : Prop :=
  (∀ id keyword, .this id keyword ∈ e.parts → context ≠ .outside) ∧
    ∀ id keyword method, .super id keyword method ∈ e.parts → context = .derived

/-- The expression does not read the variable. -/
def Expr.Unread (name : String) (e : Expr) : Prop :=
  ∀ id used, .var id used ∈ e.parts → used.lexeme ≠ name

mutual

def Stmt.Lawful (site : Site) : Stmt → Prop
  | .expression e => e.Lawful site.class_
  | .print e => e.Lawful site.class_
  | .varDecl _ none => True
  | .varDecl name (some e) =>
      (site.inScope = true → e.Unread name.lexeme) ∧ e.Lawful site.class_
  | .block body => (body.flatMap Stmt.declared).Nodup ∧ Stmt.LawfulList site.scope body
  | .ifThen condition yes => condition.Lawful site.class_ ∧ yes.Lawful site
  | .ifElse condition yes no =>
      condition.Lawful site.class_ ∧ yes.Lawful site ∧ no.Lawful site
  | .whileLoop condition body => condition.Lawful site.class_ ∧ body.Lawful site
  | .funDecl f => f.Lawful (site.inFunction .function)
  | .returnStmt _ none => site.function ≠ .outside
  | .returnStmt _ (some e) =>
      (site.function ≠ .outside ∧ site.function ≠ .initializer) ∧ e.Lawful site.class_
  | .classDecl _ none methods => FunctionDecl.LawfulList (site.inClass none) methods
  | .classDecl name (some e) methods =>
      (∀ id used, e = .var id used → used.lexeme ≠ name.lexeme) ∧ e.Lawful site.class_ ∧
        FunctionDecl.LawfulList (site.inClass (some e)) methods

def Stmt.LawfulList (site : Site) : List Stmt → Prop
  | [] => True
  | s :: ss => s.Lawful site ∧ Stmt.LawfulList site ss

def FunctionDecl.Lawful (site : Site) : FunctionDecl → Prop
  | ⟨name, parameters, body⟩ =>
      (FunctionDecl.names ⟨name, parameters, body⟩).Nodup ∧ Stmt.LawfulList site body

def FunctionDecl.LawfulList (site : Site) : List FunctionDecl → Prop
  | [] => True
  | ⟨name, parameters, body⟩ :: fs =>
      FunctionDecl.Lawful (site.inFunction (Scoping.methodContext name)) ⟨name, parameters, body⟩ ∧
        FunctionDecl.LawfulList site fs

end

theorem Stmt.lawfulList_iff {site : Site} {ss : List Stmt} :
    Stmt.LawfulList site ss ↔ ∀ s ∈ ss, s.Lawful site := by
  induction ss with
  | nil => simp [Stmt.LawfulList]
  | cons s ss ih => simp [Stmt.LawfulList, ih]

theorem FunctionDecl.lawfulList_iff {site : Site} {fs : List FunctionDecl} :
    FunctionDecl.LawfulList site fs ↔
      ∀ f ∈ fs, f.Lawful (site.inFunction (Scoping.methodContext f.name)) := by
  induction fs with
  | nil => simp [FunctionDecl.LawfulList]
  | cons f fs ih =>
    obtain ⟨name, parameters, body⟩ := f
    simp [FunctionDecl.LawfulList, ih]

theorem FunctionDecl.lawful_iff {site : Site} {f : FunctionDecl} :
    f.Lawful site ↔ f.names.Nodup ∧ Stmt.LawfulList site f.body := by
  obtain ⟨name, parameters, body⟩ := f
  rw [FunctionDecl.Lawful]

theorem Site.of_method (around : List Enclosure) (f : FunctionDecl) (superclass : Option Expr) :
    ((Site.of around).inClass superclass).inFunction (Scoping.methodContext f.name) =
      Site.of (.method f :: .class_ superclass :: around) := by
  cases superclass <;> rfl

/-- Whatever stands in a class of a lawful program is lawful. -/
theorem Stmt.Lawful.methods {site : Site} {name : Token} {superclass : Option Expr}
    {methods : List FunctionDecl} (lawful : (Stmt.classDecl name superclass methods).Lawful site) :
    FunctionDecl.LawfulList (site.inClass superclass) methods := by
  cases superclass with
  | none => exact lawful
  | some e => exact lawful.2.2

theorem Occurs.lawful {program : List Stmt} {around : List Enclosure} {s : Stmt}
    (occurs : Occurs program around s) (lawful : Stmt.LawfulList Site.top program) :
    s.Lawful (Site.of around) := by
  induction occurs with
  | top among => exact Stmt.lawfulList_iff.1 lawful _ among
  | block _ among ih => exact Stmt.lawfulList_iff.1 ih.2 _ among
  | ifThen _ ih => exact ih.2
  | ifElseYes _ ih => exact ih.2.1
  | ifElseNo _ ih => exact ih.2.2
  | whileLoop _ ih => exact ih.2
  | function _ among ih => exact Stmt.lawfulList_iff.1 (FunctionDecl.lawful_iff.1 ih).2 _ among
  | @method around _ superclass _ f _ _ isMethod among ih =>
    have method := FunctionDecl.lawfulList_iff.1 ih.methods _ isMethod
    rw [Site.of_method] at method
    exact Stmt.lawfulList_iff.1 (FunctionDecl.lawful_iff.1 method).2 _ among

/-- The expressions of a lawful statement are lawful. -/
theorem Stmt.Lawful.exprs {site : Site} {s : Stmt} (lawful : s.Lawful site) :
    ∀ e ∈ s.exprs, e.Lawful site.class_ := by
  intro e among
  match s with
  | .expression _ | .print _ =>
    obtain rfl := List.mem_singleton.1 among
    exact lawful
  | .ifThen _ _ | .ifElse _ _ _ | .whileLoop _ _ =>
    obtain rfl := List.mem_singleton.1 among
    exact lawful.1
  | .varDecl _ (some _) =>
    obtain rfl := List.mem_singleton.1 among
    exact lawful.2
  | .returnStmt _ (some _) =>
    obtain rfl := List.mem_singleton.1 among
    exact lawful.2
  | .classDecl _ (some _) _ =>
    obtain rfl := List.mem_singleton.1 among
    exact lawful.2.1

theorem Stmt.Lawful.not_violates {around : List Enclosure} {s : Stmt}
    (lawful : s.Lawful (Site.of around)) : ¬ Violates around s := by
  intro violates
  cases violates with
  | ownInitializer inScope reads same =>
    have open_ : (Site.of around).inScope = true := by
      cases around with
      | nil => exact absurd rfl inScope
      | cons => rfl
    exact lawful.1 open_ _ _ reads same
  | blockRedeclares twice => exact twice lawful.1
  | functionRedeclares twice => exact twice (FunctionDecl.lawful_iff.1 lawful).1
  | methodRedeclares isMethod twice =>
    have method := FunctionDecl.lawfulList_iff.1 lawful.methods _ isMethod
    exact twice (FunctionDecl.lawful_iff.1 method).1
  | @returnOutside _ e outside =>
    cases e with
    | none => exact lawful outside
    | some e => exact lawful.1.1 outside
  | initializerReturns inside => exact lawful.1.2 inside
  | thisOutside among used outside => exact (lawful.exprs _ among).1 _ _ used outside
  | superOutside among used outside => exact outside ((lawful.exprs _ among).2 _ _ _ used)
  | ownSuperclass same => exact lawful.1 _ _ rfl same

/-- No statement in the program breaks a rule. -/
def Blameless (program : List Stmt) : Prop :=
  ∀ around s, Occurs program around s → ¬ Violates around s

section Conversely

variable {program : List Stmt}

theorem Blameless.exprs_lawful (clean : Blameless program) {around : List Enclosure}
    {s : Stmt} (occurs : Occurs program around s) {e : Expr} (among : e ∈ s.exprs) :
    e.Lawful (Site.of around).class_ := by
  have fine := clean around s occurs
  refine ⟨fun id keyword used outside => fine (.thisOutside among used outside), ?_⟩
  intro id keyword method used
  by_contra outside
  exact fine (.superOutside among used outside)

mutual

/-- A statement is lawful where it stands if nothing in the program breaks a rule. -/
theorem Stmt.lawful_of_occurs (clean : Blameless program) (s : Stmt) (around : List Enclosure)
    (occurs : Occurs program around s) : s.Lawful (Site.of around) := by
  have fine := clean around s occurs
  match s with
  | .expression e | .print e => exact clean.exprs_lawful occurs (List.mem_singleton.2 rfl)
  | .varDecl name none => exact trivial
  | .varDecl name (some e) =>
    refine ⟨fun open_ id used reads same => ?_,
      clean.exprs_lawful occurs (List.mem_singleton.2 rfl)⟩
    have inScope : around ≠ [] := by
      rintro rfl
      cases open_
    exact fine (.ownInitializer inScope reads same)
  | .block body =>
    refine ⟨?_, Stmt.lawfulList_of_occurs clean body (.block body :: around)
      fun s among => .block occurs among⟩
    by_contra twice
    exact fine (.blockRedeclares twice)
  | .ifThen condition yes =>
    exact ⟨clean.exprs_lawful occurs (List.mem_singleton.2 rfl),
      Stmt.lawful_of_occurs clean yes around (.ifThen occurs)⟩
  | .ifElse condition yes no =>
    exact ⟨clean.exprs_lawful occurs (List.mem_singleton.2 rfl),
      Stmt.lawful_of_occurs clean yes around (.ifElseYes occurs),
      Stmt.lawful_of_occurs clean no around (.ifElseNo occurs)⟩
  | .whileLoop condition body =>
    exact ⟨clean.exprs_lawful occurs (List.mem_singleton.2 rfl),
      Stmt.lawful_of_occurs clean body around (.whileLoop occurs)⟩
  | .funDecl ⟨name, parameters, body⟩ =>
    refine ⟨?_, Stmt.lawfulList_of_occurs clean body (.function ⟨name, parameters, body⟩ :: around)
      fun s among => .function occurs among⟩
    by_contra twice
    exact fine (.functionRedeclares twice)
  | .returnStmt keyword none => exact fun outside => fine (.returnOutside outside)
  | .returnStmt keyword (some e) =>
    exact ⟨⟨fun outside => fine (.returnOutside outside), fun inside => fine (.initializerReturns inside)⟩,
      clean.exprs_lawful occurs (List.mem_singleton.2 rfl)⟩
  | .classDecl name none methods =>
    exact FunctionDecl.lawfulList_of_occurs clean methods around name none methods occurs
      fun f isMethod => isMethod
  | .classDecl name (some e) methods =>
    refine ⟨?_, clean.exprs_lawful occurs (List.mem_singleton.2 rfl),
      FunctionDecl.lawfulList_of_occurs clean methods around name (some e) methods occurs
        fun f isMethod => isMethod⟩
    rintro id used rfl same
    exact fine (.ownSuperclass same)

theorem Stmt.lawfulList_of_occurs (clean : Blameless program) (ss : List Stmt)
    (around : List Enclosure) (occurs : ∀ s ∈ ss, Occurs program around s) :
    Stmt.LawfulList (Site.of around) ss := by
  match ss with
  | [] => exact trivial
  | s :: ss =>
    exact ⟨Stmt.lawful_of_occurs clean s around (occurs s List.mem_cons_self),
      Stmt.lawfulList_of_occurs clean ss around fun s' among => occurs s' (List.mem_cons_of_mem _ among)⟩

theorem FunctionDecl.lawfulList_of_occurs (clean : Blameless program) (fs : List FunctionDecl)
    (around : List Enclosure) (name : Token) (superclass : Option Expr) (methods : List FunctionDecl)
    (occurs : Occurs program around (.classDecl name superclass methods))
    (among : ∀ f ∈ fs, f ∈ methods) :
    FunctionDecl.LawfulList ((Site.of around).inClass superclass) fs := by
  match fs with
  | [] => exact trivial
  | ⟨own, parameters, body⟩ :: fs =>
    have isMethod := among ⟨own, parameters, body⟩ List.mem_cons_self
    have inside := Stmt.lawfulList_of_occurs clean body
      (.method ⟨own, parameters, body⟩ :: .class_ superclass :: around)
      fun s among => .method occurs isMethod among
    have site := Site.of_method around ⟨own, parameters, body⟩ superclass
    refine ⟨⟨?_, site ▸ inside⟩, FunctionDecl.lawfulList_of_occurs clean fs around name superclass
      methods occurs fun f later => among f (List.mem_cons_of_mem _ later)⟩
    by_contra twice
    exact clean around _ occurs (.methodRedeclares isMethod twice)

end

end Conversely

/-- A program is lawful if and only if no statement in it breaks a rule. -/
theorem Stmt.lawful_iff_no_violation (program : List Stmt) :
    Stmt.LawfulList Site.top program ↔ ¬ ∃ around s, Occurs program around s ∧ Violates around s := by
  constructor
  · rintro lawful ⟨around, s, occurs, violates⟩
    exact (occurs.lawful lawful).not_violates violates
  · intro none
    exact Stmt.lawfulList_of_occurs
      (fun around s occurs violates => none ⟨around, s, occurs, violates⟩) program []
      fun s among => .top among

end Lox
