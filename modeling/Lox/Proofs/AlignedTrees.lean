import Lox.Machine
import Lox.Syntax.Renumbered
import Lox.Proofs.ScopeInvariant

/-!
Two scope chains that are the same but for scopes that only one of them has. An alignment tells, from
the inside out, which of the chains have a scope; a tree is aligned if each use in it is recorded,
for the tree itself and for its copy with other ids, at distances that lead to one common scope.
-/

namespace Lox

open Scoping (distance?)

/-- The chains that have a scope. -/
inductive Level where
  | both | left | right
  deriving DecidableEq

abbrev Alignment := List Level

namespace Alignment

/-- These distances in the left and in the right chain lead to the same common scope. -/
inductive Meets : Alignment → Nat → Nat → Prop
  | here {a : Alignment} : Meets (.both :: a) 0 0
  | both {a : Alignment} {d d' : Nat} (meets : Meets a d d') : Meets (.both :: a) (d + 1) (d' + 1)
  | left {a : Alignment} {d d' : Nat} (meets : Meets a d d') : Meets (.left :: a) (d + 1) d'
  | right {a : Alignment} {d d' : Nat} (meets : Meets a d d') : Meets (.right :: a) d (d' + 1)

/-- Two uses belong to the same common scope, or both to the global one. -/
def Corresponds (a : Alignment) : Option Nat → Option Nat → Prop
  | some d, some d' => a.Meets d d'
  | none, none => True
  | _, _ => False

/-- A declaration goes to a scope that both chains have. -/
def Opens : Alignment → Prop
  | [] => True
  | level :: _ => level = .both

/-- A name is found in the left and in the right frames alike; a frame that only one side has is
empty. -/
inductive Frames : Alignment → List Frame → List Frame → Prop
  | nil : Frames [] [] []
  | both {a : Alignment} {F F' : List Frame} (frame : Frame) (outer : Frames a F F') :
      Frames (.both :: a) (frame :: F) (frame :: F')
  | left {a : Alignment} {F F' : List Frame} (outer : Frames a F F') :
      Frames (.left :: a) (Table.empty :: F) F'
  | right {a : Alignment} {F F' : List Frame} (outer : Frames a F F') :
      Frames (.right :: a) F (Table.empty :: F')

/-- Two places that differ in their scopes only as the alignment tells. -/
structure Places (a : Alignment) (p p' : Place) : Prop where
  frames : a.Frames p.frames p'.frames
  left : p.Proper
  right : p'.Proper

end Alignment

def Distances.Records (D : Distances) (id : ExprId) (d : Option Nat) : Prop := D[id]? = d

/-- What is recorded for a tree and for its copy. -/
structure TwoDistances where
  left : Distances
  right : Distances

section Aligned

variable (D : TwoDistances) (f : ExprId → ExprId)

mutual

def Expr.Aligned (a : Alignment) : Expr → Prop
  | .literal _ _ => True
  | .grouping _ inner => inner.Aligned a
  | .unary _ _ operand => operand.Aligned a
  | .binary _ left _ right => left.Aligned a ∧ right.Aligned a
  | .logical _ left _ right => left.Aligned a ∧ right.Aligned a
  | .assign id _ value => value.Aligned a ∧ a.Corresponds D.left[id]? D.right[f id]?
  | .var id _ => a.Corresponds D.left[id]? D.right[f id]?
  | .call _ callee _ arguments => callee.Aligned a ∧ Expr.AlignedList a arguments
  | .get _ object _ => object.Aligned a
  | .set _ object _ value => object.Aligned a ∧ value.Aligned a
  | .this id _ => a.Corresponds D.left[id]? D.right[f id]?
  | .super id _ _ => ∃ d d', D.left[id]? = some (d + 1) ∧ D.right[f id]? = some (d' + 1) ∧
      a.Meets (d + 1) (d' + 1) ∧ a.Meets d d'
  | .comma _ left right => left.Aligned a ∧ right.Aligned a
  | .ternary _ condition yes no => condition.Aligned a ∧ yes.Aligned a ∧ no.Aligned a

def Expr.AlignedList (a : Alignment) : List Expr → Prop
  | [] => True
  | e :: es => e.Aligned a ∧ Expr.AlignedList a es

end

mutual

def Stmt.Aligned (a : Alignment) : Stmt → Prop
  | .expression e => e.Aligned D f a
  | .print e => e.Aligned D f a
  | .varDecl _ none => a.Opens
  | .varDecl _ (some e) => a.Opens ∧ e.Aligned D f a
  | .block body => Stmt.AlignedList (.both :: a) body
  | .ifThen condition yes => condition.Aligned D f a ∧ yes.Aligned a
  | .ifElse condition yes no => condition.Aligned D f a ∧ yes.Aligned a ∧ no.Aligned a
  | .whileLoop condition body => condition.Aligned D f a ∧ body.Aligned a
  | .funDecl function => a.Opens ∧ function.Aligned a
  | .returnStmt _ none => True
  | .returnStmt _ (some e) => e.Aligned D f a
  | .classDecl _ none methods => a.Opens ∧ FunctionDecl.AlignedList (.both :: a) methods
  | .classDecl _ (some e) methods =>
      a.Opens ∧ e.Aligned D f a ∧ FunctionDecl.AlignedList (.both :: .both :: a) methods

def Stmt.AlignedList (a : Alignment) : List Stmt → Prop
  | [] => True
  | s :: ss => s.Aligned a ∧ Stmt.AlignedList a ss

def FunctionDecl.Aligned (a : Alignment) : FunctionDecl → Prop
  | ⟨_, _, body⟩ => Stmt.AlignedList (.both :: a) body

def FunctionDecl.AlignedList (a : Alignment) : List FunctionDecl → Prop
  | [] => True
  | d :: ds => d.Aligned a ∧ FunctionDecl.AlignedList a ds

end

end Aligned

/-! ### Distances in frames that are aligned -/

namespace Alignment

variable {a : Alignment} {o o' : Option Nat} {F F' : List Frame} {p p' : Place} {name : String}

theorem Corresponds.cases (same : a.Corresponds o o') :
    (o = none ∧ o' = none) ∨ ∃ d d', o = some d ∧ o' = some d' ∧ a.Meets d d' := by
  match o, o', same with
  | some d, some d', meets => exact .inr ⟨d, d', rfl, rfl, meets⟩
  | none, none, _ => exact .inl ⟨rfl, rfl⟩

theorem Corresponds.both (same : a.Corresponds o o') :
    Corresponds (.both :: a) (o.map (· + 1)) (o'.map (· + 1)) := by
  match o, o', same with
  | some _, some _, meets => exact Meets.both meets
  | none, none, _ => exact trivial

theorem Corresponds.left (same : a.Corresponds o o') :
    Corresponds (.left :: a) (o.map (· + 1)) o' := by
  match o, o', same with
  | some _, some _, meets => exact Meets.left meets
  | none, none, _ => exact trivial

theorem Corresponds.right (same : a.Corresponds o o') :
    Corresponds (.right :: a) o (o'.map (· + 1)) := by
  match o, o', same with
  | some _, some _, meets => exact Meets.right meets
  | none, none, _ => exact trivial

theorem Frames.corresponds (frames : a.Frames F F') (name : String) :
    a.Corresponds (distance? F name) (distance? F' name) := by
  have inner (frame : Frame) (F : List Frame) : distance? (frame :: F) name =
      if frame.contains name then some 0 else (distance? F name).map (· + 1) :=
    Place.distance?_enter ⟨F, .outside, .outside⟩ frame name
  have empty : Table.contains (Table.empty : Frame) name = false := rfl
  induction frames with
  | nil => exact trivial
  | both frame outer ih =>
    rw [inner, inner]
    split
    · exact Meets.here
    · exact ih.both
  | left outer ih =>
    rw [inner, empty]
    exact ih.left
  | right outer ih =>
    rw [inner Table.empty, empty]
    exact ih.right

theorem Frames.hold (frames : a.Frames p.frames p'.frames) (opens : a.Opens) (name : String)
    (b : Bool) : a.Frames (p.hold name b).frames (p'.hold name b).frames := by
  obtain ⟨F, context, class_⟩ := p
  obtain ⟨F', context', class_'⟩ := p'
  cases frames with
  | nil => exact .nil
  | both frame outer => exact .both _ outer
  | left outer => cases opens
  | right outer => cases opens

/-- Both chains have all of so many scopes. -/
def even (n : Nat) : Alignment := List.replicate n .both

theorem Frames.same (F : List Frame) : (even F.length).Frames F F := by
  induction F with
  | nil => exact .nil
  | cons frame F ih => exact .both frame ih

theorem Places.same (proper : p.Proper) : (even p.frames.length).Places p p :=
  ⟨.same p.frames, proper, proper⟩

namespace Places

variable (places : a.Places p p')
include places

theorem hold (opens : a.Opens) {t : Token} (isName : t.IsName Token.Spelled) (b : Bool) :
    a.Places (p.hold t.lexeme b) (p'.hold t.lexeme b) :=
  ⟨places.frames.hold opens _ b, places.left.hold isName.ne_this isName.ne_super b,
    places.right.hold isName.ne_this isName.ne_super b⟩

theorem enter {frame : Frame} (this : frame.get? "this" = none)
    (super : frame.get? "super" = none) :
    Places (.both :: a) (p.enter frame) (p'.enter frame) :=
  ⟨.both frame places.frames, places.left.enter this super, places.right.enter this super⟩

theorem enterEmpty : Places (.both :: a) (p.enter Table.empty) (p'.enter Table.empty) :=
  places.enter rfl rfl

theorem enterLeft : Places (.left :: a) (p.enter Table.empty) p' :=
  ⟨.left places.frames, places.left.enter rfl rfl, places.right⟩

theorem enterRight : Places (.right :: a) p (p'.enter Table.empty) :=
  ⟨.right places.frames, places.left, places.right.enter rfl rfl⟩

theorem function {t : Token} {ts : List Token} {body : List Stmt} (context context' : FunctionContext)
    (formed : (FunctionDecl.mk t ts body).Formed Token.Spelled) :
    Places (.both :: a) ((p.inFunction context).enter (parameterFrame ts))
      ((p'.inFunction context').enter (parameterFrame ts)) := by
  have fresh {name : String} (differ : ∀ t ∈ ts, t.lexeme ≠ name) :
      (parameterFrame ts).get? name = none := parameterFrame_get?_none differ
  have inside : a.Places (p.inFunction context) (p'.inFunction context') :=
    ⟨places.frames, places.left, places.right⟩
  exact inside.enter (fresh fun t among => (formed.2.1 t among).ne_this)
    (fresh fun t among => (formed.2.1 t among).ne_super)

/-- A statement declares in a scope of both chains, or it declares nothing. -/
theorem after {s : Stmt} (formed : s.Formed Token.Spelled) (opens : a.Opens ∨ s.isBranch = true) :
    a.Places (s.after p) (s.after p') := by
  cases s with
  | varDecl t e =>
    simp only [Stmt.after]
    have isName : t.IsName Token.Spelled := by
      cases e with
      | none => exact formed
      | some e => exact formed.1
    exact places.hold (opens.resolve_right (by simp [Stmt.isBranch])) isName true
  | funDecl d =>
    obtain ⟨t, ts, body⟩ := d
    simp only [Stmt.after]
    exact places.hold (opens.resolve_right (by simp [Stmt.isBranch])) formed.1 true
  | classDecl t e ds =>
    simp only [Stmt.after]
    exact places.hold (opens.resolve_right (by simp [Stmt.isBranch])) formed.className.1 true
  | _ =>
    rw [Stmt.after_branch _ formed rfl, Stmt.after_branch _ formed rfl]
    exact places

end Places

end Alignment

/-- What follows a statement does not depend on ids. -/
theorem Stmt.after_renumber (f : ExprId → ExprId) (s : Stmt) (p : Place) :
    (s.renumber f).after p = s.after p := by
  match s with
  | .expression _ | .print _ | .block _ | .returnStmt _ _ | .varDecl _ _ | .classDecl _ _ _ =>
    simp only [Stmt.renumber, Stmt.after]
  | .funDecl ⟨_, _, _⟩ => simp only [Stmt.renumber, FunctionDecl.renumber, Stmt.after]
  | .ifThen _ yes | .whileLoop _ yes =>
    simp only [Stmt.renumber, Stmt.after]
    exact yes.after_renumber f p
  | .ifElse _ yes no =>
    simp only [Stmt.renumber, Stmt.after, yes.after_renumber f p]
    exact no.after_renumber f _

mutual

theorem Expr.renumber_same (e : Expr) : e.renumber (fun i => i) = e := by
  match e with
  | .literal _ _ | .var _ _ | .this _ _ | .super _ _ _ => simp only [Expr.renumber]
  | .grouping _ b | .unary _ _ b | .assign _ _ b | .get _ b _ =>
    simp only [Expr.renumber, b.renumber_same]
  | .binary _ b _ c | .logical _ b _ c | .set _ b _ c | .comma _ b c =>
    simp only [Expr.renumber, b.renumber_same, c.renumber_same]
  | .call _ b _ cs => simp only [Expr.renumber, b.renumber_same, Expr.renumberList_same cs]
  | .ternary _ b c d =>
    simp only [Expr.renumber, b.renumber_same, c.renumber_same, d.renumber_same]

theorem Expr.renumberList_same (es : List Expr) : Expr.renumberList (fun i => i) es = es := by
  match es with
  | [] => simp only [Expr.renumberList]
  | e :: es => simp only [Expr.renumberList, e.renumber_same, Expr.renumberList_same es]

end

mutual

theorem Stmt.renumber_same (s : Stmt) : s.renumber (fun i => i) = s := by
  match s with
  | .expression e | .print e | .varDecl _ (some e) | .returnStmt _ (some e) =>
    simp only [Stmt.renumber, Option.map, e.renumber_same]
  | .varDecl _ none | .returnStmt _ none => simp only [Stmt.renumber, Option.map]
  | .block body => simp only [Stmt.renumber, Stmt.renumberList_same body]
  | .ifThen e s | .whileLoop e s => simp only [Stmt.renumber, e.renumber_same, s.renumber_same]
  | .ifElse e s t => simp only [Stmt.renumber, e.renumber_same, s.renumber_same, t.renumber_same]
  | .funDecl d => simp only [Stmt.renumber, d.renumber_same]
  | .classDecl _ none ds =>
    simp only [Stmt.renumber, Option.map, FunctionDecl.renumberList_same ds]
  | .classDecl _ (some e) ds =>
    simp only [Stmt.renumber, Option.map, e.renumber_same, FunctionDecl.renumberList_same ds]

theorem Stmt.renumberList_same (ss : List Stmt) : Stmt.renumberList (fun i => i) ss = ss := by
  match ss with
  | [] => simp only [Stmt.renumberList]
  | s :: ss => simp only [Stmt.renumberList, s.renumber_same, Stmt.renumberList_same ss]

theorem FunctionDecl.renumber_same (d : FunctionDecl) : d.renumber (fun i => i) = d := by
  match d with
  | ⟨_, _, body⟩ => simp only [FunctionDecl.renumber, Stmt.renumberList_same body]

theorem FunctionDecl.renumberList_same (ds : List FunctionDecl) :
    FunctionDecl.renumberList (fun i => i) ds = ds := by
  match ds with
  | [] => simp only [FunctionDecl.renumberList]
  | d :: ds =>
    simp only [FunctionDecl.renumberList, d.renumber_same, FunctionDecl.renumberList_same ds]

end

mutual

theorem Expr.ids_renumber (f : ExprId → ExprId) (e : Expr) : (e.renumber f).ids = e.ids.map f := by
  match e with
  | .literal _ _ | .var _ _ | .this _ _ | .super _ _ _ =>
    simp only [Expr.renumber, Expr.ids, List.map]
  | .grouping _ b | .unary _ _ b | .assign _ _ b | .get _ b _ =>
    simp only [Expr.renumber, Expr.ids, b.ids_renumber f, List.map_append, List.map]
  | .binary _ b _ c | .logical _ b _ c | .set _ b _ c | .comma _ b c =>
    simp only [Expr.renumber, Expr.ids, b.ids_renumber f, c.ids_renumber f, List.map_append, List.map]
  | .call _ b _ cs =>
    simp only [Expr.renumber, Expr.ids, b.ids_renumber f, Expr.idsList_renumber f cs,
      List.map_append, List.map]
  | .ternary _ b c d =>
    simp only [Expr.renumber, Expr.ids, b.ids_renumber f, c.ids_renumber f, d.ids_renumber f,
      List.map_append, List.map]

theorem Expr.idsList_renumber (f : ExprId → ExprId) (es : List Expr) :
    Expr.idsList (Expr.renumberList f es) = (Expr.idsList es).map f := by
  match es with
  | [] => simp only [Expr.renumberList, Expr.idsList, List.map]
  | e :: es =>
    simp only [Expr.renumberList, Expr.idsList, e.ids_renumber f, Expr.idsList_renumber f es,
      List.map_append]

end

mutual

theorem Stmt.ids_renumber (f : ExprId → ExprId) (s : Stmt) : (s.renumber f).ids = s.ids.map f := by
  match s with
  | .expression e | .print e | .varDecl _ (some e) | .returnStmt _ (some e) =>
    simp only [Stmt.renumber, Option.map, Stmt.ids, e.ids_renumber f]
  | .varDecl _ none | .returnStmt _ none => simp only [Stmt.renumber, Option.map, Stmt.ids, List.map]
  | .block body => simp only [Stmt.renumber, Stmt.ids, Stmt.idsList_renumber f body]
  | .ifThen e s | .whileLoop e s =>
    simp only [Stmt.renumber, Stmt.ids, e.ids_renumber f, s.ids_renumber f, List.map_append]
  | .ifElse e s t =>
    simp only [Stmt.renumber, Stmt.ids, e.ids_renumber f, s.ids_renumber f, t.ids_renumber f,
      List.map_append]
  | .funDecl d => simp only [Stmt.renumber, Stmt.ids, d.ids_renumber f]
  | .classDecl _ none ds =>
    simp only [Stmt.renumber, Option.map, Stmt.ids, FunctionDecl.idsList_renumber f ds]
  | .classDecl _ (some e) ds =>
    simp only [Stmt.renumber, Option.map, Stmt.ids, e.ids_renumber f,
      FunctionDecl.idsList_renumber f ds, List.map_append]

theorem Stmt.idsList_renumber (f : ExprId → ExprId) (ss : List Stmt) :
    Stmt.idsList (Stmt.renumberList f ss) = (Stmt.idsList ss).map f := by
  match ss with
  | [] => simp only [Stmt.renumberList, Stmt.idsList, List.map]
  | s :: ss =>
    simp only [Stmt.renumberList, Stmt.idsList, s.ids_renumber f, Stmt.idsList_renumber f ss,
      List.map_append]

theorem FunctionDecl.ids_renumber (f : ExprId → ExprId) (d : FunctionDecl) :
    (d.renumber f).ids = d.ids.map f := by
  match d with
  | ⟨_, _, body⟩ =>
    simp only [FunctionDecl.renumber, FunctionDecl.ids, Stmt.idsList_renumber f body]

theorem FunctionDecl.idsList_renumber (f : ExprId → ExprId) (ds : List FunctionDecl) :
    FunctionDecl.idsList (FunctionDecl.renumberList f ds) = (FunctionDecl.idsList ds).map f := by
  match ds with
  | [] => simp only [FunctionDecl.renumberList, FunctionDecl.idsList, List.map]
  | d :: ds =>
    simp only [FunctionDecl.renumberList, FunctionDecl.idsList, d.ids_renumber f,
      FunctionDecl.idsList_renumber f ds, List.map_append]

end

/-! ### Trees that are well scoped at both places -/

section Scoped

variable {D : TwoDistances} {f : ExprId → ExprId}

theorem Alignment.Frames.recorded {a : Alignment} {F F' : List Frame} (frames : a.Frames F F')
    {name : String} {id : ExprId} (left : D.left.Records id (distance? F name))
    (right : D.right.Records (f id) (distance? F' name)) : a.Corresponds D.left[id]? D.right[f id]? := by
  rw [show D.left[id]? = _ from left, show D.right[f id]? = _ from right]
  exact frames.corresponds name

/-- The class and its object are found in scopes that both chains have. -/
theorem Alignment.Places.super {a : Alignment} {p p' : Place} (places : a.Places p p')
    (inside : p.class_ = .derived) (inside' : p'.class_ = .derived) :
    ∃ d d', distance? p.frames "super" = some (d + 1) ∧
      distance? p'.frames "super" = some (d' + 1) ∧ a.Meets (d + 1) (d' + 1) ∧ a.Meets d d' := by
  obtain ⟨d, this, super⟩ := places.left (by simp [inside])
  obtain ⟨d', this', super'⟩ := places.right (by simp [inside'])
  have meetsThis := places.frames.corresponds "this"
  have meetsSuper := places.frames.corresponds "super"
  rw [this.1, this'.1] at meetsThis
  rw [(super inside).1, (super' inside').1] at meetsSuper
  exact ⟨d, d', (super inside).1, (super' inside').1, meetsSuper, meetsThis⟩

mutual

theorem Expr.Scoped.aligned (e : Expr) {a : Alignment} {p p' : Place} (places : a.Places p p')
    (formed : e.Formed Token.Spelled) (left : e.Scoped D.left.Records p)
    (right : (e.renumber f).Scoped D.right.Records p') : e.Aligned D f a := by
  match e with
  | .literal _ _ => exact trivial
  | .grouping _ inner | .get _ inner _ =>
    exact Expr.Scoped.aligned inner places (by first | exact formed | exact formed.1) left right
  | .unary _ _ inner => exact Expr.Scoped.aligned inner places formed.2.2 left right
  | .binary _ b _ c | .logical _ b _ c =>
    exact ⟨Expr.Scoped.aligned b places formed.1 left.1 right.1,
      Expr.Scoped.aligned c places formed.2.2.2 left.2 right.2⟩
  | .comma _ b c =>
    exact ⟨Expr.Scoped.aligned b places formed.1 left.1 right.1,
      Expr.Scoped.aligned c places formed.2 left.2 right.2⟩
  | .set _ b _ c =>
    exact ⟨Expr.Scoped.aligned b places formed.1 left.1 right.1,
      Expr.Scoped.aligned c places formed.2.2 left.2 right.2⟩
  | .assign id t b =>
    exact ⟨Expr.Scoped.aligned b places formed.2 left.1 right.1,
      places.frames.recorded left.2.2 right.2.2⟩
  | .var id t | .this id t => exact places.frames.recorded left.2 right.2
  | .super id t u =>
    obtain ⟨d, d', found, found', meets⟩ := places.super left.1 right.1
    have spelled : t.lexeme = "super" := formed.1.keyword formed.2.1
    have recorded := left.2
    have recorded' := right.2
    rw [spelled, found] at recorded
    rw [spelled, found'] at recorded'
    exact ⟨d, d', recorded, recorded', meets⟩
  | .call _ b _ cs =>
    exact ⟨Expr.Scoped.aligned b places formed.1 left.1 right.1,
      Expr.ScopedList.aligned cs places formed.2.2 left.2 right.2⟩
  | .ternary _ b c d =>
    exact ⟨Expr.Scoped.aligned b places formed.1 left.1 right.1,
      Expr.Scoped.aligned c places formed.2.1 left.2.1 right.2.1,
      Expr.Scoped.aligned d places formed.2.2 left.2.2 right.2.2⟩

theorem Expr.ScopedList.aligned (es : List Expr) {a : Alignment} {p p' : Place}
    (places : a.Places p p') (formed : Expr.FormedList Token.Spelled es)
    (left : Expr.ScopedList D.left.Records p es)
    (right : Expr.ScopedList D.right.Records p' (Expr.renumberList f es)) :
    Expr.AlignedList D f a es := by
  match es with
  | [] => exact trivial
  | e :: es =>
    exact ⟨Expr.Scoped.aligned e places formed.1 left.1 right.1,
      Expr.ScopedList.aligned es places formed.2 left.2 right.2⟩

end

mutual

/-- A statement is aligned that is well scoped at two places. -/
theorem Stmt.Scoped.aligned (s : Stmt) {a : Alignment} {p p' : Place} (places : a.Places p p')
    (formed : s.Formed Token.Spelled) (opens : a.Opens ∨ s.isBranch = true)
    (left : s.Scoped D.left.Records p) (right : (s.renumber f).Scoped D.right.Records p') :
    s.Aligned D f a := by
  match s with
  | .expression e | .print e => exact Expr.Scoped.aligned e places formed left right
  | .varDecl t none => exact opens.resolve_right (by simp [Stmt.isBranch])
  | .varDecl t (some e) =>
    have opened := opens.resolve_right (by simp [Stmt.isBranch])
    exact ⟨opened, Expr.Scoped.aligned e (places.hold opened formed.1 false) formed.2 left.2 right.2⟩
  | .block body => exact Stmt.ScopedList.aligned body places.enterEmpty formed rfl left right
  | .ifThen e yes | .whileLoop e yes =>
    exact ⟨Expr.Scoped.aligned e places formed.1 left.1 right.1,
      Stmt.Scoped.aligned yes places formed.2.1 (.inr formed.2.2) left.2 right.2⟩
  | .ifElse e yes no =>
    have leftNo := left.2.2
    have rightNo := right.2.2
    rw [Stmt.after_renumber] at rightNo
    rw [yes.after_branch formed.2.1.1 formed.2.1.2] at leftNo rightNo
    exact ⟨Expr.Scoped.aligned e places formed.1 left.1 right.1,
      Stmt.Scoped.aligned yes places formed.2.1.1 (.inr formed.2.1.2) left.2.1 right.2.1,
      Stmt.Scoped.aligned no places formed.2.2.1 (.inr formed.2.2.2) leftNo rightNo⟩
  | .funDecl d =>
    have opened := opens.resolve_right (by simp [Stmt.isBranch])
    obtain ⟨t, ts, body⟩ := d
    exact ⟨opened, FunctionDecl.Scoped.aligned ⟨t, ts, body⟩ (places.hold opened formed.1 true)
      .function .function formed left.2 right.2⟩
  | .returnStmt t none => exact trivial
  | .returnStmt t (some e) => exact Expr.Scoped.aligned e places formed.2 left.2 right.2
  | .classDecl t none ds =>
    have opened := opens.resolve_right (by simp [Stmt.isBranch])
    have inside : Alignment.Places (.both :: a)
        (((p.hold t.lexeme true).inClass .base).enter thisFrame)
        (((p'.hold t.lexeme true).inClass .base).enter thisFrame) :=
      ⟨.both _ (places.frames.hold opened _ true), Place.proper_base _, Place.proper_base _⟩
    exact ⟨opened, FunctionDecl.ScopedList.aligned ds inside formed.2 left.2 right.2⟩
  | .classDecl t (some e) ds =>
    have opened := opens.resolve_right (by simp [Stmt.isBranch])
    have held := places.frames.hold opened t.lexeme true
    have inside : Alignment.Places (.both :: .both :: a)
        ((((p.hold t.lexeme true).inClass .derived).enter superFrame).enter thisFrame)
        ((((p'.hold t.lexeme true).inClass .derived).enter superFrame).enter thisFrame) :=
      ⟨.both _ (.both _ held), Place.proper_derived _, Place.proper_derived _⟩
    obtain ⟨id, used, rfl, -⟩ := formed.superclass
    -- At the superclass `this` is not in scope, but it is a name only.
    have parent : (Expr.var id used).Aligned D f a :=
      held.recorded left.2.1.2.2 right.2.1.2.2
    exact ⟨opened, parent, FunctionDecl.ScopedList.aligned ds inside formed.2.2 left.2.2 right.2.2⟩

theorem Stmt.ScopedList.aligned (ss : List Stmt) {a : Alignment} {p p' : Place}
    (places : a.Places p p') (formed : Stmt.FormedList Token.Spelled ss) (opens : a.Opens)
    (left : Stmt.ScopedList D.left.Records p ss)
    (right : Stmt.ScopedList D.right.Records p' (Stmt.renumberList f ss)) :
    Stmt.AlignedList D f a ss := by
  match ss with
  | [] => exact trivial
  | s :: ss =>
    have rest := right.2
    rw [Stmt.after_renumber] at rest
    exact ⟨Stmt.Scoped.aligned s places formed.1 (.inl opens) left.1 right.1,
      Stmt.ScopedList.aligned ss (places.after formed.1 (.inl opens)) formed.2 opens left.2 rest⟩

theorem FunctionDecl.Scoped.aligned (d : FunctionDecl) {a : Alignment} {p p' : Place}
    (places : a.Places p p') (context context' : FunctionContext)
    (formed : d.Formed Token.Spelled) (left : d.Scoped D.left.Records (p.inFunction context))
    (right : (d.renumber f).Scoped D.right.Records (p'.inFunction context')) : d.Aligned D f a := by
  match d with
  | ⟨t, ts, body⟩ =>
    exact Stmt.ScopedList.aligned body (places.function context context' formed) formed.2.2 rfl
      left.2 right.2

theorem FunctionDecl.ScopedList.aligned (ds : List FunctionDecl) {a : Alignment} {p p' : Place}
    (places : a.Places p p') (formed : FunctionDecl.FormedList Token.Spelled ds)
    (left : FunctionDecl.ScopedList D.left.Records p ds)
    (right : FunctionDecl.ScopedList D.right.Records p' (FunctionDecl.renumberList f ds)) :
    FunctionDecl.AlignedList D f a ds := by
  match ds with
  | [] => exact trivial
  | ⟨t, ts, body⟩ :: ds =>
    exact ⟨FunctionDecl.Scoped.aligned ⟨t, ts, body⟩ places _ _ formed.1 left.1 right.1,
      FunctionDecl.ScopedList.aligned ds places formed.2 left.2 right.2⟩

end

end Scoped

end Lox
