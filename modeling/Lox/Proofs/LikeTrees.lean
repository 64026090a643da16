import Lox.Proofs.TreeShapes
import Mathlib.Data.List.Forall2
import Mathlib.Logic.Equiv.Basic

/-!
Trees that are alike: of one shape, with other ids, lines and names of local variables. A name may
be another one in each scope, as long as no two names of a scope become one; a use is renamed as in
the scope that its recorded distance leads to.
-/

namespace Lox

/-- Other names for those of one scope. What the language binds by itself keeps its name. -/
structure Renaming where
  perm : Equiv.Perm String
  this : perm "this" = "this"
  super : perm "super" = "super"

namespace Renaming

def same : Renaming := ⟨Equiv.refl String, rfl, rfl⟩

@[simp] theorem same_perm (name : String) : same.perm name = name := rfl

/-- The name for a use at this distance, or for a global one. -/
def use (scopes : List Renaming) (distance : Option Nat) (name : String) : String :=
  match distance with
  | none => name
  | some d => (scopes.getD d same).perm name

theorem use_this (scopes : List Renaming) (distance : Option Nat) :
    use scopes distance "this" = "this" := by
  cases distance with
  | none => rfl
  | some d => exact (scopes.getD d same).this

theorem use_super (scopes : List Renaming) (distance : Option Nat) :
    use scopes distance "super" = "super" := by
  cases distance with
  | none => rfl
  | some d => exact (scopes.getD d same).super

/-- The name for a declaration in the innermost scope. -/
def declare (scopes : List Renaming) (name : String) : String := (scopes.headD same).perm name

end Renaming

/-- How the ids and lines of one program go over into those of another. -/
structure Translation where
  /-- The ids of the expressions that there are. -/
  known : ExprId → Prop
  ids : ExprId → ExprId
  /-- The distance recorded for an id. -/
  recorded : ExprId → Option Nat
  /-- Lines of tokens in the expression with this id. -/
  line : ExprId → Nat → Nat
  /-- Lines of the other tokens. -/
  plain : Nat → Nat → Prop
  /-- What scopes are renamed by. -/
  renames : Renaming → Prop

section Like

variable (c : Translation) (scopes : List Renaming)

/-- The same token of the expression `id`, perhaps on another line. -/
structure Token.LikeIn (id : ExprId) (t t' : Token) : Prop where
  kind : t'.kind = t.kind
  lexeme : t'.lexeme = t.lexeme
  line : t'.line = c.line id t.line

/-- A use of a name. -/
structure Token.LikeUse (id : ExprId) (t t' : Token) : Prop where
  kind : t'.kind = t.kind
  lexeme : t'.lexeme = Renaming.use scopes (c.recorded id) t.lexeme
  line : t'.line = c.line id t.line

/-- A declaration of a variable. -/
structure Token.LikeDeclaration (t t' : Token) : Prop where
  kind : t'.kind = t.kind
  lexeme : t'.lexeme = Renaming.declare scopes t.lexeme
  line : c.plain t.line t'.line

/-- A token that is not of an expression, and no name of a variable. -/
structure Token.LikePlain (t t' : Token) : Prop where
  kind : t'.kind = t.kind
  lexeme : t'.lexeme = t.lexeme
  line : c.plain t.line t'.line

/-- Functions and classes tell their names, so these are never changed. -/
structure Token.LikeName (t t' : Token) : Prop extends t.LikePlain c t' where
  kept : Renaming.declare scopes t.lexeme = t.lexeme

mutual

def Expr.Like : Expr → Expr → Prop
  | .literal id v, e' => e' = .literal (c.ids id) v
  | .grouping id a, e' => ∃ a', e' = .grouping (c.ids id) a' ∧ a.Like a'
  | .unary id t a, e' =>
      ∃ t' a', e' = .unary (c.ids id) t' a' ∧ t.LikeIn c id t' ∧ a.Like a'
  | .binary id a t b, e' =>
      ∃ a' t' b', e' = .binary (c.ids id) a' t' b' ∧ a.Like a' ∧ t.LikeIn c id t' ∧ b.Like b'
  | .logical id a t b, e' =>
      ∃ a' t' b', e' = .logical (c.ids id) a' t' b' ∧ a.Like a' ∧ t.LikeIn c id t' ∧ b.Like b'
  | .assign id t a, e' =>
      ∃ t' a', e' = .assign (c.ids id) t' a' ∧ t.LikeUse c scopes id t' ∧ a.Like a'
  | .var id t, e' => ∃ t', e' = .var (c.ids id) t' ∧ t.LikeUse c scopes id t'
  | .call id a t as, e' =>
      ∃ a' t' as', e' = .call (c.ids id) a' t' as' ∧ a.Like a' ∧ t.LikeIn c id t' ∧
        Expr.LikeList as as'
  | .get id a t, e' => ∃ a' t', e' = .get (c.ids id) a' t' ∧ a.Like a' ∧ t.LikeIn c id t'
  | .set id a t b, e' =>
      ∃ a' t' b', e' = .set (c.ids id) a' t' b' ∧ a.Like a' ∧ t.LikeIn c id t' ∧ b.Like b'
  | .this id t, e' => ∃ t', e' = .this (c.ids id) t' ∧ t.LikeUse c scopes id t'
  | .super id t u, e' =>
      ∃ t' u', e' = .super (c.ids id) t' u' ∧ t.LikeUse c scopes id t' ∧ u.LikeIn c id u'
  | .comma id a b, e' => ∃ a' b', e' = .comma (c.ids id) a' b' ∧ a.Like a' ∧ b.Like b'
  | .ternary id a b d, e' =>
      ∃ a' b' d', e' = .ternary (c.ids id) a' b' d' ∧ a.Like a' ∧ b.Like b' ∧ d.Like d'

def Expr.LikeList : List Expr → List Expr → Prop
  | [], es' => es' = []
  | e :: es, es' => ∃ e' fs', es' = e' :: fs' ∧ e.Like e' ∧ Expr.LikeList es fs'

end

end Like

section Like

variable (c : Translation)

mutual

def Stmt.Like (scopes : List Renaming) : Stmt → Stmt → Prop
  | .expression e, s' => ∃ e', s' = .expression e' ∧ e.Like c scopes e'
  | .print e, s' => ∃ e', s' = .print e' ∧ e.Like c scopes e'
  | .varDecl t none, s' => ∃ t', s' = .varDecl t' none ∧ t.LikeDeclaration c scopes t'
  | .varDecl t (some e), s' =>
      ∃ t' e', s' = .varDecl t' (some e') ∧ t.LikeDeclaration c scopes t' ∧ e.Like c scopes e'
  | .block ss, s' =>
      ∃ (π : Renaming) (ss' : List Stmt),
        s' = .block ss' ∧ c.renames π ∧ Stmt.LikeList (π :: scopes) ss ss'
  | .ifThen e s, s' =>
      ∃ e' u', s' = .ifThen e' u' ∧ e.Like c scopes e' ∧ s.Like scopes u'
  | .ifElse e s u, s' =>
      ∃ e' v' u', s' = .ifElse e' v' u' ∧ e.Like c scopes e' ∧ s.Like scopes v' ∧
        u.Like scopes u'
  | .whileLoop e s, s' =>
      ∃ e' u', s' = .whileLoop e' u' ∧ e.Like c scopes e' ∧ s.Like scopes u'
  | .funDecl f, s' =>
      ∃ f', s' = .funDecl f' ∧ f.name.LikeName c scopes f'.name ∧ f.Like scopes f'
  | .returnStmt t none, s' => ∃ t', s' = .returnStmt t' none ∧ t.LikePlain c t'
  | .returnStmt t (some e), s' =>
      ∃ t' e', s' = .returnStmt t' (some e') ∧ t.LikePlain c t' ∧ e.Like c scopes e'
  | .classDecl t none fs, s' =>
      ∃ t' fs', s' = .classDecl t' none fs' ∧ t.LikeName c scopes t' ∧
        FunctionDecl.LikeList (Renaming.same :: scopes) fs fs'
  | .classDecl t (some e) fs, s' =>
      ∃ t' e' fs', s' = .classDecl t' (some e') fs' ∧ t.LikeName c scopes t' ∧
        ((∃ id used, e = .var id used) ∧ e.Like c scopes e') ∧
          FunctionDecl.LikeList (Renaming.same :: Renaming.same :: scopes) fs fs'
termination_by structural s => s

def Stmt.LikeList (scopes : List Renaming) : List Stmt → List Stmt → Prop
  | [], ss' => ss' = []
  | s :: ss, ss' => ∃ s' us', ss' = s' :: us' ∧ s.Like scopes s' ∧ Stmt.LikeList scopes ss us'

/-- Parameters and body share one scope. -/
def FunctionDecl.Like (scopes : List Renaming) : FunctionDecl → FunctionDecl → Prop
  | ⟨t, ts, ss⟩, f' =>
      ∃ (π : Renaming) (t' : Token) (ts' : List Token) (ss' : List Stmt),
        f' = ⟨t', ts', ss'⟩ ∧ c.renames π ∧ t.LikePlain c t' ∧
          List.Forall₂ (Token.LikeDeclaration c (π :: scopes)) ts ts' ∧
            Stmt.LikeList (π :: scopes) ss ss'

def FunctionDecl.LikeList (scopes : List Renaming) :
    List FunctionDecl → List FunctionDecl → Prop
  | [], fs' => fs' = []
  | f :: fs, fs' =>
      ∃ f' gs', fs' = f' :: gs' ∧ f.Like scopes f' ∧ FunctionDecl.LikeList scopes fs gs'

end

end Like

/-- Two translations do the same to the expression with this id. -/
structure Translation.SameAt (c d : Translation) (id : ExprId) : Prop where
  ids : d.ids id = c.ids id
  recorded : d.recorded id = c.recorded id
  line : d.line id = c.line id

/-- What does not belong to expressions goes over as it does by the other translation, too. -/
structure Translation.Covers (c d : Translation) : Prop where
  plain : ∀ l l', c.plain l l' → d.plain l l'
  renames : ∀ π, c.renames π → d.renames π

section Congruence

variable {c d : Translation} {scopes : List Renaming}

theorem Token.LikeName.declaration {t t' : Token} (like : t.LikeName c scopes t') :
    t.LikeDeclaration c scopes t' :=
  ⟨like.kind, like.lexeme.trans like.kept.symm, like.line⟩

theorem Token.LikeIn.congr {id : ExprId} {t t' : Token} (same : c.SameAt d id)
    (like : t.LikeIn c id t') : t.LikeIn d id t' :=
  ⟨like.kind, like.lexeme, by rw [same.line, like.line]⟩

theorem Token.LikeUse.congr {id : ExprId} {t t' : Token} (same : c.SameAt d id)
    (like : t.LikeUse c scopes id t') : t.LikeUse d scopes id t' :=
  ⟨like.kind, by rw [same.recorded, like.lexeme], by rw [same.line, like.line]⟩

mutual

theorem Expr.Like.congr (e : Expr) {e' : Expr} (same : ∀ id ∈ e.ids, c.SameAt d id)
    (like : e.Like c scopes e') : e.Like d scopes e' := by
  match e with
  | .literal id v =>
    rw [Expr.Like, (same id (by simp [Expr.ids])).ids]
    exact like
  | .grouping id a =>
    obtain ⟨a', rfl, likeA⟩ := like
    simp only [Expr.ids, List.mem_append, List.mem_singleton] at same
    have here := same id (.inr rfl)
    exact ⟨a', by rw [here.ids], Expr.Like.congr a (fun i m => same i (.inl m)) likeA⟩
  | .unary id t a =>
    obtain ⟨t', a', rfl, likeT, likeA⟩ := like
    simp only [Expr.ids, List.mem_append, List.mem_singleton] at same
    have here := same id (.inr rfl)
    exact ⟨t', a', by rw [here.ids], likeT.congr here,
      Expr.Like.congr a (fun i m => same i (.inl m)) likeA⟩
  | .binary id a t b | .logical id a t b | .set id a t b =>
    obtain ⟨a', t', b', rfl, likeA, likeT, likeB⟩ := like
    simp only [Expr.ids, List.mem_append, List.mem_singleton] at same
    have here := same id (.inr rfl)
    exact ⟨a', t', b', by rw [here.ids],
      Expr.Like.congr a (fun i m => same i (.inl (.inl m))) likeA, likeT.congr here,
      Expr.Like.congr b (fun i m => same i (.inl (.inr m))) likeB⟩
  | .assign id t a =>
    obtain ⟨t', a', rfl, likeT, likeA⟩ := like
    simp only [Expr.ids, List.mem_append, List.mem_singleton] at same
    have here := same id (.inr rfl)
    exact ⟨t', a', by rw [here.ids], likeT.congr here,
      Expr.Like.congr a (fun i m => same i (.inl m)) likeA⟩
  | .var id t | .this id t =>
    obtain ⟨t', rfl, likeT⟩ := like
    have here := same id (by simp [Expr.ids])
    exact ⟨t', by rw [here.ids], likeT.congr here⟩
  | .call id a t as =>
    obtain ⟨a', t', as', rfl, likeA, likeT, likeAs⟩ := like
    simp only [Expr.ids, List.mem_append, List.mem_singleton] at same
    have here := same id (.inr rfl)
    exact ⟨a', t', as', by rw [here.ids],
      Expr.Like.congr a (fun i m => same i (.inl (.inl m))) likeA, likeT.congr here,
      Expr.LikeList.congr as (fun i m => same i (.inl (.inr m))) likeAs⟩
  | .get id a t =>
    obtain ⟨a', t', rfl, likeA, likeT⟩ := like
    simp only [Expr.ids, List.mem_append, List.mem_singleton] at same
    have here := same id (.inr rfl)
    exact ⟨a', t', by rw [here.ids], Expr.Like.congr a (fun i m => same i (.inl m)) likeA,
      likeT.congr here⟩
  | .super id t u =>
    obtain ⟨t', u', rfl, likeT, likeU⟩ := like
    have here := same id (by simp [Expr.ids])
    exact ⟨t', u', by rw [here.ids], likeT.congr here, likeU.congr here⟩
  | .comma id a b =>
    obtain ⟨a', b', rfl, likeA, likeB⟩ := like
    simp only [Expr.ids, List.mem_append, List.mem_singleton] at same
    have here := same id (.inr rfl)
    exact ⟨a', b', by rw [here.ids],
      Expr.Like.congr a (fun i m => same i (.inl (.inl m))) likeA,
      Expr.Like.congr b (fun i m => same i (.inl (.inr m))) likeB⟩
  | .ternary id a b f =>
    obtain ⟨a', b', f', rfl, likeA, likeB, likeF⟩ := like
    simp only [Expr.ids, List.mem_append, List.mem_singleton] at same
    have here := same id (.inr rfl)
    exact ⟨a', b', f', by rw [here.ids],
      Expr.Like.congr a (fun i m => same i (.inl (.inl (.inl m)))) likeA,
      Expr.Like.congr b (fun i m => same i (.inl (.inl (.inr m)))) likeB,
      Expr.Like.congr f (fun i m => same i (.inl (.inr m))) likeF⟩

theorem Expr.LikeList.congr (es : List Expr) {es' : List Expr}
    (same : ∀ id ∈ Expr.idsList es, c.SameAt d id) (like : Expr.LikeList c scopes es es') :
    Expr.LikeList d scopes es es' := by
  match es with
  | [] => exact like
  | e :: es =>
    obtain ⟨e', fs', rfl, likeE, likeEs⟩ := like
    simp only [Expr.idsList, List.mem_append] at same
    exact ⟨e', fs', rfl, Expr.Like.congr e (fun i m => same i (.inl m)) likeE,
      Expr.LikeList.congr es (fun i m => same i (.inr m)) likeEs⟩

end

section Plain

variable (covers : c.Covers d)
include covers

theorem Token.LikePlain.congr {t t' : Token} (like : t.LikePlain c t') : t.LikePlain d t' :=
  ⟨like.kind, like.lexeme, covers.plain _ _ like.line⟩

theorem Token.LikeName.congr {t t' : Token} (like : t.LikeName c scopes t') :
    t.LikeName d scopes t' :=
  ⟨like.toLikePlain.congr covers, like.kept⟩

theorem Token.LikeDeclaration.congr {t t' : Token} (like : t.LikeDeclaration c scopes t') :
    t.LikeDeclaration d scopes t' :=
  ⟨like.kind, like.lexeme, covers.plain _ _ like.line⟩

end Plain

mutual

theorem Stmt.Like.congr (covers : c.Covers d) (s : Stmt) {s' : Stmt}
    {scopes : List Renaming} (same : ∀ id ∈ s.ids, c.SameAt d id) (like : s.Like c scopes s') :
    s.Like d scopes s' := by
  match s with
  | .expression e | .print e =>
    obtain ⟨e', rfl, likeE⟩ := like
    exact ⟨e', rfl, likeE.congr e same⟩
  | .varDecl t none =>
    obtain ⟨t', rfl, likeT⟩ := like
    exact ⟨t', rfl, likeT.congr covers⟩
  | .varDecl t (some e) =>
    obtain ⟨t', e', rfl, likeT, likeE⟩ := like
    exact ⟨t', e', rfl, likeT.congr covers, likeE.congr e same⟩
  | .block ss =>
    obtain ⟨π, ss', rfl, renames, likeSs⟩ := like
    exact ⟨π, ss', rfl, covers.renames π renames, Stmt.LikeList.congr covers ss same likeSs⟩
  | .ifThen e u | .whileLoop e u =>
    obtain ⟨e', u', rfl, likeE, likeU⟩ := like
    simp only [Stmt.ids, List.mem_append] at same
    exact ⟨e', u', rfl, likeE.congr e (fun i m => same i (.inl m)),
      Stmt.Like.congr covers u (fun i m => same i (.inr m)) likeU⟩
  | .ifElse e v u =>
    obtain ⟨e', v', u', rfl, likeE, likeV, likeU⟩ := like
    simp only [Stmt.ids, List.mem_append] at same
    exact ⟨e', v', u', rfl, likeE.congr e (fun i m => same i (.inl (.inl m))),
      Stmt.Like.congr covers v (fun i m => same i (.inl (.inr m))) likeV,
      Stmt.Like.congr covers u (fun i m => same i (.inr m)) likeU⟩
  | .funDecl f =>
    obtain ⟨f', rfl, likeName, likeF⟩ := like
    exact ⟨f', rfl, likeName.congr covers, FunctionDecl.Like.congr covers f same likeF⟩
  | .returnStmt t none =>
    obtain ⟨t', rfl, likeT⟩ := like
    exact ⟨t', rfl, likeT.congr covers⟩
  | .returnStmt t (some e) =>
    obtain ⟨t', e', rfl, likeT, likeE⟩ := like
    exact ⟨t', e', rfl, likeT.congr covers, likeE.congr e same⟩
  | .classDecl t none fs =>
    obtain ⟨t', fs', rfl, likeT, likeFs⟩ := like
    exact ⟨t', fs', rfl, likeT.congr covers, FunctionDecl.LikeList.congr covers fs same likeFs⟩
  | .classDecl t (some e) fs =>
    obtain ⟨t', e', fs', rfl, likeT, ⟨isName, likeE⟩, likeFs⟩ := like
    simp only [Stmt.ids, List.mem_append] at same
    exact ⟨t', e', fs', rfl, likeT.congr covers,
      ⟨isName, likeE.congr e (fun i m => same i (.inl m))⟩,
      FunctionDecl.LikeList.congr covers fs (fun i m => same i (.inr m)) likeFs⟩

theorem Stmt.LikeList.congr (covers : c.Covers d) (ss : List Stmt)
    {ss' : List Stmt} {scopes : List Renaming} (same : ∀ id ∈ Stmt.idsList ss, c.SameAt d id)
    (like : Stmt.LikeList c scopes ss ss') : Stmt.LikeList d scopes ss ss' := by
  match ss with
  | [] => exact like
  | s :: ss =>
    obtain ⟨s', us', rfl, likeS, likeSs⟩ := like
    simp only [Stmt.idsList, List.mem_append] at same
    exact ⟨s', us', rfl, Stmt.Like.congr covers s (fun i m => same i (.inl m)) likeS,
      Stmt.LikeList.congr covers ss (fun i m => same i (.inr m)) likeSs⟩

theorem FunctionDecl.Like.congr (covers : c.Covers d)
    (f : FunctionDecl) {f' : FunctionDecl} {scopes : List Renaming}
    (same : ∀ id ∈ f.ids, c.SameAt d id) (like : f.Like c scopes f') : f.Like d scopes f' := by
  match f with
  | ⟨t, ts, ss⟩ =>
    obtain ⟨π, t', ts', ss', rfl, renames, likeT, likeTs, likeSs⟩ := like
    exact ⟨π, t', ts', ss', rfl, covers.renames π renames, likeT.congr covers,
      likeTs.imp fun _ _ like => like.congr covers,
      Stmt.LikeList.congr covers ss same likeSs⟩

theorem FunctionDecl.LikeList.congr (covers : c.Covers d)
    (fs : List FunctionDecl) {fs' : List FunctionDecl} {scopes : List Renaming}
    (same : ∀ id ∈ FunctionDecl.idsList fs, c.SameAt d id)
    (like : FunctionDecl.LikeList c scopes fs fs') : FunctionDecl.LikeList d scopes fs fs' := by
  match fs with
  | [] => exact like
  | f :: fs =>
    obtain ⟨f', gs', rfl, likeF, likeFs⟩ := like
    simp only [FunctionDecl.idsList, List.mem_append] at same
    exact ⟨f', gs', rfl, FunctionDecl.Like.congr covers f (fun i m => same i (.inl m)) likeF,
      FunctionDecl.LikeList.congr covers fs (fun i m => same i (.inr m)) likeFs⟩

end

end Congruence

end Lox
