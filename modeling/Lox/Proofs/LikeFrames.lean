import Lox.Proofs.LikeTrees
import Lox.Proofs.ScopeWalk

/-!
Frames with other names: a use that is renamed as the scope it belongs to is found at the same
distance.
-/

namespace Lox

open Scoping (distance?)

/-- The frame with other names. -/
def Frame.renamed (π : Renaming) (frame : Frame) : Frame :=
  frame.map fun entry => (π.perm entry.1, entry.2)

namespace Frame

variable {π : Renaming} {frame : Frame} {name : String}

theorem get?_renamed (π : Renaming) (frame : Frame) (name : String) :
    (frame.renamed π).get? name = frame.get? (π.perm.symm name) := by
  induction frame with
  | nil => rfl
  | cons entry rest ih =>
    have here : π.perm entry.1 = name ↔ entry.1 = π.perm.symm name :=
      ⟨fun same => by rw [← same, Equiv.symm_apply_apply], fun same => by
        rw [same, Equiv.apply_symm_apply]⟩
    simp only [renamed, List.map_cons, Table.get?, here]
    split
    · rfl
    · exact ih

theorem contains_renamed (π : Renaming) (frame : Frame) (name : String) :
    (frame.renamed π).contains name = frame.contains (π.perm.symm name) := by
  rw [Table.contains, Table.contains, get?_renamed]

theorem renamed_insert (π : Renaming) (frame : Frame) (name : String) (b : Bool) :
    Frame.renamed π (frame.insert name b) = (frame.renamed π).insert (π.perm name) b := by
  induction frame with
  | nil => rfl
  | cons entry rest ih =>
    have here : π.perm entry.1 = π.perm name ↔ entry.1 = name := π.perm.injective.eq_iff
    simp only [renamed, Table.insert, List.map_cons, here]
    split
    · rfl
    · exact congrArg (List.cons _) ih

end Frame

/-- The frames of a place, each renamed as its scope. -/
def renamedFrames (scopes : List Renaming) (frames : List Frame) : List Frame :=
  List.zipWith Frame.renamed scopes frames

/-- What a walk needs of a translation to come out the same: names that differ are not made one. The
names that occur are those with `N`. -/
structure Translation.Fair (c : Translation) (N : String → Prop) : Prop where
  same : c.renames Renaming.same
  apart : ∀ π ρ, c.renames π → c.renames ρ → ∀ a b, N a → N b → π.perm a = ρ.perm b → a = b
  this : N "this"
  super : N "super"

/-- No name is changed. -/
def Translation.Unchanging (c : Translation) : Prop := ∀ π, c.renames π → π = Renaming.same

/-- The distance that is recorded for an id. -/
def Translation.Records (c : Translation) (id : ExprId) (d : Option Nat) : Prop := c.recorded id = d

/-- There is a renaming for each scope, and all its names have `N`. -/
structure Covered (c : Translation) (N : String → Prop) (scopes : List Renaming)
    (frames : List Frame) : Prop where
  length : frames.length ≤ scopes.length
  allowed : ∀ π ∈ scopes, c.renames π
  named : ∀ frame ∈ frames, ∀ name, frame.contains name = true → N name

namespace Covered

variable {c : Translation} {N : String → Prop} {scopes : List Renaming} {frames : List Frame}
  {frame : Frame} {name : String}

theorem enter (covered : Covered c N scopes frames) {π : Renaming} (renames : c.renames π)
    (named : ∀ name, frame.contains name = true → N name) :
    Covered c N (π :: scopes) (frame :: frames) := by
  refine ⟨Nat.succ_le_succ covered.length, fun ρ among => ?_, fun f among => ?_⟩
  · rcases List.mem_cons.1 among with rfl | among
    · exact renames
    · exact covered.allowed ρ among
  · rcases List.mem_cons.1 among with rfl | among
    · exact named
    · exact covered.named f among

theorem hold {p : Place} (covered : Covered c N scopes p.frames) (known : N name) (b : Bool) :
    Covered c N scopes (p.hold name b).frames := by
  obtain ⟨frames, context, class_⟩ := p
  cases frames with
  | nil => exact covered
  | cons frame outer =>
    refine ⟨covered.length, covered.allowed, fun f among => ?_⟩
    rcases List.mem_cons.1 among with rfl | among
    · intro other held
      rw [Table.contains_insert, Bool.or_eq_true, decide_eq_true_iff] at held
      rcases held with rfl | held
      · exact known
      · exact covered.named frame List.mem_cons_self other held
    · exact covered.named f (List.mem_cons_of_mem _ among)

theorem innermost (covered : Covered c N scopes frames) (fair : c.Fair N) :
    c.renames (scopes.headD Renaming.same) := by
  cases scopes with
  | nil => exact fair.same
  | cons π scopes => exact covered.allowed π List.mem_cons_self

/-- In the innermost scope a name is found as before, if it is renamed as the scope that it belongs
to. -/
theorem get?_innermost (fair : c.Fair N) {π : Renaming}
    (covered : Covered c N (π :: scopes) (frame :: frames)) (known : N name) {ρ : Renaming}
    (renames : c.renames ρ)
    (here : ∀ d, distance? (frame :: frames) name = some d → (π :: scopes)[d]? = some ρ) :
    (frame.renamed π).get? (ρ.perm name) = frame.get? name := by
  rw [Frame.get?_renamed]
  cases held : frame.contains name with
  | true =>
    have first := here 0 (by simp [distance?, List.findIdx?_cons, held])
    simp only [List.getElem?_cons_zero, Option.some.injEq] at first
    rw [first, Equiv.symm_apply_apply]
  | false =>
    have missing := Table.contains_iff.not.1 (Bool.eq_false_iff.1 held)
    cases found : frame.get? (π.perm.symm (ρ.perm name)) with
    | none =>
      cases found' : frame.get? name with
      | none => rfl
      | some b => exact absurd ⟨b, found'⟩ missing
    | some b =>
      have bound := Table.contains_iff.2 ⟨b, found⟩
      have other := covered.named frame List.mem_cons_self _ bound
      have same := fair.apart π ρ (covered.allowed π List.mem_cons_self) renames _ _ other known
        (Equiv.apply_symm_apply _ _)
      rw [same, held] at bound
      cases bound

/-- A name is found at the same distance if it is renamed as the scope that it belongs to. -/
theorem distance?_renamed (fair : c.Fair N) (covered : Covered c N scopes frames) (known : N name)
    {ρ : Renaming} (renames : c.renames ρ)
    (here : ∀ d, distance? frames name = some d → scopes[d]? = some ρ) :
    distance? (renamedFrames scopes frames) (ρ.perm name) = distance? frames name := by
  induction frames generalizing scopes with
  | nil => cases scopes <;> rfl
  | cons frame frames ih =>
    cases scopes with
    | nil => exact absurd covered.length (by simp)
    | cons π scopes =>
      have rest : Covered c N scopes frames :=
        ⟨Nat.le_of_succ_le_succ covered.length,
          fun π among => covered.allowed π (List.mem_cons_of_mem _ among),
          fun f among => covered.named f (List.mem_cons_of_mem _ among)⟩
      have first : (frame.renamed π).contains (ρ.perm name) = frame.contains name := by
        rw [Table.contains, get?_innermost fair covered known renames here, Table.contains]
      simp only [distance?, renamedFrames, List.zipWith_cons_cons, List.findIdx?_cons,
        first] at ih here ⊢
      cases held : frame.contains name with
      | true => rfl
      | false =>
        simp only [Bool.false_eq_true, if_false]
        refine congrArg (Option.map (· + 1)) (ih rest fun d found => ?_)
        have later := here (d + 1) (by simp [held, found])
        simpa using later

/-- A use is renamed as the scope that it belongs to, if the distance recorded for it leads there or
if no name is changed. -/
theorem use_renamed (fair : c.Fair N) (covered : Covered c N scopes frames)
    {distance : Option Nat} (fits : c.Unchanging ∨ distance = distance? frames name) :
    ∃ ρ, c.renames ρ ∧ Renaming.use scopes distance name = ρ.perm name ∧
      ∀ d, distance? frames name = some d → scopes[d]? = some ρ := by
  have bound (d : Nat) (found : distance? frames name = some d) :
      ∃ π, scopes[d]? = some π ∧ c.renames π := by
    have inside := (List.findIdx?_eq_some_iff_findIdx_eq.1 found).1
    have there := List.getElem?_eq_getElem (Nat.lt_of_lt_of_le inside covered.length)
    exact ⟨_, there, covered.allowed _ (List.mem_of_getElem? there)⟩
  rcases fits with unchanging | recorded
  · have all : Renaming.use scopes distance name = Renaming.same.perm name := by
      cases distance with
      | none => rfl
      | some d =>
        simp only [Renaming.use, List.getD_eq_getElem?_getD]
        cases there : scopes[d]? with
        | none => rfl
        | some π => rw [unchanging π (covered.allowed π (List.mem_of_getElem? there))]; rfl
    refine ⟨Renaming.same, fair.same, all, fun d found => ?_⟩
    obtain ⟨π, there, renames⟩ := bound d found
    rw [there, unchanging π renames]
  · cases found : distance? frames name with
    | none =>
      rw [recorded, found]
      exact ⟨Renaming.same, fair.same, rfl, fun d other => nomatch other⟩
    | some d =>
      obtain ⟨π, there, renames⟩ := bound d found
      refine ⟨π, renames, ?_, fun d' other => ?_⟩
      · rw [recorded, found]
        simp [Renaming.use, List.getD_eq_getElem?_getD, there]
      · cases other
        exact there

end Covered

end Lox
