import Lox.Proofs.CallFrames
import Lox.Proofs.LoopScopes
import Lox.Proofs.LoopWalks
import Lox.Proofs.SoundReading
import Lox.Proofs.Uses

/-!
What a loop means: wherever the tree that a loop is read as is run, in whatever state, the direct
rule comes to the same end.
-/

namespace Lox

open Scoping (distance?)
open Session (Happens Life)

/-! ### Places in the text -/

theorem Stmt.after_frames (s : Stmt) (p : Place) :
    (s.after p).frames.length = p.frames.length ∧ (s.after p).site = p.site := by
  have held (name : String) (b : Bool) :
      (p.hold name b).frames.length = p.frames.length ∧ (p.hold name b).site = p.site := by
    refine ⟨?_, p.site_hold name b⟩
    obtain ⟨frames, context, class_⟩ := p
    cases frames <;> rfl
  match s with
  | .expression _ | .print _ | .block _ | .returnStmt _ _ => exact ⟨rfl, rfl⟩
  | .varDecl _ _ | .funDecl _ | .classDecl _ _ _ => exact held _ true
  | .ifThen _ yes | .whileLoop _ yes => exact yes.after_frames p
  | .ifElse _ yes no =>
    obtain ⟨length, site⟩ := yes.after_frames p
    obtain ⟨length', site'⟩ := no.after_frames (yes.after p)
    exact ⟨length'.trans length, site'.trans site⟩

namespace Stands

variable {program : List Stmt} {around : List Enclosure} {p : Place} {ss : List Stmt}

theorem site (stands : Stands program around p ss) : p.site = Site.of around := by
  induction stands with
  | program => rfl
  | @rest _ p s _ _ ih => exact (s.after_frames p).2.trans ih
  | @block _ p _ _ _ ih =>
    have inside : (p.enter Table.empty).site = p.site.scope := rfl
    rw [inside, ih]
    rfl
  | ifThen _ ih | ifElseYes _ ih | whileLoop _ ih => exact ih
  | @ifElseNo _ p _ yes _ _ _ ih => exact (yes.after_frames p).2.trans ih
  | @function _ p f _ _ ih =>
    have inside : (((p.hold f.name.lexeme true).inFunction .function).enter
        (parameterFrame f.parameters)).site = ((p.hold f.name.lexeme true).site.inFunction .function) :=
      rfl
    rw [inside, Place.site_hold, ih]
    rfl
  | @method around p name superclass _ f _ _ _ ih =>
    rw [← Site.of_method around f superclass, ← ih, ← p.site_hold name.lexeme true]
    cases superclass <;> rfl

theorem frames_length (stands : Stands program around p ss) :
    p.frames.length = Enclosure.depth around := by
  induction stands with
  | program => rfl
  | @rest _ p s _ _ ih => exact (s.after_frames p).1.trans ih
  | block _ ih => exact congrArg (· + 1) ih
  | ifThen _ ih | ifElseYes _ ih | whileLoop _ ih => exact ih
  | @ifElseNo _ p _ yes _ _ _ ih => exact (yes.after_frames p).1.trans ih
  | @function _ p f _ _ ih =>
    have held := (Stmt.after_frames (.funDecl f) p).1
    exact congrArg (· + 1) (held.trans ih)
  | @method _ p name superclass methods f _ _ _ ih =>
    have held := ((Stmt.after_frames (.classDecl name superclass methods) p).1).trans ih
    cases superclass with
    | none => exact congrArg (· + 2) held
    | some _ => exact congrArg (· + 3) held

/-- Where `this` or `super` may be used it is in scope. -/
theorem proper (stands : Stands program around p ss)
    (formed : Stmt.FormedList Token.Spelled program) : p.Proper := by
  have parameters {q : Place} (proper : q.Proper) {f : FunctionDecl}
      (formed : f.Formed Token.Spelled) : (q.enter (parameterFrame f.parameters)).Proper := by
    have named := (FunctionDecl.Formed.named formed).2
    exact proper.enter (parameterFrame_get?_none fun t among => (named t among).ne_this)
      (parameterFrame_get?_none fun t among => (named t among).ne_super)
  induction stands with
  | program => exact Place.proper_outermost
  | @rest _ _ s _ outer ih => exact s.after_proper (outer.formed formed).1 ih
  | block _ ih => exact ih.enter rfl rfl
  | ifThen _ ih | ifElseYes _ ih | whileLoop _ ih => exact ih
  | @ifElseNo _ _ _ yes _ _ outer ih =>
    exact yes.after_proper (outer.formed formed).1.2.1.1 ih
  | @function _ p f _ outer ih =>
    have formedFunction : f.Formed Token.Spelled := (outer.formed formed).1
    have name := (FunctionDecl.Formed.named formedFunction).1
    have held := ih.hold name.ne_this name.ne_super true
    exact parameters (q := (p.hold f.name.lexeme true).inFunction .function) held formedFunction
  | @method _ p name superclass methods f _ outer isMethod _ =>
    have formedMethod := (outer.formed formed).1.className.2.member isMethod
    have inside := Place.ofMethods_proper (p.hold name.lexeme true) superclass.isSome
    exact parameters (q := (((p.hold name.lexeme true).ofMethods superclass.isSome).enter
      thisFrame).inFunction (Scoping.methodContext f.name)) inside formedMethod

end Stands

theorem Store.Matches.length {s : Store} {chain : Chain} {frames : List Frame}
    (matches_ : s.Matches chain frames) : chain.length = frames.length + 1 := by
  induction frames generalizing chain with
  | nil =>
    obtain rfl : chain = globalChain := matches_
    rfl
  | cons frame frames ih =>
    obtain ⟨scope, outer, rfl, -, -, rest⟩ := matches_
    exact congrArg (· + 1) (ih rest)

section

variable {chunks : List Chunk} {s : Session} {around : List Enclosure} {p : Place} {chain : Chain}

theorem Chained.length (chained : Chained chunks around chain) :
    chain.length = Enclosure.depth around + 1 := by
  induction chained with
  | global => rfl
  | block _ _ ih => exact congrArg (· + 1) ih
  | function _ _ ih => exact congrArg (· + 1) ih
  | @method _ _ _ closure m n binding declaring receiver this token parent methods superclass
      around entered bound binds declared declares isMethod same scopes _ ih =>
    rw [scopes]
    cases superclass with
    | none =>
      cases parent with
      | none => exact congrArg (· + 2) ih
      | some _ => cases same
    | some _ =>
      cases parent with
      | none => cases same
      | some _ => exact congrArg (· + 3) ih

/-- A statement that is not a declaration is accepted by a walk that comes to it. -/
theorem Text.walked {t : Stmt} {ss : List Stmt} (text : Text chunks around p (t :: ss))
    (branch : t.isBranch = true) (walk : ScopeState) (at_ : walk.place = p) :
    ∃ after, Scoping.stmt t walk = .ok () after ∧ after.place = p := by
  obtain ⟨c, given, accepts, stands⟩ := text
  have produced : Grammar.Produces (c.session.program c.source) :=
    ⟨Scan.tokens (Scan.items c.source), c.session.nextId, .inr rfl⟩
  have formed := (stands.formed produced.formed).1
  have lawful : t.Lawful p.site := by
    rw [stands.site]
    exact (stands.occurs t List.mem_cons_self).lawful accepts.lawful
  have free : p.Admits t.declared := by
    rw [Stmt.declared_branch branch]
    exact p.admits_nil
  rcases Scoping.stmt_decides stands.settled t formed walk at_ with
    ⟨-, after, run, there⟩ | ⟨refused, -⟩
  · rw [Stmt.declared_branch branch] at there
    exact ⟨after, run, there⟩
  · exact (refused ⟨free, lawful⟩).elim

end

/-- The distances that a walk has found, put at hand. -/
theorem Walked.noted {begun ended : ScopeState} {ids : List ExprId} {q : Place}
    {S : (ExprId → Option Nat → Prop) → Prop} (walk : Walked begun ended ids q S)
    (first : begun.found = []) (distinct : ids.Nodup) {m : Machine}
    (fresh : ∀ id ∈ ids, m.distances[id]? = none) :
    S (m.setDistances ended.found).distances.Records ∧ ∀ use ∈ ended.found, use.1 ∈ ids := by
  obtain ⟨-, uses, found, known, holds⟩ := walk
  rw [first, List.append_nil] at found
  subst found
  have among : ∀ use ∈ ended.found, use.1 ∈ ids :=
    fun use member => known.subset (List.mem_map_of_mem member)
  have apart : (ended.found.map Prod.fst).Nodup := by
    obtain ⟨listed, same, part⟩ := known
    exact same.nodup_iff.1 (distinct.sublist part)
  refine ⟨holds _ ⟨fun id d use => Machine.setDistances_found apart use, ?_⟩, among⟩
  intro id member unused
  refine Eq.trans (Machine.setDistances_other fun use used same => ?_) (fresh id member)
  subst same
  exact unused use.2 used

namespace Session.Life

variable {chunks : List Chunk} {s : Session}

/-- Where a statement stands that is run, and what is known of the machine that it is run on: it is
well scoped there, as many scopes are in force as the text has around it, and nothing is recorded
for ids that have not been given out. -/
theorem at_text (life : Life chunks s) {fuel : Nat} {t : Stmt} {m : Machine}
    (happens : Happens chunks ⟨fuel, .stmt t, m⟩) :
    ∃ R around p ss q, Text chunks around p (t :: ss) ∧ t.Scoped R p ∧ m.Ready R q ∧
      q.frames.length = p.frames.length ∧ (∀ id d, R id d → id < s.nextId) ∧
      t.ids.Nodup ∧ ∀ id, s.nextId ≤ id → m.distances[id]? = none := by
  obtain ⟨c, among, runs⟩ := happens
  obtain ⟨given, earlier, within⟩ := life.chunk_life among
  have sound := earlier.reachable.sound
  have later : c :: given ⊆ chunks := List.cons_subset.2 ⟨among, within⟩
  have now : Life (c :: given) c.after := earlier.run c.fuel c.source
  have here : Happens (c :: given) ⟨fuel, .stmt t, m⟩ := ⟨c, List.mem_cons_self, runs⟩
  obtain ⟨around, p, ss, text, chained⟩ := (now.step_made here).placed
  obtain ⟨q, ready, -, -⟩ := sound.runs runs
  have known (id : ExprId) (d : Option Nat)
      (recorded : (c.session.bound c.source).Recorded id d) : id < s.nextId :=
    (life.recorded_now among runs.1 recorded).1
  obtain ⟨c', given', accepts', stands⟩ := text
  have handed := program_handed c'.session c'.source
  have part := (stands.occurs t List.mem_cons_self).ids_sublist
  refine ⟨_, around, p, ss, q, ⟨c', later given', accepts', stands⟩, ?_, ready, ?_, known, ?_, ?_⟩
  · refine Stmt.Scoped.imp (fun id d recorded => ?_) t
      (now.text_scoped ⟨c', given', accepts', stands⟩).1
    have kept := sound.kept runs.1 c.fuel
    obtain ⟨given, found⟩ := recorded
    simp only [Chunk.after, run_accepted c.fuel runs.1, kept.distances] at given found
    exact ⟨given, found⟩
  · have length := chained.length
    rw [ready.chain.length] at length
    exact (Nat.succ.inj length).trans stands.frames_length.symm
  · exact handed.distinct.sublist part
  · intro id beyond
    -- All steps of a chunk find the same distances.
    have all : (c.session.bound c.source).machine.Sound
        (c.session.bound c.source).machine.distances.Records :=
      ⟨Store.Sound.imp sound.bound.store fun _ _ recorded => recorded.2, fun _ _ recorded => recorded⟩
    have first : (c.session.firstStep c.fuel c.source).Sound
        (c.session.bound c.source).machine.distances.Records :=
      ⟨⟨all, sound.bound.chain, Place.proper_outermost⟩,
        Stmt.ScopedList.imp (fun _ _ recorded => recorded.2) _ (runs.1.scoped sound),
        program_formed c.session c.source⟩
    obtain ⟨_, ready, -, -⟩ := runs.2.sound first
    cases found : (c.session.bound c.source).machine.distances[id]? with
    | none => exact ready.sound.distances id none found
    | some d =>
      have given : id < (c.session.bound c.source).nextId := by
        by_contra beyond
        exact absurd (found.symm.trans (sound.bound.fresh id (Nat.le_of_not_lt beyond)))
          (Option.some_ne_none d)
      exact absurd (known id _ ⟨given, rfl⟩) (Nat.not_lt_of_le beyond)

end Session.Life

/-! ### Loops -/

/-- A walk that begins at the place. -/
def Place.entry (p : Place) : ScopeState := ⟨p.frames, p.function, p.class_, []⟩

namespace ForLoop

/-- The tree of the loop, run on `m`, and the direct rule for the loop with other ids, run on `m'`,
come to the same end: with the same value returned or the same error, with the same printed, and with
the same bound in every scope and every field there was before. Either may need more fuel; the rule
needs no more than the tree. -/
def Agrees (l : ForLoop) (id : ExprId) (f : ExprId → ExprId) (p : Place) (m m' : Machine) : Prop :=
  ∀ fuel fuel',
    (fuel ≤ fuel' → Tracks .left ⟨m.distances, m'.distances⟩
      (Flow.Aligned ⟨m.distances, m'.distances⟩) m.store.links (Alignment.even p.frames.length) m m'
      (Run.execute fuel (l.desugared id)) (Run.forLoop fuel' (l.renumber f))) ∧
    (2 * fuel' + 3 < fuel → Tracks .right ⟨m.distances, m'.distances⟩
      (Flow.Aligned ⟨m.distances, m'.distances⟩) m.store.links (Alignment.even p.frames.length) m m'
      (Run.execute fuel (l.desugared id)) (Run.forLoop fuel' (l.renumber f)))

theorem parts_ids (l : ForLoop) (id : ExprId) :
    (Stmt.idsList l.parts).Sublist (l.desugared id).ids := by
  have again : (Stmt.idsList l.again).Sublist (l.while_ id).ids := by
    obtain ⟨initializer, condition, increment, body⟩ := l
    have rest : Stmt.idsList (body :: increment.toList.map .expression) =
        (step ⟨initializer, condition, increment, body⟩).ids := by
      cases increment <;> simp [Stmt.idsList, Stmt.ids, step]
    rw [while_, Stmt.ids, ← rest]
    cases condition with
    | none => exact List.sublist_append_right _ _
    | some e => exact List.Sublist.refl _
  rw [parts, desugared_eq]
  cases l.initializer with
  | none => exact again
  | some s =>
    simp only [Option.toList_some, List.singleton_append, Stmt.idsList, Stmt.ids, List.append_nil]
    exact List.Sublist.append (List.Sublist.refl _) again

theorem parts_renumber (l : ForLoop) (f : ExprId → ExprId) :
    (l.renumber f).parts = Stmt.renumberList f l.parts := by
  obtain ⟨initializer, condition, increment, body⟩ := l
  cases initializer <;> cases condition <;> cases increment <;> rfl

end ForLoop

/-- A chunk that is a loop and nothing else. -/
theorem Session.program_forLoop {s : Session} {source : String} {t : Token} {ts : List Token}
    {tree : Stmt} {after : Cursor} (tokens : Scan.tokens (Scan.items source) = t :: ts)
    (isFor : t.kind = .keyword .for_)
    (read : Grammar.forStatement (Grammar.statement ts.length) (ts.length + 1) ⟨ts, s.nextId⟩ =
      .ok tree after) (whole : after.atEnd = true) : s.program source = [tree] := by
  have next : Reader.peek ⟨t :: ts, s.nextId⟩ = .ok t ⟨t :: ts, s.nextId⟩ := rfl
  have taken : Reader.skip ⟨t :: ts, s.nextId⟩ = .ok () ⟨ts, s.nextId⟩ := rfl
  have first : Grammar.declaration (ts.length + 1) ⟨t :: ts, s.nextId⟩ = .ok tree after := by
    rw [Grammar.declaration, Grammar.declarationOf, bind_of_ok next, isFor]
    dsimp only
    rw [Grammar.statementOf, bind_of_ok next, isFor]
    dsimp only
    rw [bind_of_ok taken, read]
  have last : Grammar.recoverFrom ts.length after = ([], after) := by
    cases ts.length with
    | zero => rfl
    | succ bound => rw [Grammar.recoverFrom, whole, if_pos rfl]
  have more : (Cursor.mk (t :: ts) s.nextId).atEnd = false := congrArg TokenKind.isEnd isFor
  unfold program reading Grammar.recoverProgram
  rw [tokens, List.length_cons, Grammar.recoverFrom, more]
  simp only [first, last]
  rfl

/-- The tokens are those of a loop, and no more. -/
def Chunk.isForLoop (c : Chunk) : Bool :=
  match Scan.tokens (Scan.items c.source) with
  | [] => false
  | t :: ts => t.kind.isKeyword .for_ &&
      match Grammar.forStatement (Grammar.statement ts.length) (ts.length + 1)
        ⟨ts, c.session.nextId⟩ with
      | .ok _ after => after.atEnd
      | .error _ _ => false

/-- A loop whose body is run once. -/
def oneRound : Chunk where
  session := Session.initial .unlimited 0
  fuel := 30
  source := "for (var go = true; go; go = false) \x7b print go; \x7d"

end Lox
