import Mathlib
import Lox.Proofs.LikeWalks
import Lox.Proofs.ReadMoved
import Lox.Proofs.ResolvedRuns

/-!
Sessions side by side: the second one gives out its ids later than the first, and lines of some of
its expressions are others. What a chunk does to the two, and then any list of chunks.
-/

namespace Lox

/-- How much later ids are given out from `base` on, and which lines differ: none of those of
expressions with these ids. -/
structure Offset where
  base : ExprId
  ids : Nat
  line : ExprId → Nat → Nat
  plain : Nat → Nat → Prop
  still : ∀ id, base ≤ id → ∀ l, line id l = l
  same : ∀ l, plain l l

/-! ### Programs that are moved -/

/-- What is moved goes over as a whole. -/
def Shift.translation (k : Shift) : Translation :=
  ⟨fun _ => True, fun id => id + k.ids, fun _ => Option.none, fun _ l => l + k.lines,
    fun l l' => l' = l + k.lines, fun π => π = Renaming.same⟩

/-- Moved as far, a program has the same distances and the same violation. -/
theorem resolve_moved (k : Shift) {program : List Stmt}
    (formed : Stmt.FormedList (fun _ => True) program) :
    (resolve (Stmt.movedList k program)).found =
        (resolve program).found.map (fun use => (use.1 + k.ids, use.2)) ∧
      ScopeError.LikeOption k.translation (resolve program).error
        (resolve (Stmt.movedList k program)).error := by
  have fair : k.translation.Fair fun _ => True := by
    refine ⟨rfl, fun π ρ renames renames' a b _ _ same => ?_, trivial, trivial⟩
    rw [renames, renames'] at same
    exact same
  have plain : k.translation.MovesPlain k := ⟨fun _ => rfl, rfl⟩
  have like := Stmt.LikeList.moved plain AllSame.nil program formed fun id _ => ⟨rfl, fun _ => rfl⟩
  exact resolve_alike fair formed (.inl fun _ renames => renames) like

theorem ScopeError.Like.still {k : Shift} (still : k.lines = 0) {e e' : ScopeError}
    (like : e.Like k.translation e') : e' = e := by
  obtain ⟨⟨kind, lexeme, line⟩, cause⟩ := e
  obtain ⟨⟨kind', lexeme', line'⟩, cause'⟩ := e'
  obtain ⟨sameCause, sameKind, ⟨π, renames, sameLexeme⟩, sameLine⟩ := like
  obtain rfl : π = Renaming.same := renames
  have same : line' = line := by
    rcases sameLine with ⟨_, told⟩ | told
    · exact told.trans (congrArg (line + ·) still)
    · exact told.trans (congrArg (line + ·) still)
  cases sameCause
  cases sameKind
  cases sameLexeme
  cases same
  rfl

theorem resolve_later (n : Nat) {program : List Stmt}
    (formed : Stmt.FormedList (fun _ => True) program) :
    (resolve (Stmt.movedList ⟨n, 0⟩ program)).error = (resolve program).error := by
  have like := (resolve_moved ⟨n, 0⟩ formed).2
  cases error : (resolve program).error <;>
    cases error' : (resolve (Stmt.movedList ⟨n, 0⟩ program)).error <;> rw [error, error'] at like
  · exact like.elim
  · exact like.elim
  · exact congrArg some (ScopeError.Like.still rfl like)

namespace Session

theorem statements_moved (k : Shift) (items : List (Except SyntaxError Stmt)) :
    statements (items.map (Grammar.movedItem k)) = Stmt.movedList k (statements items) := by
  induction items with
  | nil => rfl
  | cons item items ih => cases item <;> simpa [statements, Grammar.movedItem, Stmt.movedList] using ih

theorem syntaxErrors_moved (k : Shift) (items : List (Except SyntaxError Stmt)) :
    syntaxErrors (items.map (Grammar.movedItem k)) = syntaxErrors items := by
  induction items with
  | nil => rfl
  | cons item items ih => cases item <;> simpa [syntaxErrors, Grammar.movedItem] using ih

end Session

/-! ### Machines with more distances -/

theorem Machine.setDistances_later {m m' : Machine} {id n : Nat}
    (before : m'.distances[id + n]? = m.distances[id]?) (found : List (ExprId × Nat)) :
    (m'.setDistances (found.map fun use => (use.1 + n, use.2))).distances[id + n]? =
      (m.setDistances found).distances[id]? := by
  induction found generalizing m m' with
  | nil => exact before
  | cons use found ih =>
    refine @ih (m.setDistance use.1 use.2) (m'.setDistance (use.1 + n) use.2) ?_
    simp [Machine.setDistance, Std.TreeMap.getElem?_insert, before]

/-- Machines that are alike are so with other distances, too, if what is known of these goes over. -/
theorem Machine.Like.later {c d : Translation} {w : World} {m m' : Machine} (like : m.Like c w m')
    (extends_ : c.Extends d) {found found' : Distances}
    (recorded : ∀ id, d.known id → found[id]? = d.recorded id ∧ found'[d.ids id]? = d.recorded id) :
    Machine.Like d w { m with distances := found } { m' with distances := found' } := by
  have same := List.prefix_refl w
  refine ⟨?_, like.chain, like.front, like.held, recorded, like.sink, like.identity, like.clock⟩
  refine ⟨like.store.scopes, like.store.world, like.store.global, fun scope => ?_,
    like.store.instances, fun object => ?_⟩
  · exact (like.store.bound scope).imp fun _ _ related => related.later extends_ same
  · exact (like.store.fields object).imp fun _ _ related => related.later extends_ same

namespace Session

/-- How the expressions of one session go over into those of another. -/
def between (s : Session) (o : Offset) : Translation :=
  ⟨fun id => id < s.nextId, fun id => if id < o.base then id else id + o.ids,
    fun id => s.machine.distances[id]?, o.line, o.plain, fun π => π = Renaming.same⟩

/-- The two sessions have come to the same state, but for ids and lines. -/
structure Beside (o : Offset) (s s' : Session) : Prop where
  sound : s.Sound
  sound' : s'.Sound
  base : o.base ≤ s.nextId
  nextId : s'.nextId = s.nextId + o.ids
  like : ∃ w, s.machine.Like (s.between o) w s'.machine

variable {o : Offset} {s s' t t' : Session} {source : String}

theorem Beside.sink (beside : Beside o s s') : s'.machine.sink = s.machine.sink := by
  obtain ⟨w, like⟩ := beside.like
  exact like.sink

/-- Ids are given out and distances are recorded in both sessions. -/
theorem Beside.grow (beside : Beside o s s') (sound : t.Sound) (sound' : t'.Sound)
    (later : s.nextId ≤ t.nextId) (nextId : t'.nextId = t.nextId + o.ids)
    (machine : t.machine = { s.machine with distances := t.machine.distances })
    (machine' : t'.machine = { s'.machine with distances := t'.machine.distances })
    (before : ∀ id, id < s.nextId → t.machine.distances[id]? = s.machine.distances[id]?)
    (before' : ∀ id, id < s'.nextId → t'.machine.distances[id]? = s'.machine.distances[id]?)
    (new : ∀ id, s.nextId ≤ id → id < t.nextId →
      t'.machine.distances[id + o.ids]? = t.machine.distances[id]?) : Beside o t t' := by
  obtain ⟨w, like⟩ := beside.like
  have base := beside.base
  refine ⟨sound, sound', Nat.le_trans base later, nextId, w, ?_⟩
  have extends_ : (s.between o).Extends (t.between o) :=
    ⟨⟨fun _ _ line => line, fun _ renames => renames⟩,
      fun id known => Nat.lt_of_lt_of_le known later, fun id known => ⟨rfl, before id known, rfl⟩⟩
  rw [machine, machine']
  refine like.later extends_ fun id known => ⟨rfl, ?_⟩
  by_cases old : id < s.nextId
  · have within : (s.between o).ids id < s'.nextId := by
      rw [beside.nextId]
      simp only [between]
      split
      · exact Nat.lt_of_lt_of_le old (Nat.le_add_right _ _)
      · exact Nat.add_lt_add_right old _
    exact ((before' _ within).trans (like.distances id old).2).trans (before id old).symm
  · have beyond : ¬ id < o.base := Nat.not_lt.2 (Nat.le_trans base (Nat.not_lt.1 old))
    have moved : (t.between o).ids id = id + o.ids := if_neg beyond
    rw [moved]
    exact new id (Nat.not_lt.1 old) known

/-- Ids that the first session has not given out yet, the second has not given out later. -/
theorem Beside.fresh (beside : Beside o s s') {id : ExprId} (old : s.nextId ≤ id) :
    s'.machine.distances[id + o.ids]? = s.machine.distances[id]? := by
  refine (beside.sound'.fresh _ ?_).trans (beside.sound.fresh id old).symm
  rw [beside.nextId]
  exact Nat.add_le_add_right old _

/-! ### Reading and binding -/

section Chunk

variable (beside : Beside o s s')
include beside

theorem Beside.reading (source : String) :
    s'.reading source = ⟨(s.reading source).value.map (Grammar.movedItem ⟨o.ids, 0⟩),
      (s.reading source).nextId + o.ids⟩ := by
  rw [Session.reading, beside.nextId]
  exact Grammar.recoverProgram_later _ _ _

theorem Beside.program (source : String) :
    s'.program source = Stmt.movedList ⟨o.ids, 0⟩ (s.program source) := by
  rw [Session.program, beside.reading source]
  exact statements_moved _ _

theorem Beside.read (source : String) :
    Beside o { s with nextId := (s.reading source).nextId }
      { s' with nextId := (s'.reading source).nextId } := by
  have later := (program_handed s source).le
  refine beside.grow beside.sound.read beside.sound'.read later ?_ rfl rfl (fun _ _ => rfl)
    (fun _ _ => rfl) fun id old _ => beside.fresh old
  rw [beside.reading source]

theorem Beside.resolved (source : String) :
    (resolve (s'.program source)).found =
        (resolve (s.program source)).found.map (fun use => (use.1 + o.ids, use.2)) ∧
      (resolve (s'.program source)).error = (resolve (s.program source)).error := by
  have formed : Stmt.FormedList (fun _ => True) (s.program source) :=
    (statements_read (Grammar.recoverFrom_reads _ ⟨_, s.nextId⟩ fun _ _ => trivial)).1
  rw [beside.program source]
  exact ⟨(resolve_moved _ formed).1, resolve_later _ formed⟩

theorem Beside.bound (source : String) : Beside o (s.bound source) (s'.bound source) := by
  have later := (program_handed s source).le
  refine beside.grow beside.sound.bound beside.sound'.bound later ?_ (bound_machine s source)
    (bound_machine s' source) (fun _ old => bound_distances s source old)
    (fun _ old => bound_distances s' source old) fun id old _ => ?_
  · exact congrArg Grammar.Reading.nextId (beside.reading source)
  · have found := (beside.resolved source).1
    change (s'.machine.setDistances (resolve (s'.program source)).found).distances[id + o.ids]? =
      (s.machine.setDistances (resolve (s.program source)).found).distances[id]?
    rw [found]
    exact Machine.setDistances_later (beside.fresh old) _

end Chunk

/-! ### Runs -/

/-- The run of the chunk raises the error at this expression. -/
def RaisesAt (s : Session) (fuel : Nat) (source : String) (e : RuntimeError) (id : ExprId) : Prop :=
  s.Accepts source ∧ (s.firstStep fuel source).RaisesAt e id

/-- The second report tells the same as the first, which is that of this chunk. Only the line of an
error of the run may be another one, that of the expression where it is raised. -/
structure Tells (line : ExprId → Nat → Nat) (s : Session) (fuel : Nat) (source : String)
    (r r' : Report) : Prop where
  runtime : ∀ e, r = .failed [.runtime e] →
    ∃ id, s.RaisesAt fuel source e id ∧ r' = .failed [.runtime ⟨line id e.line, e.cause⟩]
  other : (∀ e, r ≠ .failed [.runtime e]) → r' = r

theorem Beside.accepts (beside : Beside o s s') (accepts : s.Accepts source) :
    s'.Accepts source := by
  refine ⟨accepts.scanned, ?_, (beside.resolved source).2.trans accepts.resolved⟩
  rw [beside.reading source]
  exact (syntaxErrors_moved _ _).trans accepts.read

theorem Beside.rejects (beside : Beside o s s') {faults : List Fault}
    (rejects : s.Rejects source faults t) :
    ∃ t', s'.Rejects source faults t' ∧ Beside o t t' := by
  have errors : syntaxErrors (s'.reading source).value = syntaxErrors (s.reading source).value := by
    rw [beside.reading source]
    exact syntaxErrors_moved _ _
  cases rejects with
  | lex scan => exact ⟨s', .lex scan, beside⟩
  | parse scanned found =>
    rw [← errors]
    exact ⟨_, .parse scanned (errors ▸ found), beside.read source⟩
  | resolve scanned read error =>
    exact ⟨_, .resolve scanned (errors.trans read) ((beside.resolved source).2.trans error),
      beside.bound source⟩

/-- A chunk that is rejected is not run. -/
theorem Rejects.not_runtime {faults : List Fault} (rejects : s.Rejects source faults t)
    (e : RuntimeError) : Fault.runtime e ∉ faults := by
  cases rejects <;> simp

/-- The statements of a chunk are in the second session those of the first, moved. -/
theorem Beside.program_like (beside : Beside o s s') (source : String) {scopes : List Renaming}
    (all : AllSame scopes) :
    Stmt.LikeList ((s.bound source).between o) scopes (s.program source) (s'.program source) := by
  rw [beside.program source]
  have plain : ((s.bound source).between o).MovesPlain ⟨o.ids, 0⟩ := ⟨o.same, rfl⟩
  refine Stmt.LikeList.moved plain all _ (program_formed s source) fun id among => ?_
  have given := ((program_handed s source).bounds id among).1
  have beyond := Nat.le_trans beside.base given
  exact ⟨if_neg (Nat.not_lt.2 beyond), o.still id beyond⟩

/-- How a run of statements ends that are alike in the two sessions. -/
theorem Beside.interpreted (beside : Beside o s s') {fuel : Nat} {program program' : List Stmt}
    (step : (Step.mk fuel (.program program) s.machine).Sound s.Recorded)
    (like : ∀ scopes, AllSame scopes → Stmt.LikeList (s.between o) scopes program program')
    (known : ∀ id ∈ Stmt.idsList program, id < s.nextId)
    (kept : s.machine.Kept s.Recorded (stateOf (Run.interpret fuel program s.machine)))
    (sound' : Sound { s' with machine := stateOf (Run.interpret fuel program' s'.machine) }) :
    let first : Step := ⟨fuel, .program program, s.machine⟩
    let second : Step := ⟨fuel, .program program', s'.machine⟩
    Beside o { s with machine := stateOf (Run.interpret fuel program s.machine) }
        { s' with machine := stateOf (Run.interpret fuel program' s'.machine) } ∧
      (∀ e, reportOf first.halt? = .failed [.runtime e] → ∃ id, first.RaisesAt e id ∧
        reportOf second.halt? = .failed [.runtime ⟨o.line id e.line, e.cause⟩]) ∧
      ((∀ e, reportOf first.halt? ≠ .failed [.runtime e]) →
        reportOf second.halt? = reportOf first.halt?) := by
  intro first second
  obtain ⟨w, likeM⟩ := beside.like
  have all : AllSame (w.along s.machine.chain) := by
    rw [beside.sound.chain]
    intro π among
    obtain rfl := List.mem_singleton.1 among
    exact likeM.store.at_global
  have runs := Run.interpret_alike fuel likeM (like _ all) known
  have sound := beside.sound.afterwards kept
  have halts : first.halt? = haltOf (Run.interpret fuel program s.machine) := rfl
  have halts' : second.halt? = haltOf (Run.interpret fuel program' s'.machine) := rfl
  have after {v : World} {n n' : Machine}
      (ends : stateOf (Run.interpret fuel program s.machine) = n)
      (likeAfter : n.Like (s.between o) v n') :
      n.Like (between { s with machine := n } o) v n' := by
    have same : between { s with machine := n } o = s.between o := by
      rw [ends] at kept
      simp only [between, kept.distances]
    rwa [same]
  rcases runs with ⟨_, _, n, n', v, run, run', -, likeAfter, -⟩ |
    ⟨h, h', n, n', v, run, run', -, likeAfter, blames⟩
  · have likeNow := after (congrArg stateOf run) likeAfter
    rw [halts, halts']
    rw [run] at sound ⊢
    rw [run'] at sound' ⊢
    exact ⟨⟨sound, sound', beside.base, beside.nextId, v, likeNow⟩,
      fun e same => (nomatch same), fun _ => rfl⟩
  · have told := blames.same step
    have likeNow := after (congrArg stateOf run) likeAfter
    rw [halts, halts']
    rw [run] at sound ⊢
    rw [run'] at sound' ⊢
    refine ⟨⟨sound, sound', beside.base, beside.nextId, v, likeNow⟩, ?_⟩
    rcases told with ⟨rfl, other⟩ | ⟨e, id, raises, known, rfl, rfl⟩
    · refine ⟨fun e same => ?_, fun _ => rfl⟩
      cases h' with
      | runtime e' => exact (other e' rfl).elim
      | sinkFull | outOfFuel => cases same
    · refine ⟨fun e' same => ?_, fun other => (other e rfl).elim⟩
      cases same
      exact ⟨id, raises, rfl⟩

/-- How the run of a chunk that is accepted ends in the two sessions. -/
theorem Beside.run_accepted (beside : Beside o s s') (accepts : s.Accepts source) (fuel : Nat) :
    Beside o (s.run fuel source).2 (s'.run fuel source).2 ∧
      Tells o.line s fuel source (s.run fuel source).1 (s'.run fuel source).1 := by
  have sound' := beside.sound'.run fuel source
  rw [Session.run_accepted fuel (beside.accepts accepts)] at sound' ⊢
  rw [Session.run_accepted fuel accepts]
  obtain ⟨next, runtime, other⟩ := (beside.bound source).interpreted
    (beside.sound.firstStep accepts fuel) (fun scopes all => beside.program_like source all)
    (fun id among => ((program_handed s source).bounds id among).2)
    (beside.sound.kept accepts fuel) sound'
  refine ⟨next, fun e same => ?_, other⟩
  obtain ⟨id, raises, told⟩ := runtime e same
  exact ⟨id, ⟨accepts, raises⟩, told⟩

/-- After a chunk the sessions are as they were, side by side. -/
theorem Beside.run (beside : Beside o s s') (fuel : Nat) (source : String) :
    Beside o (s.run fuel source).2 (s'.run fuel source).2 ∧
      Tells o.line s fuel source (s.run fuel source).1 (s'.run fuel source).1 := by
  rcases accepts_or_rejects s source with accepts | ⟨faults, after, rejects⟩
  · exact beside.run_accepted accepts fuel
  · obtain ⟨after', rejects', besideAfter⟩ := beside.rejects rejects
    rw [run_rejected fuel rejects, run_rejected fuel rejects']
    refine ⟨besideAfter, fun e same => ?_, fun _ => rfl⟩
    have told : Fault.runtime e ∈ faults := by
      cases same
      exact List.mem_singleton.2 rfl
    exact (rejects.not_runtime e told).elim

/-- The session after these chunks, each with its fuel. -/
def after (s : Session) (chunks : List (Nat × String)) : Session :=
  chunks.foldl (fun s chunk => (s.run chunk.1 chunk.2).2) s

/-- After whatever chunks the sessions are side by side still. -/
theorem Beside.after (beside : Beside o s s') (chunks : List (Nat × String)) :
    Beside o (s.after chunks) (s'.after chunks) := by
  induction chunks generalizing s s' with
  | nil => exact beside
  | cons chunk chunks ih => exact ih (beside.run chunk.1 chunk.2).1

theorem Reachable.after (reachable : s.Reachable) (chunks : List (Nat × String)) :
    (s.after chunks).Reachable := by
  induction chunks generalizing s with
  | nil => exact reachable
  | cons chunk chunks ih => exact ih (.run reachable chunk.1 chunk.2)

end Session

end Lox
