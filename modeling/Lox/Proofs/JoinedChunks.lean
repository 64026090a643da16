import Mathlib
import Lox.Proofs.CompleteReading
import Lox.Proofs.JoinedTexts
import Lox.Proofs.JoinedWalks
import Lox.Proofs.ReadJoined
import Lox.Proofs.RejectedChunks

/-!
Running two texts as one chunk. It is read and bound as the second text would be after the first,
some lines further down, and what it prints and ends with is what the two chunks do.
-/

namespace Lox

namespace Grammar

open Session (syntaxErrors statements)

/-! ### Reading -/

section Reading

variable {e : Token} {ts more : List Token} {bound bound' : Nat} {lo : ExprId}

/-- Without errors a statement begins where the text does. -/
theorem head_of_read (inside : ∀ t ∈ ts.head?, t.kind.isEnd = false)
    (fine : syntaxErrors (recoverFrom (bound + 1) ⟨ts, lo⟩).1 = []) :
    ∀ t ∈ ts.head?, t.kind.isKeyword .else_ = false := by
  intro t first
  obtain ⟨rest, rfl⟩ : ∃ rest, ts = t :: rest := List.head?_eq_some_iff.1 first
  have more : (Cursor.mk (t :: rest) lo).atEnd = false := inside t rfl
  rw [recoverFrom, more] at fine
  dsimp only at fine
  cases reading : declaration (bound + 1) ⟨t :: rest, lo⟩ with
  | error x c =>
    rw [reading] at fine
    cases fine
  | ok s c =>
    obtain ⟨used, split, -, formed⟩ := (statements_take (bound + 1)).1 _ _ _ reading
    obtain ⟨t', us, rfl, opens, -⟩ := formed.first
    cases split
    cases kind : t.kind with
    | keyword word =>
      rw [kind] at opens
      cases word with
      | else_ => cases opens
      | _ => rfl
    | _ => rfl

/-- What is read without errors is read also where more follows, and then that is read. -/
theorem recoverFrom_joined (ends : e.kind = .endOfText)
    (apart : ∀ t ∈ more.head?, t.kind.isKeyword .else_ = false)
    (inside : ∀ t ∈ ts, t.kind.isEnd = false) (enough : ts.length ≤ bound) (fits : bound ≤ bound')
    (fine : syntaxErrors (recoverFrom bound ⟨ts ++ [e], lo⟩).1 = []) :
    ∃ items hi left, recoverFrom bound ⟨ts ++ [e], lo⟩ = (items, ⟨[e], hi⟩) ∧
      bound' ≤ left + ts.length ∧ recoverFrom bound' ⟨ts ++ more, lo⟩ =
        (items ++ (recoverFrom left ⟨more, hi⟩).1, (recoverFrom left ⟨more, hi⟩).2) := by
  induction bound generalizing bound' ts lo with
  | zero =>
    obtain rfl := List.length_eq_zero_iff.1 (Nat.le_zero.1 enough)
    exact ⟨[], lo, bound', rfl, Nat.le_refl _, rfl⟩
  | succ bound ih =>
    cases ts with
    | nil =>
      have ended : (Cursor.mk [e] lo).atEnd = true := by
        rw [Cursor.atEnd, Cursor.next, List.headD_cons, ends]
        rfl
      refine ⟨[], lo, bound', ?_, Nat.le_refl _, rfl⟩
      rw [List.nil_append, recoverFrom, ended]
      rfl
    | cons t ts =>
      obtain ⟨bound', rfl⟩ := Nat.exists_eq_add_of_le' (Nat.le_trans (Nat.succ_pos bound) fits)
      have goesOn (after : List Token) : (Cursor.mk (t :: ts ++ after) lo).atEnd = false :=
        inside t List.mem_cons_self
      rw [recoverFrom, goesOn] at fine ⊢
      rw [recoverFrom, goesOn]
      dsimp only at fine ⊢
      rcases (declaration_joined ends apart enough fits).1 lo with
        ⟨s, rest, mid, shorter, part, reads, reads'⟩ | ⟨x, c, fails⟩
      · rw [reads] at fine ⊢
        rw [reads']
        dsimp only at fine ⊢
        have shorter : rest.length ≤ bound :=
          Nat.le_trans (Nat.le_of_lt_succ shorter) (Nat.le_of_succ_le_succ enough)
        obtain ⟨items, hi, left, own, long, joined⟩ := ih
          (fun t among => inside t (part.subset among)) shorter (Nat.le_of_succ_le_succ fits) fine
        refine ⟨.ok s :: items, hi, left, ?_, ?_, ?_⟩
        · rw [own]
          rfl
        · have := part.length_le
          omega
        · rw [joined]
          rfl
      · rw [fails] at fine
        cases fine

/-- What is read without errors is read further down, too. -/
theorem recoverFrom_moved_fine (k : Shift) (c : Cursor)
    (fine : syntaxErrors (recoverFrom bound c).1 = []) :
    recoverFrom bound (k.cursor c) =
      ((recoverFrom bound c).1.map (movedItem k), k.cursor (recoverFrom bound c).2) := by
  induction bound generalizing c with
  | zero => rfl
  | succ bound ih =>
    have ends : (k.cursor c).atEnd = c.atEnd := by
      rw [Cursor.atEnd, Cursor.atEnd, Follows.kind_moved]
    rw [recoverFrom] at fine ⊢
    rw [recoverFrom, ends]
    split
    · rfl
    · rename_i goesOn
      rw [if_neg goesOn] at fine
      have follows := (declaration_follows (k := k) (bound + 1)).1 c
      cases reading : declaration (bound + 1) c with
      | ok s after =>
        rw [reading] at follows fine
        rw [follows]
        dsimp only at fine ⊢
        rw [ih after fine]
        rfl
      | error x after =>
        rw [reading] at fine
        cases fine

end Reading

/-- Two programs without errors, the second one further down, are read as one after the other. -/
theorem recoverProgram_joined {e e' : Token} {ts us : List Token} {lo : ExprId} (lines : Nat)
    (ends : e.kind = .endOfText) (ends' : e'.kind = .endOfText)
    (inside : ∀ t ∈ ts, t.kind.isEnd = false) (inside' : ∀ t ∈ us, t.kind.isEnd = false)
    (fine : syntaxErrors (recoverProgram (ts ++ [e]) lo).value = [])
    (fine' : syntaxErrors
      (recoverProgram (us ++ [e']) (recoverProgram (ts ++ [e]) lo).nextId).value = []) :
    recoverProgram (ts ++ (us ++ [e']).map (Shift.token ⟨0, lines⟩)) lo =
      ⟨(recoverProgram (ts ++ [e]) lo).value ++
          (recoverProgram (us ++ [e']) (recoverProgram (ts ++ [e]) lo).nextId).value.map
            (movedItem ⟨0, lines⟩),
        (recoverProgram (us ++ [e']) (recoverProgram (ts ++ [e]) lo).nextId).nextId⟩ := by
  let k : Shift := ⟨0, lines⟩
  have more : (us ++ [e']).map k.token = us.map k.token ++ [k.token e'] := List.map_append
  have insideMore : ∀ t ∈ us.map k.token, t.kind.isEnd = false := by
    intro t among
    obtain ⟨u, given, rfl⟩ := List.mem_map.1 among
    exact inside' u given
  have end_not_else : e'.kind.isKeyword .else_ = false := by
    rw [ends']
    rfl
  have apart : ∀ t ∈ ((us ++ [e']).map k.token).head?, t.kind.isKeyword .else_ = false := by
    intro t first
    rw [List.head?_map, Option.mem_def, Option.map_eq_some_iff] at first
    obtain ⟨u, first, rfl⟩ := first
    cases us with
    | nil =>
      obtain rfl : e' = u := Option.some.inj first
      exact end_not_else
    | cons v us =>
      have begins : ∀ t ∈ (v :: us ++ [e']).head?, t.kind.isEnd = false := by
        intro t first
        obtain rfl : v = t := Option.some.inj first
        exact inside' v List.mem_cons_self
      exact head_of_read begins fine' u first
  have enough : ts.length ≤ (ts ++ [e]).length := by simp
  have fits : (ts ++ [e]).length ≤ (ts ++ (us ++ [e']).map k.token).length := by simp
  obtain ⟨items, hi, left, own, long, joined⟩ :=
    recoverFrom_joined ends apart inside enough fits fine
  have next : (recoverProgram (ts ++ [e]) lo).nextId = hi := by rw [recoverProgram, own]
  rw [next] at fine' ⊢
  have moved := recoverFrom_moved_fine k ⟨us ++ [e'], hi⟩ fine'
  have cursor : k.cursor ⟨us ++ [e'], hi⟩ = ⟨us.map k.token ++ [k.token e'], hi⟩ := by
    rw [Shift.cursor, more]
    rfl
  have fineMoved : syntaxErrors (recoverFrom (us ++ [e']).length
      ⟨us.map k.token ++ [k.token e'], hi⟩).1 = [] := by
    rw [← cursor, moved]
    exact (Session.syntaxErrors_moved k _).trans fine'
  have apartEnd : ∀ t ∈ [k.token e'].head?, t.kind.isKeyword .else_ = false := by
    intro t first
    obtain rfl : k.token e' = t := Option.some.inj first
    exact end_not_else
  have enoughMore : (us.map k.token).length ≤ (us ++ [e']).length := by simp
  have fitsMore : (us ++ [e']).length ≤ left := by
    simp only [List.length_append, List.length_map] at long ⊢
    omega
  obtain ⟨items', hi', left', own', -, whole⟩ :=
    recoverFrom_joined (e := k.token e') ends' apartEnd insideMore enoughMore fitsMore fineMoved
  have atEnd : Cursor.atEnd ⟨[k.token e'], hi'⟩ = true := congrArg TokenKind.isEnd ends'
  have ended := recoverFrom_ended atEnd left'
  rw [ended, List.append_nil, ← more] at whole
  rw [cursor, own', Prod.mk.injEq] at moved
  obtain ⟨sameItems, sameEnd⟩ := moved
  have sameNext : hi' = (recoverProgram (us ++ [e']) hi).nextId := congrArg Cursor.nextId sameEnd
  rw [recoverProgram, joined, whole, recoverProgram, own, sameNext, sameItems]
  rfl

end Grammar

/-! ### Runs of statements one after the other -/

theorem Run.interpret_append (fuel : Nat) (program more : List Stmt) :
    Run.interpret fuel (program ++ more) =
      (Run.interpret fuel program >>= fun _ => Run.interpret fuel more) := by
  induction program with
  | nil => rfl
  | cons s program ih => rw [List.cons_append, Run.interpret, Run.interpret, ih, bind_assoc]

theorem Machine.setDistances_append (m : Machine) (found more : List (ExprId × Nat)) :
    m.setDistances (found ++ more) = (m.setDistances found).setDistances more :=
  List.foldl_append

namespace Session

variable {s t : Session} {a b : String}

/-! ### Acceptance -/

/-- Whether a text is accepted does not depend on how many ids have been given out. -/
theorem Accepts.later (accepts : s.Accepts a) (later : s.nextId ≤ t.nextId) : t.Accepts a := by
  obtain ⟨n, same⟩ := Nat.exists_eq_add_of_le later
  have reading : t.reading a = ⟨(s.reading a).value.map (Grammar.movedItem ⟨n, 0⟩),
      (s.reading a).nextId + n⟩ := by
    rw [Session.reading, same]
    exact Grammar.recoverProgram_later _ _ _
  have formed : Stmt.FormedList (fun _ => True) (s.program a) :=
    (statements_read (Grammar.recoverFrom_reads _ ⟨_, s.nextId⟩ fun _ _ => trivial)).1
  refine ⟨accepts.scanned, ?_, ?_⟩
  · rw [reading]
    exact (syntaxErrors_moved _ _).trans accepts.read
  · rw [Session.program, reading, statements_moved]
    exact (resolve_later n formed).trans accepts.resolved

theorem Accepts.next (accepts : s.Accepts b) (a : String) : (s.bound a).Accepts b :=
  accepts.later (program_handed s a).le

section Joined

variable (first : s.Accepts a) (second : s.Accepts b)
include first second

/-- The second text is read after the first. -/
theorem reading_joined :
    s.reading (a ++ "\n" ++ b) =
      ⟨(s.reading a).value ++
          ((s.bound a).reading b).value.map (Grammar.movedItem ⟨0, Scan.linesOf a + 1⟩),
        ((s.bound a).reading b).nextId⟩ := by
  obtain ⟨before, line, inside, own, joined⟩ := Scan.items_joined a b first.scanned
  obtain ⟨before', line', inside', own'⟩ := Scan.items_ended b
  have tokens : Scan.tokens (Scan.items a) =
      Scan.tokens before ++ [⟨.endOfText, "", line⟩] := by
    rw [own, Scan.tokens_append]
    rfl
  have tokens' : Scan.tokens (Scan.items b) =
      Scan.tokens before' ++ [⟨.endOfText, "", line'⟩] := by
    rw [own', Scan.tokens_append]
    rfl
  have tokensBoth : Scan.tokens (Scan.items (a ++ "\n" ++ b)) = Scan.tokens before ++
      (Scan.tokens (Scan.items b)).map (Shift.token ⟨0, Scan.linesOf a + 1⟩) := by
    rw [joined, Scan.tokens_append, Scan.tokens_lowered]
  have read := first.read
  have read' := (second.next a).read
  unfold Session.reading at read read' ⊢
  rw [tokensBoth, tokens']
  simp only [bound, Session.reading] at read' ⊢
  rw [tokens] at read ⊢
  rw [tokens, tokens'] at read'
  exact Grammar.recoverProgram_joined _ rfl rfl inside inside' read read'

theorem program_joined :
    s.program (a ++ "\n" ++ b) =
      s.program a ++ Stmt.movedList ⟨0, Scan.linesOf a + 1⟩ ((s.bound a).program b) := by
  rw [Session.program, reading_joined first second]
  exact List.filterMap_append.trans (congrArg _ (statements_moved _ _))

theorem resolve_joined :
    (resolve (s.program (a ++ "\n" ++ b))).error = none ∧
      (resolve (s.program (a ++ "\n" ++ b))).found =
        (resolve (s.program a)).found ++ (resolve ((s.bound a).program b)).found := by
  have formed : Stmt.FormedList (fun _ => True) ((s.bound a).program b) :=
    (statements_read (Grammar.recoverFrom_reads _ ⟨_, (s.bound a).nextId⟩ fun _ _ => trivial)).1
  obtain ⟨found, error⟩ := resolve_moved ⟨0, Scan.linesOf a + 1⟩ formed
  have fine : (resolve (Stmt.movedList ⟨0, Scan.linesOf a + 1⟩ ((s.bound a).program b))).error =
      none := by
    rw [(second.next a).resolved] at error
    cases moved : (resolve (Stmt.movedList ⟨0, Scan.linesOf a + 1⟩ ((s.bound a).program b))).error
    · rfl
    · rw [moved] at error
      exact error.elim
  have same : (resolve ((s.bound a).program b)).found.map (fun use => (use.1 + 0, use.2)) =
      (resolve ((s.bound a).program b)).found := List.map_id _
  obtain ⟨none, both⟩ := resolve_append (program_handed s a).distinct first.resolved fine
  rw [program_joined first second]
  exact ⟨none, both.trans (congrArg _ (found.trans same))⟩

theorem Accepts.joined : s.Accepts (a ++ "\n" ++ b) := by
  obtain ⟨before, line, -, own, joined⟩ := Scan.items_joined a b first.scanned
  refine ⟨?_, ?_, (resolve_joined first second).1⟩
  · have none : Scan.errors before = [] := by
      have fine := first.scanned
      rw [own, Scan.errors_append] at fine
      exact (List.append_eq_nil_iff.1 fine).1
    rw [joined, Scan.errors_append, none, Scan.errors_lowered _ second.scanned]
    rfl
  · have fine := (syntaxErrors_moved ⟨0, Scan.linesOf a + 1⟩ _).trans (second.next a).read
    rw [reading_joined first second]
    refine List.filterMap_append.trans ?_
    exact List.append_eq_nil_iff.2 ⟨first.read, fine⟩

/-- The two texts are bound as one after the other. -/
theorem bound_joined : s.bound (a ++ "\n" ++ b) = (s.bound a).bound b := by
  have machine : (s.bound (a ++ "\n" ++ b)).machine = ((s.bound a).bound b).machine := by
    show s.machine.setDistances (resolve (s.program (a ++ "\n" ++ b))).found =
      (s.machine.setDistances (resolve (s.program a)).found).setDistances
        (resolve ((s.bound a).program b)).found
    rw [(resolve_joined first second).2, Machine.setDistances_append]
  have nextId : (s.bound (a ++ "\n" ++ b)).nextId = ((s.bound a).bound b).nextId := by
    show (s.reading (a ++ "\n" ++ b)).nextId = _
    rw [reading_joined first second]
    rfl
  exact congrArg₂ Session.mk machine nextId

end Joined

/-! ### Runs -/

/-- Lines of expressions of the program are further down. -/
def furtherDown (lines : Nat) (program : List Stmt) (id : ExprId) (line : Nat) : Nat :=
  if id ∈ Stmt.idsList program then line + lines else line

/-- The program is read in a session where it was read further down in the other. -/
def lowering (lines : Nat) (s : Session) (source : String) : Offset :=
  ⟨(s.bound source).nextId, 0, furtherDown lines (s.program source),
    fun l l' => l' = l ∨ l' = l + lines,
    fun id beyond _ => if_neg fun among =>
      Nat.not_lt_of_le beyond ((program_handed s source).bounds id among).2,
    fun _ => .inl rfl⟩

/-- With the distances of a program that is yet to be run, a session is as it was before. -/
theorem Sound.beside_bound (sound : s.Sound) (source : String) :
    Beside (skipping s (s.bound source)) s (s.bound source) :=
  sound.beside_later sound.bound (bound_machine s source) (program_handed s source).le
    fun _ old => bound_distances s source old

/-- A program that was read before goes over into itself. -/
theorem program_like_self (s : Session) (source more : String) (scopes : List Renaming)
    (all : AllSame scopes) :
    let u := s.bound source
    Stmt.LikeList (u.between (skipping u (u.bound more))) scopes (s.program source)
      (s.program source) := by
  intro u
  have plain : (u.between (skipping u (u.bound more))).MovesPlain .none := ⟨fun _ => rfl, rfl⟩
  have like := Stmt.LikeList.moved plain all (s.program source) (program_formed s source)
    fun id among => ⟨if_pos ((program_handed s source).bounds id among).2, fun _ => rfl⟩
  rwa [Stmt.movedList_none] at like

section Joined

variable (sound : s.Sound) (first : s.Accepts a) (second : s.Accepts b) (fuel : Nat)
include sound first

/-- The first program, run before the distances of the second are recorded and after that. -/
theorem first_beside :
    let u := s.bound a
    let v := u.bound b
    let step : Step := ⟨fuel, .program (s.program a), v.machine⟩
    Beside (skipping u v)
        { u with machine := stateOf (Run.interpret fuel (s.program a) u.machine) }
        { v with machine := stateOf (Run.interpret fuel (s.program a) v.machine) } ∧
      (stateOf (Run.interpret fuel (s.program a) v.machine)).distances = v.machine.distances ∧
      reportOf step.halt? = reportOf (s.firstStep fuel a).halt? := by
  intro u v step
  have soundU : u.Sound := sound.bound
  have inside : Stmt.ScopedList v.Recorded Place.outermost (s.program a) :=
    Stmt.ScopedList.imp (fun _ _ recorded => recorded.bound) _ (first.scoped sound)
  have kept := soundU.bound.interpreted inside (program_formed s a) fuel
  obtain ⟨beside, runtime, other⟩ := (soundU.beside_bound b).interpreted
    (sound.firstStep first fuel) (program_like_self s a b)
    (fun id among => ((program_handed s a).bounds id among).2) (sound.kept first fuel)
    (soundU.bound.afterwards kept)
  refine ⟨beside, kept.distances, ?_⟩
  by_cases raised : ∃ e, reportOf (s.firstStep fuel a).halt? = .failed [.runtime e]
  · obtain ⟨e, raised⟩ := raised
    obtain ⟨id, -, told⟩ := runtime e raised
    exact told.trans raised.symm
  · exact other fun e same => raised ⟨e, same⟩

include second

omit sound in
theorem run_joined :
    s.run fuel (a ++ "\n" ++ b) =
      let v := (s.bound a).bound b
      let lower := Stmt.movedList ⟨0, Scan.linesOf a + 1⟩ ((s.bound a).program b)
      let ended := (Run.interpret fuel (s.program a) >>= fun _ => Run.interpret fuel lower) v.machine
      (reportOf (haltOf ended), { v with machine := stateOf ended }) := by
  rw [run_accepted fuel (Accepts.joined first second), firstStep, bound_joined first second,
    program_joined first second, Run.interpret_append]
  rw [Step.halt?, Run.interpret_append]

end Joined

/-- Where the second program is about to run: in the one session it is bound just now, in the other
its distances have been there from the start. -/
theorem Beside.second {u : Session} {n n' : Machine}
    (beside : Beside (skipping u (u.bound b)) { u with machine := n }
      { u.bound b with machine := n' })
    (held : n.distances = u.machine.distances)
    (held' : n'.distances = (u.bound b).machine.distances) (lines : Nat) :
    Beside (lowering lines { u with machine := n } b) (Session.bound { u with machine := n } b)
      { u.bound b with machine := n' } := by
  obtain ⟨w, like⟩ := beside.like
  let h : Session := { u with machine := n }
  have known (id : ExprId) (old : id < u.nextId) : id ∉ Stmt.idsList (h.program b) := fun among =>
    Nat.not_lt_of_le ((program_handed h b).bounds id among).1 old
  have extends_ : (h.between (skipping u (u.bound b))).Extends
      ((h.bound b).between (lowering lines h b)) := by
    refine ⟨⟨fun _ _ same => .inl same.symm, fun _ renames => renames⟩, fun id old => ?_,
      fun id old => ⟨?_, bound_distances h b old, ?_⟩⟩
    · exact Nat.lt_of_lt_of_le old (program_handed h b).le
    · exact (if_pos (Nat.lt_of_lt_of_le old (program_handed h b).le)).trans (if_pos old).symm
    · funext l
      exact if_neg (known id old)
  have distances : (h.bound b).machine.distances = (u.bound b).machine.distances := by
    show (n.setDistances _).distances = (u.machine.setDistances _).distances
    rw [Machine.setDistances_eq, Machine.setDistances_eq, held]
    rfl
  have later : Machine.Like ((h.bound b).between (lowering lines h b)) w
      { n with distances := (h.bound b).machine.distances } { n' with distances := n'.distances } := by
    refine like.later extends_ fun id old => ⟨rfl, ?_⟩
    have still : ((h.bound b).between (lowering lines h b)).ids id = id := if_pos old
    rw [still, held', ← distances]
    rfl
  rw [← bound_machine h b] at later
  exact ⟨beside.sound.bound, beside.sound', Nat.le_refl _, rfl, w, later⟩

/-- The second program, further down, after the first. -/
theorem Beside.second_run {h v : Session} {lines : Nat}
    (beside : Beside (lowering lines h b) (h.bound b) v) (sound : h.Sound) (accepts : h.Accepts b)
    (fuel : Nat) :
    let lower := Stmt.movedList ⟨0, lines⟩ (h.program b)
    let step : Step := ⟨fuel, .program lower, v.machine⟩
    Sound { v with machine := stateOf (Run.interpret fuel lower v.machine) } →
    Beside (lowering lines h b) (h.run fuel b).2
        { v with machine := stateOf (Run.interpret fuel lower v.machine) } ∧
      Tells (furtherDown lines (h.program b)) h fuel b (h.run fuel b).1 (reportOf step.halt?) := by
  intro lower step sound'
  have given := program_handed h b
  have plain : ((h.bound b).between (lowering lines h b)).MovesPlain ⟨0, lines⟩ :=
    ⟨fun _ => .inr rfl, rfl⟩
  obtain ⟨next, runtime, other⟩ := beside.interpreted (sound.firstStep accepts fuel)
    (fun scopes all => Stmt.LikeList.moved plain all _ (program_formed h b) fun id among =>
      ⟨if_pos (given.bounds id among).2, fun _ => if_pos among⟩)
    (fun id among => (given.bounds id among).2) (sound.kept accepts fuel) sound'
  rw [Session.run_accepted fuel accepts]
  refine ⟨next, fun e same => ?_, other⟩
  obtain ⟨id, raises, told⟩ := runtime e same
  exact ⟨id, ⟨accepts, raises⟩, told⟩

end Session

end Lox
