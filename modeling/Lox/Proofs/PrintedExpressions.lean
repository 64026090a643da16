import Mathlib
import Lox.Proofs.ChunkStages
import Lox.Proofs.EndOfTokens
import Lox.Proofs.JoinedTexts
import Lox.Proofs.QuietExpressions

/-!
Expressions, evaluated and printed. A text that is one expression becomes a chunk by the word `print`
before it and a semicolon after it, on a line of its own as the text may end with a comment. The
chunk is read as one statement with the same tree, no use in it is bound to a scope, and its run
ends as the evaluation does that was never bound.
-/

namespace Lox

/-- The chunk that prints an expression. -/
def printing (e : String) : String := "print " ++ e ++ "\n;"

/-- The token means the same inside of a class and outside. -/
def Token.Standalone (t : Token) : Prop :=
  t.kind.isKeyword .this = false ∧ t.kind.isKeyword .super = false

/-! ### Scanning -/

namespace Scan

open Region

def printToken : Token := ⟨.keyword .print, "print", 1⟩

theorem items_print (e : String) : items ("print " ++ e) = .ok printToken :: items e := by
  have word : first 'p' ("rint ".toList ++ e.toList) = (⟨.word, "print".toList⟩, ' ' :: e.toList) := rfl
  have blank : first ' ' e.toList = (⟨.blank, [' ']⟩, e.toList) := rfl
  have text : ("print " ++ e).toList = 'p' :: ("rint ".toList ++ e.toList) := String.toList_append ..
  rw [items_eq, text, cut, word, cut, blank, items_eq]
  rfl

/-- The chunk has the tokens of the expression, up to their end, between its own. -/
theorem tokens_printing {e : String} (fine : errors (items e) = []) :
    ∃ ts line below, (∀ t ∈ ts, t.kind.isEnd = false) ∧
      tokens (items e) = ts ++ [⟨.endOfText, "", line⟩] ∧ errors (items (printing e)) = [] ∧
      tokens (items (printing e)) =
        printToken :: (ts ++ [⟨.mark .semicolon, ";", below⟩, ⟨.endOfText, "", below⟩]) := by
  obtain ⟨before, line, inside, ended⟩ := items_ended e
  have whole : errors (items ("print " ++ e)) = [] := by
    rw [items_print]
    exact fine
  obtain ⟨before', line', -, ended', joined⟩ := items_joined ("print " ++ e) ";" whole
  rw [items_print, ended, ← List.cons_append] at ended'
  obtain ⟨rfl, -⟩ := List.append_inj' ended' rfl
  have text : "print " ++ e ++ "\n" ++ ";" = printing e := String.append_assoc
  have close : items ";" = [.ok ⟨.mark .semicolon, ";", 1⟩, .ok ⟨.endOfText, "", 1⟩] := by
    cbv
  rw [text, close] at joined
  rw [ended, errors_append, List.append_eq_nil_iff] at fine
  refine ⟨tokens before, line, 1 + (linesOf ("print " ++ e) + 1), inside, ?_, ?_, ?_⟩
  · rw [ended, tokens_append]
    rfl
  · rw [joined, errors_append]
    exact List.append_eq_nil_iff.2 ⟨fine.1, rfl⟩
  · rw [joined, tokens_append]
    rfl

end Scan

/-! ### Reading -/

namespace Grammar

open Reader

/-- An expression that is read up to the end is read alike up to a semicolon. -/
theorem expression_before_semicolon {ts : List Token} {last : Token} {id : ExprId} {tree : Expr}
    (inside : ∀ t ∈ ts, t.kind.isEnd = false) (ends : last.kind.isEnd = true)
    (read : (readExpression (ts ++ [last]) id).value = .ok tree) :
    ∃ next, ∀ rest, ClosedBy .semicolon rest → ∀ bound, (ts ++ rest).length ≤ bound →
      expression bound ⟨ts ++ rest, id⟩ = .ok tree ⟨rest, next⟩ := by
  obtain ⟨d, given, ended⟩ := readExpression_ok read
  have predicts : Predicts (fun _ => False) TokenKind.inExpression (Stops .expression) [aNil]
      ((ts ++ [last]).length + 1) (fun n : Nat => n + 1) (expression (ts ++ [last]).length)
      expression := expression_predicts (Nat.le_refl _) fun _ => Nat.le_refl _
  have told := predicts.foretells ⟨ts ++ [last], id⟩ (Nat.lt_succ_self _)
  rw [given] at told
  obtain ⟨used, told⟩ := told
  -- The tokens taken are those before the first end token, and so are all of `ts`.
  have same : used = ts := by
    have inside' : ∀ t ∈ used, t.kind.isEnd = false := inside_of_kinds fun t among =>
      TokenKind.inside_of_inExpression _ (told.kinds t among)
    have split : ts ++ [last] = used ++ d.rest := told.split
    rw [← takeWhile_inside inside' ended, ← split, takeWhile_inside inside]
    intro t first
    cases first
    exact ends
  subst same
  refine ⟨d.nextId, fun rest closed bound room => ?_⟩
  exact told.alike rest (.inr (closed.stops (by decide))) bound (Nat.lt_succ_of_le room)

theorem readExpression_formed {P : Token → Prop} {ts : List Token} {id : ExprId} {tree : Expr}
    (good : ∀ t ∈ ts, P t) (read : (readExpression ts id).value = .ok tree) : tree.Formed P := by
  obtain ⟨d, given, -⟩ := readExpression_ok read
  have reads := expression_reads (P := P) ts.length ⟨ts, id⟩ good
  rw [given] at reads
  exact reads.2.2.1

/-- The chunk is one statement, and its tree is that of the expression. -/
theorem recoverProgram_print {ts : List Token} {last semicolon last' : Token} {id : ExprId}
    {tree : Expr} (inside : ∀ t ∈ ts, t.kind.isEnd = false) (ends : last.kind.isEnd = true)
    (read : (readExpression (ts ++ [last]) id).value = .ok tree)
    (closed : semicolon.kind = .mark .semicolon) (ends' : last'.kind.isEnd = true) :
    (recoverProgram (Scan.printToken :: (ts ++ [semicolon, last'])) id).value =
      [.ok (.print tree)] := by
  have isMark : semicolon.kind.isMark .semicolon = true := TokenKind.isMark_iff.2 closed
  have isInside : semicolon.kind.isEnd = false := by
    rw [closed]
    rfl
  obtain ⟨next, given⟩ := expression_before_semicolon inside ends read
  have value := given [semicolon, last'] ⟨semicolon, rfl, isInside, isMark⟩
  have printed (bound : Nat) (room : (ts ++ [semicolon, last']).length ≤ bound + 1) :
      declaration (bound + 1) ⟨Scan.printToken :: (ts ++ [semicolon, last']), id⟩ =
        .ok (.print tree) ⟨[last'], next⟩ := by
    have mark : expectMark .semicolon .printEnd ⟨[semicolon, last'], next⟩ =
        .ok semicolon ⟨[last'], next⟩ := bind_of_ok (accept?_some [last'] next isInside isMark)
    have statement : printStatement (bound + 1) ⟨ts ++ [semicolon, last'], id⟩ =
        .ok (.print tree) ⟨[last'], next⟩ :=
      (bind_of_ok (value (bound + 1) room)).trans (bind_of_ok mark)
    rw [declaration]
    exact statement
  have atEnd : Cursor.atEnd ⟨[last'], next⟩ = true := ends'
  rw [recoverProgram, List.length_cons, recoverFrom, printed _ (Nat.le_succ _)]
  simp only [recoverFrom_ended atEnd]
  rfl

end Grammar

/-! ### Binding -/

namespace Scoping

/-- Outside of all scopes the walk finds nothing. -/
def Silent (walk : Scoping Unit) : Prop := ∀ s, s.frames = [] → walk s = .ok () s

theorem Silent.bind {walk next : Scoping Unit} (first : Silent walk) (second : Silent next) :
    Silent (walk >>= fun _ => next) := by
  intro s outermost
  rw [bind_of_ok (first s outermost)]
  exact second s outermost

theorem recordUse_silent (id : ExprId) (name : String) : Silent (recordUse id name) := by
  intro s outermost
  unfold recordUse
  rw [outermost]
  rfl

theorem checkDefined_silent (name : Token) : Silent (checkDefined name) := by
  intro s outermost
  unfold checkDefined
  rw [outermost]

mutual

theorem expr_silent : ∀ e : Expr, e.Formed Token.Standalone → Silent (expr e)
  | .literal _ _, _ => fun _ _ => rfl
  | .grouping _ inner, formed => expr_silent inner formed
  | .unary _ _ operand, formed => expr_silent operand formed.2.2
  | .binary _ left _ right, formed =>
      (expr_silent left formed.1).bind (expr_silent right formed.2.2.2)
  | .logical _ left _ right, formed =>
      (expr_silent left formed.1).bind (expr_silent right formed.2.2.2)
  | .assign id name value, formed =>
      (expr_silent value formed.2).bind (recordUse_silent id name.lexeme)
  | .var id name, _ => (checkDefined_silent name).bind (recordUse_silent id name.lexeme)
  | .call _ callee _ arguments, formed =>
      (expr_silent callee formed.1).bind (exprs_silent arguments formed.2.2)
  | .get _ object _, formed => expr_silent object formed.1
  | .set _ object _ value, formed =>
      (expr_silent value formed.2.2).bind (expr_silent object formed.1)
  | .this _ keyword, formed => by
      obtain ⟨⟨other, -⟩, same⟩ := formed
      rw [other] at same
      cases same
  | .super _ keyword _, formed => by
      obtain ⟨⟨-, other⟩, same, -⟩ := formed
      rw [other] at same
      cases same
  | .comma _ left right, formed => (expr_silent left formed.1).bind (expr_silent right formed.2)
  | .ternary _ condition yes no, formed =>
      (expr_silent condition formed.1).bind
        ((expr_silent yes formed.2.1).bind (expr_silent no formed.2.2))

theorem exprs_silent : ∀ es : List Expr, Expr.FormedList Token.Standalone es → Silent (exprs es)
  | [], _ => fun _ _ => rfl
  | e :: es, formed => (expr_silent e formed.1).bind (exprs_silent es formed.2)

end

end Scoping

/-- No use in an expression at the top level is bound to a scope. -/
theorem resolve_print {e : Expr} (formed : e.Formed Token.Standalone) :
    resolve [.print e] = ⟨[], none⟩ := by
  have walked : Scoping.stmts [.print e] ScopeState.initial = .ok () ScopeState.initial :=
    bind_of_ok (Scoping.expr_silent e formed _ rfl)
  rw [resolve, walked]
  rfl

/-! ### Running -/

theorem Run.interpret_print {fuel : Nat} {e : Expr} {m n : Machine} {v : Value}
    (evaluated : evaluate fuel e m = .ok v n) (room : n.sink.room = none) :
    interpret (fuel + 1) [.print e] m = .ok () (n.onSink (n.sink.write (v.text ++ "\n"))) := by
  have fits : n.sink.fits (v.text ++ "\n") = true := by
    rw [Sink.fits, room]
  have executed : execute (fuel + 1) (.print e) m =
      .ok .normal (n.onSink (n.sink.write (v.text ++ "\n"))) := by
    rw [execute, bind_of_ok evaluated]
    exact bind_of_ok (printLine_fits fits)
  exact bind_of_ok executed

theorem Run.interpret_print_error {fuel : Nat} {e : Expr} {m n : Machine} {h : Halt}
    (failed : evaluate fuel e m = .error h n) :
    interpret (fuel + 1) [.print e] m = .error h n := by
  have executed : execute (fuel + 1) (.print e) m = .error h n := by
    rw [execute]
    exact bind_of_error failed
  exact bind_of_error executed

namespace Session

section

variable {e : String} {tree : Expr} (scanned : Scan.errors (Scan.items e) = [])
  (read : (Grammar.readExpression (Scan.tokens (Scan.items e)) 0).value = .ok tree)
  (standalone : ∀ t ∈ Scan.tokens (Scan.items e), t.Standalone) (clock fuel : Nat)
include scanned read standalone

/-- The chunk is accepted as one statement, and its run begins on a fresh machine. -/
theorem accepts_printing :
    let s := initial .unlimited clock
    s.Accepts (printing e) ∧ s.program (printing e) = [.print tree] ∧
      (s.bound (printing e)).machine = Machine.initial .unlimited clock := by
  intro s
  obtain ⟨ts, line, below, inside, tokens, fine, chunk⟩ := Scan.tokens_printing scanned
  have resolved := resolve_print (Grammar.readExpression_formed standalone read)
  have given : (s.reading (printing e)).value = [.ok (.print tree)] := by
    rw [tokens] at read
    rw [reading, chunk]
    exact Grammar.recoverProgram_print inside rfl read rfl rfl
  have program : s.program (printing e) = [.print tree] := by
    rw [Session.program, given]
    rfl
  refine ⟨⟨fine, ?_, ?_⟩, program, ?_⟩
  · rw [given]
    rfl
  · rw [program, resolved]
  · rw [bound, program, Machine.bindProgram, resolved]
    rfl

/-- How the chunk ends and what it prints, told by the evaluation alone. -/
theorem run_printing :
    let run := (initial .unlimited clock).run (fuel + 1) (printing e)
    (run.1, run.2.machine.sink.bytes) =
      match Run.evaluate fuel tree (Machine.initial .unlimited clock) with
      | .ok v _ => (.done, (v.text ++ "\n").toUTF8.data)
      | .error h _ => (.ofHalt h, #[]) := by
  obtain ⟨accepts, program, fresh⟩ := accepts_printing scanned read standalone clock
  obtain ⟨sink, -⟩ := Run.evaluate_quiet fuel tree (Machine.initial .unlimited clock)
    (Machine.initial_plain .unlimited clock)
  simp only [run_accepted (fuel + 1) accepts, firstStep, Step.halt?, program, fresh]
  cases evaluated : Run.evaluate fuel tree (Machine.initial .unlimited clock) with
  | error h n =>
    rw [evaluated] at sink
    have empty : n.sink = .unlimited := sink
    rw [Run.interpret_print_error evaluated]
    exact congrArg (_, ·) (congrArg Sink.bytes empty)
  | ok v n =>
    rw [evaluated] at sink
    have empty : n.sink = .unlimited := sink
    rw [Run.interpret_print evaluated (congrArg Sink.room empty), empty]
    exact congrArg (_, ·) Array.empty_append

end

end Session

end Lox
