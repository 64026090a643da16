import Lox.Proofs.ReadTrees
import Lox.Session

/-!
What a chunk gives before it is run: tokens that are spelled as their kinds say, and statements
formed from these tokens with ids of their own.
-/

namespace Lox

/-- A name is spelled like no keyword, and a keyword like itself. -/
def Token.Spelled (t : Token) : Prop :=
  match t.kind with
  | .identifier => Keyword.ofText? t.lexeme = none
  | .keyword k => t.lexeme = k.text
  | _ => True

namespace Token

variable {t : Token}

theorem IsName.ne_text (name : t.IsName Spelled) (k : Keyword) : t.lexeme ≠ k.text := by
  obtain ⟨spelled, kind⟩ := name
  intro same
  cases eq : t.kind <;> simp [eq, TokenKind.isIdentifier] at kind
  simp [Spelled, eq, same, Keyword.ofText?_text] at spelled

theorem IsName.ne_this (name : t.IsName Spelled) : t.lexeme ≠ "this" := name.ne_text .this

theorem IsName.ne_super (name : t.IsName Spelled) : t.lexeme ≠ "super" := name.ne_text .super

theorem Spelled.keyword {k : Keyword} (spelled : t.Spelled) (kind : t.kind.isKeyword k = true) :
    t.lexeme = k.text := by
  cases eq : t.kind <;> simp [eq, TokenKind.isKeyword] at kind
  subst kind
  simpa [Spelled, eq] using spelled

end Token

theorem Region.item?_spelled {r : Region} {line : Nat} {t : Token}
    (item : r.item? line = some (.ok t)) : t.Spelled := by
  obtain ⟨kind, text⟩ := r
  cases kind <;> simp only [Region.item?, Option.some.injEq, Except.ok.injEq, reduceCtorEq] at item
  case word =>
    subst item
    unfold TokenKind.ofWord
    cases found : Keyword.ofText? (String.ofList text) with
    | none => simpa [Token.Spelled] using found
    | some k =>
      have spelled := List.find?_some found
      simpa [Token.Spelled, eq_comm] using spelled
  all_goals
    subst item
    exact trivial

namespace Scan

theorem itemsFrom_spelled (line : Nat) (rs : List Region) :
    ∀ t ∈ tokens (itemsFrom line rs), t.Spelled := by
  induction rs generalizing line with
  | nil =>
    intro t member
    simp only [itemsFrom, tokens, List.filterMap_cons, List.filterMap_nil, List.mem_singleton] at member
    subst member
    exact trivial
  | cons r rs ih =>
    intro t member
    simp only [itemsFrom, tokens, List.filterMap_append, List.mem_append] at member
    rcases member with member | member
    · obtain ⟨item, among, same⟩ := List.mem_filterMap.1 member
      cases item with
      | error e => cases same
      | ok t' =>
        cases same
        exact Region.item?_spelled (Option.mem_toList.1 among)
    · exact ih _ t member

theorem tokens_spelled (source : String) : ∀ t ∈ tokens (items source), t.Spelled := by
  rw [items_eq]
  exact itemsFrom_spelled 1 (Region.cut source.toList)

end Scan

namespace Session

open Grammar

/-- The statements among the items read are formed, whatever errors stand between them. -/
theorem statements_read {P : Token → Prop} {items : List (Except SyntaxError Stmt)}
    {lo hi : ExprId} (listed : Listed (ItemRead P) items lo hi) :
    Stmt.FormedList P (statements items) ∧ Handed lo hi (Stmt.idsList (statements items)) ∧
      Stmt.OrderedList (statements items) := by
  induction items generalizing lo with
  | nil =>
    subst listed
    exact ⟨trivial, Handed.nil lo, trivial⟩
  | cons item items ih =>
    obtain ⟨mid, first, rest⟩ := listed
    obtain ⟨formed, ids, ordered⟩ := ih rest
    cases item with
    | ok s => exact ⟨⟨first.1, formed⟩, first.2.1.append ids, first.2.2, ordered⟩
    | error e =>
      refine ⟨formed, ⟨Nat.le_trans first ids.le, ids.distinct, fun id member => ?_⟩, ordered⟩
      have between := ids.bounds id member
      exact ⟨Nat.le_trans first between.1, between.2⟩

/-- The statements of a text, read with ids from `firstId` on. -/
theorem chunk_read (source : String) (firstId : ExprId) :
    let reading := recoverProgram (Scan.tokens (Scan.items source)) firstId
    Stmt.FormedList Token.Spelled (statements reading.value) ∧
      Handed firstId reading.nextId (Stmt.idsList (statements reading.value)) ∧
        Stmt.OrderedList (statements reading.value) :=
  statements_read (recoverFrom_reads _ ⟨_, firstId⟩ (Scan.tokens_spelled source))

end Session

end Lox
