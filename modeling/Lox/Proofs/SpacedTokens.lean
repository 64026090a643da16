import Mathlib
import Lox.Proofs.JoinedTexts

/-!
Tokens written out with a blank after each: scanning them again gives the same tokens without any
error, whatever blanks, comments and errors the text held that they come from.
-/

namespace Lox

/-- What a token is, apart from its line: kind and value, and the text it was cut from. -/
def Token.content (t : Token) : TokenKind × String := (t.kind, t.lexeme)

namespace Region

/-- The region gives a token. -/
def isToken (r : Region) : Bool :=
  match r.kind with
  | .string | .number | .word | .mark _ => true
  | _ => false

/-- The content of the token that the region gives. -/
def content? (r : Region) : Option (TokenKind × String) :=
  match r.item? 0 with
  | some (.ok t) => some t.content
  | _ => none

theorem content?_item (r : Region) (line : Nat) :
    (Scan.tokens (r.item? line).toList).map Token.content = r.content?.toList := by
  obtain ⟨kind, text⟩ := r
  cases kind <;> rfl

/-- Only token regions have a content, and it holds their text. -/
theorem content?_lexeme (r : Region) :
    r.content?.map Prod.snd = if r.isToken then some (String.ofList r.text) else none := by
  obtain ⟨kind, text⟩ := r
  cases kind <;> rfl

/-- What gives a token keeps doing so with a blank after it. -/
theorem Leads.before_blank {r : Region} {after : List Char} (leads : r.Leads after)
    (isToken : r.isToken = true) (more : List Char) : r.Leads (' ' :: more) := by
  -- A piece of a blankless form ends before the blank, so only the region itself can be as long.
  have longest {form : List Char → Prop} (unbroken : ∀ piece, form piece → ' ' ∉ piece)
      (longest : Longest form r.text after) : Longest form r.text (' ' :: more) := by
    constructor
    · exact longest.1
    · intro longer fits leads
      exact (prefix_before (unbroken longer fits) leads).length_le
  obtain ⟨kind, text⟩ := r
  cases kind with
  | string => exact leads
  | number => exact longest (fun _ number => number.unbroken rfl) leads
  | word => exact longest (fun _ word => word.unbroken rfl) leads
  | mark m =>
    obtain ⟨same, isLongest, line, block⟩ := leads
    refine ⟨same, longest (fun _ mark => mark.unbroken rfl) isLongest, ?_, ?_⟩
    · intro opens
      exact line ((prefix_before (by decide) opens).trans (List.prefix_append _ _))
    · intro opens
      exact block ((prefix_before (by decide) opens).trans (List.prefix_append _ _))
  | blank | lineComment | blockComment | foreign | openString | openComment => cases isToken

def space : Region := ⟨.blank, [' ']⟩

/-- The token regions, with a blank after each. -/
def spaced (rs : List Region) : List Region :=
  (rs.filter isToken).flatMap fun r => [r, space]

theorem spaced_cons (r : Region) (rs : List Region) :
    spaced (r :: rs) = if r.isToken then r :: space :: spaced rs else spaced rs := by
  unfold spaced
  cases isToken : r.isToken <;> simp [isToken]

theorem Decomposes.spaced {text : List Char} {rs : List Region} (parts : Decomposes text rs) :
    Decomposes ((spaced rs).flatMap (·.text)) (spaced rs) := by
  induction parts with
  | done => exact .done
  | @next r after rs leads rest ih =>
    rw [spaced_cons]
    cases isToken : r.isToken with
    | false => exact ih
    | true =>
      have blank : space.Leads ((Region.spaced rs).flatMap (·.text)) := ⟨' ', by decide, rfl⟩
      exact .next (leads.before_blank isToken _) (.next blank ih)

theorem content?_spaced (rs : List Region) :
    (spaced rs).filterMap content? = rs.filterMap content? := by
  induction rs with
  | nil => rfl
  | cons r rs ih =>
    rw [spaced_cons]
    have lexeme := content?_lexeme r
    cases isToken : r.isToken with
    | false =>
      have none : r.content? = none := by
        simpa [isToken] using lexeme
      simpa [none] using ih
    | true =>
      have blank : space.content? = none := rfl
      cases given : r.content? <;> simp [given, blank, ih]

end Region

namespace Scan

open Region

/-- The tokens of a text, without the lines they end on. -/
def contents (source : String) : List (TokenKind × String) :=
  (tokens (items source)).map Token.content

/-- The texts of the tokens, with a blank after each. The end has no text. -/
def spaced (ts : List Token) : String :=
  String.join ((ts.filter (!·.kind.isEnd)).map fun t => t.lexeme ++ " ")

theorem contents_itemsFrom (line : Nat) (rs : List Region) :
    (tokens (itemsFrom line rs)).map Token.content =
      rs.filterMap content? ++ [(.endOfText, "")] := by
  induction rs generalizing line with
  | nil => rfl
  | cons r rs ih =>
    rw [itemsFrom, tokens_append, List.map_append, content?_item, ih]
    cases given : r.content? <;> simp [given]

theorem contents_eq (source : String) :
    contents source = (cut source.toList).filterMap content? ++ [(.endOfText, "")] := by
  rw [contents, items_eq, contents_itemsFrom]

/-- No region gives the token of the end. -/
theorem content?_inside {r : Region} {c : TokenKind × String} (given : r.content? = some c) :
    c.1.isEnd = false := by
  unfold content? at given
  split at given
  · rename_i t item
    cases given
    exact item?_inside item
  · cases given

/-- What is written out is the texts of all contents but the end. -/
theorem spaced_eq (source : String) :
    spaced (tokens (items source)) =
      String.join ((((contents source).map Prod.snd).dropLast).map (· ++ " ")) := by
  have ends := contents_eq source
  have inside : ∀ c ∈ (cut source.toList).filterMap content?, c.1.isEnd = false := by
    intro c among
    obtain ⟨r, -, given⟩ := List.mem_filterMap.1 among
    exact content?_inside given
  have kept : ((contents source).filter (!·.1.isEnd)) = (cut source.toList).filterMap content? := by
    rw [ends, List.filter_append, List.filter_eq_self.2 (by simpa using inside)]
    exact List.append_nil _
  have last : ((contents source).map Prod.snd).dropLast =
      ((cut source.toList).filterMap content?).map Prod.snd := by
    rw [ends, List.map_append]
    exact List.dropLast_concat
  rw [last, ← kept, contents, List.filter_map]
  simp [spaced, Function.comp_def, Token.content]

theorem toList_spaced (source : String) :
    (spaced (tokens (items source))).toList =
      (Region.spaced (cut source.toList)).flatMap (·.text) := by
  rw [spaced_eq, contents_eq, List.map_append, List.map_singleton, List.dropLast_concat,
    String.toList_join]
  generalize cut source.toList = rs
  induction rs with
  | nil => rfl
  | cons r rs ih =>
    have lexeme := content?_lexeme r
    rw [spaced_cons]
    cases isToken : r.isToken with
    | false =>
      have none : r.content? = none := by
        simpa [isToken] using lexeme
      simpa [none] using ih
    | true =>
      obtain ⟨kind, given⟩ : ∃ kind, r.content? = some (kind, String.ofList r.text) := by
        simpa [isToken] using lexeme
      simpa [given, space] using ih

theorem errors_spaced (line : Nat) (rs : List Region) :
    errors (itemsFrom line (Region.spaced rs)) = [] := by
  induction rs generalizing line with
  | nil => rfl
  | cons r rs ih =>
    rw [spaced_cons]
    cases isToken : r.isToken with
    | false => exact ih line
    | true =>
      have fine (line : Nat) : errors (r.item? line).toList = [] := by
        obtain ⟨kind, text⟩ := r
        cases kind <;> first | rfl | cases isToken
      simp only [if_true, itemsFrom, errors_append, fine, ih]
      rfl

end Scan

end Lox
