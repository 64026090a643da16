import Mathlib
import Lox.Proofs.EncodedTexts
import Lox.Proofs.ItemLines
import Lox.Proofs.JoinedTexts
import Lox.Proofs.Stateful

/-!
The scanner on bytes gives what the scanner on characters gives. Wherever it cuts something out of
the text it stands between two characters, so that no cut goes wrong.
-/

namespace Lox

open Text (encode IsAscii Tells)

namespace ByteScanner

/-- The scanner stands between the two parts of the text. -/
structure At (done rest : List Char) (s : ByteScanner) : Prop where
  bytes : s.bytes = encode (done ++ rest)
  curr : s.curr = (encode done).length

/-- The scanner where the bytes of these characters end. -/
def goTo (s : ByteScanner) (done : List Char) : ByteScanner :=
  { s with curr := (encode done).length }

@[simp] theorem goTo_goTo (s : ByteScanner) (done done' : List Char) :
    (s.goTo done).goTo done' = s.goTo done' := rfl

@[simp] theorem goTo_start (s : ByteScanner) (done : List Char) : (s.goTo done).start = s.start := rfl

/-- The scanner behind a region that follows these characters. -/
def past (s : ByteScanner) (done : List Char) (r : Region) : ByteScanner :=
  { s with curr := (encode (done ++ r.text)).length, line := s.line + Region.newlines r.text }

/-- The ways in which a scan from before the region can end behind it. -/
inductive Takes (done : List Char) (r : Region) (s : ByteScanner) :
    EStateM.Result ScanStop ByteScanner Unit → Prop
  | silent {s' : ByteScanner} (stands : s' = s.past done r) (nothing : r.item? s'.line = none) :
      Takes done r s (.ok () s')
  | token {s' : ByteScanner} (kind : TokenKind) (stands : s' = { s.past done r with pending := some kind })
      (given : r.item? s'.line = some (.ok ⟨kind, String.ofList r.text, s'.line⟩)) :
      Takes done r s (.ok () s')
  | error {s' : ByteScanner} {e : LexError} (stands : s' = s.past done r)
      (given : r.item? s'.line = some (.error e)) : Takes done r s (.error (.error e) s')

theorem past_eq_goTo {r : Region} (unbroken : '\n' ∉ r.text) (s : ByteScanner) (done : List Char) :
    s.past done r = s.goTo (done ++ r.text) := by
  rw [past, Region.newlines, List.count_eq_zero_of_not_mem unbroken]
  rfl

namespace At

variable {done rest : List Char} {s : ByteScanner}

theorem goTo (at_ : At done rest s) (piece after : List Char) (parts : piece ++ after = rest) :
    At (done ++ piece) after (s.goTo (done ++ piece)) := by
  refine ⟨?_, rfl⟩
  rw [List.append_assoc, parts]
  exact at_.bytes

theorem length (at_ : At done rest s) : s.bytes.length = s.curr + (encode rest).length := by
  rw [at_.bytes, at_.curr, Text.encode_append, List.length_append]

theorem drop (at_ : At done rest s) : s.bytes.drop s.curr = encode rest := by
  rw [at_.bytes, at_.curr, Text.encode_append, List.drop_left]

theorem peek (at_ : At done rest s) : ByteScan.peek s = (encode rest).headD 0 := by
  have same := congrArg (·.headD 0) at_.drop
  simp only [List.headD_eq_head?_getD, List.head?_drop] at same
  rw [ByteScan.peek, List.getD_eq_getElem?_getD, same, List.headD_eq_head?_getD]

theorem atEnd (at_ : At done rest s) : ByteScan.atEnd s = true ↔ rest = [] := by
  rw [ByteScan.atEnd, decide_eq_true_iff, at_.length]
  cases rest with
  | nil => simp [encode]
  | cons c rest =>
    have some := List.length_pos_iff.2 (Text.encodeChar_ne_nil c)
    simp only [Text.encode_cons, List.length_append, reduceCtorEq, iff_false]
    omega

end At

end ByteScanner

namespace ByteScan

open ByteScanner

variable {done rest : List Char} {s : ByteScanner} {β : Type}

theorem get_bind (f : ByteScanner → ByteScan β) : (get >>= f) s = f s s := rfl

/-! ### Single steps -/

theorem advance_first (at_ : At done rest s) {b : UInt8} {more : List UInt8}
    (starts : encode rest = b :: more) : advance s = .ok b { s with curr := s.curr + 1 } := by
  have here : s.bytes[s.curr]? = some b := by
    rw [← List.head?_drop, at_.drop, starts]
    rfl
  rw [advance, here]

theorem advance_ascii {c : Char} (at_ : At done (c :: rest) s) (ascii : IsAscii c) :
    advance s = .ok c.toUInt8 (s.goTo (done ++ [c])) := by
  have one : (encode (done ++ [c])).length = s.curr + 1 := by
    rw [Text.length_encode_snoc ascii, at_.curr]
  rw [advance_first at_ (Text.encode_ascii ascii rest), ByteScanner.goTo, one]

theorem matchByte_eq {d : Char} (at_ : At done rest s) (ascii : IsAscii d) :
    matchByte d.toUInt8 s =
      if rest.head? = some d then .ok true (s.goTo (done ++ [d])) else .ok false s := by
  cases rest with
  | nil =>
    have ends : atEnd s = true := at_.atEnd.2 rfl
    simp [matchByte, ends]
  | cons c rest =>
    obtain ⟨b, more, whole, -⟩ := Text.encodeChar_starts c
    have goesOn : atEnd s = false := by
      rw [Bool.eq_false_iff, Ne, at_.atEnd]
      exact List.cons_ne_nil c rest
    have here : peek s = b := by
      rw [at_.peek, Text.encode_cons, whole]
      rfl
    have one : (encode (done ++ [d])).length = s.curr + 1 := by
      rw [Text.length_encode_snoc ascii, at_.curr]
    simp only [matchByte, goesOn, here, Text.first_eq_iff ascii whole, List.head?_cons,
      Option.some_inj, ByteScanner.goTo, one, Bool.not_false, Bool.true_and, decide_eq_true_eq]

theorem ahead_eq (at_ : At done rest s) : ahead s = .ok (encode rest) s := by
  have within : s.curr ≤ s.bytes.length := by
    rw [at_.length]
    exact Nat.le_add_right _ _
  rw [ahead, if_pos within, at_.drop]

theorem slice_eq (before piece after : List Char) (bytes : s.bytes = encode (before ++ piece ++ after)) :
    slice (encode before).length (encode (before ++ piece)).length s = .ok (String.ofList piece) s := by
  rw [slice, bytes, Text.slice?_encode]

theorem countLines_eq (before piece after : List Char)
    (bytes : s.bytes = encode (before ++ piece ++ after)) :
    countLines (encode before).length (encode (before ++ piece)).length s =
      .ok () { s with line := s.line + Region.newlines piece } := by
  have order : (encode before).length ≤ (encode (before ++ piece)).length := by
    simp [Text.length_encode_append]
  have within : (encode (before ++ piece)).length ≤ s.bytes.length := by
    rw [bytes, Text.length_encode_append _ after]
    exact Nat.le_add_right _ _
  have own : (s.bytes.take (encode (before ++ piece)).length).drop (encode before).length =
      encode piece := by
    rw [bytes, Text.encode_append _ after, List.take_left, Text.encode_append, List.drop_left]
  rw [countLines, if_pos ⟨order, within⟩, own, Text.count_encode (by decide)]
  rfl

/-- As many bytes are passed over as fit, the bound being no bound. -/
theorem skipWhile_eq (fits : UInt8 → Bool) (bound : Nat) (s : ByteScanner)
    (left : bound = s.bytes.length - s.curr) :
    skipWhile fits bound s =
      .ok () { s with curr := s.curr + ((s.bytes.drop s.curr).takeWhile fits).length } := by
  induction bound generalizing s with
  | zero =>
    have ended : s.bytes.drop s.curr = [] := List.drop_eq_nil_of_le (by omega)
    rw [ended]
    rfl
  | succ bound ih =>
    have within : s.curr < s.bytes.length := by omega
    have first : s.bytes.drop s.curr = s.bytes[s.curr] :: s.bytes.drop (s.curr + 1) :=
      List.drop_eq_getElem_cons within
    have here : peek s = s.bytes[s.curr] := by
      simp [peek, List.getD_eq_getElem?_getD, List.getElem?_eq_getElem within]
    have step : advance s = .ok s.bytes[s.curr] { s with curr := s.curr + 1 } := by
      rw [advance, List.getElem?_eq_getElem within]
    rw [first]
    by_cases fit : fits s.bytes[s.curr] = true
    · have later := ih { s with curr := s.curr + 1 } (by simp only; omega)
      rw [skipWhile, get_bind, here, if_pos fit, bind_of_ok step, later, List.takeWhile_cons_of_pos fit]
      simp only [List.length_cons, Nat.add_assoc, Nat.add_comm 1]
    · rw [skipWhile, get_bind, here, if_neg fit, List.takeWhile_cons_of_neg fit]
      rfl

theorem skip_eq {fits : UInt8 → Bool} {p : Char → Bool} (tells : Tells fits p) (at_ : At done rest s) :
    skip fits s = .ok () (s.goTo (done ++ rest.takeWhile p)) := by
  rw [skip, get_bind, skipWhile_eq fits _ s rfl, at_.drop, tells.takeWhile, at_.curr,
    ← Text.length_encode_append]
  rfl

/-! ### Comments and strings -/

theorem takeWhile_unbroken (c : Char) (text : List Char) : c ∉ text.takeWhile (· ≠ c) := fun among => by
  simpa using List.mem_takeWhile_imp among

/-- The search for a character below 128 ends where the character is, or else at the end. -/
theorem findIdx?_eq {c : Char} (ascii : IsAscii c) (text : List Char) :
    (encode text).findIdx? (· = c.toUInt8) =
      (text.dropWhile (· ≠ c)).head?.map fun _ => (encode (text.takeWhile (· ≠ c))).length := by
  have whole := List.takeWhile_append_dropWhile (p := fun x => decide (x ≠ c)) (l := text)
  have inside := takeWhile_unbroken c text
  rcases Region.dropWhile_ne c text with ends | ⟨after, starts⟩
  · rw [ends, List.append_nil] at whole
    rw [whole] at inside
    rw [Text.findIdx?_encode_none ascii inside, ends]
    rfl
  · rw [starts] at whole ⊢
    have found := Text.findIdx?_encode_some ascii inside after
    rwa [whole] at found

theorem skipLineComment_eq (at_ : At done rest s) :
    skipLineComment s = .ok () (s.goTo (done ++ rest.takeWhile (· ≠ '\n'))) := by
  rw [skipLineComment, get_bind, bind_of_ok (ahead_eq at_), findIdx?_eq (by decide)]
  rcases Region.dropWhile_ne '\n' rest with ends | ⟨after, breaks⟩
  · have whole := List.takeWhile_append_dropWhile (p := fun x => decide (x ≠ '\n')) (l := rest)
    rw [ends, List.append_nil] at whole
    rw [ends, whole, ByteScanner.goTo, ← at_.bytes]
    rfl
  · rw [breaks, ByteScanner.goTo, Text.length_encode_append, ← at_.curr]
    rfl

theorem skipBlockComment_closed {body after : List Char}
    (at_ : At done (body ++ '*' :: '/' :: after) s)
    (found : Region.splitComment? (body ++ '*' :: '/' :: after) = some (body ++ ['*', '/'], after)) :
    skipBlockComment s =
      .ok () { s.goTo (done ++ body ++ ['*', '/']) with line := s.line + Region.newlines body } := by
  have search : Text.findPair '*'.toUInt8 '/'.toUInt8 (encode (body ++ '*' :: '/' :: after)) =
      some (encode body).length := by
    have moved := Text.findPair_encode (body ++ '*' :: '/' :: after)
    rw [found, Option.map_some, Text.length_encode_append] at moved
    obtain ⟨n, same, more⟩ := Option.map_eq_some_iff.1 moved
    have two : (encode ['*', '/']).length = 2 := by decide
    rw [same, Option.some_inj]
    omega
  have upTo : s.curr + (encode body).length = (encode (done ++ body)).length := by
    rw [at_.curr, Text.length_encode_append]
  have counted : countLines (encode done).length (encode (done ++ body)).length s = _ :=
    countLines_eq done body ('*' :: '/' :: after) (by rw [at_.bytes, List.append_assoc])
  rw [skipBlockComment, get_bind, bind_of_ok (ahead_eq at_), search]
  simp only [upTo]
  rw [at_.curr, bind_of_ok counted, ByteScanner.goTo, Text.length_encode_append _ ['*', '/']]
  rfl

theorem skipBlockComment_open (at_ : At done rest s) (open_ : Region.splitComment? rest = none) :
    skipBlockComment s = .error (.error ⟨s.line + Region.newlines rest, .unterminatedComment⟩)
      { s.goTo (done ++ rest) with line := s.line + Region.newlines rest } := by
  have search : Text.findPair '*'.toUInt8 '/'.toUInt8 (encode rest) = none := by
    have moved := Text.findPair_encode rest
    rwa [open_, Option.map_none, Option.map_eq_none_iff] at moved
  have counted : countLines (encode done).length (encode (done ++ rest)).length s = _ :=
    countLines_eq done rest [] (by rw [at_.bytes, List.append_nil])
  rw [skipBlockComment, get_bind, bind_of_ok (ahead_eq at_), search]
  simp only [at_.bytes]
  rw [at_.curr, bind_of_ok counted]
  rfl

theorem parseSlash_takes (at_ : At done ('/' :: rest) s) :
    Takes done (Region.slash rest).1 s (parseSlash (s.goTo (done ++ ['/']))) := by
  have behind : At (done ++ ['/']) rest (s.goTo (done ++ ['/'])) := at_.goTo ['/'] rest rfl
  have line := matchByte_eq (d := '/') behind (by decide)
  have block := matchByte_eq (d := '*') behind (by decide)
  unfold parseSlash Region.slash
  split
  · rename_i more
    have inner := skipLineComment_eq (behind.goTo ['/'] more rfl)
    have unbroken : '\n' ∉ '/' :: '/' :: more.takeWhile (· ≠ '\n') := by
      simpa using takeWhile_unbroken '\n' more
    rw [bind_of_ok line]
    change Takes done _ s (skipLineComment _)
    rw [inner]
    refine .silent ?_ rfl
    refine Eq.trans ?_ (past_eq_goTo unbroken s done).symm
    simp [ByteScanner.goTo]
  · rename_i inside
    have within : At (done ++ ['/'] ++ ['*']) inside (s.goTo (done ++ ['/'] ++ ['*'])) :=
      behind.goTo ['*'] inside rfl
    rw [bind_of_ok line, if_neg (by decide), bind_of_ok block]
    change Takes done _ s (skipBlockComment (s.goTo (done ++ ['/'] ++ ['*'])))
    split
    · rename_i closed after found
      obtain ⟨body, rfl, -⟩ := Region.splitComment?_closed found
      have whole := Region.splitComment?_append found
      rw [List.append_assoc] at whole
      subst whole
      rw [skipBlockComment_closed within found]
      refine .silent ?_ rfl
      simp [ByteScanner.goTo, ByteScanner.past, Region.newlines]
    · rename_i open_
      rw [skipBlockComment_open within open_]
      refine .error ?_ rfl
      simp [ByteScanner.goTo, ByteScanner.past, Region.newlines]
  · rename_i notLine notBlock
    have line' : rest.head? ≠ some '/' := fun opens => by
      obtain ⟨more, same⟩ := List.head?_eq_some_iff.1 opens
      exact notLine more same
    have block' : rest.head? ≠ some '*' := fun opens => by
      obtain ⟨more, same⟩ := List.head?_eq_some_iff.1 opens
      exact notBlock more same
    rw [if_neg line'] at line
    rw [if_neg block'] at block
    rw [bind_of_ok line, if_neg (by decide), bind_of_ok block]
    exact .token (.mark .slash) rfl rfl

theorem parseString_takes (at_ : At done ('"' :: rest) s) (begins : s.start = s.curr) :
    Takes done (Region.string rest).1 s (parseString (s.goTo (done ++ ['"']))) := by
  have behind : At (done ++ ['"']) rest (s.goTo (done ++ ['"'])) := at_.goTo ['"'] rest rfl
  have whole := List.takeWhile_append_dropWhile (p := fun x => decide (x ≠ '"')) (l := rest)
  rw [parseString, get_bind, bind_of_ok (ahead_eq behind), findIdx?_eq (by decide)]
  unfold Region.string
  split
  · rename_i quote after found
    have isQuote : quote = '"' := by
      rcases Region.dropWhile_ne '"' rest with none | ⟨after', starts⟩
      · cases found.symm.trans none
      · exact (List.cons.inj (found.symm.trans starts)).1
    subst isQuote
    rw [found] at whole ⊢
    generalize rest.takeWhile (· ≠ '"') = body at whole ⊢
    subst whole
    have from_ : (s.goTo (done ++ ['"'])).curr = (encode (done ++ ['"'])).length := rfl
    have upTo : (s.goTo (done ++ ['"'])).curr + (encode body).length =
        (encode (done ++ ['"'] ++ body)).length := by
      rw [Text.length_encode_append, from_]
    have opening : s.start + 1 = (encode (done ++ ['"'])).length := by
      rw [begins, at_.curr, Text.length_encode_snoc (by decide)]
    have counted : countLines (encode (done ++ ['"'])).length (encode (done ++ ['"'] ++ body)).length
        (s.goTo (done ++ ['"'])) = _ :=
      countLines_eq (done ++ ['"']) body ('"' :: after) (by rw [behind.bytes]; simp)
    have value (s' : ByteScanner) (same : s'.bytes = s.bytes) :
        slice (encode (done ++ ['"'])).length (encode (done ++ ['"'] ++ body)).length s' =
          .ok (String.ofList body) s' :=
      slice_eq (done ++ ['"']) body ('"' :: after) (by rw [same, at_.bytes]; simp)
    simp only [List.head?_cons, Option.map_some, upTo]
    rw [from_, bind_of_ok counted, bind_of_ok (rfl : moveTo _ _ = _)]
    change Takes done _ s ((slice (s.start + 1) _ >>= _) _)
    rw [opening, bind_of_ok (value _ ?_)]
    · refine .token (.string (String.ofList body)) ?_ ?_
      · have ends := Text.length_encode_snoc (c := '"') (by decide) (done ++ ['"'] ++ body)
        rw [← ends]
        simp [ByteScanner.goTo, ByteScanner.past, Region.newlines]
      · simp [Region.item?]
    · rfl
  · rename_i left
    have counted : countLines (encode (done ++ ['"'])).length (encode (done ++ ['"'] ++ rest)).length
        (s.goTo (done ++ ['"'])) = _ :=
      countLines_eq (done ++ ['"']) rest [] (by rw [behind.bytes, List.append_nil])
    rw [left]
    simp only [List.head?_nil, Option.map_none, behind.bytes]
    rw [behind.curr, bind_of_ok counted]
    refine .error ?_ rfl
    simp [ByteScanner.goTo, ByteScanner.past, Region.newlines]

/-! ### Numbers and words -/

theorem isDigit_tells : Tells isDigit Char.isDigit := by
  have same : Char.isDigit = fun c => decide ('0' ≤ c ∧ c ≤ '9') := by
    funext c
    rw [Bool.eq_iff_iff, Region.isDigit_iff, decide_eq_true_iff]
    rfl
  rw [same]
  exact Tells.range (by decide) (by decide)

theorem isLetter_tells : Tells isLetter Region.isWordStart := by
  have bytes : isLetter = fun b => (decide ('a'.toUInt8 ≤ b ∧ b ≤ 'z'.toUInt8) ||
      decide ('A'.toUInt8 ≤ b ∧ b ≤ 'Z'.toUInt8)) || decide ('_'.toUInt8 ≤ b ∧ b ≤ '_'.toUInt8) := by
    funext b
    have single : b = '_'.toUInt8 ↔ '_'.toUInt8 ≤ b ∧ b ≤ '_'.toUInt8 :=
      ⟨fun same => ⟨UInt8.le_of_eq same.symm, UInt8.le_of_eq same⟩,
        fun both => UInt8.le_antisymm both.2 both.1⟩
    simp [isLetter, single, Bool.or_assoc]
  have same : Region.isWordStart = fun c => (decide ('a' ≤ c ∧ c ≤ 'z') || decide ('A' ≤ c ∧ c ≤ 'Z')) ||
      decide ('_' ≤ c ∧ c ≤ '_') := by
    funext c
    have single : c = '_' ↔ '_' ≤ c ∧ c ≤ '_' :=
      ⟨fun same => ⟨same ▸ Char.le_refl _, same ▸ Char.le_refl _⟩, fun both => Char.le_antisymm both.2 both.1⟩
    rw [Bool.eq_iff_iff, Region.isWordStart_iff, Region.IsLetter, single]
    simp [or_assoc]
  rw [bytes, same]
  exact ((Tells.range (by decide) (by decide)).or (Tells.range (by decide) (by decide))).or
    (Tells.range (by decide) (by decide))

theorem isPart_tells : Tells (fun b => isLetter b || isDigit b) Region.isWordPart := by
  have same : Region.isWordPart = fun c => Region.isWordStart c || c.isDigit := by
    funext c
    rw [Bool.eq_iff_iff, Region.isWordPart_iff, Bool.or_eq_true, Region.isWordStart_iff, Region.isDigit_iff]
  rw [same]
  exact isLetter_tells.or isDigit_tells

/-- The lexeme is cut out where the scanner stands behind it. -/
theorem slice_lexeme (piece after : List Char) (at_ : At done (piece ++ after) s)
    (begins : s.start = s.curr) :
    slice s.start (s.goTo (done ++ piece)).curr (s.goTo (done ++ piece)) =
      .ok (String.ofList piece) (s.goTo (done ++ piece)) := by
  rw [begins, at_.curr]
  refine slice_eq done piece after ?_
  rw [List.append_assoc]
  exact at_.bytes

theorem parseWord_takes {c : Char} (at_ : At done (c :: rest) s) (begins : s.start = s.curr)
    (letter : Region.IsLetter c) :
    Takes done (Region.word c rest).1 s (parseWord (s.goTo (done ++ [c]))) := by
  have behind : At (done ++ [c]) rest (s.goTo (done ++ [c])) := at_.goTo [c] rest rfl
  have unbroken : '\n' ∉ c :: rest.takeWhile Region.isWordPart :=
    (Region.word_longest rest letter).1.unbroken rfl
  have cut := slice_lexeme (c :: rest.takeWhile Region.isWordPart) (rest.dropWhile Region.isWordPart)
    (by rwa [List.cons_append, List.takeWhile_append_dropWhile]) begins
  rw [parseWord, bind_of_ok (skip_eq isPart_tells behind), get_bind, List.append_assoc, goTo_goTo,
    goTo_start, List.singleton_append, bind_of_ok cut]
  refine .token (.ofWord (String.ofList (c :: rest.takeWhile Region.isWordPart))) ?_ rfl
  rw [past_eq_goTo (r := (Region.word c rest).1) unbroken]
  rfl

/-- Whether a digit comes behind the next character. -/
theorem isDigit_peekNext {digits : List Char} (at_ : At done ('.' :: digits) s) :
    isDigit (peekNext s) = digits.head?.any Char.isDigit := by
  have next : peekNext s = peek (s.goTo (done ++ ['.'])) := by
    rw [peekNext, peek, ByteScanner.goTo, Text.length_encode_snoc (by decide), at_.curr]
  rw [next, (at_.goTo ['.'] digits rfl).peek]
  exact isDigit_tells.headD (by decide) digits

/-- There is a fraction if a digit comes behind the point. -/
theorem fraction_point (digits : List Char) :
    Region.fraction ('.' :: digits) =
      if digits.head?.any Char.isDigit then '.' :: digits.takeWhile Char.isDigit else [] := by
  cases digits with
  | nil => rfl
  | cons d digits => by_cases digit : d.isDigit = true <;> simp [Region.fraction, digit]

/-- The fraction is passed over if there is one, and nothing else is. -/
theorem skipFraction_eq (at_ : At done rest s) :
    skipFraction s = .ok () (s.goTo (done ++ Region.fraction rest)) := by
  have point : peek s = '.'.toUInt8 ↔ rest.head? = some '.' := by
    rw [at_.peek]
    cases rest with
    | nil => decide
    | cons c rest =>
      obtain ⟨b, more, whole, -⟩ := Text.encodeChar_starts c
      rw [Text.encode_cons, whole]
      simpa using Text.first_eq_iff (by decide) whole
  have stays : s.goTo (done ++ []) = s := by
    rw [List.append_nil, ByteScanner.goTo, ← at_.curr]
  rw [skipFraction, get_bind]
  by_cases starts : rest.head? = some '.'
  · obtain ⟨digits, rfl⟩ := List.head?_eq_some_iff.1 starts
    have next := isDigit_peekNext at_
    rw [fraction_point]
    by_cases digit : digits.head?.any Char.isDigit = true
    · have behind : At (done ++ ['.']) digits (s.goTo (done ++ ['.'])) := at_.goTo ['.'] digits rfl
      rw [if_pos ⟨point.2 starts, next.trans digit⟩, if_pos digit,
        bind_of_ok (advance_ascii at_ (by decide)), skip_eq isDigit_tells behind, goTo_goTo,
        List.append_assoc]
      rfl
    · rw [if_neg fun both => digit (next.symm.trans both.2), if_neg digit, stays]
      rfl
  · have none : Region.fraction rest = [] := by
      unfold Region.fraction
      split
      · exact absurd rfl starts
      · rfl
    rw [if_neg fun both => starts (point.1 both.1), none, stays]
    rfl

theorem parseNumber_takes {c : Char} (at_ : At done (c :: rest) s) (begins : s.start = s.curr)
    (digit : Region.IsDigit c) :
    Takes done (Region.number c rest).1 s (parseNumber (s.goTo (done ++ [c]))) := by
  have behind : At (done ++ [c]) rest (s.goTo (done ++ [c])) := at_.goTo [c] rest rfl
  have whole := behind.goTo _ _ (List.takeWhile_append_dropWhile (p := Char.isDigit) (l := rest))
  have unbroken : '\n' ∉ (Region.number c rest).1.text :=
    (Region.number_longest rest digit).1.unbroken rfl
  have cut := slice_lexeme (Region.number c rest).1.text (Region.number c rest).2
    (by rwa [Region.number_append]) begins
  have parts : done ++ [c] ++ rest.takeWhile Char.isDigit ++ Region.fraction (rest.dropWhile Char.isDigit) =
      done ++ (Region.number c rest).1.text := by
    simp [Region.number]
  rw [parseNumber, bind_of_ok (skip_eq isDigit_tells behind), bind_of_ok (skipFraction_eq whole), get_bind,
    parts, goTo_goTo, goTo_goTo, goTo_start, bind_of_ok cut]
  refine .token (.number (Number.Decimal.ofLiteral (Region.number c rest).1.text).toPattern) ?_ rfl
  rw [past_eq_goTo unbroken, String.toList_ofList]

/-! ### Marks and foreign characters -/

/-- Whatever has been looked at, the scanner goes on behind the first character. -/
theorem parseForeign_takes {c : Char} (at_ : At done (c :: rest) s) (begins : s.start = s.curr)
    (broken : c ≠ '\n') (examined : Nat) :
    Takes done ⟨.foreign c, [c]⟩ s (parseForeign { s with curr := examined }) := by
  have cut : slice s.start s.bytes.length { s with curr := examined } =
      .ok (String.ofList (c :: rest)) { s with curr := examined } := by
    rw [begins, at_.curr, at_.bytes]
    exact slice_eq done (c :: rest) [] (by rw [List.append_nil])
  have behind : s.start + c.utf8Size = (encode (done ++ [c])).length := by
    rw [begins, at_.curr, Text.length_encode_append, ← String.length_utf8EncodeChar]
    simp [encode]
  have unbroken : '\n' ∉ [c] := by simpa using broken.symm
  rw [parseForeign, get_bind, bind_of_ok cut]
  simp only [String.toList_ofList, List.headD_cons, behind]
  exact .error (past_eq_goTo (r := ⟨.foreign c, [c]⟩) unbroken s done).symm rfl

theorem chars_ascii {m : Mark} {c : Char} (among : c ∈ m.chars) : IsAscii c := by
  cases m <;> simp only [Mark.chars, List.mem_cons, List.not_mem_nil, or_false] at among <;>
    (rcases among with rfl | rfl <;> decide)

/-- The first byte is that of a mark of one character if the character is. -/
theorem chars_bytes {c : Char} {b : UInt8} {more : List UInt8} (whole : String.utf8EncodeChar c = b :: more)
    (m : Mark) : m.chars.map Char.toUInt8 = [b] ↔ m.chars = [c] := by
  rcases m.chars_length with one | two
  · obtain ⟨d, chars⟩ := List.length_eq_one_iff.1 one
    have ascii : IsAscii d := chars_ascii (m := m) (by rw [chars]; exact List.mem_cons_self)
    have own := Text.first_eq_iff ascii whole
    simpa [chars, eq_comm] using own
  · obtain ⟨d, e, chars⟩ := List.length_eq_two.1 two
    simp [chars]

/-- The mark that is found is one that no longer mark fits better. -/
theorem first_longest {m : Mark} {c : Char} (more after : List Char) (chars : m.chars = c :: more)
    (other : c ≠ '/')
    (longest : ∀ m' : Mark, m'.chars <+: c :: (more ++ after) → m'.chars.length ≤ m.chars.length) :
    Region.first c (more ++ after) = (⟨.mark m, m.chars⟩, after) := by
  have text : m.chars ++ after = c :: (more ++ after) := by rw [chars, List.cons_append]
  have starts : m.chars.head? = some c := by rw [chars, List.head?_cons]
  rw [Region.first_mark starts other]
  refine Region.markOrForeign_eq ⟨⟨m, rfl⟩, ?_⟩ text
  rintro _ ⟨m', rfl⟩ leads
  exact longest m' (text ▸ leads)

theorem chars_head {m : Mark} {c : Char} {rest : List Char} (leads : m.chars <+: c :: rest) :
    m.chars.head? = some c := by
  obtain ⟨d, more, whole⟩ := List.exists_cons_of_ne_nil (l := m.chars) (by cases m <;> decide)
  rw [whole] at leads ⊢
  rw [(List.cons_prefix_cons.1 leads).1, List.head?_cons]

/-- No other mark begins with one of the single marks. -/
theorem singleMarks_alone {m m' : Mark} (single : m ∈ singleMarks)
    (same : m'.chars.head? = m.chars.head?) : m' = m := by
  have alone : ∀ m ∈ singleMarks, m'.chars.head? = m.chars.head? → m' = m := by
    cases m' <;> decide
  exact alone m single same

/-- Only the two marks of a pair begin as they do. -/
theorem pairMarks_alone {m' : Mark} {pair : Mark × Mark} (paired : pair ∈ pairMarks)
    (same : m'.chars.head? = pair.1.chars.head?) : m' = pair.1 ∨ m' = pair.2 := by
  have alone : ∀ pair ∈ pairMarks, m'.chars.head? = pair.1.chars.head? → m' = pair.1 ∨ m' = pair.2 := by
    cases m' <;> decide
  exact alone pair paired same

theorem pairMarks_chars {pair : Mark × Mark} (paired : pair ∈ pairMarks) :
    pair.2.chars = pair.1.chars ++ ['='] ∧ pair.1.chars ≠ ['/'] := by
  revert pair
  decide

/-- The tables hold the start of every mark but the slash. -/
theorem tables_all {m : Mark} {c : Char} (starts : m.chars.head? = some c) :
    m = .slash ∨ (∃ m' ∈ singleMarks, m'.chars = [c]) ∨ ∃ pair ∈ pairMarks, pair.1.chars = [c] := by
  cases m <;> (cases starts; decide)

theorem no_mark {c : Char} (single : singleMarks.find? (·.chars = [c]) = none)
    (paired : pairMarks.find? (·.1.chars = [c]) = none) (slash : c ≠ '/') (m : Mark) :
    m.chars.head? ≠ some c := by
  intro starts
  rcases tables_all starts with rfl | ⟨m', among, chars⟩ | ⟨pair, among, chars⟩
  · exact slash (Option.some.inj starts).symm
  · exact absurd chars (by simpa using List.find?_eq_none.1 single m' among)
  · exact absurd chars (by simpa using List.find?_eq_none.1 paired pair among)

theorem single_takes {m : Mark} {c : Char} (at_ : At done (c :: rest) s) (single : m ∈ singleMarks)
    (chars : m.chars = [c]) :
    Takes done (Region.first c rest).1 s (give (.mark m) (s.goTo (done ++ [c]))) := by
  have other : c ≠ '/' := by
    rintro rfl
    revert m
    decide
  have found : Region.first c rest = (⟨.mark m, m.chars⟩, rest) :=
    first_longest [] rest chars other fun m' leads => by
      rw [singleMarks_alone single ((chars_head leads).trans (by rw [chars, List.head?_cons]))]
  rw [found]
  refine .token (.mark m) ?_ rfl
  rw [past_eq_goTo (Region.IsMark.unbroken ⟨m, rfl⟩ rfl), chars]

theorem pair_takes {pair : Mark × Mark} {c : Char} (at_ : At done (c :: rest) s)
    (paired : pair ∈ pairMarks) (chars : pair.1.chars = [c]) :
    Takes done (Region.first c rest).1 s
      ((do if ← matchByte '='.toUInt8 then give (.mark pair.2) else give (.mark pair.1) : ByteScan Unit)
        (s.goTo (done ++ [c]))) := by
  have behind : At (done ++ [c]) rest (s.goTo (done ++ [c])) := at_.goTo [c] rest rfl
  have step := matchByte_eq (d := '=') behind (by decide)
  obtain ⟨long, slash⟩ := pairMarks_chars paired
  rw [chars] at long slash
  have other : c ≠ '/' := fun same => slash (by rw [same])
  have begins {m' : Mark} (leads : m'.chars <+: c :: rest) : m' = pair.1 ∨ m' = pair.2 :=
    pairMarks_alone paired ((chars_head leads).trans (by rw [chars, List.head?_cons]))
  by_cases equals : rest.head? = some '='
  · obtain ⟨after, rfl⟩ := List.head?_eq_some_iff.1 equals
    have found : Region.first c ('=' :: after) = (⟨.mark pair.2, pair.2.chars⟩, after) :=
      first_longest ['='] after long other fun m' leads => by
        rcases begins leads with rfl | rfl
        · simp [chars, long]
        · exact Nat.le_refl _
    rw [found, bind_of_ok (step.trans (if_pos equals))]
    refine .token (.mark pair.2) ?_ rfl
    rw [past_eq_goTo (Region.IsMark.unbroken ⟨pair.2, rfl⟩ rfl), long, goTo_goTo, List.append_assoc]
  · have found : Region.first c rest = (⟨.mark pair.1, pair.1.chars⟩, rest) :=
      first_longest [] rest chars other fun m' leads => by
        rcases begins leads with rfl | rfl
        · exact Nat.le_refl _
        · rw [long] at leads
          obtain ⟨after, starts⟩ := (List.cons_prefix_cons.1 leads).2
          exact absurd (by rw [List.nil_append] at starts; rw [← starts]; rfl) equals
    rw [found, bind_of_ok (step.trans (if_neg equals))]
    refine .token (.mark pair.1) ?_ rfl
    rw [past_eq_goTo (Region.IsMark.unbroken ⟨pair.1, rfl⟩ rfl), chars]

/-- Behind a character below 128 the scanner stands after its only byte. -/
theorem advanced {c : Char} (at_ : At done (c :: rest) s) (ascii : IsAscii c) :
    { s with curr := s.curr + 1 } = s.goTo (done ++ [c]) := by
  rw [ByteScanner.goTo, Text.length_encode_snoc ascii, at_.curr]

/-- One step: what the next byte begins is the region that the next character begins. -/
theorem scanToken_takes {c : Char} (at_ : At done (c :: rest) s) (begins : s.start = s.curr) :
    Takes done (Region.first c rest).1 s (scanToken s) := by
  obtain ⟨b, more, whole, -⟩ := Text.encodeChar_starts c
  have starts : encode (c :: rest) = b :: (more ++ encode rest) := by
    rw [Text.encode_cons, whole, List.cons_append]
  have singles : singleMarks.find? (·.chars.map Char.toUInt8 = [b]) = singleMarks.find? (·.chars = [c]) := by
    simp only [chars_bytes whole]
  have pairs : pairMarks.find? (·.1.chars.map Char.toUInt8 = [b]) = pairMarks.find? (·.1.chars = [c]) := by
    simp only [chars_bytes whole]
  have is {d : Char} (ascii : IsAscii d) : b = d.toUInt8 ↔ c = d := Text.first_eq_iff ascii whole
  rw [scanToken, bind_of_ok (advance_first at_ starts)]
  simp only [singles, pairs]
  cases single : singleMarks.find? (·.chars = [c]) with
  | some m =>
    have chars : m.chars = [c] := by simpa using List.find?_some single
    have ascii : IsAscii c := chars_ascii (m := m) (by rw [chars]; exact List.mem_cons_self)
    rw [advanced at_ ascii]
    exact single_takes at_ (List.mem_of_find?_eq_some single) chars
  | none =>
    cases paired : pairMarks.find? (·.1.chars = [c]) with
    | some pair =>
      have chars : pair.1.chars = [c] := by simpa using List.find?_some paired
      have ascii : IsAscii c := chars_ascii (m := pair.1) (by rw [chars]; exact List.mem_cons_self)
      rw [advanced at_ ascii]
      exact pair_takes at_ (List.mem_of_find?_eq_some paired) chars
    | none =>
      simp only [is (by decide : IsAscii ' '), is (by decide : IsAscii '\r'), is (by decide : IsAscii '\t'),
        is (by decide : IsAscii '\n'), is (by decide : IsAscii '/'), is (by decide : IsAscii '"'),
        isDigit_tells.first whole, isLetter_tells.first whole]
      by_cases space : c = ' ' ∨ c = '\r' ∨ c = '\t'
      · have blank : Region.isBlank c = true ∧ IsAscii c ∧ '\n' ∉ [c] := by
          rcases space with rfl | rfl | rfl <;> decide
        have found : Region.first c rest = (⟨.blank, [c]⟩, rest) := by simp [Region.first, blank.1]
        rw [if_pos space, found, advanced at_ blank.2.1]
        exact .silent (past_eq_goTo (r := ⟨.blank, [c]⟩) blank.2.2 s done).symm rfl
      rw [if_neg space]
      by_cases newline : c = '\n'
      · subst newline
        have found : Region.first '\n' rest = (⟨.blank, ['\n']⟩, rest) := rfl
        rw [if_pos rfl, found, advanced at_ (by decide)]
        exact .silent rfl rfl
      rw [if_neg newline]
      by_cases slash : c = '/'
      · subst slash
        rw [if_pos rfl, Region.first_slash, advanced at_ (by decide)]
        exact parseSlash_takes at_
      rw [if_neg slash]
      by_cases quote : c = '"'
      · subst quote
        rw [if_pos rfl, Region.first_quote, advanced at_ (by decide)]
        exact parseString_takes at_ begins
      rw [if_neg quote]
      by_cases digit : c.isDigit = true
      · rw [if_pos digit, Region.first_number (Region.isDigit_iff.1 digit),
          advanced at_ (isDigit_tells.ascii digit)]
        exact parseNumber_takes at_ begins (Region.isDigit_iff.1 digit)
      rw [if_neg digit]
      by_cases letter : Region.isWordStart c = true
      · rw [if_pos letter, Region.first_word (Region.isWordStart_iff.1 letter),
          advanced at_ (isLetter_tells.ascii letter)]
        exact parseWord_takes at_ begins (Region.isWordStart_iff.1 letter)
      rw [if_neg letter]
      have marks := no_mark single paired slash
      have isForeign : Region.IsForeign c := by
        refine ⟨?_, Region.isWordStart_iff.not.1 letter, Region.isDigit_iff.not.1 digit, marks⟩
        simp only [List.mem_cons, List.not_mem_nil, or_false]
        tauto
      rw [Region.first_foreign isForeign]
      exact parseForeign_takes at_ begins newline _

end ByteScan

/-- An unexpected character is the whole of its region. -/
theorem Region.Gives.unexpected {r : Region} {after : List Char} {e : LexError} {c : Char}
    (gives : r.Gives (.error e)) (leads : r.Leads after) (cause : e.cause = .unexpectedCharacter c) :
    r.text = [c] := by
  obtain ⟨kind, text⟩ := r
  cases kind with
  | foreign d =>
    cases gives.symm.trans cause
    exact leads.1
  | openString | openComment => cases gives.symm.trans cause
  | _ => exact gives.elim

namespace ByteScanner

/-- What is given when the scanner is asked once more after `n` times; nothing at all after a slip. -/
def nth : Nat → ByteScanner → Option (Option ScanItem)
  | 0, s => s.next.map (·.1)
  | n + 1, s => s.next.bind fun asked => nth n asked.2

/-- The scanner when it has been asked `n` times. -/
def after : Nat → ByteScanner → Option ByteScanner
  | 0, s => some s
  | n + 1, s => s.next.bind fun asked => after n asked.2

/-- The items up to the end, at most `bound` of them. -/
def drain : Nat → ByteScanner → Option (List ScanItem)
  | 0, _ => some []
  | bound + 1, s => s.next.bind fun
      | (none, _) => some []
      | (some item, after) => (drain bound after).map (item :: ·)

/-- All that is given for a text. -/
def items (source : String) : Option (List ScanItem) :=
  (ofText source).drain (source.toList.length + 1)

/-- The lexeme lies between two characters, and it is the text of the region that the item is
given for. So does what is cut out of it: the value of a string, and an unexpected character. -/
structure Encloses (source : List Char) (item : ScanItem) (s : ByteScanner) : Prop where
  boundaries : Text.isBoundary s.bytes s.start = true ∧ Text.isBoundary s.bytes s.curr = true
  region : ∃ (before : List Char) (r : Region) (after : List Char), before ++ r.text ++ after = source ∧
    r.Leads after ∧ r.Gives item ∧ s.start = (encode before).length ∧
    s.curr = (encode (before ++ r.text)).length ∧
    Text.slice? s.bytes s.start s.curr = some (String.ofList r.text)
  literal : ∀ t value, item = .ok t → t.kind = .string value →
    Text.slice? s.bytes (s.start + 1) (s.curr - 1) = some value
  named : ∀ e c, item = .error e → e.cause = .unexpectedCharacter c →
    Text.slice? s.bytes s.start s.curr = some (String.ofList [c])

/-- Both scanners have the same text before them, on the same line. -/
structure Follows (source : List Char) (b : ByteScanner) (s : Scanner) : Prop where
  bytes : b.bytes = encode source
  line : b.line = s.line
  stands : ∃ done, done ++ s.rest = source ∧
    b.curr = (encode done).length + if s.ended then 1 else 0
  ended : s.ended = true → s.rest = []

theorem slice?_past {source before after : List Char} {r : Region} {s : ByteScanner}
    (whole : before ++ r.text ++ after = source) (bytes : s.bytes = encode source)
    (first : s.start = (encode before).length) (last : s.curr = (encode (before ++ r.text)).length) :
    Text.slice? s.bytes s.start s.curr = some (String.ofList r.text) := by
  rw [bytes, first, last, ← whole]
  exact Text.slice?_encode before r.text after

theorem encloses_past {source before after : List Char} {r : Region} {item : ScanItem} {s : ByteScanner}
    (whole : before ++ r.text ++ after = source) (bytes : s.bytes = encode source) (leads : r.Leads after)
    (gives : r.Gives item) (first : s.start = (encode before).length)
    (last : s.curr = (encode (before ++ r.text)).length) : Encloses source item s := by
  have lexeme := slice?_past whole bytes first last
  refine ⟨⟨?_, ?_⟩, ⟨before, r, after, whole, leads, gives, first, last, lexeme⟩, ?_, ?_⟩
  · rw [bytes, first, ← whole, List.append_assoc]
    exact Text.isBoundary_encode _ _
  · rw [bytes, last, ← whole]
    exact Text.isBoundary_encode _ _
  · rintro t value rfl kind
    have quoted := gives.string kind
    have opening := Text.length_encode_snoc (c := '"') (by decide) before
    have closing := Text.length_encode_snoc (c := '"') (by decide) (before ++ ['"'] ++ value.toList)
    have inside := Text.slice?_encode (before ++ ['"']) value.toList ('"' :: after)
    have ends : before ++ r.text = before ++ ['"'] ++ value.toList ++ ['"'] := by simp [quoted]
    have text : source = before ++ ['"'] ++ value.toList ++ '"' :: after := by
      rw [← whole, ends, List.append_assoc _ ['"'] after, List.singleton_append]
    rw [bytes, first, last, ends, closing, Nat.add_sub_cancel, ← opening, text, inside,
      String.ofList_toList]
  · rintro e c rfl cause
    rw [lexeme, gives.unexpected leads cause]

/-- What has been scanned is behind the scanner. -/
theorem At.past {done after : List Char} {r : Region} {s : ByteScanner} (at_ : At done (r.text ++ after) s) :
    At (done ++ r.text) after (s.past done r) :=
  ⟨by rw [List.append_assoc]; exact at_.bytes, rfl⟩

/-- The region gives the item that was found in it. -/
theorem gives_of_item? {r : Region} {after : List Char} (leads : r.Leads after) {line : Nat} {item : ScanItem}
    (given : r.item? line = some item) : r.Gives item := by
  rcases Region.item?_gives leads line with ⟨-, silent⟩ | ⟨-, own, same, gives⟩
  · cases silent.symm.trans given
  · cases same.symm.trans given
    exact gives

/-- The scanner when a lexeme begins where it stands. -/
def begun (s : ByteScanner) : ByteScanner := { s with start := s.curr, pending := none }

theorem At.begun {done rest : List Char} {s : ByteScanner} (at_ : At done rest s) : At done rest s.begun :=
  ⟨at_.bytes, at_.curr⟩

/-- Before the end, a question begins with what the next character begins. -/
theorem nextFrom_begins {done rest : List Char} {c : Char} {s : ByteScanner} {rounds : Nat}
    (at_ : At done (c :: rest) s) :
    nextFrom (rounds + 1) s =
      match ByteScan.scanToken s.begun with
      | .error (.error e) s => some (some (.error e), s)
      | .error .slip _ => none
      | .ok _ s =>
          match s.pending with
          | none => nextFrom rounds s
          | some kind =>
              (Text.slice? s.bytes s.start s.curr).map fun lexeme =>
                (some (.ok ⟨kind, lexeme, s.line⟩), { s with pending := none }) := by
  have more : s.curr < s.bytes.length := by
    have some := List.length_pos_iff.2 (Text.encodeChar_ne_nil c)
    rw [at_.length, Text.encode_cons, List.length_append]
    omega
  rw [nextFrom, if_neg (Nat.not_lt.2 (Nat.le_of_lt more)), if_neg (Nat.ne_of_lt more)]
  rfl

/-- One question: both scanners pass over the same blanks and comments and give the same item. -/
theorem nextFrom_advance {source done : List Char} (text : List Char) (rounds : Nat) (b : ByteScanner)
    (at_ : At done text b) (whole : done ++ text = source) (enough : text.length < rounds) :
    ∃ b', nextFrom rounds b = some (some (Scanner.advance b.line text).1, b') ∧
      Follows source b' (Scanner.advance b.line text).2 ∧
      ((∃ t, (Scanner.advance b.line text).1 = .ok t ∧ t.kind = .endOfText) ∨
        Encloses source (Scanner.advance b.line text).1 b') := by
  generalize from_ : b.line = line
  fun_induction Scanner.advance line text generalizing done rounds b with
  | case1 line =>
    subst from_
    obtain ⟨rounds, rfl⟩ := Nat.exists_eq_add_one.2 enough
    have ends : b.curr = b.bytes.length := by simp [at_.length, encode]
    refine ⟨{ b with curr := b.curr + 1 }, ?_, ⟨?_, rfl, ⟨done, whole, ?_⟩, fun _ => rfl⟩,
      .inl ⟨_, rfl, rfl⟩⟩
    · simp [nextFrom, ends]
    · rw [← whole]
      exact at_.bytes
    · simp [at_.curr]
  | case2 line c rest piece later item =>
    rename_i given
    subst from_
    obtain ⟨rounds, rfl⟩ := Nat.exists_eq_add_one.2 (Nat.lt_of_le_of_lt (Nat.zero_le _) enough)
    have parts : piece.1.text ++ piece.2 = c :: rest := Region.first_append c rest
    have cut : done ++ piece.1.text ++ piece.2 = source := by rw [List.append_assoc, parts, whole]
    have leads : piece.1.Leads piece.2 := Region.first_leads c rest
    have gives := gives_of_item? leads given
    have all : b.bytes = encode source := by rw [at_.bytes, whole]
    have takes := ByteScan.scanToken_takes (at_.begun) rfl
    rw [nextFrom_begins at_]
    generalize ByteScan.scanToken b.begun = result at takes
    cases takes with
    | silent stands nothing =>
      subst stands
      exact absurd (nothing.symm.trans given) (by simp)
    | token kind stands told =>
      subst stands
      obtain rfl := Option.some.inj (told.symm.trans given)
      have lexeme := slice?_past (s := b.begun.past done piece.1) cut all at_.curr rfl
      refine ⟨{ b.begun.past done piece.1 with pending := none }, ?_,
        ⟨all, rfl, ⟨done ++ piece.1.text, cut, rfl⟩, Bool.noConfusion⟩,
        .inr (encloses_past cut all leads gives at_.curr rfl)⟩
      exact congrArg (Option.map _) lexeme
    | error stands told =>
      subst stands
      obtain rfl := Option.some.inj (told.symm.trans given)
      exact ⟨_, rfl, ⟨all, rfl, ⟨done ++ piece.1.text, cut, rfl⟩, Bool.noConfusion⟩,
        .inr (encloses_past cut all leads gives at_.curr rfl)⟩
  | case3 line c rest piece later silent =>
    rename_i ih
    subst from_
    obtain ⟨rounds, rfl⟩ := Nat.exists_eq_add_one.2 (Nat.lt_of_le_of_lt (Nat.zero_le _) enough)
    have parts : piece.1.text ++ piece.2 = c :: rest := Region.first_append c rest
    have shorter : piece.2.length < (c :: rest).length := Region.first_rest_length c rest
    have takes := ByteScan.scanToken_takes (at_.begun) rfl
    rw [nextFrom_begins at_]
    generalize ByteScan.scanToken b.begun = result at takes
    cases takes with
    | silent stands nothing =>
      subst stands
      have behind : At (done ++ piece.1.text) piece.2 (b.begun.past done piece.1) :=
        At.past (by rw [parts]; exact at_.begun)
      exact ih rounds _ behind (by rw [List.append_assoc, parts, whole]) (by omega) rfl
    | token kind stands told =>
      subst stands
      exact absurd (told.symm.trans silent) (by simp)
    | error stands told =>
      subst stands
      exact absurd (told.symm.trans silent) (by simp)

/-- A question to both scanners: they give the same, and then they follow each other again. -/
theorem Follows.next {source : List Char} {b : ByteScanner} {s : Scanner} (follows : Follows source b s) :
    ∃ b', b.next = some (s.next.1, b') ∧ Follows source b' s.next.2 ∧
      ∀ item, s.next.1 = some item →
        (∃ t, item = .ok t ∧ t.kind = .endOfText) ∨ Encloses source item b' := by
  obtain ⟨bytes, line, ⟨done, whole, curr⟩, ends⟩ := follows
  by_cases ended : s.ended = true
  · have beyond : b.bytes.length < b.curr := by
      rw [ends ended, List.append_nil] at whole
      rw [curr, bytes, ← whole, if_pos ended]
      exact Nat.lt_succ_self _
    have last : s.next = (none, s) := by simp [Scanner.next, ended]
    rw [last]
    refine ⟨b, ?_, ⟨bytes, line, ⟨done, whole, curr⟩, ends⟩, fun item given => by cases given⟩
    rw [ByteScanner.next, nextFrom, if_pos beyond]
  · rw [if_neg ended, Nat.add_zero] at curr
    have at_ : At done s.rest b := ⟨by rw [bytes, whole], curr⟩
    have enough : s.rest.length < b.bytes.length + 1 := by
      have some := Text.length_le_encode s.rest
      rw [at_.length]
      omega
    obtain ⟨b', asked, follows', encloses⟩ := nextFrom_advance s.rest _ b at_ whole enough
    have step : s.next = (some (Scanner.advance s.line s.rest).1, (Scanner.advance s.line s.rest).2) := by
      simp [Scanner.next, ended]
    rw [line] at asked follows' encloses
    rw [step]
    refine ⟨b', asked, follows', fun item given => ?_⟩
    cases given
    exact encloses

theorem follows_start (source : String) : Follows source.toList (ofText source) (Scanner.start source) :=
  ⟨Text.toUTF8_toList source, rfl, ⟨[], rfl, rfl⟩, Bool.noConfusion⟩

/-- However often they are asked, the two scanners give the same, and the one on bytes never slips. -/
theorem Follows.nth {source : List Char} {b : ByteScanner} {s : Scanner} (follows : Follows source b s)
    (n : Nat) :
    b.nth n = some (s.nth n) ∧ ∃ b', b.after (n + 1) = some b' ∧
      ∀ item, s.nth n = some item → (∃ t, item = .ok t ∧ t.kind = .endOfText) ∨ Encloses source item b' := by
  induction n generalizing b s with
  | zero =>
    obtain ⟨b', asked, -, encloses⟩ := follows.next
    exact ⟨by rw [ByteScanner.nth, asked]; rfl, b', by rw [after, asked]; rfl, encloses⟩
  | succ n ih =>
    obtain ⟨b', asked, follows', -⟩ := follows.next
    obtain ⟨same, b'', goesOn, encloses⟩ := ih follows'
    refine ⟨?_, b'', ?_, encloses⟩
    · rw [ByteScanner.nth, asked]
      exact same
    · rw [after, asked]
      exact goesOn

theorem Follows.drain {source : List Char} {b : ByteScanner} {s : Scanner} (follows : Follows source b s)
    (bound : Nat) : b.drain bound = some (s.drain bound) := by
  induction bound generalizing b s with
  | zero => rfl
  | succ bound ih =>
    obtain ⟨b', asked, follows', -⟩ := follows.next
    obtain ⟨answer, s', given⟩ : ∃ answer s', s.next = (answer, s') := ⟨_, _, rfl⟩
    rw [given] at asked follows'
    rw [ByteScanner.drain, asked, Scanner.drain, given]
    cases answer with
    | none => rfl
    | some item => exact congrArg (Option.map (item :: ·)) (ih follows')

end ByteScanner

namespace Scan

/-- The character that an error names as unexpected. -/
def unexpected? : ScanItem → Option Char
  | .error ⟨_, .unexpectedCharacter c⟩ => some c
  | _ => none

end Scan

namespace Region

/-- The character of a region that belongs to nothing else. -/
def foreign? (r : Region) : Option Char :=
  match r.kind with
  | .foreign c => some c
  | _ => none

theorem item?_unexpected {r : Region} (line : Nat) :
    (r.item? line).toList.filterMap Scan.unexpected? = r.foreign?.toList := by
  obtain ⟨kind, text⟩ := r
  cases kind <;> rfl

/-- Each foreign character gives one error that names it, and there is no other error that names a
character. -/
theorem itemsFrom_unexpected (rs : List Region) (line : Nat) :
    (Scan.itemsFrom line rs).filterMap Scan.unexpected? = rs.filterMap foreign? := by
  induction rs generalizing line with
  | nil => rfl
  | cons r rs ih =>
    rw [Scan.itemsFrom, List.filterMap_append, item?_unexpected, ih]
    cases found : r.foreign? <;> simp [found]

end Region

namespace ByteScanner

/-- On every text the scanner on bytes never slips and gives what the scanner on characters gives.
Each lexeme that it cuts out lies between two characters, and so does what it cuts out of a string.
The characters that belong to no lexeme give one error each, in order. -/
theorem bytes_agree (source : String) :
    (∀ n, (ofText source).nth n = some ((Scanner.start source).nth n) ∧
      ∃ s, (ofText source).after (n + 1) = some s ∧ ∀ item, (Scanner.start source).nth n = some item →
        (∃ t, item = .ok t ∧ t.kind = .endOfText) ∨ Encloses source.toList item s) ∧
    items source = some (Scan.items source) ∧
    ∀ rs, Region.Decomposes source.toList rs →
      (Scan.items source).filterMap Scan.unexpected? = rs.filterMap Region.foreign? := by
  have follows := follows_start source
  refine ⟨follows.nth, follows.drain _, fun rs parts => ?_⟩
  rw [Scan.items_eq, Region.decomposes_iff.1 parts, Region.itemsFrom_unexpected]

/-- A foreign character of three bytes, and one of two in a string. -/
example : items "\u20ac \"\u00e9\"" =
    some [.error ⟨1, .unexpectedCharacter '\u20ac'⟩,
      .ok ⟨.string "\u00e9", "\"\u00e9\"", 1⟩, .ok ⟨.endOfText, "", 1⟩] := by
  cbv

end ByteScanner

end Lox
