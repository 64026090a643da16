import Lox.Scan
import Lox.Text.Utf8

/-!
Scanning on the bytes of a text. The scanner looks at one byte and at most at the next one; comments
and strings it passes over by a search for the bytes that they end with. What it cuts out of the text
are characters again, so a cut inside of a character is a slip, as is any index out of range.
-/

namespace Lox

structure ByteScanner where
  bytes : List UInt8
  /-- Where the lexeme begins. -/
  start : Nat
  /-- One past the last byte of the lexeme so far, or past all bytes once the end has been told. -/
  curr : Nat
  line : Nat
  /-- The kind of the token that has been recognised. -/
  pending : Option TokenKind

inductive ScanStop where
  | error (e : LexError)
  | slip

abbrev ByteScan := EStateM ScanStop ByteScanner

namespace Text

/-- Neither side of the position belongs to a character that goes on at the other. -/
def isBoundary (bytes : List UInt8) (position : Nat) : Bool :=
  match bytes[position]? with
  | some b => !isContinuation b
  | none => position = bytes.length

/-- The characters from one position up to another. -/
def slice? (bytes : List UInt8) (first last : Nat) : Option String :=
  if first ≤ last ∧ isBoundary bytes first ∧ isBoundary bytes last then
    String.fromUTF8? ((bytes.take last).drop first).toByteArray
  else none

/-- The position of the first `a` that a `b` follows. -/
def findPair (a b : UInt8) : List UInt8 → Option Nat
  | [] => none
  | x :: rest =>
      if x = a ∧ rest.head? = some b then some 0 else (findPair a b rest).map (· + 1)

end Text

namespace ByteScan

def atEnd (s : ByteScanner) : Bool := s.bytes.length ≤ s.curr

/-- Zero past the end. -/
def peek (s : ByteScanner) : UInt8 := s.bytes.getD s.curr 0

def peekNext (s : ByteScanner) : UInt8 := s.bytes.getD (s.curr + 1) 0

def advance : ByteScan UInt8 := fun s =>
  match s.bytes[s.curr]? with
  | some b => .ok b { s with curr := s.curr + 1 }
  | none => .error .slip s

def matchByte (expected : UInt8) : ByteScan Bool := fun s =>
  if !atEnd s && peek s = expected then .ok true { s with curr := s.curr + 1 } else .ok false s

def moveTo (position : Nat) : ByteScan Unit := fun s => .ok () { s with curr := position }

def give (kind : TokenKind) : ByteScan Unit := fun s => .ok () { s with pending := some kind }

def fail (cause : LexCause) : ByteScan Unit := fun s => .error (.error ⟨s.line, cause⟩) s

/-- The bytes that have not been looked at. -/
def ahead : ByteScan (List UInt8) := fun s =>
  if s.curr ≤ s.bytes.length then .ok (s.bytes.drop s.curr) s else .error .slip s

def slice (first last : Nat) : ByteScan String := fun s =>
  match Text.slice? s.bytes first last with
  | some text => .ok text s
  | none => .error .slip s

def countLines (first last : Nat) : ByteScan Unit := fun s =>
  if first ≤ last ∧ last ≤ s.bytes.length then
    .ok () { s with line := s.line + ((s.bytes.take last).drop first).count '\n'.toUInt8 }
  else .error .slip s

/-- Go on as long as the next byte fits, over no more than `bound` bytes. -/
def skipWhile (fits : UInt8 → Bool) : Nat → ByteScan Unit
  | 0 => pure ()
  | bound + 1 => do
      if fits (peek (← get)) then
        let _ ← advance
        skipWhile fits bound

/-- As far as the bytes fit. -/
def skip (fits : UInt8 → Bool) : ByteScan Unit := do
  let s ← get
  skipWhile fits (s.bytes.length - s.curr)

def isDigit (b : UInt8) : Bool := '0'.toUInt8 ≤ b ∧ b ≤ '9'.toUInt8

def isLetter (b : UInt8) : Bool :=
  ('a'.toUInt8 ≤ b ∧ b ≤ 'z'.toUInt8) ∨ ('A'.toUInt8 ≤ b ∧ b ≤ 'Z'.toUInt8) ∨ b = '_'.toUInt8

/-- The line break that ends the comment is left for itself, so that it is counted once. -/
def skipLineComment : ByteScan Unit := do
  let s ← get
  match (← ahead).findIdx? (· = '\n'.toUInt8) with
  | some n => moveTo (s.curr + n)
  | none => moveTo s.bytes.length

def skipBlockComment : ByteScan Unit := do
  let s ← get
  match Text.findPair '*'.toUInt8 '/'.toUInt8 (← ahead) with
  | some n => do
      countLines s.curr (s.curr + n)
      moveTo (s.curr + n + 2)
  | none => do
      countLines s.curr s.bytes.length
      moveTo s.bytes.length
      fail .unterminatedComment

def parseString : ByteScan Unit := do
  let s ← get
  match (← ahead).findIdx? (· = '"'.toUInt8) with
  | some n => do
      countLines s.curr (s.curr + n)
      moveTo (s.curr + n + 1)
      let value ← slice (s.start + 1) (s.curr + n)
      give (.string value)
  | none => do
      countLines s.curr s.bytes.length
      moveTo s.bytes.length
      fail .unterminatedString

/-- A point without a digit after it is left for the next token. -/
def skipFraction : ByteScan Unit := do
  let s ← get
  if peek s = '.'.toUInt8 ∧ isDigit (peekNext s) then
    let _ ← advance
    skip isDigit

def parseNumber : ByteScan Unit := do
  skip isDigit
  skipFraction
  let s ← get
  let text ← slice s.start s.curr
  give (.number (Number.Decimal.ofLiteral text.toList).toPattern)

def parseWord : ByteScan Unit := do
  skip fun b => isLetter b || isDigit b
  let s ← get
  let text ← slice s.start s.curr
  give (.ofWord text)

/-- The whole character is passed over, so that the next lexeme begins at a boundary. -/
def parseForeign : ByteScan Unit := do
  let s ← get
  let text ← slice s.start s.bytes.length
  let c := text.toList.headD '\ufffd'
  moveTo (s.start + c.utf8Size)
  fail (.unexpectedCharacter c)

def parseSlash : ByteScan Unit := do
  if ← matchByte '/'.toUInt8 then skipLineComment
  else if ← matchByte '*'.toUInt8 then skipBlockComment
  else give (.mark .slash)

/-- The marks that no other mark begins with, but for the slash. -/
def singleMarks : List Mark :=
  [.leftParen, .rightParen, .leftBrace, .rightBrace, .comma, .dot, .minus, .plus, .semicolon, .star,
    .question, .colon]

/-- The marks that an equals sign can follow, each with what the two are together. -/
def pairMarks : List (Mark × Mark) :=
  [(.bang, .bangEqual), (.equal, .equalEqual), (.less, .lessEqual), (.greater, .greaterEqual)]

/-- Scan what the next byte begins. Of blanks and comments nothing is left pending. -/
def scanToken : ByteScan Unit := do
  let b ← advance
  match singleMarks.find? (·.chars.map Char.toUInt8 = [b]),
    pairMarks.find? (·.1.chars.map Char.toUInt8 = [b]) with
  | some m, _ => give (.mark m)
  | none, some (short, long) => do
      if ← matchByte '='.toUInt8 then give (.mark long) else give (.mark short)
  | none, none =>
      if b = ' '.toUInt8 ∨ b = '\r'.toUInt8 ∨ b = '\t'.toUInt8 then pure ()
      else if b = '\n'.toUInt8 then modify fun s => { s with line := s.line + 1 }
      else if b = '/'.toUInt8 then parseSlash
      else if b = '"'.toUInt8 then parseString
      else if isDigit b then parseNumber
      else if isLetter b then parseWord
      else parseForeign

end ByteScan

namespace ByteScanner

def ofText (source : String) : ByteScanner := ⟨source.toUTF8.data.toList, 0, 0, 1, none⟩

/-- The next item, if there is one, and the scanner after it; nothing at all after a slip. Each round
takes at least one byte. -/
def nextFrom : Nat → ByteScanner → Option (Option ScanItem × ByteScanner)
  | 0, s => some (none, s)
  | rounds + 1, s =>
      if s.bytes.length < s.curr then some (none, s)
      else if s.curr = s.bytes.length then
        some (some (.ok ⟨.endOfText, "", s.line⟩), { s with curr := s.curr + 1 })
      else
        match ByteScan.scanToken { s with start := s.curr, pending := none } with
        | .error (.error e) s => some (some (.error e), s)
        | .error .slip _ => none
        | .ok _ s =>
            match s.pending with
            | none => nextFrom rounds s
            | some kind =>
                (Text.slice? s.bytes s.start s.curr).map fun lexeme =>
                  (some (.ok ⟨kind, lexeme, s.line⟩), { s with pending := none })

def next (s : ByteScanner) : Option (Option ScanItem × ByteScanner) :=
  nextFrom (s.bytes.length + 1) s

end ByteScanner

end Lox
