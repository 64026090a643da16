import Mathlib
import Lox.Scan.Bytes

/-!
Texts as bytes. A character of the first 128 is one byte, and no byte of any other character is one of
these; so a search for such a byte stops where a search for the character stops. A piece that begins
and ends between two characters is cut out as it is.
-/

namespace Lox.Text

/-- The bytes of a text. -/
def encode (text : List Char) : List UInt8 := text.flatMap String.utf8EncodeChar

theorem toUTF8_toList (source : String) : source.toUTF8.data.toList = encode source.toList := by
  rw [String.toUTF8_eq_toByteArray, ← String.utf8Encode_toList]
  simp [List.utf8Encode, encode]

theorem encode_append (a b : List Char) : encode (a ++ b) = encode a ++ encode b :=
  List.flatMap_append

theorem encode_cons (c : Char) (text : List Char) :
    encode (c :: text) = String.utf8EncodeChar c ++ encode text := rfl

/-- One of the first 128 characters. -/
def IsAscii (c : Char) : Prop := c.toNat < 128

instance (c : Char) : Decidable (IsAscii c) := inferInstanceAs (Decidable (_ < _))

theorem encodeChar_ascii {c : Char} (ascii : IsAscii c) : String.utf8EncodeChar c = [c.toUInt8] := by
  have small : c.val ≤ 127 := UInt32.le_iff_toNat_le.2 (Nat.le_of_lt_succ ascii)
  exact String.utf8EncodeChar_eq_singleton (Char.utf8Size_eq_one_iff.2 small)

theorem encode_ascii {c : Char} (ascii : IsAscii c) (text : List Char) :
    encode (c :: text) = c.toUInt8 :: encode text := by
  rw [encode_cons, encodeChar_ascii ascii]
  rfl

theorem length_encode_append (a b : List Char) :
    (encode (a ++ b)).length = (encode a).length + (encode b).length := by
  rw [encode_append, List.length_append]

theorem length_encode_ascii {c : Char} (ascii : IsAscii c) (text : List Char) :
    (encode (c :: text)).length = (encode text).length + 1 := by
  rw [encode_ascii ascii, List.length_cons]

theorem length_encode_snoc {c : Char} (ascii : IsAscii c) (text : List Char) :
    (encode (text ++ [c])).length = (encode text).length + 1 := by
  rw [length_encode_append, length_encode_ascii ascii]
  rfl

theorem toUInt8_toNat {c : Char} (ascii : IsAscii c) : c.toUInt8.toNat = c.toNat := by
  have small : c.toNat < 128 := ascii
  have number : c.toUInt8.toNat = c.toNat % 256 := rfl
  omega

theorem toUInt8_inj {c d : Char} (ascii : IsAscii c) (ascii' : IsAscii d) :
    c.toUInt8 = d.toUInt8 ↔ c = d := by
  constructor
  · intro same
    have numbers := congrArg UInt8.toNat same
    rw [toUInt8_toNat ascii, toUInt8_toNat ascii'] at numbers
    exact Char.toNat_inj.1 numbers
  · rintro rfl
    rfl

theorem toUInt8_le {c d : Char} (ascii : IsAscii c) (ascii' : IsAscii d) :
    c.toUInt8 ≤ d.toUInt8 ↔ c ≤ d := by
  rw [UInt8.le_iff_toNat_le, toUInt8_toNat ascii, toUInt8_toNat ascii', Char.le_def,
    UInt32.le_iff_toNat_le]
  rfl

/-- The bytes of any other character are none of the first 128. -/
theorem le_of_mem_encodeChar {c : Char} (foreign : ¬ IsAscii c) :
    ∀ b ∈ String.utf8EncodeChar c, 128 ≤ b.toNat := by
  have large : ¬ c.val.toNat ≤ 127 := fun small => foreign (Nat.lt_succ_of_le small)
  have marked (n m k : Nat) (big : 128 ≤ k) (some : 0 < m) (fits : m + k ≤ 256) :
      128 ≤ (UInt8.ofNat (n % m + k)).toNat := by
    have bound := Nat.mod_lt n some
    rw [UInt8.toNat_ofNat']
    omega
  have goesOn (n : Nat) : 128 ≤ (UInt8.ofNat (n % 64 + 128)).toNat :=
    marked n 64 128 (by decide) (by decide) (by decide)
  intro b among
  simp only [String.utf8EncodeChar, large, if_false] at among
  split at among
  · rcases List.mem_cons.1 among with rfl | among
    · exact marked _ 32 192 (by decide) (by decide) (by decide)
    · rw [List.mem_singleton.1 among]
      exact goesOn _
  split at among
  · rcases List.mem_cons.1 among with rfl | among
    · exact marked _ 16 224 (by decide) (by decide) (by decide)
    · simp only [List.mem_cons, List.not_mem_nil, or_false] at among
      rcases among with rfl | rfl <;> exact goesOn _
  · rcases List.mem_cons.1 among with rfl | among
    · exact marked _ 8 240 (by decide) (by decide) (by decide)
    · simp only [List.mem_cons, List.not_mem_nil, or_false] at among
      rcases among with rfl | rfl | rfl <;> exact goesOn _

theorem encodeChar_ne_nil (c : Char) : String.utf8EncodeChar c ≠ [] := by
  rw [← List.length_pos_iff, String.length_utf8EncodeChar]
  exact c.utf8Size_pos

/-- A text has no more characters than bytes. -/
theorem length_le_encode (text : List Char) : text.length ≤ (encode text).length := by
  induction text with
  | nil => exact Nat.zero_le _
  | cons c text ih =>
    have some := List.length_pos_iff.2 (encodeChar_ne_nil c)
    rw [encode_cons, List.length_append, List.length_cons]
    omega

/-- A character begins with a byte that no character goes on with. -/
theorem encodeChar_starts (c : Char) :
    ∃ b more, String.utf8EncodeChar c = b :: more ∧ isContinuation b = false := by
  obtain ⟨b, more, whole⟩ := List.exists_cons_of_ne_nil (encodeChar_ne_nil c)
  refine ⟨b, more, whole, ?_⟩
  have lead := UInt8.isUTF8FirstByte_getElem_zero_utf8EncodeChar (c := c)
  simp only [whole, List.getElem_cons_zero] at lead
  revert lead
  have all : ∀ n : Fin 256, (UInt8.ofNat n).IsUTF8FirstByte → isContinuation (UInt8.ofNat n) = false := by
    decide +kernel
  have this := all ⟨b.toNat, b.toNat_lt⟩
  simpa using this

theorem isBoundary_encode (done rest : List Char) :
    isBoundary (encode (done ++ rest)) (encode done).length = true := by
  unfold isBoundary
  rw [encode_append]
  cases rest with
  | nil => simp [encode]
  | cons c rest =>
    obtain ⟨b, more, whole, starts⟩ := encodeChar_starts c
    simp [encode_cons, whole, starts]

/-- What lies between two characters is cut out as it is. -/
theorem slice?_encode (before piece after : List Char) :
    slice? (encode (before ++ piece ++ after)) (encode before).length
      (encode (before ++ piece)).length = some (String.ofList piece) := by
  have first : isBoundary (encode (before ++ piece ++ after)) (encode before).length = true := by
    rw [List.append_assoc]
    exact isBoundary_encode before (piece ++ after)
  have last := isBoundary_encode (before ++ piece) after
  have order : (encode before).length ≤ (encode (before ++ piece)).length := by
    simp [encode_append]
  have bytes : ((encode (before ++ piece ++ after)).take (encode (before ++ piece)).length).drop
      (encode before).length = encode piece := by
    rw [encode_append _ after, List.take_left, encode_append, List.drop_left]
  rw [slice?, if_pos ⟨order, first, last⟩, bytes]
  have own : (encode piece).toByteArray = (String.ofList piece).toByteArray := by
    rw [String.toByteArray_ofList]
    rfl
  rw [own, String.fromUTF8?, dif_pos (String.ofList piece).isValidUTF8]
  rfl

/-! ### Searches -/

theorem mem_encodeChar {c : Char} (ascii : IsAscii c) (d : Char) :
    c.toUInt8 ∈ String.utf8EncodeChar d ↔ d = c := by
  by_cases ascii' : IsAscii d
  · rw [encodeChar_ascii ascii', List.mem_singleton, toUInt8_inj ascii ascii', eq_comm]
  · refine ⟨fun among => ?_, fun same => absurd (same ▸ ascii) ascii'⟩
    have large := le_of_mem_encodeChar ascii' _ among
    rw [toUInt8_toNat ascii] at large
    exact absurd ascii (Nat.not_lt.2 large)

theorem mem_encode {c : Char} (ascii : IsAscii c) {text : List Char} :
    c.toUInt8 ∈ encode text ↔ c ∈ text := by
  simp [encode, mem_encodeChar ascii]

/-- The first byte of a text is that of a character below 128 if the first character is this one. -/
theorem head?_encode {c : Char} (ascii : IsAscii c) {text : List Char} :
    (encode text).head? = some c.toUInt8 ↔ text.head? = some c := by
  cases text with
  | nil => simp [encode]
  | cons d text =>
    obtain ⟨b, more, whole, -⟩ := encodeChar_starts d
    have starts : (encode (d :: text)).head? = some b := by rw [encode_cons, whole]; rfl
    rw [starts, List.head?_cons, Option.some_inj, Option.some_inj]
    constructor
    · rintro rfl
      exact (mem_encodeChar ascii d).1 (by rw [whole]; exact List.mem_cons_self)
    · rintro rfl
      rw [encodeChar_ascii ascii] at whole
      exact (List.cons.inj whole).1.symm

theorem count_encode {c : Char} (ascii : IsAscii c) (text : List Char) :
    (encode text).count c.toUInt8 = text.count c := by
  induction text with
  | nil => rfl
  | cons d text ih =>
    by_cases same : d = c
    · subst same
      rw [encode_ascii ascii, List.count_cons_self, List.count_cons_self, ih]
    · have other : c.toUInt8 ∉ String.utf8EncodeChar d := (mem_encodeChar ascii d).not.2 same
      rw [encode_cons, List.count_append, List.count_eq_zero_of_not_mem other, ih,
        List.count_cons_of_ne same, Nat.zero_add]

/-- The test of the first byte for a character below 128 tells for the first character. -/
theorem first_eq_iff {c d : Char} (ascii : IsAscii d) {b : UInt8} {more : List UInt8}
    (whole : String.utf8EncodeChar c = b :: more) : b = d.toUInt8 ↔ c = d := by
  have first : (encode [c]).head? = some d.toUInt8 ↔ [c].head? = some d := head?_encode ascii
  simpa [encode, whole] using first

theorem findIdx?_encode_none {c : Char} (ascii : IsAscii c) {text : List Char} (none : c ∉ text) :
    (encode text).findIdx? (· = c.toUInt8) = .none := by
  rw [List.findIdx?_eq_none_iff]
  rintro b among
  rw [decide_eq_false_iff_not]
  rintro rfl
  exact none ((mem_encode ascii).1 among)

theorem findIdx?_encode_some {c : Char} (ascii : IsAscii c) {before : List Char} (first : c ∉ before)
    (after : List Char) :
    (encode (before ++ c :: after)).findIdx? (· = c.toUInt8) = some (encode before).length := by
  rw [encode_append, List.findIdx?_append, findIdx?_encode_none ascii first, encode_ascii ascii]
  simp [List.findIdx?_cons]

theorem findPair_append {a b : UInt8} {start : List UInt8} (other : a ∉ start) (rest : List UInt8) :
    findPair a b (start ++ rest) = (findPair a b rest).map (· + start.length) := by
  induction start with
  | nil => simp
  | cons x start ih =>
    have here : x ≠ a := fun same => other (same ▸ List.mem_cons_self)
    rw [List.cons_append, findPair, if_neg fun both => here both.1,
      ih fun among => other (List.mem_cons_of_mem x among), Option.map_map]
    rfl

/-- The end of a comment is found where the characters of the comment end. -/
theorem findPair_encode (text : List Char) :
    (findPair '*'.toUInt8 '/'.toUInt8 (encode text)).map (· + 2) =
      (Region.splitComment? text).map fun split => (encode split.1).length := by
  fun_induction Region.splitComment? text with
  | case1 => rfl
  | case2 rest =>
    rw [encode_ascii (by decide), encode_ascii (by decide), findPair, if_pos ⟨rfl, rfl⟩]
    rfl
  | case3 c rest other ih =>
    have later : (findPair '*'.toUInt8 '/'.toUInt8 (encode (c :: rest))) =
        (findPair '*'.toUInt8 '/'.toUInt8 (encode rest)).map (· + (String.utf8EncodeChar c).length) := by
      by_cases star : c = '*'
      · subst star
        have slash : (encode rest).head? ≠ some '/'.toUInt8 := by
          intro opens
          obtain ⟨more, same⟩ := List.head?_eq_some_iff.1 ((head?_encode (by decide)).1 opens)
          exact other more rfl same
        rw [encode_ascii (by decide), findPair, if_neg fun both => slash both.2]
        rfl
      · rw [encode_cons]
        exact findPair_append ((mem_encodeChar (by decide) c).not.2 star) _
    rw [later, Option.map_map]
    have moved := congrArg (Option.map (· + (String.utf8EncodeChar c).length)) ih
    simp only [Option.map_map] at moved ⊢
    convert moved using 2
    · funext n
      simp only [Function.comp]
      omega
    · funext split
      simp [encode_cons, Nat.add_comm]

/-- A test of bytes that finds what the test of characters finds, which are characters below 128. -/
structure Tells (fits : UInt8 → Bool) (p : Char → Bool) : Prop where
  own : ∀ c, IsAscii c → fits c.toUInt8 = p c
  high : ∀ b : UInt8, 128 ≤ b.toNat → fits b = false
  foreign : ∀ c, ¬ IsAscii c → p c = false

namespace Tells

variable {fits : UInt8 → Bool} {p : Char → Bool}

/-- The characters from one below 128 up to another. -/
theorem range {low high : Char} (ascii : IsAscii low) (ascii' : IsAscii high) :
    Tells (fun b => low.toUInt8 ≤ b ∧ b ≤ high.toUInt8) (fun c => low ≤ c ∧ c ≤ high) where
  own c own := by simp only [toUInt8_le ascii own, toUInt8_le own ascii']
  high b large := by
    have above : ¬ b ≤ high.toUInt8 := by
      have bound : high.toNat < 128 := ascii'
      rw [UInt8.le_iff_toNat_le, toUInt8_toNat ascii']
      omega
    simp [above]
  foreign c foreign := by
    have above : ¬ c ≤ high := fun le => foreign (Nat.lt_of_le_of_lt (UInt32.le_iff_toNat_le.1 le) ascii')
    simp [above]

theorem or {fits' : UInt8 → Bool} {p' : Char → Bool} (tells : Tells fits p) (tells' : Tells fits' p') :
    Tells (fun b => fits b || fits' b) (fun c => p c || p' c) where
  own c own := by rw [tells.own c own, tells'.own c own]
  high b large := by rw [tells.high b large, tells'.high b large]; rfl
  foreign c foreign := by rw [tells.foreign c foreign, tells'.foreign c foreign]; rfl

theorem ascii (tells : Tells fits p) {c : Char} (fit : p c = true) : IsAscii c := by
  by_contra foreign
  rw [tells.foreign c foreign] at fit
  cases fit

/-- The test of its first byte tells for the character. -/
theorem first (tells : Tells fits p) {c : Char} {b : UInt8} {more : List UInt8}
    (whole : String.utf8EncodeChar c = b :: more) : fits b = p c := by
  by_cases ascii : IsAscii c
  · rw [encodeChar_ascii ascii] at whole
    obtain ⟨rfl, -⟩ := List.cons.inj whole
    exact tells.own c ascii
  · rw [tells.foreign c ascii]
    exact tells.high b (le_of_mem_encodeChar ascii b (by rw [whole]; exact List.mem_cons_self))

theorem headD (tells : Tells fits p) (zero : fits 0 = false) (text : List Char) :
    fits ((encode text).headD 0) = text.head?.any p := by
  cases text with
  | nil => exact zero
  | cons c text =>
    obtain ⟨b, more, whole, -⟩ := encodeChar_starts c
    rw [encode_cons, whole]
    exact tells.first whole

theorem takeWhile (tells : Tells fits p) (text : List Char) :
    (encode text).takeWhile fits = encode (text.takeWhile p) := by
  induction text with
  | nil => rfl
  | cons c text ih =>
    by_cases fit : p c = true
    · have ascii := tells.ascii fit
      rw [List.takeWhile_cons_of_pos fit, encode_ascii ascii, encode_ascii ascii,
        List.takeWhile_cons_of_pos ((tells.own c ascii).trans fit), ih]
    · obtain ⟨b, more, whole, -⟩ := encodeChar_starts c
      have stop : ¬ fits b = true := by rwa [tells.first whole]
      rw [List.takeWhile_cons_of_neg fit, encode_cons, whole, List.cons_append,
        List.takeWhile_cons_of_neg stop]
      rfl

end Tells

end Lox.Text
