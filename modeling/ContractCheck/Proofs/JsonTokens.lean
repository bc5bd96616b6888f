import ContractCheck.Json.Parser
import Mathlib.Data.List.Chain

/-!
The texts of JSON tokens. A token may have many: the characters of a string and the digits of a
number have a choice of spellings (`Json.Token.Written`), and blanks stand anywhere between tokens
(`Json.Token.Spaced`). Every text of tokens is read as those tokens, if no number stands right
behind another (`Json.Token.Spaced.scanAll`): a number is the one token that ends only at a
character that cannot go on with it.
-/

namespace ContractCheck.Json

namespace Token

/-- What a string is written with. -/
inductive Piece where
  /-- A character that stands for itself. -/
  | plain (c : Char)
  | escape (letter : Char)
  /-- A unit of UTF-16 by its hexadecimal digits. -/
  | unit (a b c d : Char)

inductive Code where
  | char (c : Char)
  | unit (n : Nat)

namespace Piece

def chars : Piece → List Char
  | plain c => [c]
  | escape letter => ['\\', letter]
  | unit a b c d => ['\\', 'u', a, b, c, d]

/-- What a piece stands for, if it may stand in a string. -/
def code? : Piece → Option Code
  | plain c => if c = '"' ∨ c = '\\' ∨ c.toNat < 0x20 then none else some (.char c)
  | escape letter => (escaped? letter).map .char
  | unit a b c d => (hexUnit? a b c d).map .unit

end Piece

/-- The characters that the codes denote, if no surrogate stands alone. -/
def decode : List Code → Option (List Char)
  | [] => some []
  | .char c :: codes => (decode codes).map (c :: ·)
  | .unit n :: codes =>
    if isHighSurrogate n then
      match codes with
      | .unit low :: codes =>
        if isLowSurrogate low then (decode codes).map (surrogatePair n low :: ·) else none
      | _ => none
    else if isLowSurrogate n then none
    else (decode codes).map (Char.ofNat n :: ·)

namespace Draft

def addCode (d : Draft) : Code → Draft
  | .char c => d.addChar c
  | .unit n => d.addUnit n

/-- A string so far, in which no surrogate stood alone. -/
def ofChars (chars : List Char) : Draft := ⟨some chars, none⟩

theorem chars_addCode {d : Draft} (h : d.chars = none) (code : Code) :
    (d.addCode code).chars = none := by
  obtain ⟨chars, high⟩ := d
  cases h
  cases code with
  | char c => cases high <;> rfl
  | unit n => cases high <;> simp only [addCode, addUnit, addChar] <;> split <;> try rfl
              split <;> rfl

/-- A surrogate that stood alone is not made up for. -/
theorem text?_foldl_of_chars {d : Draft} (h : d.chars = none) (codes : List Code) :
    (codes.foldl addCode d).text? = none := by
  induction codes generalizing d with
  | nil =>
      obtain ⟨chars, high⟩ := d
      cases h
      cases high <;> rfl
  | cons code codes ih => exact ih (chars_addCode h code)

@[simp] theorem addCode_unit (d : Draft) (n : Nat) : d.addCode (.unit n) = d.addUnit n := rfl

theorem addUnit_high {n : Nat} (h : isHighSurrogate n = true) (chars : List Char) :
    (ofChars chars).addUnit n = ⟨some chars, some n⟩ := by
  simp [addUnit, ofChars, h]

theorem map_reverse_append (c : Char) (chars : List Char) (decoded : Option (List Char)) :
    decoded.map (fun more => String.ofList ((c :: chars).reverse ++ more)) =
      (decoded.map (c :: ·)).map fun more => String.ofList (chars.reverse ++ more) := by
  simp only [Option.map_map, Function.comp_def, List.reverse_cons, List.append_assoc,
    List.singleton_append]

/-- What codes denote is what is read from them. -/
theorem text?_foldl_ofChars (codes : List Code) (chars : List Char) :
    (codes.foldl addCode (ofChars chars)).text? =
      (decode codes).map fun more => String.ofList (chars.reverse ++ more) := by
  induction codes using decode.induct generalizing chars with
  | case1 =>
      rw [decode, Option.map_some, List.append_nil]
      rfl
  | case2 c codes ih =>
      rw [decode, ← map_reverse_append, ← ih]
      rfl
  | case3 high hhigh low codes hlow ih =>
      have hpair : (Draft.mk (some chars) (some high)).addUnit low =
          ofChars (surrogatePair high low :: chars) := by
        simp [addUnit, ofChars, hlow]
      rw [decode, if_pos hhigh]
      simp only [if_pos hlow]
      rw [← map_reverse_append, ← ih, List.foldl_cons, addCode_unit, addUnit_high hhigh,
        List.foldl_cons, addCode_unit, hpair]
  | case4 high hhigh low codes hlow =>
      have halone : ((Draft.mk (some chars) (some high)).addUnit low).chars = none := by
        simp [addUnit, hlow]
      rw [decode, if_pos hhigh]
      simp only [if_neg hlow, Option.map_none]
      rw [List.foldl_cons, addCode_unit, addUnit_high hhigh, List.foldl_cons, addCode_unit,
        text?_foldl_of_chars halone]
  | case5 high codes hhigh hcodes =>
      rw [decode, if_pos hhigh, List.foldl_cons, addCode_unit, addUnit_high hhigh]
      · cases codes with
        | nil => rfl
        | cons code codes =>
            cases code with
            | char c => exact text?_foldl_of_chars rfl codes
            | unit low => exact (hcodes low codes rfl).elim
      · exact hcodes
  | case6 n codes hhigh hlow =>
      have halone : ((ofChars chars).addUnit n).chars = none := by
        simp [addUnit, ofChars, hhigh, hlow]
      rw [decode.eq_def]
      simp only [if_neg hhigh, if_pos hlow, Option.map_none]
      rw [List.foldl_cons, addCode_unit, text?_foldl_of_chars halone]
  | case7 n codes hhigh hlow ih =>
      have hplain : (ofChars chars).addUnit n = ofChars (Char.ofNat n :: chars) := by
        simp [addUnit, ofChars, addChar, hhigh, hlow]
      rw [decode.eq_def]
      simp only [if_neg hhigh, if_neg hlow]
      rw [← map_reverse_append, ← ih, List.foldl_cons, addCode_unit, hplain]

end Draft

/-- A piece is read as what it stands for. -/
theorem scanString_piece (d : Draft) {piece : Piece} {code : Code} (h : piece.code? = some code)
    (rest : List Char) :
    scanString d (piece.chars ++ rest) = scanString (d.addCode code) rest := by
  cases piece with
  | plain c =>
      rw [Piece.code?] at h
      split at h
      · cases h
      · rename_i hc
        obtain ⟨hquote, hslash, hcontrol⟩ : c ≠ '"' ∧ c ≠ '\\' ∧ ¬ c.toNat < 0x20 := by
          simpa only [not_or] using hc
        cases h
        rw [Piece.chars, List.singleton_append, scanString, if_neg hcontrol]
        · rfl
        · exact hquote
        · rintro _ _ _ _ _ rfl
          exact absurd rfl hslash
        · rintro _ _ rfl
          exact absurd rfl hslash
  | escape letter =>
      obtain ⟨c, hescaped, rfl⟩ := Option.map_eq_some_iff.1 h
      have hletter : letter ≠ 'u' := by
        rintro rfl
        cases hescaped
      rw [Piece.chars, List.cons_append, List.singleton_append, scanString, hescaped]
      · rfl
      · rintro _ _ _ _ _ heq
        exact absurd heq hletter
  | unit a b c e =>
      obtain ⟨n, hunit, rfl⟩ := Option.map_eq_some_iff.1 h
      simp only [Piece.chars, List.cons_append, List.nil_append]
      rw [scanString, hunit]
      rfl

/-- A string is read up to its closing quote. -/
theorem scanString_pieces {pieces : List Piece} {codes : List Code}
    (h : pieces.mapM Piece.code? = some codes) (d : Draft) (rest : List Char) :
    scanString d (pieces.flatMap Piece.chars ++ '"' :: rest) =
      some ((codes.foldl Draft.addCode d).text?, rest) := by
  induction pieces generalizing codes d with
  | nil =>
      cases h
      rfl
  | cons piece pieces ih =>
      rw [List.mapM_cons] at h
      obtain ⟨code, hcode, h⟩ := Option.bind_eq_some_iff.1 h
      obtain ⟨codes, hcodes, h⟩ := Option.bind_eq_some_iff.1 h
      cases h
      rw [List.flatMap_cons, List.append_assoc, scanString_piece d hcode, ih hcodes]
      rfl

def IsDigits (text : List Char) : Prop := text ≠ [] ∧ ∀ c ∈ text, c.isDigit = true

/-- Digits without a leading zero. -/
def IsWhole (text : List Char) : Prop := IsDigits text ∧ (text.head? = some '0' → text = ['0'])

def IsFraction (text : List Char) : Prop := ∃ digits, IsDigits digits ∧ text = '.' :: digits

def IsExponent (text : List Char) : Prop :=
  ∃ mark ∈ ['e', 'E'], ∃ sign ∈ [[], ['+'], ['-']], ∃ digits,
    IsDigits digits ∧ text = mark :: (sign ++ digits)

/-- The texts of a number. With a fraction or an exponent it is no integer, nor is a zero with a
sign. -/
inductive IsNumber : Token → List Char → Prop where
  | natural {whole : List Char} (hwhole : IsWhole whole) :
      IsNumber (.int (Nat.ofDigitChars 10 whole 0)) whole
  | negative {whole : List Char} (hwhole : IsWhole whole)
      (hzero : Nat.ofDigitChars 10 whole 0 ≠ 0) :
      IsNumber (.int (-(Nat.ofDigitChars 10 whole 0))) ('-' :: whole)
  | negativeZero {whole : List Char} (hwhole : IsWhole whole)
      (hzero : Nat.ofDigitChars 10 whole 0 = 0) : IsNumber .decimal ('-' :: whole)
  | decimal {sign whole fraction exponent : List Char} (hsign : sign ∈ [[], ['-']])
      (hwhole : IsWhole whole) (hfraction : fraction = [] ∨ IsFraction fraction)
      (hexponent : exponent = [] ∨ IsExponent exponent) (h : fraction ++ exponent ≠ []) :
      IsNumber .decimal (sign ++ (whole ++ (fraction ++ exponent)))

/-- A number that is followed by this text ends there. -/
def Stops (rest : List Char) : Prop :=
  ∀ c ∈ rest.head?, c.isDigit = false ∧ c ≠ '.' ∧ c ≠ 'e' ∧ c ≠ 'E'

theorem digitsValue_eq (digits : List Char) :
    digitsValue digits = Nat.ofDigitChars 10 digits 0 := by
  unfold digitsValue Nat.ofDigitChars
  congr 1
  funext value c
  rw [Nat.mul_comm]

theorem scanDigits_append {digits rest : List Char} (h : IsDigits digits)
    (hrest : ∀ c ∈ rest.head?, c.isDigit = false) :
    scanDigits (digits ++ rest) = some (digits, rest) := by
  have hstop : rest.takeWhile Char.isDigit = [] ∧ rest.dropWhile Char.isDigit = rest := by
    cases rest with
    | nil => exact ⟨rfl, rfl⟩
    | cons c rest =>
        rw [List.takeWhile_cons, List.dropWhile_cons, hrest c rfl]
        exact ⟨rfl, rfl⟩
  unfold scanDigits
  rw [List.takeWhile_append_of_pos h.2, List.dropWhile_append_of_pos h.2, hstop.1, hstop.2,
    List.append_nil]
  split
  · exact absurd rfl h.1
  · rfl

theorem scanWhole_append {whole rest : List Char} (h : IsWhole whole)
    (hrest : ∀ c ∈ rest.head?, c.isDigit = false) :
    scanWhole (whole ++ rest) = some (whole, rest) := by
  unfold scanWhole
  rw [scanDigits_append h.1 hrest]
  split
  · rename_i second digits more hzero
    obtain ⟨rfl, -⟩ := Prod.mk.inj (Option.some.inj hzero)
    have := h.2 rfl
    cases this
  · rfl

theorem IsExponent.head? {text : List Char} (h : IsExponent text) :
    ∃ c, text.head? = some c ∧ c.isDigit = false ∧ c ≠ '.' := by
  obtain ⟨mark, hmark, _, _, _, _, rfl⟩ := h
  refine ⟨mark, rfl, ?_⟩
  rcases List.mem_pair.1 hmark with rfl | rfl <;> decide

theorem scanFraction_append {fraction rest : List Char} (h : fraction = [] ∨ IsFraction fraction)
    (hrest : ∀ c ∈ rest.head?, c.isDigit = false ∧ c ≠ '.') :
    scanFraction (fraction ++ rest) = some (!fraction.isEmpty, rest) := by
  rcases h with rfl | ⟨digits, hdigits, rfl⟩
  · rw [List.nil_append]
    unfold scanFraction
    split
    · exact absurd rfl (hrest '.' rfl).2
    · rfl
  · rw [List.cons_append, scanFraction, scanDigits_append hdigits fun c hc => (hrest c hc).1]
    rfl

theorem scanExponent_append {exponent rest : List Char} (h : exponent = [] ∨ IsExponent exponent)
    (hrest : Stops rest) : scanExponent (exponent ++ rest) = some (!exponent.isEmpty, rest) := by
  rcases h with rfl | ⟨mark, hmark, sign, hsign, digits, hdigits, rfl⟩
  · cases rest with
    | nil => rfl
    | cons c rest =>
        obtain ⟨-, -, hlower, hupper⟩ := hrest c rfl
        simp only [List.nil_append, scanExponent, if_neg (not_or.2 ⟨hlower, hupper⟩)]
        rfl
  · have hscan := scanDigits_append hdigits fun c hc => (hrest c hc).1
    simp only [List.cons_append, scanExponent, if_pos (List.mem_pair.1 hmark), List.append_assoc]
    simp only [List.mem_cons, List.not_mem_nil, or_false] at hsign
    rcases hsign with rfl | rfl | rfl
    · obtain ⟨c, digits, rfl⟩ := List.exists_cons_of_ne_nil hdigits.1
      have hc := hdigits.2 c List.mem_cons_self
      have hplus : c ≠ '+' := by
        rintro rfl
        exact absurd hc (by decide)
      have hminus : c ≠ '-' := by
        rintro rfl
        exact absurd hc (by decide)
      rw [List.nil_append]
      split
      · rename_i heq
        exact absurd (List.cons.inj heq).1 hplus
      · rename_i heq
        exact absurd (List.cons.inj heq).1 hminus
      · rw [hscan]
        rfl
    · simp only [List.singleton_append, hscan]
      rfl
    · simp only [List.singleton_append, hscan]
      rfl

/-- What follows a fraction neither goes on with its digits nor is another fraction. -/
theorem Stops.append {exponent rest : List Char} (h : exponent = [] ∨ IsExponent exponent)
    (hrest : Stops rest) : ∀ c ∈ (exponent ++ rest).head?, c.isDigit = false ∧ c ≠ '.' := by
  intro c hc
  rcases h with rfl | hexponent
  · obtain ⟨hdigit, hpoint, -⟩ := hrest c hc
    exact ⟨hdigit, hpoint⟩
  · obtain ⟨mark, hmark, hdigit, hpoint⟩ := hexponent.head?
    rw [List.head?_append, hmark] at hc
    cases hc
    exact ⟨hdigit, hpoint⟩

theorem scanNumber_append (negative : Bool) {whole fraction exponent rest : List Char}
    (hwhole : IsWhole whole) (hfraction : fraction = [] ∨ IsFraction fraction)
    (hexponent : exponent = [] ∨ IsExponent exponent) (hrest : Stops rest) :
    scanNumber negative (whole ++ (fraction ++ exponent) ++ rest) =
      some (if fraction ++ exponent = [] then ofDigits negative whole else .decimal, rest) := by
  have hafter := hrest.append hexponent
  have hdigit : ∀ c ∈ (fraction ++ (exponent ++ rest)).head?, c.isDigit = false := by
    intro c hc
    rcases hfraction with rfl | ⟨digits, -, rfl⟩
    · exact (hafter c hc).1
    · cases hc
      rfl
  rw [List.append_assoc, List.append_assoc]
  unfold scanNumber
  rw [scanWhole_append hwhole hdigit]
  simp only [Option.bind_eq_bind, Option.bind_some, scanFraction_append hfraction hafter,
    scanExponent_append hexponent hrest]
  cases fraction <;> cases exponent <;> rfl

theorem scanNumber_whole (negative : Bool) {whole rest : List Char} (hwhole : IsWhole whole)
    (hrest : Stops rest) :
    scanNumber negative (whole ++ rest) = some (ofDigits negative whole, rest) := by
  have h := scanNumber_append negative hwhole (.inl rfl) (.inl rfl) hrest
  rwa [List.append_nil, List.append_nil] at h

/-- A digit starts a number. -/
theorem scan_of_isDigit {c : Char} (h : c.isDigit = true) (more : List Char) :
    isBlank c = false ∧ scan c more = scanNumber false (c :: more) := by
  constructor
  · unfold isBlank
    simp only [Bool.or_eq_false_iff, beq_eq_false_iff_ne]
    refine ⟨⟨⟨?_, ?_⟩, ?_⟩, ?_⟩ <;>
      · rintro rfl
        exact absurd h (by decide)
  · unfold scan
    split
    all_goals first | exact absurd h (by decide) | exact if_pos h

/-- The text is one token where `rest` follows it, and what starts with it is no blank. -/
def Scans (t : Token) (text rest : List Char) : Prop :=
  ∃ c more, text = c :: more ∧ isBlank c = false ∧ scan c (more ++ rest) = some (t, rest)

theorem IsWhole.scans {whole tail rest : List Char} {t : Token} (h : IsWhole whole)
    (hscan : scanNumber false (whole ++ tail ++ rest) = some (t, rest)) :
    Scans t (whole ++ tail) rest := by
  obtain ⟨c, digits, rfl⟩ := List.exists_cons_of_ne_nil h.1.1
  obtain ⟨hblank, hnumber⟩ := scan_of_isDigit (h.1.2 c List.mem_cons_self) (digits ++ tail ++ rest)
  exact ⟨c, digits ++ tail, rfl, hblank, hnumber.trans hscan⟩

theorem IsNumber.scans {t : Token} {text rest : List Char} (h : IsNumber t text)
    (hrest : Stops rest) : Scans t text rest := by
  cases h with
  | natural hwhole =>
      have hscan := scanNumber_whole false hwhole hrest
      rw [ofDigits, digitsValue_eq] at hscan
      rw [← List.append_nil text]
      refine hwhole.scans ?_
      rw [List.append_nil]
      exact hscan
  | @negative whole hwhole hzero =>
      have hscan := scanNumber_whole true hwhole hrest
      rw [ofDigits, digitsValue_eq, if_pos rfl, if_neg hzero] at hscan
      exact ⟨'-', whole, rfl, rfl, hscan⟩
  | @negativeZero whole hwhole hzero =>
      have hscan := scanNumber_whole true hwhole hrest
      rw [ofDigits, digitsValue_eq, if_pos rfl, if_pos hzero] at hscan
      exact ⟨'-', whole, rfl, rfl, hscan⟩
  | @decimal sign whole fraction exponent hsign hwhole hfraction hexponent h =>
      have hscan := fun negative => scanNumber_append negative hwhole hfraction hexponent hrest
      simp only [if_neg h] at hscan
      rcases List.mem_pair.1 hsign with rfl | rfl
      · exact hwhole.scans (hscan false)
      · exact ⟨'-', _, rfl, rfl, hscan true⟩

/-- The tokens with one text each. -/
def fixed : List (String × Token) := [("[", .openArr), ("]", .closeArr), ("\x7b", .openObj),
  ("\x7d", .closeObj), (",", .comma), (":", .colon), ("null", .null), ("true", .bool true),
  ("false", .bool false)]

/-- The texts of a token. -/
inductive Written : Token → List Char → Prop where
  | fixed {text : String} {t : Token} (h : (text, t) ∈ fixed) : Written t text.toList
  | number {t : Token} {text : List Char} (h : IsNumber t text) : Written t text
  | str {pieces : List Piece} {codes : List Code} (h : pieces.mapM Piece.code? = some codes) :
      Written (.str ((decode codes).map String.ofList))
        ('"' :: (pieces.flatMap Piece.chars ++ ['"']))

/-- The texts of tokens in a row, with blanks anywhere between them. -/
inductive Spaced : List Token → List Char → Prop where
  | nil : Spaced [] []
  | blank {c : Char} {ts : List Token} {text : List Char} (hc : isBlank c = true)
      (h : Spaced ts text) : Spaced ts (c :: text)
  | token {t : Token} {ts : List Token} {word text : List Char} (hword : Written t word)
      (h : Spaced ts text) : Spaced (t :: ts) (word ++ text)

def isNumber : Token → Bool
  | .int _ | .decimal => true
  | _ => false

theorem IsNumber.isNumber {t : Token} {text : List Char} (h : IsNumber t text) :
    t.isNumber = true := by
  cases h <;> rfl

theorem Written.scans {t : Token} {word rest : List Char} (h : Written t word)
    (hrest : t.isNumber = true → Stops rest) : Scans t word rest := by
  cases h with
  | fixed h =>
      simp only [Token.fixed, List.mem_cons, List.not_mem_nil, or_false, Prod.mk.injEq] at h
      rcases h with ⟨rfl, rfl⟩ | ⟨rfl, rfl⟩ | ⟨rfl, rfl⟩ | ⟨rfl, rfl⟩ | ⟨rfl, rfl⟩ | ⟨rfl, rfl⟩ |
        ⟨rfl, rfl⟩ | ⟨rfl, rfl⟩ | ⟨rfl, rfl⟩
      all_goals exact ⟨_, _, rfl, rfl, rfl⟩
  | number h => exact h.scans (hrest h.isNumber)
  | @str pieces codes h =>
      refine ⟨'"', _, rfl, rfl, ?_⟩
      show (scanString (.ofChars []) _).map _ = _
      rw [List.append_assoc, List.singleton_append, scanString_pieces h,
        Draft.text?_foldl_ofChars]
      rfl

/-- Whatever is no number starts with no character of one. -/
theorem Written.stops {t : Token} {word : List Char} (h : Written t word)
    (hnumber : t.isNumber = false) (rest : List Char) : Stops (word ++ rest) := by
  cases h with
  | fixed h =>
      simp only [Token.fixed, List.mem_cons, List.not_mem_nil, or_false, Prod.mk.injEq] at h
      rcases h with ⟨rfl, rfl⟩ | ⟨rfl, rfl⟩ | ⟨rfl, rfl⟩ | ⟨rfl, rfl⟩ | ⟨rfl, rfl⟩ | ⟨rfl, rfl⟩ |
        ⟨rfl, rfl⟩ | ⟨rfl, rfl⟩ | ⟨rfl, rfl⟩
      all_goals
        rintro c ⟨⟩
        decide
  | number h => exact absurd h.isNumber (by rw [hnumber]; decide)
  | str h =>
      rintro c ⟨⟩
      decide

/-- A number ends where anything else than a number follows it. -/
theorem Spaced.stops {ts : List Token} {text : List Char} (h : Spaced ts text)
    (hnumber : ∀ t ∈ ts.head?, t.isNumber = false) : Stops text := by
  cases h with
  | nil => exact fun _ h => nomatch h
  | blank hc _ =>
      rintro _ ⟨⟩
      simp only [isBlank, Bool.or_eq_true, beq_iff_eq] at hc
      rcases hc with ((rfl | rfl) | rfl) | rfl <;> decide
  | token hword _ => exact hword.stops (hnumber _ rfl) _

/-- No number stands right behind another. -/
def Apart (ts : List Token) : Prop :=
  ts.IsChain fun t next => t.isNumber = true → next.isNumber = false

theorem Spaced.scanWithin {ts : List Token} {text : List Char} (h : Spaced ts text)
    (hapart : Apart ts) (done : List Token) {steps : Nat} (hsteps : text.length ≤ steps) :
    Token.scanWithin steps done text = some (done.reverse ++ ts) := by
  induction h generalizing done steps with
  | nil => rw [Token.scanWithin, List.append_nil]
  | @blank c ts text hc h ih =>
      obtain ⟨steps, rfl⟩ := Nat.exists_eq_succ_of_ne_zero (Nat.ne_zero_of_lt hsteps)
      rw [Token.scanWithin, if_pos hc, ih hapart done (Nat.le_of_succ_le_succ hsteps)]
  | @token t ts word text hword h ih =>
      obtain ⟨hnext, hapart⟩ := List.isChain_cons.1 hapart
      -- only a number looks at what follows it
      have hstops : t.isNumber = true → Stops text := fun ht => h.stops fun u hu => hnext u hu ht
      obtain ⟨c, more, rfl, hblank, hscan⟩ := hword.scans hstops
      rw [List.cons_append, List.length_cons] at hsteps
      obtain ⟨steps, rfl⟩ := Nat.exists_eq_succ_of_ne_zero (Nat.ne_zero_of_lt hsteps)
      have hlength : text.length ≤ steps := by
        rw [List.length_append] at hsteps
        omega
      rw [List.cons_append, Token.scanWithin, hblank, hscan]
      simp only [Bool.false_eq_true, if_false]
      rw [ih hapart (t :: done) hlength, List.reverse_cons, List.append_assoc,
        List.singleton_append]

theorem Spaced.scanAll {ts : List Token} {text : List Char} (h : Spaced ts text)
    (hapart : Apart ts) : Token.scanAll text = some ts := h.scanWithin hapart [] (Nat.le_refl _)

end Token

end ContractCheck.Json
