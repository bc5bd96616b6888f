import ContractCheck.Proofs.SolverNames

/-!
Texts that are read as one S-expression. A reader goes through a text character by character and
counts the lists that are open; it knows of texts between quotation marks, of symbols between bars
and of comments, in which parentheses do not count (`Scan.step`). In a list a text is read as it is
on its own (`Scan.run_within`), so that a list of single S-expressions is single (`isSingle_list`).
-/

namespace ContractCheck

/-- What a reader is in the middle of. -/
inductive Lexeme where
  /-- Between two lexemes. -/
  | blank
  | word
  /-- A text between quotation marks. -/
  | quoted
  /-- After a mark that ends the text, unless a second one makes it a mark in the text. -/
  | unquoted
  /-- A symbol between bars. -/
  | barred
  /-- The rest of a line. -/
  | comment
deriving DecidableEq

/-- Whatever follows, what was read stays what it is, and a blank or a parenthesis ends it. -/
def Lexeme.isComplete : Lexeme → Bool
  | .blank | .word | .unquoted => true
  | .quoted | .barred | .comment => false

/-- A reader in the middle of a text. -/
structure Scan where
  /-- How many lists are open. -/
  depth : Nat := 0
  /-- How many S-expressions were begun outside of all lists. -/
  begun : Nat := 0
  lexeme : Lexeme := .blank

namespace Scan

def isBlank (c : Char) : Bool := c == ' ' || c == '\t' || c == '\n' || c == '\r'

/-- An S-expression begins. -/
def begin (r : Scan) (lexeme : Lexeme) : Scan :=
  { r with begun := if r.depth = 0 then r.begun + 1 else r.begun, lexeme }

/-- Takes a character that is neither quoted nor in a comment. There may be no list to close. -/
def take (r : Scan) (c : Char) : Option Scan :=
  if isBlank c then some { r with lexeme := .blank }
  else if c = '(' then some { r.begin .blank with depth := r.depth + 1 }
  else if c = ')' then
    match r.depth with
    | 0 => none
    | depth + 1 => some { r with depth, lexeme := .blank }
  else if c = '"' then some (r.begin .quoted)
  else if c = '|' then some (r.begin .barred)
  else if c = ';' then some { r with lexeme := .comment }
  else if r.lexeme = .word then some r
  else some (r.begin .word)

def step (r : Scan) (c : Char) : Option Scan :=
  match r.lexeme with
  | .quoted => some { r with lexeme := if c = '"' then .unquoted else .quoted }
  | .barred => some { r with lexeme := if c = '|' then .blank else .barred }
  | .comment => some { r with lexeme := if c = '\n' ∨ c = '\r' then .blank else .comment }
  | .unquoted => if c = '"' then some { r with lexeme := .quoted } else r.take c
  | .blank | .word => r.take c

def run (r : Scan) (text : List Char) : Option Scan := text.foldlM step r

theorem run_append (r : Scan) (text rest : List Char) :
    r.run (text ++ rest) = (r.run text).bind fun q => q.run rest := by
  simp [run, List.foldlM_append]

theorem run_cons (r : Scan) (c : Char) (rest : List Char) :
    r.run (c :: rest) = (r.step c).bind fun q => q.run rest := rfl

/-- The reader, if all that it reads stands in a list. -/
def within (r : Scan) (depth begun : Nat) : Scan := ⟨r.depth + depth + 1, begun, r.lexeme⟩

theorem take_within {r q : Scan} {c : Char} (h : r.take c = some q) (depth begun : Nat) :
    (r.within depth begun).take c = some (q.within depth begun) := by
  have hbegin : ∀ lexeme, (r.within depth begun).begin lexeme =
      (r.begin lexeme).within depth begun := by
    intro lexeme
    simp [begin, within]
  obtain ⟨d, n, lexeme⟩ := r
  unfold take at h ⊢
  simp only [hbegin]
  split_ifs at h ⊢ with hblank hopen hclose
  · cases h
    rfl
  · cases h
    simp [within, begin]
    omega
  · cases d with
    | zero => cases h
    | succ d =>
        cases h
        have hdepth : d + 1 + depth = d + depth + 1 := by omega
        simp only [within, hdepth]
  all_goals
    cases h
    first | rfl | contradiction

theorem step_within {r q : Scan} {c : Char} (h : r.step c = some q) (depth begun : Nat) :
    (r.within depth begun).step c = some (q.within depth begun) := by
  have htake : r.take c = some q → (r.within depth begun).take c = some (q.within depth begun) :=
    fun h => take_within h depth begun
  obtain ⟨d, n, lexeme⟩ := r
  cases lexeme with
  | blank => exact htake h
  | word => exact htake h
  | unquoted =>
      change (if c = '"' then _ else _) = _ at h
      change (if c = '"' then _ else _) = _
      split at h
      · rename_i hquote
        cases h
        rw [if_pos hquote]
        rfl
      · rename_i hother
        rw [if_neg hother]
        exact htake h
  | quoted | barred | comment =>
      cases h
      rfl

/-- In a list a text is read as it is on its own, but nothing begins outside of all lists. -/
theorem run_within {r q : Scan} {text : List Char} (h : r.run text = some q) (depth begun : Nat) :
    (r.within depth begun).run text = some (q.within depth begun) := by
  induction text generalizing r with
  | nil =>
      cases h
      rfl
  | cons c rest ih =>
      rw [run_cons, Option.bind_eq_some_iff] at h
      obtain ⟨p, hstep, hrun⟩ := h
      rw [run_cons, step_within hstep, Option.bind_some]
      exact ih hrun

end Scan

/-- The text is one S-expression, blanks around it aside, and nothing else. -/
def isSingle (text : String) : Bool :=
  match Scan.run {} text.toList with
  | some ⟨0, 1, lexeme⟩ => lexeme.isComplete
  | _ => false

theorem isSingle_iff {text : String} : isSingle text = true ↔
    ∃ lexeme, Scan.run {} text.toList = some ⟨0, 1, lexeme⟩ ∧ lexeme.isComplete = true := by
  unfold isSingle
  split
  · rename_i lexeme hrun
    simp [hrun]
  · rename_i hother
    refine ⟨nofun, ?_⟩
    rintro ⟨lexeme, hrun, -⟩
    exact absurd hrun (hother lexeme)

/-- A text that may stand in a list, where it begins and ends no other. -/
def IsNested (text : String) : Prop :=
  ∃ lexeme : Lexeme, lexeme.isComplete = true ∧ ∀ depth begun,
    Scan.run ⟨depth + 1, begun, .blank⟩ text.toList = some ⟨depth + 1, begun, lexeme⟩

theorem isNested_of_isSingle {text : String} (h : isSingle text = true) : IsNested text := by
  obtain ⟨lexeme, hrun, hcomplete⟩ := isSingle_iff.1 h
  refine ⟨lexeme, hcomplete, fun depth begun => ?_⟩
  have hwithin := Scan.run_within hrun depth begun
  simp only [Scan.within, Nat.zero_add] at hwithin
  exact hwithin

theorem isNested_empty : IsNested "" := ⟨.blank, rfl, fun _ _ => rfl⟩

/-- What is complete is ended by a blank and by the end of its list. -/
theorem Scan.step_complete {lexeme : Lexeme} (h : lexeme.isComplete = true) (depth begun : Nat) :
    Scan.step ⟨depth + 1, begun, lexeme⟩ ' ' = some ⟨depth + 1, begun, .blank⟩ ∧
      Scan.step ⟨depth + 1, begun, lexeme⟩ ')' = some ⟨depth, begun, .blank⟩ := by
  cases lexeme with
  | blank | word | unquoted => exact ⟨rfl, rfl⟩
  | quoted | barred | comment => cases h

theorem isNested_renderItems {items : List SExpr} (h : ∀ item ∈ items, IsNested item.render) :
    IsNested (SExpr.renderItems items) := by
  induction items with
  | nil => exact isNested_empty
  | cons item rest ih =>
      obtain ⟨hitem, hrest⟩ := List.forall_mem_cons.1 h
      cases rest with
      | nil => exact hitem
      | cons next rest =>
          obtain ⟨lexeme, hcomplete, hrun⟩ := hitem
          obtain ⟨last, hlast, hruns⟩ := ih hrest
          refine ⟨last, hlast, fun depth begun => ?_⟩
          have htext : (SExpr.renderItems (item :: next :: rest)).toList =
              item.render.toList ++ ' ' :: (SExpr.renderItems (next :: rest)).toList := by
            rw [SExpr.renderItems]
            simp
          rw [htext, Scan.run_append, hrun, Option.bind_some, Scan.run_cons,
            (Scan.step_complete hcomplete depth begun).1, Option.bind_some, hruns]

theorem isSingle_list {items : List SExpr} (h : ∀ item ∈ items, IsNested item.render) :
    isSingle (SExpr.list items).render = true := by
  obtain ⟨lexeme, hcomplete, hrun⟩ := isNested_renderItems h
  refine isSingle_iff.2 ⟨.blank, ?_, rfl⟩
  have htext : (SExpr.list items).render.toList =
      '(' :: ((SExpr.renderItems items).toList ++ [')']) := by
    rw [SExpr.render]
    simp
  have hopen : Scan.step {} '(' = some ⟨1, 1, .blank⟩ := rfl
  rw [htext, Scan.run_cons, hopen, Option.bind_some, Scan.run_append, hrun, Option.bind_some,
    Scan.run_cons, (Scan.step_complete hcomplete 0 1).2, Option.bind_some]
  rfl

/-- A character of simple symbols. -/
def isSymbolChar (c : Char) : Bool := c.isAlphanum || "~!@$%^&*_-+=<>.?/".toList.contains c

/-- A text made of characters of simple symbols. -/
def isSymbol (text : String) : Bool := !text.isEmpty && text.toList.all isSymbolChar

def isPrintable (c : Char) : Bool := ' ' ≤ c && c ≤ '~'

theorem isPrintable_of_isSymbolChar {c : Char} (h : isSymbolChar c = true) :
    isPrintable c = true := by
  unfold isSymbolChar at h
  rw [Bool.or_eq_true] at h
  rcases h with h | h
  · unfold Char.isAlphanum Char.isAlpha Char.isUpper Char.isLower Char.isDigit at h
    simp only [Bool.or_eq_true, Bool.and_eq_true, decide_eq_true_eq,
      UInt32.le_iff_toNat_le] at h
    simp only [isPrintable, Bool.and_eq_true, decide_eq_true_eq, Char.le_def,
      UInt32.le_iff_toNat_le]
    change ((65 ≤ c.toNat ∧ c.toNat ≤ 90) ∨ 97 ≤ c.toNat ∧ c.toNat ≤ 122) ∨
      48 ≤ c.toNat ∧ c.toNat ≤ 57 at h
    change 32 ≤ c.toNat ∧ c.toNat ≤ 126
    omega
  · have hall : "~!@$%^&*_-+=<>.?/".toList.all isPrintable = true := by decide +kernel
    exact List.all_eq_true.1 hall c (List.contains_iff_mem.1 h)

theorem isSymbolChar_of_isPlainChar {c : Char} (h : isPlainChar c = true) :
    isSymbolChar c = true := by
  unfold isPlainChar at h
  unfold isSymbolChar
  rw [Bool.or_eq_true] at h ⊢
  refine h.imp_right fun h => ?_
  rw [beq_iff_eq.1 h]
  decide

theorem ne_of_isSymbolChar {c : Char} (h : isSymbolChar c = true) (d : Char)
    (hd : isSymbolChar d = false) : c ≠ d := by
  rintro rfl
  exact absurd h (by rw [hd]; decide)

theorem isBlank_of_isSymbolChar {c : Char} (h : isSymbolChar c = true) :
    Scan.isBlank c = false := by
  have hne := ne_of_isSymbolChar h
  simp [Scan.isBlank, hne ' ' rfl, hne '\t' rfl, hne '\n' rfl, hne '\r' rfl]

theorem Scan.take_of_isSymbolChar {c : Char} (h : isSymbolChar c = true) (r : Scan) :
    r.take c = some (if r.lexeme = .word then r else r.begin .word) := by
  have hne := ne_of_isSymbolChar h
  unfold Scan.take
  rw [isBlank_of_isSymbolChar h, if_neg Bool.false_ne_true, if_neg (hne '(' rfl),
    if_neg (hne ')' rfl), if_neg (hne '"' rfl), if_neg (hne '|' rfl), if_neg (hne ';' rfl)]
  split <;> rfl

/-- Once a word has begun, a symbol character only makes it longer. -/
theorem Scan.run_symbol {text : List Char} (h : ∀ c ∈ text, isSymbolChar c = true) {r : Scan}
    (hr : r.lexeme = .word) : r.run text = some r := by
  induction text with
  | nil => rfl
  | cons c rest ih =>
      obtain ⟨hc, hrest⟩ := List.forall_mem_cons.1 h
      have hstep : r.step c = some r := by
        simp only [Scan.step, hr]
        rw [Scan.take_of_isSymbolChar hc, if_pos hr]
      rw [Scan.run_cons, hstep, Option.bind_some, ih hrest]

theorem isSingle_of_isSymbol {text : String} (h : isSymbol text = true) :
    isSingle text = true := by
  simp only [isSymbol, Bool.and_eq_true, List.all_eq_true, Bool.not_eq_true'] at h
  obtain ⟨hne, hchars⟩ := h
  cases htext : text.toList with
  | nil =>
      rw [String.toList_eq_nil_iff.1 htext] at hne
      cases hne
  | cons c rest =>
      rw [htext] at hchars
      obtain ⟨hc, hrest⟩ := List.forall_mem_cons.1 hchars
      refine isSingle_iff.2 ⟨.word, ?_, rfl⟩
      have hstep : Scan.step {} c = some ⟨0, 1, .word⟩ := Scan.take_of_isSymbolChar hc {}
      rw [htext, Scan.run_cons, hstep, Option.bind_some, Scan.run_symbol hrest rfl]

/-- Symbol characters may stand in a list, and so may none at all. -/
theorem isNested_of_symbolChars {text : String} (h : ∀ c ∈ text.toList, isSymbolChar c = true) :
    IsNested text := by
  by_cases hne : text = ""
  · rw [hne]
    exact isNested_empty
  · refine isNested_of_isSingle (isSingle_of_isSymbol ?_)
    simp only [isSymbol, Bool.and_eq_true, List.all_eq_true, Bool.not_eq_true']
    exact ⟨by simpa using hne, h⟩

end ContractCheck
