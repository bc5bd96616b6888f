import ContractCheck.Proofs.SmtScript
import ContractCheck.Run

/-!
Names and sorts that can be written down in a line and read back. Plain identifiers are symbols of
a run's own, and so are the names of fresh variables (`isPlainName_next`); the sort of a type that
has a name is written as a word that names this sort and no other (`SolverSort.isWritable_of_of?`).
-/

namespace ContractCheck

open Smt

def isPlainChar (c : Char) : Bool := c.isAlphanum || c == '_'

/-- An identifier of ASCII letters, digits and `_` that is no symbol of the solver's theories. -/
def isPlainName (name : String) : Bool :=
  match name.toList with
  | [] => false
  | c :: cs => !c.isDigit && (c :: cs).all isPlainChar && !theorySymbols.contains name

theorem ne_of_isPlainChar {c : Char} (h : isPlainChar c = true) : c ≠ ' ' ∧ c ≠ '(' ∧ c ≠ ')' := by
  refine ⟨?_, ?_, ?_⟩ <;>
    · rintro rfl
      exact absurd h (by decide)

theorem isWord_of_plain {text : String} (hne : text.toList ≠ [])
    (h : ∀ c ∈ text.toList, isPlainChar c = true) : SExpr.IsWord text :=
  ⟨hne, fun c hc => ne_of_isPlainChar (h c hc)⟩

theorem isWord_of_isPlainName {name : String} (h : isPlainName name = true) :
    SExpr.IsWord name := by
  unfold isPlainName at h
  cases hname : name.toList with
  | nil =>
      rw [hname] at h
      cases h
  | cons c cs =>
      simp only [hname, Bool.and_eq_true, List.all_eq_true] at h
      refine isWord_of_plain ?_ fun d hd => ?_
      · rw [hname]
        exact List.cons_ne_nil c cs
      · rw [hname] at hd
        exact h.1.2 d hd

theorem isOwn_of_isPlainName {name : String} (h : isPlainName name = true) : IsOwn name := by
  unfold isPlainName at h
  cases hname : name.toList with
  | nil =>
      rw [hname] at h
      cases h
  | cons c cs =>
      simp only [hname, Bool.and_eq_true, Bool.not_eq_true'] at h
      obtain ⟨⟨hdigit, -⟩, htheory⟩ := h
      refine ⟨by simpa using htheory, ?_⟩
      have hall : ¬ (name.toList ≠ [] ∧ name.toList.all Char.isDigit) := by
        rintro ⟨-, hall⟩
        rw [hname, List.all_cons, hdigit] at hall
        cases hall
      rw [numeral?, if_neg hall]

def isSortChar (c : Char) : Bool := c.isLower || c.isDigit || c == '_'

theorem isPlainChar_of_isSortChar {c : Char} (h : isSortChar c = true) : isPlainChar c = true := by
  unfold isSortChar at h
  change (c.isUpper || c.isLower || c.isDigit || c == '_') = true
  simp only [Bool.or_eq_true] at h ⊢
  exact h.imp_left fun h => h.imp_left .inr

theorem isSortChar_toLower {c : Char} (h : c.isAlphanum = true) : isSortChar c.toLower = true := by
  unfold isSortChar
  by_cases hupper : 'A'.val ≤ c.val ∧ c.val ≤ 'Z'.val
  · have hval : c.toLower.val = c.val + ('a'.val - 'A'.val) := by
      delta Char.toLower
      rw [dif_pos hupper]
    have hlower : c.toLower.isLower = true := by
      change (decide ('a'.val ≤ c.toLower.val) && decide (c.toLower.val ≤ 'z'.val)) = true
      simp only [hval, UInt32.le_iff_toNat_le, Bool.and_eq_true, decide_eq_true_eq,
        UInt32.toNat_add] at hupper ⊢
      have hA : 'A'.val.toNat = 65 := rfl
      have hZ : 'Z'.val.toNat = 90 := rfl
      have ha : 'a'.val.toNat = 97 := rfl
      have hz : 'z'.val.toNat = 122 := rfl
      have hgap : ('a'.val - 'A'.val).toNat = 32 := rfl
      omega
    rw [hlower]
    rfl
  · have hsame : c.toLower = c := by
      delta Char.toLower
      rw [dif_neg hupper]
    have hletter : c.isUpper = false := decide_eq_false hupper
    change (c.isUpper || c.isLower || c.isDigit) = true at h
    rw [hletter, Bool.false_or] at h
    rw [hsame, h, Bool.true_or]

theorem isSortChar_sortIdentifier {name : String} {c : Char}
    (h : c ∈ (sortIdentifier name).toList) : isSortChar c = true := by
  unfold sortIdentifier at h
  rw [String.toList_ofList] at h
  obtain ⟨d, -, rfl⟩ := List.mem_map.1 h
  split
  · rename_i hd
    exact isSortChar_toLower hd
  · rfl

theorem isDigit_of_mem_toString {n : Nat} {c : Char} (h : c ∈ (toString n).toList) :
    c.isDigit = true := by
  rw [Nat.toString_eq_repr, Nat.toList_repr] at h
  exact Nat.isDigit_of_mem_toDigits (by decide) (by decide) h

mutual

theorem isSortChar_sortName : ∀ {t : Ty} {c : Char}, c ∈ t.sortName.toList → isSortChar c = true
  | .con name, c, h => by
      rw [Ty.sortName] at h
      exact isSortChar_sortIdentifier h
  | .app name args, c, h => by
      rw [Ty.sortName, String.toList_append] at h
      rcases List.mem_append.1 h with h | h
      · exact isSortChar_sortIdentifier h
      · exact isSortChar_sortSuffix h
  | .arrow params ret, c, h => by
      rw [Ty.sortName] at h
      have hall : "fun".toList.all isSortChar = true := by decide
      exact List.all_eq_true.1 hall c h
  | .var id, c, h => by
      rw [Ty.sortName, String.toList_append] at h
      rcases List.mem_append.1 h with h | h
      · have hall : "t".toList.all isSortChar = true := by decide
        exact List.all_eq_true.1 hall c h
      · simp [isSortChar, isDigit_of_mem_toString h]

theorem isSortChar_sortSuffix : ∀ {ts : List Ty} {c : Char}, c ∈ (Ty.sortSuffix ts).toList →
    isSortChar c = true
  | [], c, h => by
      rw [Ty.sortSuffix] at h
      exact nomatch h
  | t :: ts, c, h => by
      rw [Ty.sortSuffix, String.toList_append, String.toList_append] at h
      rcases List.mem_append.1 h with h | h
      · rcases List.mem_append.1 h with h | h
        · have hall : "_".toList.all isSortChar = true := by decide
          exact List.all_eq_true.1 hall c h
        · exact isSortChar_sortName h
      · exact isSortChar_sortSuffix h

end

/-- The sort's name is a word, and one that names this sort. -/
structure SolverSort.IsWritable (sort : SolverSort) : Prop where
  word : SExpr.IsWord sort.display
  sortOf : sortOf sort.display = sort

theorem SolverSort.of?_eq_named {ty : Ty} {name : String}
    (h : SolverSort.of? ty = some (.named name)) : name = ty.sortName ∧ name ∈ ty.sortsUsed := by
  have hof := h
  unfold SolverSort.of? at hof
  split at hof
  · cases hof
  · split at hof
    · cases hof
    · cases ty with
      | con text =>
          cases hof
          simp [Ty.sortsUsed, Ty.ownSort, h, SolverSort.named?]
      | app text args =>
          cases hof
          simp [Ty.sortsUsed, Ty.ownSort, h, SolverSort.named?]
      | arrow params ret => cases hof
      | var id => cases hof

/-- A sort of a type can be written down unless the type has no name. -/
theorem SolverSort.isWritable_of_of? {ty : Ty} {sort : SolverSort}
    (h : SolverSort.of? ty = some sort) (hne : sort ≠ .named "") : sort.IsWritable := by
  cases sort with
  | int => exact ⟨by decide, rfl⟩
  | bool => exact ⟨by decide, rfl⟩
  | named name =>
      obtain ⟨hname, -⟩ := SolverSort.of?_eq_named h
      have hchars : ∀ c ∈ name.toList, isSortChar c = true := by
        rw [hname]
        exact fun c hc => isSortChar_sortName hc
      have hnil : name.toList ≠ [] := by
        intro hnil
        refine hne ?_
        rw [String.toList_eq_nil_iff.1 hnil]
      have hupper : ∀ text : String, (∃ c ∈ text.toList, isSortChar c = false) → name ≠ text := by
        rintro _ ⟨c, hc, hfalse⟩ rfl
        rw [hchars c hc] at hfalse
        cases hfalse
      refine ⟨isWord_of_plain hnil fun c hc => isPlainChar_of_isSortChar (hchars c hc), ?_⟩
      rw [SolverSort.display, Smt.sortOf, if_neg (hupper "Int" ⟨'I', by decide, rfl⟩),
        if_neg (hupper "Bool" ⟨'B', by decide, rfl⟩)]

theorem SolverSort.isPlainChar_tag (sort : SolverSort) : isPlainChar sort.tag = true := by
  cases sort with
  | int => rfl
  | bool => rfl
  | named name =>
      cases hname : name.toList with
      | nil =>
          rw [SolverSort.tag, hname]
          rfl
      | cons c cs =>
          rw [SolverSort.tag, hname]
          by_cases halpha : c.isAlpha = true
          · simp only [if_pos halpha]
            refine isPlainChar_of_isSortChar (isSortChar_toLower ?_)
            rw [Char.isAlphanum, halpha, Bool.true_or]
          · simp only [if_neg halpha]
            rfl

/-- Fresh variables have plain names. -/
theorem isPlainName_next (names : FreshNames) (sort : SolverSort) :
    isPlainName (names.next sort.tag).1 = true := by
  have hname : (names.next sort.tag).1.toList =
      '_' :: sort.tag :: (toString (names.issued.count sort.tag)).toList := by
    simp [FreshNames.next, FreshNames.nameOf]
  have hchars : ('_' :: sort.tag :: (toString (names.issued.count sort.tag)).toList).all
      isPlainChar = true := by
    refine List.all_eq_true.2 fun c hc => ?_
    simp only [List.mem_cons] at hc
    rcases hc with rfl | rfl | hc
    · rfl
    · exact sort.isPlainChar_tag
    · simp [isPlainChar, Char.isAlphanum, isDigit_of_mem_toString hc]
  have htheory : (names.next sort.tag).1 ∉ theorySymbols := by
    intro hmem
    have hall : ∀ symbol ∈ theorySymbols, symbol.toList.head? ≠ some '_' := by decide
    refine hall _ hmem ?_
    rw [hname]
    rfl
  unfold isPlainName
  rw [hname]
  simp only [hchars, Bool.and_true, Bool.and_eq_true, Bool.not_eq_true']
  exact ⟨rfl, by simpa using htheory⟩

end ContractCheck
