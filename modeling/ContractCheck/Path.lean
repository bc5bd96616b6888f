/-!
Paths as texts, with the parts between their slashes. Joining and going to the parent work on the
text alone: nothing is looked up, and `..` is a part like any other. A parent is shorter than its
path (`length_parent?_lt`), so that every path has finitely many ancestors (`parents_eq_parents`).
-/

namespace ContractCheck

structure Path where
  text : String
deriving DecidableEq, Repr, Inhabited

namespace Path

/-- The parts between slashes; there is always at least one. -/
def splitSlashes : List Char → List (List Char)
  | [] => [[]]
  | c :: rest =>
    if c = '/' then [] :: splitSlashes rest
    else match splitSlashes rest with
      | part :: parts => (c :: part) :: parts
      | [] => [[c]]

def joinSlashes : List (List Char) → List Char
  | [] => []
  | [part] => part
  | part :: parts => part ++ '/' :: joinSlashes parts

def parts (p : Path) : List String := (splitSlashes p.text.toList).map String.ofList

def isAbsolute (p : Path) : Bool := p.text.toList.head? == some '/'

/-- A path relative to another one. An absolute text replaces it, and a slash is added only where
one is missing. -/
def join (base : Path) (text : String) : Path :=
  if (Path.mk text).isAbsolute then ⟨text⟩
  else match base.text.toList.getLast? with
    | none | some '/' => ⟨base.text ++ text⟩
    | some _ => ⟨base.text ++ "/" ++ text⟩

/-- What stands in front of the body of a path: the root, or a dot for the current directory. -/
def splitAnchor : List Char → List Char × List Char
  | '/' :: body => (['/'], body)
  | ['.'] => (['.'], [])
  | '.' :: '/' :: body => (['.'], '/' :: body)
  | body => ([], body)

/-- A part that names the directory it stands in. -/
def isHere (part : List Char) : Bool := part == [] || part == ['.']

def trimHere (parts : List (List Char)) : List (List Char) :=
  (parts.reverse.dropWhile isHere).reverse

/-- The path without its last part. The root and the empty path have no parent. -/
def parent? (p : Path) : Option Path :=
  let (anchor, body) := splitAnchor p.text.toList
  match trimHere (splitSlashes body) with
  | [] => if anchor = ['.'] then some ⟨""⟩ else none
  | parts => some ⟨String.ofList (anchor ++ joinSlashes (trimHere parts.dropLast))⟩

/-- At most `count` of the paths that one gets to by going to the parent again and again. -/
def parents : Nat → Path → List Path
  | 0, _ => []
  | count + 1, p => match p.parent? with
    | none => []
    | some parent => parent :: parents count parent

/-- The path itself and everything above it by its text, the nearest first. -/
def ancestors (p : Path) : List Path := p :: parents p.text.length p

theorem splitSlashes_ne_nil (cs : List Char) : splitSlashes cs ≠ [] := by
  cases cs with
  | nil => simp [splitSlashes]
  | cons c rest =>
    rw [splitSlashes]
    split
    · simp
    · split <;> simp

theorem joinSlashes_splitSlashes (cs : List Char) : joinSlashes (splitSlashes cs) = cs := by
  induction cs with
  | nil => rfl
  | cons c rest ih =>
    rw [splitSlashes]
    split
    · rename_i h
      obtain ⟨part, parts, hparts⟩ := List.exists_cons_of_ne_nil (splitSlashes_ne_nil rest)
      rw [hparts] at ih ⊢
      simp [joinSlashes, ih, h]
    · split
      · rename_i part parts hparts
        rw [hparts] at ih
        cases parts with
        | nil => simpa [joinSlashes] using ih
        | cons next parts => simpa [joinSlashes] using ih
      · rename_i hnil
        exact absurd hnil (splitSlashes_ne_nil rest)

theorem length_joinSlashes_mono {l l' : List (List Char)} (h : l <+: l') :
    (joinSlashes l).length ≤ (joinSlashes l').length := by
  obtain ⟨rest, rfl⟩ := h
  induction l with
  | nil => simp [joinSlashes]
  | cons part parts ih =>
    cases parts with
    | nil => cases rest <;> simp [joinSlashes]
    | cons next parts => simpa [joinSlashes] using ih

theorem trimHere_prefix_self (l : List (List Char)) : trimHere l <+: l := by
  simpa [trimHere] using List.reverse_prefix.2 (List.dropWhile_suffix (l := l.reverse) isHere)

theorem length_joinSlashes_lt_concat (l : List (List Char)) {part : List Char} (h : part ≠ []) :
    (joinSlashes l).length < (joinSlashes (l ++ [part])).length := by
  induction l with
  | nil => simpa [joinSlashes] using List.length_pos_iff.2 h
  | cons head rest ih =>
    cases rest with
    | nil =>
      simp only [joinSlashes, List.cons_append, List.nil_append, List.length_append,
        List.length_cons]
      omega
    | cons next rest =>
      simp only [joinSlashes, List.cons_append, List.length_append, List.length_cons] at ih ⊢
      omega

theorem getLast_trimHere_ne_nil {l : List (List Char)} (h : trimHere l ≠ []) :
    (trimHere l).getLast h ≠ [] := by
  intro hnil
  have hne : l.reverse.dropWhile isHere ≠ [] := by simpa [trimHere] using h
  have hnot := List.head_dropWhile_not isHere hne
  simp only [trimHere, List.getLast_reverse] at hnil
  rw [hnil] at hnot
  exact absurd hnot (by decide)

theorem length_splitAnchor (cs : List Char) :
    (splitAnchor cs).1.length + (splitAnchor cs).2.length = cs.length := by
  unfold splitAnchor
  split <;> simp <;> omega

theorem length_parent?_lt {p q : Path} (h : p.parent? = some q) :
    q.text.length < p.text.length := by
  have hlen := length_splitAnchor p.text.toList
  rw [parent?] at h
  rcases hs : splitAnchor p.text.toList with ⟨anchor, body⟩
  simp only [hs, String.length_toList] at h hlen
  by_cases hparts : trimHere (splitSlashes body) = []
  · simp only [hparts] at h
    by_cases hdot : anchor = ['.']
    · simp only [hdot, if_pos, Option.some.injEq] at h
      subst h
      simp only [hdot, List.length_singleton] at hlen
      simp only [String.length_empty]
      omega
    · simp [hdot] at h
  · have hq : q = ⟨String.ofList (anchor ++
        joinSlashes (trimHere (trimHere (splitSlashes body)).dropLast))⟩ := by
      split at h
      · contradiction
      · exact (Option.some.inj h).symm
    have hlt := length_joinSlashes_lt_concat (trimHere (splitSlashes body)).dropLast
      (getLast_trimHere_ne_nil hparts)
    rw [List.dropLast_concat_getLast hparts] at hlt
    have hle := length_joinSlashes_mono
      (trimHere_prefix_self (trimHere (splitSlashes body)).dropLast)
    have htrim := length_joinSlashes_mono (trimHere_prefix_self (splitSlashes body))
    rw [joinSlashes_splitSlashes] at htrim
    subst hq
    simp only [String.length_ofList, List.length_append]
    omega

/-- A count that is as large as the path is long leaves no parent out. -/
theorem parents_eq_parents {n m : Nat} {p : Path} (hn : p.text.length ≤ n)
    (hm : p.text.length ≤ m) : parents n p = parents m p := by
  induction n generalizing m p with
  | zero =>
    cases m with
    | zero => rfl
    | succ m =>
      rw [parents, parents]
      split
      · rfl
      · rename_i parent hparent
        exact absurd (length_parent?_lt hparent) (by omega)
  | succ n ih =>
    cases m with
    | zero =>
      rw [parents, parents]
      split
      · rfl
      · rename_i parent hparent
        exact absurd (length_parent?_lt hparent) (by omega)
    | succ m =>
      rw [parents, parents]
      split
      · rfl
      · rename_i parent hparent
        have hlt := length_parent?_lt hparent
        rw [ih (by omega) (by omega : parent.text.length ≤ m)]

end Path

end ContractCheck
