import ContractCheck.Path
import Mathlib.Data.List.Infix

/-!
The names that a path goes along (`Path.steps`). From parent to parent the last name is left out
(`Path.steps_parent?`), so that the ancestors of a path go along fewer and fewer of its names
(`Path.map_steps_ancestors`), whatever else its text has between them.
-/

namespace ContractCheck

namespace Path

theorem splitSlashes_slash (cs : List Char) : splitSlashes ('/' :: cs) = [] :: splitSlashes cs := by
  rw [splitSlashes, if_pos rfl]

theorem splitSlashes_append (before after : List Char) :
    splitSlashes (before ++ '/' :: after) = splitSlashes before ++ splitSlashes after := by
  induction before with
  | nil => exact splitSlashes_slash after
  | cons c before ih =>
      by_cases hc : c = '/'
      · subst hc
        rw [List.cons_append, splitSlashes_slash, splitSlashes_slash, ih]
        rfl
      · obtain ⟨part, parts, hparts⟩ := List.exists_cons_of_ne_nil (splitSlashes_ne_nil before)
        rw [List.cons_append, splitSlashes, splitSlashes, if_neg hc, if_neg hc, ih, hparts]
        rfl

theorem splitSlashes_of_not_mem {part : List Char} (h : '/' ∉ part) :
    splitSlashes part = [part] := by
  induction part with
  | nil => rfl
  | cons c part ih =>
      obtain ⟨hc, hpart⟩ := not_or.1 (mt List.mem_cons.2 h)
      rw [splitSlashes, if_neg (Ne.symm hc), ih hpart]

theorem not_mem_of_mem_splitSlashes {cs part : List Char} (h : part ∈ splitSlashes cs) :
    '/' ∉ part := by
  induction cs generalizing part with
  | nil =>
      rw [List.mem_singleton.1 h]
      exact List.not_mem_nil
  | cons c cs ih =>
      by_cases hc : c = '/'
      · subst hc
        rw [splitSlashes_slash] at h
        rcases List.mem_cons.1 h with rfl | h
        · exact List.not_mem_nil
        · exact ih h
      · obtain ⟨first, parts, hparts⟩ := List.exists_cons_of_ne_nil (splitSlashes_ne_nil cs)
        rw [splitSlashes, if_neg hc, hparts] at h
        rw [hparts] at ih
        rcases List.mem_cons.1 h with rfl | h
        · exact List.not_mem_cons_of_ne_of_not_mem (Ne.symm hc) (ih List.mem_cons_self)
        · exact ih (List.mem_cons_of_mem _ h)

/-- Parts are found again in the text that they are joined to. -/
theorem splitSlashes_joinSlashes {parts : List (List Char)} (hne : parts ≠ [])
    (h : ∀ part ∈ parts, '/' ∉ part) : splitSlashes (joinSlashes parts) = parts := by
  induction parts with
  | nil => exact absurd rfl hne
  | cons part rest ih =>
      obtain ⟨hpart, hrest⟩ := List.forall_mem_cons.1 h
      cases rest with
      | nil => exact splitSlashes_of_not_mem hpart
      | cons next rest =>
          rw [joinSlashes, splitSlashes_append, splitSlashes_of_not_mem hpart,
            ih (List.cons_ne_nil _ _) hrest]
          · rfl
          · exact List.cons_ne_nil _ _

theorem joinSlashes_prefix_joinSlashes {l l' : List (List Char)} (h : l <+: l') :
    joinSlashes l <+: joinSlashes l' := by
  obtain ⟨rest, rfl⟩ := h
  induction l with
  | nil => exact List.nil_prefix
  | cons part parts ih =>
      cases parts with
      | nil => cases rest with
        | nil => exact List.prefix_rfl
        | cons next rest => exact List.prefix_append _ _
      | cons next parts =>
          exact (List.prefix_append_right_inj part).2 ((List.prefix_cons_inj '/').2 ih)

/-- The names among the parts, the last one first. Parts that name where they stand are none. -/
def stepsOf (parts : List (List Char)) : List String :=
  ((parts.filter (!isHere ·)).map String.ofList).reverse

/-- The names that a path goes along, the last one first. -/
def steps (p : Path) : List String := stepsOf (splitSlashes p.text.toList)

/-- A part is a name: it leads somewhere else. -/
def isName (part : String) : Bool := part != "" && part != "."

theorem filter_isName (parts : List (List Char)) :
    (parts.map String.ofList).filter isName = (stepsOf parts).reverse := by
  have hofList : ∀ part other : List Char,
      (String.ofList part == String.ofList other) = (part == other) := fun part other => by
    rw [Bool.eq_iff_iff, beq_iff_eq, beq_iff_eq, String.ofList_inj]
  have hname : ∀ part : List Char, isName (String.ofList part) = !isHere part := by
    intro part
    rw [isName, isHere, Bool.not_or, ← hofList, ← hofList]
    rfl
  rw [stepsOf, List.reverse_reverse, List.filter_map]
  exact congrArg _ (List.filter_congr fun part _ => hname part)

theorem isName_of_mem_steps {p : Path} : ∀ name ∈ p.steps, isName name = true := by
  intro name hname
  have hfilter := filter_isName (splitSlashes p.text.toList)
  rw [steps, ← List.mem_reverse, ← hfilter] at hname
  exact (List.mem_filter.1 hname).2

theorem stepsOf_append (before after : List (List Char)) :
    stepsOf (before ++ after) = stepsOf after ++ stepsOf before := by
  rw [stepsOf, List.filter_append, List.map_append, List.reverse_append]
  rfl

theorem stepsOf_nil_cons (parts : List (List Char)) : stepsOf ([] :: parts) = stepsOf parts := rfl

theorem stepsOf_of_isHere {parts : List (List Char)} (h : ∀ part ∈ parts, isHere part = true) :
    stepsOf parts = [] := by
  have hnone : parts.filter (!isHere ·) = [] :=
    List.filter_eq_nil_iff.2 fun part hpart => by simp [h part hpart]
  rw [stepsOf, hnone]
  rfl

theorem stepsOf_trimHere (parts : List (List Char)) : stepsOf (trimHere parts) = stepsOf parts := by
  have hsplit : parts = trimHere parts ++ (parts.reverse.takeWhile isHere).reverse := by
    rw [trimHere, ← List.reverse_append, List.takeWhile_append_dropWhile, List.reverse_reverse]
  have hhere : stepsOf (parts.reverse.takeWhile isHere).reverse = [] :=
    stepsOf_of_isHere fun part hpart =>
      List.all_eq_true.1 List.all_takeWhile part (List.mem_reverse.1 hpart)
  calc stepsOf (trimHere parts)
      = stepsOf (trimHere parts ++ (parts.reverse.takeWhile isHere).reverse) := by
        rw [stepsOf_append, hhere, List.nil_append]
    _ = stepsOf parts := by rw [← hsplit]

/-- Without its last part, which is a name, a trimmed path goes along one name less. -/
theorem stepsOf_dropLast {parts : List (List Char)} (h : trimHere parts ≠ []) :
    stepsOf (trimHere parts).dropLast = (stepsOf parts).tail := by
  have hname : isHere ((trimHere parts).getLast h) = false := by
    have hne : parts.reverse.dropWhile isHere ≠ [] := by simpa [trimHere] using h
    simpa [trimHere, List.getLast_reverse] using List.head_dropWhile_not isHere hne
  have hlast : stepsOf [(trimHere parts).getLast h] =
      [String.ofList ((trimHere parts).getLast h)] := by
    rw [stepsOf, List.filter_cons_of_pos (by rw [hname]; rfl)]
    rfl
  rw [← stepsOf_trimHere parts]
  conv_rhs => rw [← List.dropLast_concat_getLast h, stepsOf_append, hlast]
  rfl

theorem splitAnchor_append (cs : List Char) : (splitAnchor cs).1 ++ (splitAnchor cs).2 = cs := by
  unfold splitAnchor
  split <;> rfl

/-- What an anchor can be: nothing, the root, or a dot that ends the path or a part of it. -/
def Anchors (anchor body : List Char) : Prop :=
  anchor = [] ∨ anchor = ['/'] ∨ anchor = ['.'] ∧ (body = [] ∨ body.head? = some '/')

theorem anchors_splitAnchor (cs : List Char) : Anchors (splitAnchor cs).1 (splitAnchor cs).2 := by
  unfold splitAnchor
  split
  · exact .inr (.inl rfl)
  · exact .inr (.inr ⟨rfl, .inl rfl⟩)
  · exact .inr (.inr ⟨rfl, .inr rfl⟩)
  · exact .inl rfl

/-- The anchor is no name. -/
theorem stepsOf_anchor {anchor body : List Char} (h : Anchors anchor body) :
    stepsOf (splitSlashes (anchor ++ body)) = stepsOf (splitSlashes body) := by
  rcases h with rfl | rfl | ⟨rfl, rfl | hbody⟩
  · rfl
  · rw [List.singleton_append, splitSlashes_slash, stepsOf_nil_cons]
  · rfl
  · obtain ⟨rest, rfl⟩ := List.head?_eq_some_iff.1 hbody
    rw [splitSlashes_append, splitSlashes_slash]
    rfl

/-- The parts that a parent keeps. -/
def parentParts (body : List Char) : List (List Char) :=
  trimHere (trimHere (splitSlashes body)).dropLast

theorem parentParts_prefix_splitSlashes (body : List Char) :
    parentParts body <+: splitSlashes body := by
  have hdropped := List.dropLast_prefix (trimHere (splitSlashes body))
  exact (trimHere_prefix_self _).trans (hdropped.trans (trimHere_prefix_self _))

theorem parent?_eq (p : Path) : p.parent? =
    if trimHere (splitSlashes (splitAnchor p.text.toList).2) = [] then
      if (splitAnchor p.text.toList).1 = ['.'] then some ⟨""⟩ else none
    else some ⟨String.ofList ((splitAnchor p.text.toList).1 ++
      joinSlashes (parentParts (splitAnchor p.text.toList).2))⟩ := by
  unfold parent? parentParts
  rcases splitAnchor p.text.toList with ⟨anchor, body⟩
  simp only
  split
  · rename_i hnil
    rw [if_pos hnil]
  · rename_i hne
    rw [if_neg hne]

theorem anchors_parent (cs : List Char) :
    Anchors (splitAnchor cs).1 (joinSlashes (parentParts (splitAnchor cs).2)) := by
  rcases anchors_splitAnchor cs with h | h | ⟨h, hbody⟩
  · exact .inl h
  · exact .inr (.inl h)
  · refine .inr (.inr ⟨h, ?_⟩)
    have hstarts := joinSlashes_prefix_joinSlashes
      (parentParts_prefix_splitSlashes (splitAnchor cs).2)
    rw [joinSlashes_splitSlashes] at hstarts
    rcases hjoin : joinSlashes (parentParts (splitAnchor cs).2) with _ | ⟨c, rest⟩
    · exact .inl rfl
    · rw [hjoin] at hstarts
      rcases hbody with hbody | hbody
      · rw [hbody] at hstarts
        cases List.prefix_nil.1 hstarts
      · obtain ⟨more, hmore⟩ := hstarts
        rw [← hmore] at hbody
        exact .inr hbody

/-- From a path to its parent, the last name is left out. -/
theorem steps_parent? {p q : Path} (h : p.parent? = some q) : q.steps = p.steps.tail := by
  have hsteps : p.steps = stepsOf (splitSlashes (splitAnchor p.text.toList).2) := by
    rw [← stepsOf_anchor (anchors_splitAnchor p.text.toList), splitAnchor_append]
    rfl
  rw [parent?_eq] at h
  split at h
  · rename_i hnil
    split at h
    · cases h
      rw [hsteps, ← stepsOf_trimHere, hnil]
      rfl
    · cases h
  · rename_i hne
    cases h
    have hslash : ∀ part ∈ parentParts (splitAnchor p.text.toList).2, '/' ∉ part :=
      fun part hpart => not_mem_of_mem_splitSlashes
        ((parentParts_prefix_splitSlashes _).subset hpart)
    have hjoined : stepsOf (splitSlashes
        (joinSlashes (parentParts (splitAnchor p.text.toList).2))) =
        stepsOf (parentParts (splitAnchor p.text.toList).2) := by
      by_cases hparts : parentParts (splitAnchor p.text.toList).2 = []
      · rw [hparts]
        rfl
      · rw [splitSlashes_joinSlashes hparts hslash]
    rw [steps, String.toList_ofList, stepsOf_anchor (anchors_parent _), hjoined, hsteps,
      parentParts, stepsOf_trimHere, stepsOf_dropLast hne]

theorem steps_of_parent?_eq_none {p : Path} (h : p.parent? = none) : p.steps = [] := by
  rw [parent?_eq] at h
  split at h
  · rename_i hnil
    rw [steps, ← splitAnchor_append p.text.toList, stepsOf_anchor (anchors_splitAnchor _),
      ← stepsOf_trimHere, hnil]
    rfl
  · cases h

theorem parent?_prefix_self {p q : Path} (h : p.parent? = some q) :
    q.text.toList <+: p.text.toList := by
  rw [parent?_eq] at h
  split at h
  · split at h
    · cases h
      exact List.nil_prefix
    · cases h
  · cases h
    have hstarts := joinSlashes_prefix_joinSlashes
      (parentParts_prefix_splitSlashes (splitAnchor p.text.toList).2)
    rw [joinSlashes_splitSlashes] at hstarts
    conv_rhs => rw [← splitAnchor_append p.text.toList]
    rw [String.toList_ofList]
    exact (List.prefix_append_right_inj _).2 hstarts

theorem isAbsolute_iff {p : Path} : p.isAbsolute = true ↔ ∃ rest, p.text.toList = '/' :: rest := by
  rw [isAbsolute, beq_iff_eq, List.head?_eq_some_iff]

/-- The parent of an absolute path is absolute, and that of a relative path relative. -/
theorem isAbsolute_parent? {p q : Path} (h : p.parent? = some q) :
    q.isAbsolute = p.isAbsolute := by
  refine Bool.eq_iff_iff.2 ⟨fun hq => ?_, fun hp => ?_⟩
  · obtain ⟨rest, hrest⟩ := isAbsolute_iff.1 hq
    obtain ⟨more, hmore⟩ := parent?_prefix_self h
    exact isAbsolute_iff.2 ⟨rest ++ more, by rw [← hmore, hrest]; rfl⟩
  · obtain ⟨rest, hrest⟩ := isAbsolute_iff.1 hp
    rw [parent?_eq, hrest] at h
    change (if _ then (if ['/'] = ['.'] then _ else none) else _) = some q at h
    split at h
    · cases h
    · cases h
      exact isAbsolute_iff.2 ⟨_, String.toList_ofList⟩

theorem ancestors_eq (p : Path) : p.ancestors = p :: match p.parent? with
    | none => []
    | some q => q.ancestors := by
  rw [ancestors]
  congr 1
  cases hlength : p.text.length with
  | zero =>
      cases hparent : p.parent? with
      | none => rfl
      | some q => exact absurd (length_parent?_lt hparent) (by omega)
  | succ n =>
      rw [parents]
      cases hparent : p.parent? with
      | none => rfl
      | some q =>
          have hlt := length_parent?_lt hparent
          simp only
          rw [ancestors, parents_eq_parents (by omega : q.text.length ≤ n) (Nat.le_refl _)]

/-- A property that goes from path to parent is one of all ancestors. -/
theorem forall_mem_ancestors {P : Path → Prop} (hstep : ∀ p q, P p → p.parent? = some q → P q)
    {p : Path} (hp : P p) : ∀ q ∈ p.ancestors, P q := by
  induction hlength : p.text.length using Nat.strongRecOn generalizing p with
  | ind n ih =>
      intro q hq
      rw [ancestors_eq] at hq
      rcases List.mem_cons.1 hq with rfl | hq
      · exact hp
      · cases hparent : p.parent? with
        | none =>
            rw [hparent] at hq
            cases hq
        | some parent =>
            rw [hparent] at hq
            have hlt := length_parent?_lt hparent
            exact ih _ (by omega) (hstep p parent hp hparent) rfl q hq

/-- The ancestors go along fewer and fewer of the names. Where no name is left, the search may
come by a second time. -/
theorem map_steps_ancestors (p : Path) :
    ∃ again, (∀ steps ∈ again, steps = []) ∧ p.ancestors.map steps = p.steps.tails ++ again := by
  induction hlength : p.text.length using Nat.strongRecOn generalizing p with
  | ind n ih =>
      rw [ancestors_eq]
      cases hparent : p.parent? with
      | none =>
          refine ⟨[], List.forall_mem_nil _, ?_⟩
          rw [List.map_cons, steps_of_parent?_eq_none hparent]
          rfl
      | some q =>
          have hlt := length_parent?_lt hparent
          obtain ⟨again, hagain, hmap⟩ := ih _ (by omega) q rfl
          rw [steps_parent? hparent] at hmap
          cases hsteps : p.steps with
          | nil =>
              refine ⟨[] :: again, List.forall_mem_cons.2 ⟨rfl, hagain⟩, ?_⟩
              rw [hsteps] at hmap
              rw [List.map_cons, hsteps, hmap]
              rfl
          | cons name before =>
              refine ⟨again, hagain, ?_⟩
              rw [hsteps] at hmap
              rw [List.map_cons, hsteps, hmap]
              rfl

theorem isAbsolute_eq_false {name : String} (h : '/' ∉ name.toList) :
    (Path.mk name).isAbsolute = false := by
  refine Bool.eq_false_iff.2 fun habsolute => ?_
  obtain ⟨rest, hrest⟩ := isAbsolute_iff.1 habsolute
  rw [show (Path.mk name).text = name from rfl] at hrest
  rw [hrest] at h
  exact h List.mem_cons_self

/-- A name is joined with a slash or, where that would make a difference, without. -/
theorem text_join (p : Path) {name : String} (h : '/' ∉ name.toList) :
    (∃ cs, p.text.toList = cs ++ ['/'] ∧ (p.join name).text = p.text ++ name) ∨
    p.text = "" ∧ (p.join name).text = p.text ++ name ∨
    p.text ≠ "" ∧ (p.join name).text = p.text ++ "/" ++ name := by
  unfold join
  rw [isAbsolute_eq_false h, if_neg Bool.false_ne_true]
  rcases hlast : p.text.toList.getLast? with _ | c
  · refine .inr (.inl ⟨?_, rfl⟩)
    exact String.toList_inj.1 (List.getLast?_eq_none_iff.1 hlast)
  · obtain ⟨cs, hcs⟩ := List.getLast?_eq_some_iff.1 hlast
    by_cases hc : c = '/'
    · subst hc
      exact .inl ⟨cs, hcs, rfl⟩
    · refine .inr (.inr ⟨?_, ?_⟩)
      · intro hempty
        rw [hempty] at hcs
        cases cs <;> cases hcs
      · split
        · rename_i hnone
          cases hnone
        · rename_i hslash
          cases hslash
          exact absurd rfl hc
        · rfl

/-- The parts of a path that a name was joined to, up to those that name where they stand. -/
theorem parts_join (p : Path) {name : String} (h : '/' ∉ name.toList) :
    ∃ before, (p.join name).parts = before ++ [name] ∧
      before.filter isName = p.steps.reverse := by
  have hparts : ∀ cs : List Char, (p.join name).text.toList = cs ++ '/' :: name.toList →
      (p.join name).parts = (splitSlashes cs).map String.ofList ++ [name] := by
    intro cs htext
    rw [parts, htext, splitSlashes_append, splitSlashes_of_not_mem h, List.map_append,
      List.map_singleton, String.ofList_toList]
  rcases text_join p h with ⟨cs, hcs, htext⟩ | ⟨hempty, htext⟩ | ⟨-, htext⟩
  · refine ⟨_, hparts cs ?_, ?_⟩
    · rw [htext, String.toList_append, hcs, List.append_assoc]
      rfl
    · rw [filter_isName, steps, hcs, splitSlashes_append, stepsOf_append]
      rfl
  · refine ⟨[], ?_, ?_⟩
    · rw [parts, htext, hempty, String.empty_append, splitSlashes_of_not_mem h,
        List.map_singleton, String.ofList_toList, List.nil_append]
    · rw [steps, hempty]
      rfl
  · refine ⟨_, hparts p.text.toList ?_, filter_isName _⟩
    rw [htext, String.toList_append, String.toList_append, List.append_assoc]
    rfl

theorem isAbsolute_join (p : Path) {name : String} (h : '/' ∉ name.toList) :
    (p.join name).isAbsolute = p.isAbsolute := by
  have hhead : ∀ more : String, p.text ≠ "" → (p.join name).text = p.text ++ more →
      (p.join name).isAbsolute = p.isAbsolute := by
    intro more hne htext
    have hlist : p.text.toList ≠ [] := fun hnil => hne (String.toList_inj.1 hnil)
    rw [isAbsolute, isAbsolute, htext, String.toList_append, List.head?_append_of_ne_nil _ hlist]
  rcases text_join p h with ⟨cs, hcs, htext⟩ | ⟨hempty, htext⟩ | ⟨hne, htext⟩
  · refine hhead name (fun hempty => ?_) htext
    rw [hempty] at hcs
    cases cs <;> cases hcs
  · have hname := isAbsolute_eq_false h
    rw [isAbsolute, htext, hempty, String.empty_append]
    rw [isAbsolute] at hname
    rw [hname, isAbsolute, hempty]
    rfl
  · exact hhead ("/" ++ name) hne (htext.trans (String.append_assoc ..))

/-- Ancestors have candidates that are no longer. -/
theorem utf8ByteSize_join_le {p q : Path} {name : String} (h : '/' ∉ name.toList)
    (hstarts : q.text.toList <+: p.text.toList) :
    (q.join name).text.utf8ByteSize ≤ (p.join name).text.utf8ByteSize := by
  obtain ⟨more, hmore⟩ := hstarts
  have htext : p.text = q.text ++ String.ofList more := by
    rw [← String.toList_inj, String.toList_append, String.toList_ofList, hmore]
  by_cases hnil : more = []
  · have heq : p.text = q.text := by rw [htext, hnil, String.ofList_nil, String.append_empty]
    rw [show q = p from congrArg Path.mk heq.symm]
  have hpos : 0 < (String.ofList more).utf8ByteSize := by
    refine Nat.pos_of_ne_zero fun hzero => hnil ?_
    rw [← String.toList_ofList (l := more), String.utf8ByteSize_eq_zero_iff.1 hzero]
    rfl
  have hq : (q.join name).text.utf8ByteSize ≤ q.text.utf8ByteSize + 1 + name.utf8ByteSize := by
    rcases text_join q h with ⟨_, _, hjoin⟩ | ⟨_, hjoin⟩ | ⟨_, hjoin⟩
    · rw [hjoin, String.utf8ByteSize_append]
      omega
    · rw [hjoin, String.utf8ByteSize_append]
      omega
    · rw [hjoin, String.utf8ByteSize_append, String.utf8ByteSize_append]
      exact Nat.le_refl _
  have hp : p.text.utf8ByteSize + name.utf8ByteSize ≤ (p.join name).text.utf8ByteSize := by
    rcases text_join p h with ⟨_, _, hjoin⟩ | ⟨_, hjoin⟩ | ⟨_, hjoin⟩
    · rw [hjoin, String.utf8ByteSize_append]
    · rw [hjoin, String.utf8ByteSize_append]
    · rw [hjoin, String.utf8ByteSize_append, String.utf8ByteSize_append]
      omega
  rw [htext, String.utf8ByteSize_append] at hp
  omega

end Path

end ContractCheck
