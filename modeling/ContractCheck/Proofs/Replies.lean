import ContractCheck.Proofs.Favourable
import ContractCheck.Solver.Scripted
import Mathlib.Data.List.Basic
import Mathlib.Data.List.TakeWhile

/-!
What the scripted solver does with the line of each command, and what it says to it. A check is
answered from the script, the marker is repeated, a name that an open scope holds is refused, and
nothing else is said.
-/

namespace ContractCheck

/-- The name that a declaration declares. -/
def Command.declared? : Command → Option String
  | .declareSort name | .declareFun name _ _ | .declareConst name _ => some name
  | _ => none

namespace Scripted

/-- A name as the solver takes it from a line, up to the first space. -/
def firstWord (name : String) : String := String.ofList (name.toList.takeWhile (· != ' '))

/-- A name without a space is taken whole. -/
theorem firstWord_eq_self {name : String} (h : ∀ c ∈ name.toList, c ≠ ' ') :
    firstWord name = name := by
  rw [firstWord, List.takeWhile_eq_self_iff.2 fun c hc => bne_iff_ne.2 (h c hc),
    String.ofList_toList]

theorem toList_line_declare {c : Command} {name : String} (h : c.declared? = some name) :
    ∃ d ∈ declarators, ∃ rest, c.line.toList = d.toList ++ (name.toList ++ ' ' :: rest) := by
  cases c with
  | declareSort sort =>
      cases h
      refine ⟨"(declare-sort ", by simp [declarators], ['0', ')'], ?_⟩
      simp [Command.line, Command.toSExpr, SExpr.apply, SExpr.render, SExpr.renderItems]
  | declareFun function domain range =>
      cases h
      refine ⟨"(declare-fun ", by simp [declarators],
        '(' :: ((SExpr.renderItems (domain.map .atom)).toList ++ (')' :: ' ' ::
          (range.toList ++ [')']))), ?_⟩
      simp [Command.line, Command.toSExpr, SExpr.apply, SExpr.render, SExpr.renderItems]
  | declareConst constant sort =>
      cases h
      refine ⟨"(declare-const ", by simp [declarators], sort.toList ++ [')'], ?_⟩
      simp [Command.line, Command.toSExpr, SExpr.apply, SExpr.render, SExpr.renderItems]
  | _ => cases h

theorem toList_line_assert (t : Term) :
    (Command.assert t).line.toList = "(assert ".toList ++ (t.render.toList ++ [')']) := by
  simp [Command.line, Command.toSExpr, SExpr.apply, SExpr.render, SExpr.renderItems]

theorem opening_of_declared? {c : Command} {name : String} (h : c.declared? = some name) :
    ∃ rest, c.line.toList = '(' :: 'd' :: rest := by
  obtain ⟨d, hd, rest, hline⟩ := toList_line_declare h
  rw [hline]
  simp only [declarators, List.mem_cons, List.not_mem_nil, or_false] at hd
  rcases hd with rfl | rfl | rfl <;> exact ⟨_, rfl⟩

theorem ne_checkSat_of_toList {line : String} {c : Char} {rest : List Char}
    (h : line.toList = '(' :: c :: rest) (hc : c ≠ 'c') : line ≠ Command.checkSat.line := by
  rintro rfl
  simp [Command.line_checkSat] at h
  exact hc h.1.symm

theorem line_ne_checkSat_of_isMute {c : Command} (h : c.IsMute) :
    c.line ≠ Command.checkSat.line := by
  have hdeclare : ∀ {c : Command} {name}, c.declared? = some name →
      c.line ≠ Command.checkSat.line := by
    intro c name hname
    obtain ⟨rest, hline⟩ := opening_of_declared? hname
    exact ne_checkSat_of_toList hline (by decide)
  cases c with
  | scopedDeclarations => decide +kernel
  | push => decide +kernel
  | pop => decide +kernel
  | checkSat => exact h.elim
  | sync => exact h.elim
  | exit => exact h.elim
  | declareSort name => exact hdeclare rfl
  | declareFun name domain range => exact hdeclare rfl
  | declareConst name sort => exact hdeclare rfl
  | assert t => exact ne_checkSat_of_toList (toList_line_assert t) (by decide)

/-- A line is neither a check, nor does it concern scopes, nor is it an echo. -/
theorem obey_of_ordinary {line : String} {c : Char} {rest : List Char}
    (h : line.toList = '(' :: c :: rest) (hc : c ≠ 'c') (hp : c ≠ 'p') (he : c ≠ 'e')
    {named : Option String} (hnamed : declaredName? line = named) (s : Solver)
    (answers : List String) :
    obey line s answers = named.elim (s, answers) fun name => (s.declare name, answers) := by
  have hcheckSat := ne_checkSat_of_toList h hc
  have hpush : line ≠ Command.push.line := by
    rintro rfl
    simp [Command.line_push] at h
    exact hp h.1.symm
  have hpop : line ≠ Command.pop.line := by
    rintro rfl
    simp [Command.line_pop] at h
    exact hp h.1.symm
  have hecho : echoed? line = none := by
    unfold echoed?
    rw [h]
    simp [List.isPrefixOf?, Ne.symm he]
  unfold obey
  rw [if_neg hcheckSat, if_neg hpush, if_neg hpop, hecho, hnamed]
  cases named <;> rfl

theorem declaredName?_line_declare {c : Command} {name : String} (h : c.declared? = some name) :
    declaredName? c.line = some (firstWord name) := by
  obtain ⟨d, hd, rest, hline⟩ := toList_line_declare h
  have hword : (name.toList ++ ' ' :: rest).takeWhile (· != ' ') =
      name.toList.takeWhile (· != ' ') := by
    rw [List.takeWhile_append]
    split
    · rename_i hlength
      rw [(List.takeWhile_prefix _).eq_of_length hlength]
      simp
    · rfl
  unfold declaredName? firstWord
  rw [hline, ← hword]
  simp only [declarators, List.mem_cons, List.not_mem_nil, or_false] at hd
  rcases hd with rfl | rfl | rfl <;> simp [declarators, List.findSome?, List.isPrefixOf?]

theorem declaredName?_line_assert (t : Term) : declaredName? (Command.assert t).line = none := by
  unfold declaredName?
  rw [toList_line_assert]
  simp [declarators, List.findSome?, List.isPrefixOf?]

theorem obey_declare {c : Command} {name : String} (h : c.declared? = some name) (s : Solver)
    (answers : List String) : obey c.line s answers = (s.declare (firstWord name), answers) := by
  obtain ⟨rest, hline⟩ := opening_of_declared? h
  exact obey_of_ordinary hline (by decide) (by decide) (by decide)
    (declaredName?_line_declare h) s answers

theorem obey_assert (t : Term) (s : Solver) (answers : List String) :
    obey (Command.assert t).line s answers = (s, answers) :=
  obey_of_ordinary (toList_line_assert t) (by decide) (by decide) (by decide)
    (declaredName?_line_assert t) s answers

theorem obey_scopedDeclarations (s : Solver) (answers : List String) :
    obey Command.scopedDeclarations.line s answers = (s, answers) := rfl

/-- The marker as the solver repeats it. -/
def quotedMarker : String := "\"" ++ Command.syncMarker ++ "\""

theorem obey_sync (s : Solver) (answers : List String) :
    obey Command.sync.line s answers = (s.say quotedMarker, answers) := by
  have hecho : echoed? Command.sync.line = some quotedMarker := by decide +kernel
  unfold obey
  rw [if_neg (by decide +kernel), if_neg (by decide +kernel), if_neg (by decide +kernel), hecho]

theorem output_declare (s : Solver) (name : String) : (s.declare name).output = s.output ∨
    (s.declare name).output = s.output ++ [redeclared name] := by
  unfold Solver.declare
  split
  · exact .inr rfl
  · split
    · exact .inl rfl
    · exact .inl rfl

theorem output_pop (s : Solver) : s.pop.output = s.output := by
  unfold Solver.pop
  split <;> rfl

/-- Nothing is said to a command without an answer unless it is refused. -/
theorem output_obey_of_isMute {c : Command} (h : c.IsMute) (s : Solver) (answers : List String) :
    (obey c.line s answers).1.output = s.output ∨
      ∃ name, (obey c.line s answers).1.output = s.output ++ [redeclared name] := by
  have hdeclare : ∀ {c : Command} {name}, c.declared? = some name →
      (obey c.line s answers).1.output = s.output ∨
        ∃ name, (obey c.line s answers).1.output = s.output ++ [redeclared name] := by
    intro c name hname
    rw [obey_declare hname]
    exact (output_declare s _).imp_right fun h => ⟨_, h⟩
  cases c with
  | scopedDeclarations => exact .inl rfl
  | push => exact .inl rfl
  | pop => exact .inl (output_pop s)
  | checkSat => exact h.elim
  | sync => exact h.elim
  | exit => exact h.elim
  | declareSort name => exact hdeclare rfl
  | declareFun name domain range => exact hdeclare rfl
  | declareConst name sort => exact hdeclare rfl
  | assert t =>
      rw [obey_assert]
      exact .inl rfl

theorem isErrorLine_redeclared (name : String) :
    Session.isErrorLine (redeclared name) = true := by
  have hopening : "(error \"invalid declaration, `" =
      "(error" ++ " \"invalid declaration, `" := rfl
  unfold redeclared
  rw [hopening]
  unfold Session.isErrorLine
  rw [List.isPrefixOf_iff_prefix, String.append_assoc, String.append_assoc, String.toList_append]
  exact List.prefix_append _ _

end Scripted

end ContractCheck
