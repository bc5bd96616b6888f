import ContractCheck.Proofs.Replies

/-!
What lines do to a stack of scopes. Whatever a solver keeps in its scopes, to open one puts it on
top of the others, to leave one uncovers the next, and any other line concerns the innermost scope
alone (`IsScoping`). So lines that leave every scope that they open, and no other, keep all scopes
but the innermost (`Spans`), and if they stand in a scope of their own, that one too.
-/

namespace ContractCheck

/-- The line neither opens nor leaves a scope. -/
def IsFlat (line : String) : Prop := line ≠ Command.push.line ∧ line ≠ Command.pop.line

/-- How lines act on a stack of scopes, the innermost first. -/
structure IsScoping {S : Type} (act : List S → String → List S) : Prop where
  push : ∀ st, ∃ scope, act st Command.push.line = scope :: st
  pop : ∀ inner scope rest, act (inner :: scope :: rest) Command.pop.line = scope :: rest
  flat : ∀ line, IsFlat line → ∀ scope rest, ∃ scope', act (scope :: rest) line = scope' :: rest

/-- The lines open that many scopes more than they leave, and leave no scope that they have not
opened. -/
def Spans (height : Nat) (lines : List String) : Prop :=
  ∀ {S : Type} {act : List S → String → List S}, IsScoping act → ∀ scope rest,
    ∃ inner scope', inner.length = height ∧
      lines.foldl act (scope :: rest) = inner ++ scope' :: rest

theorem spans_nil : Spans 0 [] := fun _ scope _ => ⟨[], scope, rfl, rfl⟩

namespace Spans

variable {height : Nat} {lines more : List String} {line : String}

theorem append (h : Spans 0 lines) (h' : Spans height more) : Spans height (lines ++ more) := by
  intro S act hact scope rest
  obtain ⟨inner, scope', hnil, hlines⟩ := h hact scope rest
  obtain rfl := List.length_eq_zero_iff.1 hnil
  rw [List.foldl_append, hlines]
  exact h' hact scope' rest

theorem flat (h : Spans height lines) (hline : IsFlat line) : Spans height (lines ++ [line]) := by
  intro S act hact scope rest
  obtain ⟨inner, scope', hlength, hlines⟩ := h hact scope rest
  rw [List.foldl_append, hlines]
  cases inner with
  | nil =>
      obtain ⟨scope'', hact'⟩ := hact.flat line hline scope' rest
      exact ⟨[], scope'', hlength, hact'⟩
  | cons top others =>
      obtain ⟨top', hact'⟩ := hact.flat line hline top (others ++ scope' :: rest)
      exact ⟨top' :: others, scope', hlength, hact'⟩

theorem push (h : Spans height lines) : Spans (height + 1) (lines ++ [Command.push.line]) := by
  intro S act hact scope rest
  obtain ⟨inner, scope', hlength, hlines⟩ := h hact scope rest
  obtain ⟨top, hpush⟩ := hact.push (inner ++ scope' :: rest)
  rw [List.foldl_append, hlines]
  exact ⟨top :: inner, scope', congrArg (· + 1) hlength, hpush⟩

theorem pop (h : Spans (height + 1) lines) : Spans height (lines ++ [Command.pop.line]) := by
  intro S act hact scope rest
  obtain ⟨inner, scope', hlength, hlines⟩ := h hact scope rest
  rw [List.foldl_append, hlines]
  obtain ⟨top, others, rfl⟩ := List.exists_cons_of_length_eq_add_one hlength
  refine ⟨others, scope', Nat.succ.inj hlength, ?_⟩
  cases others with
  | nil => exact hact.pop top scope' rest
  | cons next others => exact hact.pop top next (others ++ scope' :: rest)

end Spans

/-- After the lines all scopes are as before. -/
def Neutral (lines : List String) : Prop :=
  ∀ {S : Type} {act : List S → String → List S}, IsScoping act → ∀ st, st ≠ [] →
    lines.foldl act st = st

theorem neutral_nil : Neutral [] := fun _ _ _ => rfl

/-- In a scope of their own lines leave nothing behind. -/
theorem Spans.neutral {lines : List String} (h : Spans 0 lines) :
    Neutral (Command.push.line :: (lines ++ [Command.pop.line])) := by
  intro S act hact st hst
  obtain ⟨scope, rest, rfl⟩ := List.exists_cons_of_ne_nil hst
  obtain ⟨top, hpush⟩ := hact.push (scope :: rest)
  obtain ⟨inner, top', hnil, hlines⟩ := h hact top (scope :: rest)
  obtain rfl := List.length_eq_zero_iff.1 hnil
  rw [List.foldl_cons, hpush, List.foldl_append, hlines]
  exact hact.pop top' scope rest

theorem Neutral.spans {lines : List String} (h : Neutral lines) : Spans 0 lines :=
  fun hact scope rest => ⟨[], scope, rfl, h hact _ (List.cons_ne_nil scope rest)⟩

/-- All scopes are as before, but that the innermost may hold more. -/
def Grown {α : Type} (st st' : List (List α)) : Prop :=
  ∃ scope scope' rest, st = scope :: rest ∧ st' = scope' :: rest ∧ scope ⊆ scope'

namespace Grown

variable {α : Type} {st st' st'' : List (List α)}

theorem refl (h : st ≠ []) : Grown st st := by
  obtain ⟨scope, rest, rfl⟩ := List.exists_cons_of_ne_nil h
  exact ⟨scope, scope, rest, rfl, rfl, List.Subset.refl scope⟩

theorem trans (h : Grown st st') (h' : Grown st' st'') : Grown st st'' := by
  obtain ⟨scope, scope', rest, rfl, rfl, hsubset⟩ := h
  obtain ⟨_, scope'', _, hst', rfl, hsubset'⟩ := h'
  cases hst'
  exact ⟨scope, scope'', rest, rfl, rfl, List.Subset.trans hsubset hsubset'⟩

theorem ne_nil (h : Grown st st') : st' ≠ [] := by
  obtain ⟨scope, scope', rest, -, rfl, -⟩ := h
  exact List.cons_ne_nil scope' rest

theorem length (h : Grown st st') : st'.length = st.length := by
  obtain ⟨scope, scope', rest, rfl, rfl, -⟩ := h
  rfl

theorem flatten (h : Grown st st') : st.flatten ⊆ st'.flatten := by
  obtain ⟨scope, scope', rest, rfl, rfl, hsubset⟩ := h
  intro a ha
  rw [List.flatten_cons, List.mem_append] at ha ⊢
  exact ha.imp_left fun h => hsubset h

end Grown

/-- Lines that do not concern scopes let scopes grow if each of them does. -/
theorem grown_foldl {α : Type} {act : List (List α) → String → List (List α)}
    (hact : ∀ line, IsFlat line → ∀ st, st ≠ [] → Grown st (act st line)) {lines : List String}
    (hlines : ∀ line ∈ lines, IsFlat line) {st : List (List α)} (hst : st ≠ []) :
    Grown st (lines.foldl act st) := by
  induction lines generalizing st with
  | nil => exact .refl hst
  | cons line rest ih =>
      obtain ⟨hline, hrest⟩ := List.forall_mem_cons.1 hlines
      have hgrown := hact line hline st hst
      exact hgrown.trans (ih hrest hgrown.ne_nil)

theorem isFlat_of_toList {line : String} {c : Char} {rest : List Char}
    (h : line.toList = '(' :: c :: rest) (hc : c ≠ 'p') : IsFlat line := by
  constructor
  · rintro rfl
    simp [Command.line_push] at h
    exact hc h.1.symm
  · rintro rfl
    simp [Command.line_pop] at h
    exact hc h.1.symm

theorem Scripted.toList_of_declaredName? {line name : String}
    (h : declaredName? line = some name) :
    ∃ rest, line.toList = '(' :: 'd' :: rest := by
  obtain ⟨rest, hrest, -⟩ := Option.map_eq_some_iff.1 h
  obtain ⟨d, hd, hprefix⟩ := List.exists_of_findSome?_eq_some hrest
  have hline := List.isPrefixOf?_eq_some_iff_append_eq.1 hprefix
  simp only [declarators, List.mem_cons, List.not_mem_nil, or_false] at hd
  rcases hd with rfl | rfl | rfl <;> exact ⟨_, hline.symm⟩

theorem Scripted.obey_of_declaredName? {line name : String} (h : declaredName? line = some name)
    (s : Solver) (answers : List String) : obey line s answers = (s.declare name, answers) := by
  obtain ⟨rest, hline⟩ := toList_of_declaredName? h
  exact obey_of_ordinary hline (by decide) (by decide) (by decide) h s answers

theorem isFlat_of_declaredName? {line name : String}
    (h : Scripted.declaredName? line = some name) : IsFlat line := by
  obtain ⟨rest, hline⟩ := Scripted.toList_of_declaredName? h
  exact isFlat_of_toList hline (by decide)

theorem Command.IsPlain.isFlat {c : Command} (h : c.IsPlain) : IsFlat c.line := by
  have hdeclare : ∀ {c : Command} {name}, c.declared? = some name → IsFlat c.line := by
    intro c name hname
    obtain ⟨rest, hline⟩ := Scripted.opening_of_declared? hname
    exact isFlat_of_toList hline (by decide)
  cases c with
  | scopedDeclarations => exact isFlat_of_toList rfl (by decide)
  | declareSort name => exact hdeclare rfl
  | declareFun name domain range => exact hdeclare rfl
  | declareConst name sort => exact hdeclare rfl
  | assert t => exact isFlat_of_toList (Scripted.toList_line_assert t) (by decide)
  | _ => exact h.elim

theorem isFlat_checkSat : IsFlat Command.checkSat.line := isFlat_of_toList rfl (by decide)

theorem isFlat_sync : IsFlat Command.sync.line := isFlat_of_toList rfl (by decide)

theorem isFlat_scopedDeclarations : IsFlat Command.scopedDeclarations.line :=
  isFlat_of_toList rfl (by decide)

/-- A line that asserts. -/
def IsAssertion (line : String) : Prop := "(assert ".toList <+: line.toList

instance (line : String) : Decidable (IsAssertion line) :=
  inferInstanceAs (Decidable (_ <+: _))

/-- The lines that declare and assert in the open scopes, the innermost scope first and in each the
latest line first. The outermost scope stays. -/
def standing (st : List (List String)) (line : String) : List (List String) :=
  if line = Command.push.line then [] :: st
  else if line = Command.pop.line then
    match st with
    | _ :: scope :: rest => scope :: rest
    | _ => st
  else if (Scripted.declaredName? line).isSome ∨ IsAssertion line then
    match st with
    | scope :: rest => (line :: scope) :: rest
    | [] => st
  else st

/-- A line that does not concern scopes stands in the innermost if it declares or asserts. -/
theorem standing_of_isFlat {line : String} (hline : IsFlat line) (scope : List String)
    (rest : List (List String)) : standing (scope :: rest) line =
      (if (Scripted.declaredName? line).isSome ∨ IsAssertion line then line :: scope else scope) ::
        rest := by
  unfold standing
  rw [if_neg hline.1, if_neg hline.2]
  by_cases h : (Scripted.declaredName? line).isSome ∨ IsAssertion line
  · rw [if_pos h, if_pos h]
  · rw [if_neg h, if_neg h]

/-- The line of a declaration stands in the innermost scope. -/
theorem standing_of_declaredName? {line name : String} (h : Scripted.declaredName? line = some name)
    (scope : List String) (rest : List (List String)) :
    standing (scope :: rest) line = (line :: scope) :: rest := by
  rw [standing_of_isFlat (isFlat_of_declaredName? h), h, if_pos (.inl rfl)]

/-- A line that concerns no scope and neither declares nor asserts leaves what stands. -/
theorem standing_of_idle {line : String} (hflat : IsFlat line)
    (hname : Scripted.declaredName? line = none) (hassert : ¬ IsAssertion line)
    (st : List (List String)) : standing st line = st := by
  unfold standing
  rw [if_neg hflat.1, if_neg hflat.2, if_neg]
  rintro (h | h)
  · rw [hname] at h
    cases h
  · exact hassert h

theorem standing_checkSat (st : List (List String)) : standing st Command.checkSat.line = st :=
  standing_of_idle isFlat_checkSat (by decide +kernel) (by decide +kernel) st

theorem isScoping_standing : IsScoping standing where
  push st := ⟨[], if_pos rfl⟩
  pop inner scope rest := by
    have hne : Command.pop.line ≠ Command.push.line := by decide
    unfold standing
    rw [if_neg hne, if_pos rfl]
  flat line hline scope rest := ⟨_, standing_of_isFlat hline scope rest⟩

theorem grown_standing {line : String} (hline : IsFlat line) (st : List (List String))
    (hst : st ≠ []) : Grown st (standing st line) := by
  obtain ⟨scope, rest, rfl⟩ := List.exists_cons_of_ne_nil hst
  refine ⟨scope, _, rest, rfl, standing_of_isFlat hline scope rest, ?_⟩
  split
  · exact List.subset_cons_self line scope
  · exact List.Subset.refl scope

namespace Scripted

/-- The names in the solver's scopes after a line. Neither what was said nor which answers are left
matters. -/
def scopesAfter (scopes : List (List String)) (line : String) : List (List String) :=
  (obey line { scopes } []).1.scopes

theorem scopes_declare (s : Solver) (name : String) :
    (s.declare name).scopes = (Solver.declare { scopes := s.scopes } name).scopes := by
  obtain ⟨output, scopes⟩ := s
  unfold Solver.declare Solver.holds
  split
  · rfl
  · cases scopes <;> rfl

theorem scopes_pop (s : Solver) : s.pop.scopes = (Solver.pop { scopes := s.scopes }).scopes := by
  obtain ⟨output, scopes⟩ := s
  unfold Solver.pop
  rcases scopes with _ | ⟨inner, _ | ⟨scope, rest⟩⟩ <;> rfl

theorem scopes_obey (line : String) (s : Solver) (answers : List String) :
    (obey line s answers).1.scopes = scopesAfter s.scopes line := by
  unfold scopesAfter obey
  split
  · cases answers <;> rfl
  · split
    · rfl
    · split
      · exact scopes_pop s
      · cases echoed? line with
        | some text => rfl
        | none =>
            cases declaredName? line with
            | some name => exact scopes_declare s name
            | none => rfl

/-- A line that does not concern scopes takes no name from them, and gives one to the innermost at
most. -/
theorem scopesAfter_of_isFlat {line : String} (hline : IsFlat line) (scope : List String)
    (rest : List (List String)) :
    ∃ scope', scopesAfter (scope :: rest) line = scope' :: rest ∧ scope ⊆ scope' := by
  unfold scopesAfter obey
  rw [if_neg hline.1, if_neg hline.2]
  split
  · exact ⟨scope, rfl, List.Subset.refl scope⟩
  · cases echoed? line with
    | some text => exact ⟨scope, rfl, List.Subset.refl scope⟩
    | none =>
        cases declaredName? line with
        | none => exact ⟨scope, rfl, List.Subset.refl scope⟩
        | some name =>
            simp only [Solver.declare]
            split
            · exact ⟨scope, rfl, List.Subset.refl scope⟩
            · exact ⟨name :: scope, rfl, List.subset_cons_self name scope⟩

theorem isScoping_scopesAfter : IsScoping scopesAfter where
  push st := ⟨[], rfl⟩
  pop inner scope rest := rfl
  flat line hline scope rest := by
    obtain ⟨scope', hscopes, -⟩ := scopesAfter_of_isFlat hline scope rest
    exact ⟨scope', hscopes⟩

end Scripted

end ContractCheck
