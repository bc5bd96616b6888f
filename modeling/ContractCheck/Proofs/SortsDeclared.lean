import ContractCheck.Proofs.Upheld
import ContractCheck.Proofs.Vocabulary

/-!
Every sort that is used is declared. The sorts that a run collects beforehand from its environment
and its expression are all that the walk asks for, in lets, in results of calls and in the contracts
that it comes by (`Checker.vocabulary_sorts`). A run declares those that are not in force, and the
others stand, so that each sort in a line of a session's runs was declared in a scope that is still
open (`Session.sorts_declared`).
-/

namespace ContractCheck

/-- The sorts in a line that declares a constant or a function. The line is read from its end, since
nothing is known of the name that it declares. -/
def sortsNamed (line : String) : List String :=
  let text := line.toList.dropLast
  let range := text.rtakeWhile (· ≠ ' ')
  let domain := (text.rdropWhile (· ≠ ' ')).dropLast.dropLast.rtakeWhile (· ≠ '(')
  let sorts :=
    if "(declare-const ".toList <+: line.toList then [range]
    else if "(declare-fun ".toList <+: line.toList then domain.splitOn ' ' ++ [range]
    else []
  (sorts.map String.ofList).filter (· ≠ "")

/-- The sorts that a command declares a constant or a function with. -/
def Command.sorts : Command → List String
  | .declareConst _ sort => [sort]
  | .declareFun _ domain range => domain ++ [range]
  | _ => []

/-- Neither a blank nor a parenthesis ends the text. -/
def IsSortText (text : String) : Prop := ∀ c ∈ text.toList, c ≠ ' ' ∧ c ≠ '('

theorem rtakeWhile_append {p : Char → Bool} {front back : List Char} {c : Char} (hc : p c = false)
    (hback : ∀ d ∈ back, p d = true) : (front ++ c :: back).rtakeWhile p = back := by
  have hall : ∀ d ∈ back.reverse, p d = true := fun d hd => hback d (List.mem_reverse.1 hd)
  rw [List.rtakeWhile, List.reverse_append, List.reverse_cons, List.append_assoc,
    List.takeWhile_append_of_pos hall]
  simp [hc]

theorem rdropWhile_append {p : Char → Bool} {front back : List Char} {c : Char} (hc : p c = false)
    (hback : ∀ d ∈ back, p d = true) :
    (front ++ c :: back).rdropWhile p = front ++ [c] := by
  have hall : ∀ d ∈ back.reverse, p d = true := fun d hd => hback d (List.mem_reverse.1 hd)
  rw [List.rdropWhile, List.reverse_append, List.reverse_cons, List.append_assoc,
    List.dropWhile_append_of_pos hall]
  simp [hc]

theorem toList_renderItems_atoms (texts : List String) :
    (SExpr.renderItems (texts.map .atom)).toList = [' '].intercalate (texts.map String.toList) := by
  induction texts with
  | nil => rfl
  | cons text rest ih =>
      cases rest with
      | nil => simp [SExpr.renderItems, SExpr.render]
      | cons next rest =>
          rw [List.map_cons, List.map_cons] at ih ⊢
          rw [SExpr.renderItems, String.toList_append, String.toList_append, ih, SExpr.render]
          simp [List.intercalate]

theorem mem_intercalate {texts : List (List Char)} {c : Char}
    (h : c ∈ [' '].intercalate texts) : c = ' ' ∨ ∃ text ∈ texts, c ∈ text := by
  induction texts with
  | nil => cases h
  | cons text rest ih =>
      cases rest with
      | nil =>
          rw [List.intercalate_singleton] at h
          exact .inr ⟨text, List.mem_cons_self, h⟩
      | cons next rest =>
          rw [List.intercalate_cons_cons, List.mem_append, List.mem_append] at h
          rcases h with (h | h) | h
          · exact .inr ⟨text, List.mem_cons_self, h⟩
          · exact .inl (List.mem_singleton.1 h)
          · refine (ih h).imp_right fun ⟨other, hother, hc⟩ => ?_
            exact ⟨other, List.mem_cons_of_mem _ hother, hc⟩

theorem sortsNamed_declareConst (name : String) {sort : String} (h : IsSortText sort) :
    sortsNamed (Command.declareConst name sort).line = [sort].filter (· ≠ "") := by
  have hline : (Command.declareConst name sort).line.toList =
      "(declare-const ".toList ++ (name.toList ++ ' ' :: (sort.toList ++ [')'])) := by
    simp [Command.line, Command.toSExpr, SExpr.apply, SExpr.render, SExpr.renderItems]
  have htext :
      ("(declare-const ".toList ++ (name.toList ++ ' ' :: (sort.toList ++ [')']))).dropLast =
        ("(declare-const ".toList ++ name.toList) ++ ' ' :: sort.toList := by
    rw [← List.append_assoc, ← List.cons_append, ← List.append_assoc, List.dropLast_concat]
  have hback : ∀ c ∈ sort.toList, decide (c ≠ ' ') = true := fun c hc => by simp [(h c hc).1]
  unfold sortsNamed
  simp only [hline, htext]
  rw [if_pos (List.prefix_append _ _), rtakeWhile_append (by simp) hback]
  simp

/-- The domain of a function, read from its text. -/
theorem splitOn_domain {domain : List String} (h : ∀ sort ∈ domain, IsSortText sort) :
    ((([' '].intercalate (domain.map String.toList)).splitOn ' ').map String.ofList).filter
      (· ≠ "") = domain.filter (· ≠ "") := by
  cases domain with
  | nil => simp
  | cons first rest =>
      rw [List.splitOn_intercalate ' ' ?_ (by simp)]
      · simp
      · intro text htext hblank
        obtain ⟨sort, hsort, rfl⟩ := List.mem_map.1 htext
        exact (h sort hsort ' ' hblank).1 rfl

theorem sortsNamed_declareFun (name : String) {domain : List String} {range : String}
    (hdomain : ∀ sort ∈ domain, IsSortText sort) (hrange : IsSortText range) :
    sortsNamed (Command.declareFun name domain range).line =
      (domain ++ [range]).filter (· ≠ "") := by
  let items := [' '].intercalate (domain.map String.toList)
  let front := "(declare-fun ".toList ++ name.toList ++ [' ']
  have hline : (Command.declareFun name domain range).line.toList =
      front ++ '(' :: items ++ [')'] ++ ' ' :: range.toList ++ [')'] := by
    simp [Command.line, Command.toSExpr, SExpr.apply, SExpr.render, SExpr.renderItems,
      toList_renderItems_atoms, items, front]
  have hopening :
      "(declare-fun ".toList <+: (Command.declareFun name domain range).line.toList := by
    rw [hline]
    simp only [front, List.append_assoc]
    exact List.prefix_append _ _
  have hconst : ¬ "(declare-const ".toList <+:
      (Command.declareFun name domain range).line.toList := by
    rintro ⟨rest, hrest⟩
    rw [hline] at hrest
    simp [front] at hrest
  have hback : ∀ c ∈ range.toList, decide (c ≠ ' ') = true := fun c hc => by simp [(hrange c hc).1]
  have hitems : ∀ c ∈ items, decide (c ≠ '(') = true := by
    intro c hc
    rcases mem_intercalate hc with rfl | ⟨text, htext, hc⟩
    · rfl
    · obtain ⟨sort, hsort, rfl⟩ := List.mem_map.1 htext
      simp [(hdomain sort hsort c hc).2]
  unfold sortsNamed
  simp only [if_neg hconst, if_pos hopening]
  simp only [hline, List.dropLast_concat]
  rw [rtakeWhile_append (by simp) hback, rdropWhile_append (by simp) hback]
  simp only [List.dropLast_concat]
  rw [rtakeWhile_append (by simp) hitems, List.map_append, List.filter_append,
    splitOn_domain hdomain]
  simp

/-- The sorts in a command's line are the command's, except that no name is no sort. -/
theorem sortsNamed_line {c : Command} (h : ∀ sort ∈ c.sorts, IsSortText sort) :
    sortsNamed c.line = c.sorts.filter (· ≠ "") := by
  have hnone : ∀ c : Command, ¬ "(declare-const ".toList <+: c.line.toList →
      ¬ "(declare-fun ".toList <+: c.line.toList → sortsNamed c.line = [] := by
    intro c hconst hfun
    unfold sortsNamed
    simp only [if_neg hconst, if_neg hfun]
    rfl
  cases c with
  | declareConst name sort => exact sortsNamed_declareConst name (h sort List.mem_cons_self)
  | declareFun name domain range =>
      obtain ⟨hdomain, hrange⟩ := List.forall_mem_append.1 h
      exact sortsNamed_declareFun name hdomain (hrange range List.mem_cons_self)
  | declareSort name =>
      refine hnone _ ?_ ?_ <;>
        simp [Command.line, Command.toSExpr, SExpr.apply, SExpr.render, SExpr.renderItems]
  | assert t => refine hnone _ ?_ ?_ <;> simp [Scripted.toList_line_assert]
  | scopedDeclarations | push | pop | checkSat | sync | exit =>
      exact hnone _ (by decide) (by decide)

/-- Each sort in the line, other than those of the solver's own, is declared by a line that
stands. -/
def SortsStand (st : List (List String)) (line : String) : Prop :=
  ∀ sort ∈ sortsNamed line,
    sort = "Int" ∨ sort = "Bool" ∨ (Command.declareSort sort).line ∈ st.flatten

/-- The command's sorts are the solver's own or among those given. -/
def Command.UsesSorts (sorts : List String) (c : Command) : Prop :=
  ∀ sort ∈ c.sorts, IsSortText sort ∧ (sort = "Int" ∨ sort = "Bool" ∨ sort ∈ sorts)

theorem Command.UsesSorts.stand {sorts : List String} {c : Command} (h : c.UsesSorts sorts)
    {st : List (List String)}
    (hst : ∀ sort ∈ sorts, (Command.declareSort sort).line ∈ st.flatten) :
    SortsStand st c.line := by
  intro sort hsort
  rw [sortsNamed_line fun sort hsort => (h sort hsort).1] at hsort
  obtain ⟨-, hused⟩ := h sort (List.mem_filter.1 hsort).1
  exact hused.imp_right fun hused => hused.imp_right (hst sort)

theorem sortsStand_of_sortless {c : Command} (h : c.sorts = []) (st : List (List String)) :
    SortsStand st c.line := by
  have hnone : c.UsesSorts [] := by
    intro sort hsort
    rw [h] at hsort
    cases hsort
  exact hnone.stand nofun

section

variable {sorts : List String}

/-- The sort of a type is the solver's own or the type mentions it. -/
theorem isSortText_of_plain {text : String} (h : ∀ c ∈ text.toList, isPlainChar c = true) :
    IsSortText text :=
  fun c hc => ⟨(ne_of_isPlainChar (h c hc)).1, (ne_of_isPlainChar (h c hc)).2.1⟩

theorem SolverSort.usesSorts_display {ty : Ty} {sort : SolverSort}
    (h : SolverSort.of? ty = some sort) (hty : ∀ name ∈ ty.sortsUsed, name ∈ sorts) :
    IsSortText sort.display ∧
      (sort.display = "Int" ∨ sort.display = "Bool" ∨ sort.display ∈ sorts) := by
  cases sort with
  | int => exact ⟨isSortText_of_plain (List.all_eq_true.1 (by decide +kernel)), .inl rfl⟩
  | bool => exact ⟨isSortText_of_plain (List.all_eq_true.1 (by decide +kernel)), .inr (.inl rfl)⟩
  | named name =>
      obtain ⟨rfl, hname⟩ := SolverSort.of?_eq_named h
      exact ⟨isSortText_of_plain fun c hc => isPlainChar_of_isSortChar (isSortChar_sortName hc),
        .inr (.inr (hty _ hname))⟩

theorem usesSorts_declareConst (name : String) {ty : Ty} {sort : SolverSort}
    (h : SolverSort.of? ty = some sort) (hty : ∀ name ∈ ty.sortsUsed, name ∈ sorts) :
    (Command.declareConst name sort.display).UsesSorts sorts := by
  intro text htext
  rw [List.mem_singleton.1 htext]
  exact SolverSort.usesSorts_display h hty

theorem Expr.mem_sortsUsedAll {e : Expr} {es : List Expr} {name : String} (he : e ∈ es)
    (h : name ∈ e.sortsUsed) : name ∈ Expr.sortsUsedAll es := by
  induction es with
  | nil => cases he
  | cons first rest ih =>
      rw [Expr.sortsUsedAll]
      rcases List.mem_cons.1 he with rfl | he
      · exact List.mem_append_left _ h
      · exact List.mem_append_right _ (ih he)

/-- A contract mentions no sort that the refined type does not. -/
theorem RefinedTy.mem_sortsUsed_of_clause {t : RefinedTy} {clause : Clause} {name : String}
    (hclause : t.clause? = some clause) (h : name ∈ clause.expr.sortsUsed) :
    name ∈ t.sortsUsed := by
  rcases t with ty | ⟨ty, r⟩
  · cases hclause
  · rw [RefinedTy.sortsUsed]
    refine List.mem_append_right _ ?_
    cases r with
    | bind binder => cases hclause
    | holds binder pred =>
        cases hclause
        rwa [Refinement.sortsUsed]
    | equals binder value =>
        cases hclause
        rwa [Refinement.sortsUsed]

/-- A function mentions the sorts of its parameters and of its return. -/
theorem Signature.mem_sortsUsed_of_arrow {sig : Signature} {params : List RefinedTy}
    {ret t : RefinedTy} {name : String} (harrow : sig.ty.ty.arrow? = some (params, ret))
    (ht : t ∈ params ++ [ret]) (h : name ∈ t.sortsUsed) : name ∈ sig.ty.sortsUsed := by
  refine RefinedTy.mem_sortsUsed_of_ty ?_
  rw [Ty.arrow?_eq_some_iff.1 harrow, Ty.sortsUsed, List.mem_append]
  rcases List.mem_append.1 ht with ht | ht
  · exact .inl (RefinedTy.mem_sortsUsedAll ht h)
  · rw [← List.mem_singleton.1 ht]
    exact .inr h

/-- If the given sorts are those that an environment mentions, and more, a walk over expressions
that mention no others declares its variables with these. -/
theorem Checker.vocabulary_sorts {env : Env}
    (henv : ∀ name sig, env.get? name = some sig → ∀ s ∈ sig.ty.sortsUsed, s ∈ sorts) :
    Vocabulary env (fun e => ∀ s ∈ e.sortsUsed, s ∈ sorts) (fun _ => True)
      (Command.UsesSorts sorts) where
  bool _ := trivial
  int _ := trivial
  not _ _ := trivial
  eq _ _ _ _ := trivial
  operator _ _ _ _ _ := trivial
  application _ _ _ _ _ _ := trivial
  assert _ _ := nofun
  var _ _ _ _ := trivial
  call ty callee args span he arg harg s hs := by
    refine he s ?_
    rw [Expr.sortsUsed, Shape.sortsUsed]
    exact List.mem_append_right _ (List.mem_append_right _ (Expr.mem_sortsUsedAll harg hs))
  letIn ty name value body span he := by
    rw [Expr.sortsUsed, Shape.sortsUsed, List.forall_mem_append, List.forall_mem_append] at he
    obtain ⟨-, hvalue, hbody⟩ := he
    refine ⟨hvalue, hbody, trivial, fun sort hsort => usesSorts_declareConst name hsort ?_⟩
    intro s hs
    refine hvalue s ?_
    obtain ⟨ty, shape, span⟩ := value
    rw [Expr.sortsUsed]
    exact List.mem_append_left _ hs
  cast ty e target span he := by
    rw [Expr.sortsUsed, Shape.sortsUsed, List.forall_mem_append, List.forall_mem_append] at he
    obtain ⟨-, hexpr, htarget⟩ := he
    exact ⟨hexpr, fun clause hclause s hs =>
      htarget s (RefinedTy.mem_sortsUsed_of_clause hclause hs)⟩
  clause name sig params ret hsig harrow t ht clause hclause s hs :=
    henv name sig hsig s (Signature.mem_sortsUsed_of_arrow harrow ht
      (RefinedTy.mem_sortsUsed_of_clause hclause hs))
  result name sig params ret hsig harrow sort names hsort := by
    refine ⟨usesSorts_declareConst _ hsort fun s hs => henv name sig hsig s ?_, trivial⟩
    exact Signature.mem_sortsUsed_of_arrow harrow (by simp) (RefinedTy.mem_sortsUsed_of_ty hs)

end

theorem mem_sortsOfRun_of_signature {env : Env} {e : Expr} {name s : String} {sig : Signature}
    (hsig : env.get? name = some sig) (hs : s ∈ sig.ty.sortsUsed) :
    s ∈ (sortsOfRun env e).toList := by
  refine mem_ofNames_iff.2 (List.mem_append_left _ ?_)
  exact List.mem_flatMap.2 ⟨(name, sig), NameMap.get?_eq_some_iff.1 hsig, hs⟩

theorem usesSorts_of_mem_declarations {env : Env} {e : Expr} {d : String × Command}
    (hd : d ∈ env.declarations e) : d.2.UsesSorts (sortsOfRun env e).toList := by
  rcases mem_declarations_iff.1 (List.mem_map_of_mem hd) with ⟨sort, -, hsort⟩ |
    ⟨name, sig, key, hsig, hdeclare⟩
  · rw [hsort]
    exact nofun
  have hsorts : ∀ s ∈ sig.ty.sortsUsed, s ∈ (sortsOfRun env e).toList :=
    fun s hs => mem_sortsOfRun_of_signature hsig hs
  rcases Signature.globalDeclaration_declare hdeclare with ⟨sort, -, hof, -, hcommand⟩ |
    ⟨params, ret, domain, range, -, harrow, hdomain, hrange, -, hcommand⟩
  · rw [hcommand]
    exact usesSorts_declareConst name hof fun s hs => hsorts s (RefinedTy.mem_sortsUsed_of_ty hs)
  · rw [hcommand]
    have hpart : ∀ t ∈ params ++ [ret], ∀ s ∈ t.ty.sortsUsed, s ∈ (sortsOfRun env e).toList :=
      fun t ht s hs => hsorts s
        (Signature.mem_sortsUsed_of_arrow harrow ht (RefinedTy.mem_sortsUsed_of_ty hs))
    refine List.forall_mem_append.2 ⟨fun text htext => ?_, fun text htext => ?_⟩
    · obtain ⟨sort, hsort, rfl⟩ := List.mem_map.1 htext
      have hall := forall₂_of_mapM_eq_some (SolverSort.mapM_of_eq_ok_iff.1 hdomain)
      obtain ⟨param, hparam, hof⟩ := exists_of_forall₂ hall hsort
      exact SolverSort.usesSorts_display hof (hpart param (List.mem_append_left _ hparam))
    · rw [List.mem_singleton.1 htext]
      exact SolverSort.usesSorts_display (SolverSort.of_eq_ok_iff.1 hrange) (hpart ret (by simp))

/-- A key of a sort is known for the line that declares the sort. -/
def KnowsSorts (lines : String → Option String) : Prop :=
  ∀ sort line, lines ("sort " ++ sort) = some line → line = (Command.declareSort sort).line

theorem knowsSorts_declarations (env : Env) (e : Expr) :
    KnowsSorts fun key => ((env.declarations e).lookup key).map Command.line := by
  intro sort line hline
  obtain ⟨c, hlookup, rfl⟩ := Option.map_eq_some_iff.1 hline
  obtain ⟨before, after, hsplit, -⟩ := List.lookup_eq_some_iff.1 hlookup
  have hmem : ("sort " ++ sort, c) ∈ env.declarations e := by
    rw [hsplit]
    exact List.mem_append_right _ List.mem_cons_self
  rcases List.mem_append.1 hmem with hmem | hmem
  · obtain ⟨name, -, heq⟩ := List.mem_map.1 hmem
    obtain ⟨hkey, rfl⟩ := Prod.mk.inj heq
    rw [(String.append_right_inj _).1 hkey]
  · obtain ⟨entry, -, hmem⟩ := List.mem_flatMap.1 hmem
    exact absurd rfl (Session.sort_append_ne_key hmem)

namespace Session

variable {τ ω : Type} [Transport τ ω] {fine : ω → Prop} {lines : String → Option String}
  {offered : List (String × Command)} {sorts : List String} {s s' : Session τ ω}

/-- What is counted is upheld, and the sorts of all lines stood where these were sent. The keys that
are offered and not in force are known for their commands, and the given sorts are in force. -/
structure Sorted (fine : ω → Prop) (lines : String → Option String)
    (offered : List (String × Command)) (sorts : List String) (s : Session τ ω) : Prop where
  upholds : s.Upholds fine lines
  accords : s.Accords SortsStand
  known : ∀ d ∈ offered, s.declared.contains d.1 = false → lines d.1 = some d.2.line
  inForce : ∀ sort ∈ sorts, s.declared.contains ("sort " ++ sort) = true

omit [Transport τ ω] in
theorem Sorted.of_declared (h : s.Sorted fine lines offered sorts)
    (hupholds : s'.Upholds fine lines) (haccords : s'.Accords SortsStand)
    (hdeclared : s'.declared = s.declared) :
    s'.Sorted fine lines offered sorts := by
  refine ⟨hupholds, haccords, fun d hd hkey => ?_, fun sort hsort => ?_⟩
  · rw [hdeclared] at hkey
    exact h.known d hd hkey
  · rw [hdeclared]
    exact h.inForce sort hsort

omit [Transport τ ω] in
/-- Sorts in force stand. -/
theorem Sorted.stand (h : s.Sorted fine lines offered sorts) (hlines : KnowsSorts lines)
    {c : Command} (hc : c.UsesSorts sorts) : SortsStand s.stands c.line := by
  refine hc.stand fun sort hsort => ?_
  obtain ⟨line, hline, hmem⟩ := h.upholds.line_stands (h.inForce sort hsort)
  rwa [← hlines sort line hline]

omit [Transport τ ω] in
theorem isClosed_sorted :
    IsClosed (fun {α} (op : SessionM τ ω α) => Preserves (Sorted fine lines offered sorts) op) :=
  isClosed_preserves fun _ _ _ h => h.of_declared (h.upholds.record _ _) h.accords rfl

section

variable (hfine : IsReliable τ fine)
include hfine

theorem Sorted.write (h : s.Sorted fine lines offered sorts) {c : Command} (hflat : IsFlat c.line)
    (hc : SortsStand s.stands c.line) : (write c.line s).2.Sorted fine lines offered sorts := by
  have hsaid := said_of_write c.line s
  exact h.of_declared (h.upholds.write hfine hflat) (h.accords.said hsaid.toSpoke hc)
    hsaid.declared

theorem Sorted.read (h : s.Sorted fine lines offered sorts) :
    (read s).2.Sorted fine lines offered sorts := by
  have hsaid := said_of_read s
  exact h.of_declared (h.upholds.read hfine) (hsaid.accords.2 ⟨h.accords, trivial⟩) hsaid.declared

theorem Sorted.checkSat (h : s.Sorted fine lines offered sorts) :
    (checkSat s).2.Sorted fine lines offered sorts := by
  refine isClosed_sorted.checkSat (fun s h => ?_) (fun s h => h.read hfine) s h
  exact h.write hfine isFlat_checkSat (sortsStand_of_sortless rfl _)

theorem Sorted.sync (h : s.Sorted fine lines offered sorts) :
    (sync s).2.Sorted fine lines offered sorts := by
  refine isClosed_sorted.sync (fun s h => ?_) (fun s h => h.read hfine) s h
  exact h.write hfine isFlat_sync (sortsStand_of_sortless rfl _)

theorem Sorted.start (h : s.Sorted fine lines offered sorts) :
    (start s).2.Sorted fine lines offered sorts := by
  refine h.of_declared (h.upholds.start hfine) ?_ (declared_start s)
  rw [start_apply]
  split
  · exact h.accords
  rw [bind_apply]
  rcases launch_cases s with ⟨failure, world, log, -, hlaunch⟩ | ⟨c, world, log, -, hlaunch⟩
  · rw [hlaunch]
    exact h.accords
  · rw [hlaunch]
    have hlaunched : ({ s with world, channel := some c, depth := 0, log } :
        Session τ ω).Accords SortsStand := h.accords
    exact hlaunched.said (said_of_write Command.scopedDeclarations.line _).toSpoke
      (sortsStand_of_sortless (c := .scopedDeclarations) rfl _)

/-- What is offered can be declared once its sorts are in force. -/
theorem Sorted.declareGlobal (h : s.Sorted fine lines offered sorts) (hlines : KnowsSorts lines)
    {d : String × Command} (hd : d ∈ offered) {name : String}
    (hname : Scripted.declaredName? d.2.line = some name) (hc : d.2.UsesSorts sorts) :
    (declareGlobal d.1 d.2.line s).2.Sorted fine lines offered sorts := by
  have hcontains : ∀ key, s.declared.contains key = true →
      (Session.declareGlobal d.1 d.2.line s).2.declared.contains key = true :=
    fun key hkey => contains_declareGlobal _ _ _ hkey
  have hwrite := h.write hfine (isFlat_of_declaredName? hname) (h.stand hlines hc)
  refine ⟨h.upholds.declareGlobal hfine hname (h.known d hd), ?_, fun d' hd' hkey => ?_,
    fun sort hsort => hcontains _ (h.inForce sort hsort)⟩
  · rw [declareGlobal_apply]
    split
    · exact h.accords
    rw [bind_apply]
    rcases hs₁ : Session.write d.2.line s with ⟨failure | u, s₁⟩
    · rw [hs₁] at hwrite
      exact hwrite.accords
    · rw [hs₁] at hwrite
      exact hwrite.accords
  · refine h.known d' hd' ?_
    by_contra hdeclared
    rw [Bool.not_eq_false] at hdeclared
    exact absurd ((hcontains _ hdeclared).symm.trans hkey) (by decide)

/-- Where its sorts are in force, a walk uses none that does not stand. -/
theorem Sorted.runChecker {env : Env} {e : Expr}
    (h : s.Sorted fine lines offered (sortsOfRun env e).toList) (hlines : KnowsSorts lines) :
    (runChecker env e s).2.Sorted fine lines offered (sortsOfRun env e).toList := by
  have henv : ∀ name sig, env.get? name = some sig → ∀ sort ∈ sig.ty.sortsUsed,
      sort ∈ (sortsOfRun env e).toList :=
    fun name sig hsig sort hsort => mem_sortsOfRun_of_signature hsig hsort
  have hobeys := Checker.vetted_run (Checker.vocabulary_sorts henv)
    (fun sort hsort => mem_ofNames_iff.2 (List.mem_append_right _ hsort)) 0
  -- Nothing is declared on the way, so the sorts stay in force.
  let rule : Rule Nat := .vetted (Command.UsesSorts (sortsOfRun env e).toList)
  let I : Nat → Session τ ω → Prop := fun height s₁ =>
    s.Opened height s₁ ∧ s₁.Sorted fine lines offered (sortsOfRun env e).toList
  have hnote : ∀ height s₁ text, I height s₁ → I height (s₁.record .debug text) :=
    fun height s₁ text h₁ => ⟨h₁.1.record .debug text,
      h₁.2.of_declared (h₁.2.upholds.record .debug text) h₁.2.accords rfl⟩
  have hdeed : ∀ height s₁ deed, I height s₁ → rule.allows height deed →
      I (rule.after height deed (perform deed s₁).1) (perform deed s₁).2 := by
    intro height s₁ deed ⟨hopened, hsorted⟩ hallowed
    have hopened' := hopened.perform h.upholds.consistent.bounded hallowed.1
    refine ⟨hopened', hsorted.of_declared (hsorted.upholds.perform hfine hallowed.1) ?_
      (hopened'.declared.trans hopened.declared.symm)⟩
    refine hsorted.accords.said (spoke_perform deed s₁) ?_
    cases deed with
    | write command => exact hsorted.stand hlines (hallowed.2 command rfl)
    | push => exact sortsStand_of_sortless rfl _
    | pop => exact sortsStand_of_sortless rfl _
  obtain ⟨height, ⟨-, hsorted⟩, -⟩ := hold_obeys (I := I) hnote hdeed
    (fun _ _ h₁ => ⟨h₁.1.checkSat, h₁.2.checkSat hfine⟩) hobeys ⟨.refl s, h⟩
  exact hsorted

omit hfine in
/-- The sorts of a run are in force once they have been declared. -/
theorem contains_of_declareSorts {env : Env} {e : Expr} (hstarted : s.isStarted = true)
    (h : declareSorts (sortsOfRun env e).toList s = (.ok (), s')) :
    ∀ sort ∈ (sortsOfRun env e).toList, s'.declared.contains ("sort " ++ sort) = true := by
  intro sort hsort
  rw [(declares_of_declareSorts (nodup_sortsOfRun env e) hstarted h).declared, Bool.or_eq_true]
  refine .inr (List.any_eq_true.2 ⟨("sort " ++ sort, .declareSort sort), ?_, beq_self_eq_true _⟩)
  exact List.mem_map_of_mem hsort

theorem preserves_declareSorts (hlines : KnowsSorts lines) (env : Env) (e : Expr) :
    Preserves (Sorted fine lines (env.declarations e) [])
      (declareSorts (sortsOfRun env e).toList : SessionM τ ω Unit) := by
  refine isClosed_sorted.declareSorts fun d hd s₁ h₁ => ?_
  have hmem : d ∈ env.declarations e := List.mem_append_left _ hd
  obtain ⟨name, hname⟩ := exists_declaredName?_of_mem_declarations hmem
  refine h₁.declareGlobal hfine hlines hmem hname ?_
  obtain ⟨sort, -, rfl⟩ := List.mem_map.1 hd
  exact nofun

theorem preserves_declareSignatures (hlines : KnowsSorts lines) (env : Env) (e : Expr) :
    Preserves (Sorted fine lines (env.declarations e) (sortsOfRun env e).toList)
      (declareSignatures env.entries : SessionM τ ω Unit) := by
  refine isClosed_sorted.declareSignatures fun d hd s₁ h₁ => ?_
  have hmem : d ∈ env.declarations e := List.mem_append_right _ hd
  obtain ⟨name, hname⟩ := exists_declaredName?_of_mem_declarations hmem
  exact h₁.declareGlobal hfine hlines hmem hname (usesSorts_of_mem_declarations hmem)

/-- A run declares its sorts first, so that its other lines find them declared. -/
theorem Sorted.prove {env : Env} {e : Expr} (h : s.Sorted fine lines (env.declarations e) [])
    (hlines : KnowsSorts lines) : (prove env e s).2.Sorted fine lines (env.declarations e) [] := by
  have hforget : ∀ {s₁ : Session τ ω} {sorts : List String},
      s₁.Sorted fine lines (env.declarations e) sorts →
      s₁.Sorted fine lines (env.declarations e) [] :=
    fun h₁ => ⟨h₁.upholds, h₁.accords, h₁.known, nofun⟩
  have hstarted := h.start hfine
  unfold Session.prove
  rw [bind_apply]
  rcases hstart : Session.start s with ⟨failure | u, s₁⟩
  · rwa [hstart] at hstarted
  rw [hstart] at hstarted
  unfold declareGlobals
  simp only
  rw [bind_apply, bind_apply]
  have hsorts := preserves_declareSorts hfine hlines env e s₁ hstarted
  rcases hs₂ : declareSorts (sortsOfRun env e).toList s₁ with ⟨failure | u, s₂⟩
  · rwa [hs₂] at hsorts
  rw [hs₂] at hsorts
  have hsorted₂ : s₂.Sorted fine lines (env.declarations e) (sortsOfRun env e).toList :=
    ⟨hsorts.upholds, hsorts.accords, hsorts.known,
      contains_of_declareSorts (isStarted_of_start hstart) hs₂⟩
  have hsigned := preserves_declareSignatures hfine hlines env e s₂ hsorted₂
  simp only
  rcases hs₃ : declareSignatures env.entries s₂ with ⟨failure | u, s₃⟩
  · rw [hs₃] at hsigned
    exact hforget hsigned
  rw [hs₃] at hsigned
  simp only
  refine hforget (isClosed_sorted.andThen (fun s h => h.runChecker hfine hlines) (fun _ =>
    isClosed_sorted.andThen (fun s h => h.sync hfine) fun _ => ?_) s₃ hsigned)
  exact isClosed_sorted.answer _

end

end Session

open Session in
theorem Chronicle.sorted_step {τ ω : Type} [Transport τ ω] {fine : ω → Prop}
    (hfine : IsReliable τ fine) {step : Step} {c : Chronicle τ ω} (hsimple : step.IsSimple)
    (hroutine : step.IsRoutine)
    (hc : c.session.Sorted fine c.lines [] [] ∧ KnowsSorts c.lines) :
    (c.step step).session.Sorted fine (c.step step).lines [] [] ∧
      KnowsSorts (c.step step).lines := by
  obtain ⟨hsorted, hknows⟩ := hc
  cases step with
  | start => exact ⟨hsorted.start hfine, hknows⟩
  | push =>
      refine ⟨⟨hsorted.upholds.push hfine, ?_, nofun, nofun⟩, hknows⟩
      exact hsorted.accords.said (spoke_perform .push _) (sortsStand_of_sortless rfl _)
  | pop =>
      refine ⟨⟨hsorted.upholds.pop hfine, ?_, nofun, nofun⟩, hknows⟩
      exact hsorted.accords.said (spoke_perform .pop _) (sortsStand_of_sortless rfl _)
  | sync => exact ⟨hsorted.sync hfine, hknows⟩
  | read => exact ⟨hsorted.read hfine, hknows⟩
  | checkSat => exact ⟨hsorted.checkSat hfine, hknows⟩
  | prove env e =>
      have hlines : KnowsSorts (c.step (.prove env e)).lines := by
        intro sort line hline
        change (if _ then _ else _) = _ at hline
        split at hline
        · exact hknows sort line hline
        · exact knowsSorts_declarations env e sort line hline
      have hcalled :
          c.session.Sorted fine (c.step (.prove env e)).lines (env.declarations e) [] := by
        refine ⟨hsorted.upholds.congr fun other hother => if_pos hother, hsorted.accords,
          fun d hd hkey => ?_, nofun⟩
        change (if _ then _ else _) = _
        rw [hkey, Env.lookup_declarations hd]
        rfl
      have hproved := hcalled.prove hfine hlines
      exact ⟨⟨hproved.upholds, hproved.accords, nofun, nofun⟩, hlines⟩
  | stop | write line | declareGlobal key line => exact hroutine.elim
  | pushPop body failure => exact hsimple.elim

namespace Session

variable {τ ω : Type} [Transport τ ω] {fine : ω → Prop}

/-- Every sort that is used is declared. Whatever the solver answers, a host that launches it once,
opens and leaves scopes and runs what it likes, so that no line fails that leaves a scope, sends no
line that declares a constant or a function with a sort that is not the solver's own, unless a line
before has declared the sort in a scope that is still open. -/
theorem sorts_declared (hfine : IsReliable τ fine) {world : ω} (hworld : fine world)
    {ss : List Step} (hss : Step.AllIn Step.IsRoutine ss) {before after : List String}
    {line : String}
    (hsent : (Host.steps ss { session := { world } : Host τ ω }).2.session.transcript.toList =
      before ++ line :: after) {sort : String} (hsort : sort ∈ sortsNamed line) :
    sort = "Int" ∨ sort = "Bool" ∨
      (Command.declareSort sort).line ∈ (before.foldl standing [[]]).flatten := by
  have hkept : Chronicle.IsKept Step.IsRoutine (fun c : Chronicle τ ω =>
      c.session.Sorted fine c.lines [] [] ∧ KnowsSorts c.lines) :=
    ⟨fun _ _ hsimple hroutine hc => Chronicle.sorted_step hfine hsimple hroutine hc, trivial,
      trivial⟩
  have hnew : (Chronicle.new world : Chronicle τ ω).session.Sorted fine (fun _ => none) [] [] :=
    ⟨upholds_new hworld, trivial, nofun, nofun⟩
  obtain ⟨hsorted, -⟩ := hkept.steps ss (.new world) hss ⟨hnew, nofun⟩
  rw [Chronicle.session_steps ss (.new world) _ rfl] at hsent
  exact hsorted.accords.of_split hsent sort hsort

/-- A value of a type of its own, which an expression gives another name. -/
def renamedEnv : Env := .ofList [("x", .value (.con "Foo"))]

def renamed : Expr := .letIn "y" (.var "x" (.con "Foo")) (.int 1)

theorem depthLimit_renamed : Checker.depthLimit renamedEnv renamed = 0x100002 := by
  rw [Checker.depthLimit, show renamed.calls = [] from rfl, Env.reachDepth,
    show renamed.walkDepth = 2 from rfl, Checker.circleDepth]

def renamedSteps : List Step :=
  [.start, .push, .prove renamedEnv renamed, .pop, .prove renamedEnv renamed]

/-- The lines of both runs, the first in a scope that is left again, up to the second `let`. -/
def renamedLines : List String := [
  "(set-option :global-declarations false)", "(push 1)", "(declare-sort foo 0)",
  "(declare-const x foo)", "(push 1)", "(declare-const y foo)", "(assert (= y x))", "(pop 1)",
  "(echo \"refine-sync\")", "(pop 1)", "(declare-sort foo 0)", "(declare-const x foo)", "(push 1)"]

open Scripted in
/-- The second run declares its sort anew, since that of the first went with its scope. -/
theorem sorts_declared_renamed :
    (Command.declareSort "foo").line ∈ (renamedLines.foldl standing [[]]).flatten := by
  have hsent : (Host.steps renamedSteps
      ({ session := { world := {} } } : Host Solver Script)).2.session.transcript.toList =
        renamedLines ++ "(declare-const y foo)" ::
          ["(assert (= y x))", "(pop 1)", "(echo \"refine-sync\")"] := by
    simp only [renamedSteps, Host.steps, Host.step, prove_eq_proveWithin depthLimit_renamed]
    decide +kernel
  have hsort : "foo" ∈ sortsNamed "(declare-const y foo)" := by decide +kernel
  have hroutine : Step.AllIn Step.IsRoutine renamedSteps :=
    ⟨trivial, trivial, trivial, trivial, trivial, trivial⟩
  have hpop : Command.pop.line ∉ ({} : Script).failSend := List.not_mem_nil
  have hdeclared := sorts_declared isReliable hpop hroutine hsent hsort
  exact (hdeclared.resolve_left (by decide)).resolve_left (by decide)

end Session

end ContractCheck
