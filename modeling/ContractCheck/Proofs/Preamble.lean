import ContractCheck.Proofs.Legibility
import ContractCheck.Proofs.Simulation

/-!
The global declarations of a run. They can be read back, since the sorts that a run mentions are
sorts of types that have names (`isLegible_of_mem_declarations`), and what they declare is modelled
by the globals as they are (`Interpretation.satisfies_declarations`).
-/

namespace ContractCheck

open Smt

/-- The name of an uninterpreted sort of some type. -/
def NamesSort (name : String) : Prop := ∃ ty, SolverSort.of? ty = some (.named name)

theorem namesSort_of_mem_ownSort {ty : Ty} {name : String} (h : name ∈ ty.ownSort) :
    NamesSort name := by
  unfold Ty.ownSort at h
  rw [Option.mem_toList, Option.bind_eq_some_iff] at h
  obtain ⟨sort, hsort, hname⟩ := h
  cases sort with
  | int => cases hname
  | bool => cases hname
  | named found =>
      cases hname
      exact ⟨ty, hsort⟩

mutual

theorem Ty.namesSort : ∀ {t : Ty} {name : String}, name ∈ t.sortsUsed → NamesSort name
  | .con _, _, h => namesSort_of_mem_ownSort (by rwa [Ty.sortsUsed] at h)
  | .app _ _, _, h => namesSort_of_mem_ownSort (by rwa [Ty.sortsUsed] at h)
  | .arrow params ret, _, h => by
      rw [Ty.sortsUsed] at h
      exact (List.mem_append.1 h).elim RefinedTy.namesSort_all RefinedTy.namesSort
  | .var _, _, h => by
      rw [Ty.sortsUsed] at h
      cases h

theorem RefinedTy.namesSort : ∀ {t : RefinedTy} {name : String}, name ∈ t.sortsUsed →
    NamesSort name
  | .plain ty, _, h => Ty.namesSort (by rwa [RefinedTy.sortsUsed] at h)
  | .refined ty refinement, _, h => by
      rw [RefinedTy.sortsUsed] at h
      exact (List.mem_append.1 h).elim Ty.namesSort Refinement.namesSort

theorem RefinedTy.namesSort_all : ∀ {ts : List RefinedTy} {name : String},
    name ∈ RefinedTy.sortsUsedAll ts → NamesSort name
  | [], _, h => by
      rw [RefinedTy.sortsUsedAll] at h
      cases h
  | t :: ts, _, h => by
      rw [RefinedTy.sortsUsedAll] at h
      exact (List.mem_append.1 h).elim RefinedTy.namesSort RefinedTy.namesSort_all

theorem Refinement.namesSort : ∀ {r : Refinement} {name : String}, name ∈ r.sortsUsed →
    NamesSort name
  | .bind _, _, h => by
      rw [Refinement.sortsUsed] at h
      cases h
  | .holds _ pred, _, h => Expr.namesSort (by rwa [Refinement.sortsUsed] at h)
  | .equals _ value, _, h => Expr.namesSort (by rwa [Refinement.sortsUsed] at h)

theorem Expr.namesSort : ∀ {e : Expr} {name : String}, name ∈ e.sortsUsed → NamesSort name
  | ⟨ty, shape, span⟩, _, h => by
      rw [Expr.sortsUsed] at h
      exact (List.mem_append.1 h).elim Ty.namesSort Shape.namesSort

theorem Expr.namesSort_all : ∀ {es : List Expr} {name : String}, name ∈ Expr.sortsUsedAll es →
    NamesSort name
  | [], _, h => by
      rw [Expr.sortsUsedAll] at h
      cases h
  | e :: es, _, h => by
      rw [Expr.sortsUsedAll] at h
      exact (List.mem_append.1 h).elim Expr.namesSort Expr.namesSort_all

theorem Shape.namesSort : ∀ {s : Shape} {name : String}, name ∈ s.sortsUsed → NamesSort name
  | .var _, _, h | .bool _, _, h | .int _, _, h => by
      rw [Shape.sortsUsed] at h
      cases h
  | .call callee args, _, h => by
      rw [Shape.sortsUsed] at h
      exact (List.mem_append.1 h).elim Expr.namesSort Expr.namesSort_all
  | .letIn _ value body, _, h => by
      rw [Shape.sortsUsed] at h
      exact (List.mem_append.1 h).elim Expr.namesSort Expr.namesSort
  | .ite test onTrue onFalse, _, h => by
      rw [Shape.sortsUsed] at h
      rcases List.mem_append.1 h with h | h
      · exact (List.mem_append.1 h).elim Expr.namesSort Expr.namesSort
      · exact Expr.namesSort h
  | .lambda _ body, _, h => Expr.namesSort (by rwa [Shape.sortsUsed] at h)
  | .cast expr target, _, h => by
      rw [Shape.sortsUsed] at h
      exact (List.mem_append.1 h).elim Expr.namesSort RefinedTy.namesSort

end

theorem mem_toList_iff {s : NameSet} {name : String} :
    name ∈ s.toList ↔ s.contains name = true := by
  unfold NameSet.toList NameMap.names NameMap.contains
  rw [Option.isSome_iff_exists, List.mem_map]
  constructor
  · rintro ⟨⟨found, value⟩, hentry, rfl⟩
    exact ⟨value, NameMap.get?_eq_some_iff.2 hentry⟩
  · rintro ⟨value, hvalue⟩
    exact ⟨(name, value), NameMap.get?_eq_some_iff.1 hvalue, rfl⟩

theorem mem_ofNames_iff {names : List String} {name : String} :
    name ∈ (NameSet.ofNames names).toList ↔ name ∈ names := by
  have hfold : ∀ s : NameSet, (names.foldl NameSet.add s).contains name = true ↔
      s.contains name = true ∨ name ∈ names := by
    induction names with
    | nil => simp
    | cons first rest ih =>
        intro s
        rw [List.foldl_cons, ih, NameSet.add, NameMap.contains_insert, Bool.or_eq_true,
          beq_iff_eq, List.mem_cons, or_assoc, @eq_comm _ first]
  rw [mem_toList_iff, NameSet.ofNames, hfold]
  simp [NameMap.contains]

theorem namesSort_of_mem_sortsOfRun {env : Env} {e : Expr} {name : String}
    (h : name ∈ (sortsOfRun env e).toList) : NamesSort name := by
  rcases List.mem_append.1 (mem_ofNames_iff.1 h) with h | h
  · obtain ⟨entry, -, h⟩ := List.mem_flatMap.1 h
    exact RefinedTy.namesSort h
  · exact Expr.namesSort h

theorem isWord_of_namesSort {name : String} (h : NamesSort name) (hne : name ≠ "") :
    SExpr.IsWord name := by
  obtain ⟨ty, hty⟩ := h
  refine (SolverSort.isWritable_of_of? hty ?_).word
  intro heq
  exact hne (SolverSort.named.inj heq)

theorem SolverSort.mapM_of_eq_ok_iff {params : List RefinedTy} {domain : List SolverSort} :
    params.mapM (fun p => SolverSort.of p.ty) = .ok domain ↔
      params.mapM (fun p => SolverSort.of? p.ty) = some domain := by
  induction params generalizing domain with
  | nil =>
      rw [List.mapM_nil, List.mapM_nil]
      simp [pure, Except.pure]
  | cons param rest ih =>
      rw [List.mapM_cons, List.mapM_cons]
      cases hof : SolverSort.of? param.ty with
      | none => simp [SolverSort.of, hof, bind, Except.bind]
      | some sort =>
          rw [SolverSort.of_eq_ok_iff.2 hof]
          cases hrest : rest.mapM fun p => SolverSort.of? p.ty with
          | none =>
              cases hrest' : rest.mapM fun p => SolverSort.of p.ty with
              | error failure => simp [bind, Except.bind]
              | ok sorts => simp [ih.1 hrest'] at hrest
          | some sorts =>
              rw [ih.2 hrest]
              simp [bind, Except.bind, pure, Except.pure]

/-- A sort that a type mentions has a name if all types do. -/
theorem SolverSort.isWritable_of_mem {ty : Ty} {sort : SolverSort} {used : List String}
    (hused : ∀ name ∈ ty.sortsUsed, name ∈ used) (hne : "" ∉ used)
    (h : SolverSort.of? ty = some sort) : sort.IsWritable := by
  refine SolverSort.isWritable_of_of? h ?_
  rintro rfl
  exact hne (hused _ (SolverSort.of?_eq_named h).2)

theorem RefinedTy.mem_sortsUsed_of_ty {t : RefinedTy} {name : String}
    (h : name ∈ t.ty.sortsUsed) : name ∈ t.sortsUsed := by
  cases t with
  | plain ty =>
      rw [RefinedTy.sortsUsed]
      exact h
  | refined ty refinement =>
      rw [RefinedTy.sortsUsed]
      exact List.mem_append_left _ h

theorem RefinedTy.mem_sortsUsedAll {t : RefinedTy} {ts : List RefinedTy} {name : String}
    (ht : t ∈ ts) (h : name ∈ t.sortsUsed) : name ∈ RefinedTy.sortsUsedAll ts := by
  induction ts with
  | nil => cases ht
  | cons first rest ih =>
      rw [RefinedTy.sortsUsedAll]
      rcases List.mem_cons.1 ht with rfl | ht
      · exact List.mem_append_left _ h
      · exact List.mem_append_right _ (ih ht)

theorem exists_of_forall₂ {α β : Type} {R : α → β → Prop} {l : List α} {l' : List β} {b : β}
    (h : List.Forall₂ R l l') (hb : b ∈ l') : ∃ a ∈ l, R a b := by
  induction h with
  | nil => cases hb
  | @cons a _ l _ hab _ ih =>
      rcases List.mem_cons.1 hb with rfl | hb
      · exact ⟨a, List.mem_cons_self, hab⟩
      · obtain ⟨a', ha', hR⟩ := ih hb
        exact ⟨a', List.mem_cons_of_mem _ ha', hR⟩

/-- The sorts of a function's rank can be written down. -/
theorem Signature.isWritable_of_rank? {sig : Signature} {params : List RefinedTy}
    {ret : RefinedTy} {rank : Rank} (hne : "" ∉ sig.ty.sortsUsed)
    (harrow : sig.ty.ty.arrow? = some (params, ret)) (hrank : sig.rank? = some rank) :
    (∀ sort ∈ rank.domain, sort.IsWritable) ∧ rank.range.IsWritable := by
  obtain ⟨hdomain, hrange⟩ := Signature.rank?_eq_some harrow hrank
  have harrow' : sig.ty.ty.sortsUsed = RefinedTy.sortsUsedAll params ++ ret.sortsUsed := by
    rw [Ty.arrow?_eq_some_iff.1 harrow, Ty.sortsUsed]
  have hne' : "" ∉ RefinedTy.sortsUsedAll params ++ ret.sortsUsed := by
    rw [← harrow']
    exact fun h => hne (RefinedTy.mem_sortsUsed_of_ty h)
  constructor
  · intro sort hsort
    have hall := forall₂_of_mapM_eq_some hdomain
    obtain ⟨param, hparam, hof⟩ := exists_of_forall₂ hall hsort
    refine SolverSort.isWritable_of_mem (fun name hname => ?_) hne' hof
    exact List.mem_append_left _
      (RefinedTy.mem_sortsUsedAll hparam (RefinedTy.mem_sortsUsed_of_ty hname))
  · exact SolverSort.isWritable_of_mem
      (fun name hname => List.mem_append_right _ (RefinedTy.mem_sortsUsed_of_ty hname)) hne' hrange

/-- A global that has a rank is declared with it. -/
theorem Signature.globalDeclaration_of_globalRank? (name : String) {sig : Signature} {rank : Rank}
    (h : sig.globalRank? = some rank) :
    ∃ key c, sig.globalDeclaration name = .ok (.declare key c) := by
  unfold Signature.globalRank? at h
  unfold Signature.globalDeclaration
  cases horigin : sig.origin with
  | builtin =>
      rw [horigin] at h
      cases h
  | primitive =>
      rw [horigin] at h
      cases h
  | value =>
      rw [horigin] at h
      obtain ⟨sort, hsort, -⟩ := Option.map_eq_some_iff.1 h
      simp only [hsort]
      exact ⟨_, _, rfl⟩
  | uninterpreted =>
      simp only [horigin] at h ⊢
      cases harrow : sig.ty.ty.arrow? with
      | none => simp [Signature.rank?, harrow] at h
      | some arrow =>
          obtain ⟨params, ret⟩ := arrow
          obtain ⟨hdomain, hrange⟩ := Signature.rank?_eq_some harrow h
          have hdomain' := SolverSort.mapM_of_eq_ok_iff.2 hdomain
          have hrange' := SolverSort.of_eq_ok_iff.2 hrange
          simp only [hdomain', hrange']
          exact ⟨_, _, rfl⟩

/-- What the declaration of a global declares, and that it can be read back. -/
theorem Signature.entry?_of_globalDeclaration {name key : String} {sig : Signature} {c : Command}
    (hne : "" ∉ sig.ty.sortsUsed) (hname : sig.globalRank?.isSome = true → isPlainName name = true)
    (h : sig.globalDeclaration name = .ok (.declare key c)) :
    ∃ rank, sig.globalRank? = some rank ∧ c.entry? = some (.symbol name rank) ∧ c.IsLegible := by
  rcases Signature.globalDeclaration_declare h with ⟨sort, horigin, hof, -, rfl⟩ |
    ⟨params, ret, domain, range, horigin, harrow, hdomain, hrange, -, rfl⟩
  · have hrank : sig.globalRank? = some ⟨[], sort⟩ := by
      rw [Signature.globalRank?, horigin, hof]
      rfl
    have hsort : sort.IsWritable :=
      SolverSort.isWritable_of_mem (fun _ hname => RefinedTy.mem_sortsUsed_of_ty hname) hne hof
    refine ⟨_, hrank, ?_, isWord_of_isPlainName (hname (by rw [hrank]; rfl)), hsort.word⟩
    rw [Command.entry?, hsort.sortOf]
  · have hdomain' := SolverSort.mapM_of_eq_ok_iff.1 hdomain
    have hrange' := SolverSort.of_eq_ok_iff.1 hrange
    have hrank : sig.rank? = some ⟨domain, range⟩ := by
      rw [Signature.rank?, harrow]
      simp only [hdomain', hrange', Option.bind_some, Option.map_some]
    have hglobal : sig.globalRank? = some ⟨domain, range⟩ := by
      rw [Signature.globalRank?, horigin, hrank]
    obtain ⟨hsorts, hsort⟩ := Signature.isWritable_of_rank? hne harrow hrank
    have hdisplay : (domain.map SolverSort.display).map sortOf = domain := by
      have hsame : domain.map (sortOf ∘ SolverSort.display) = domain.map id :=
        List.map_congr_left fun sort hsort => (hsorts sort hsort).sortOf
      rw [List.map_map, hsame, List.map_id]
    refine ⟨_, hglobal, ?_, isWord_of_isPlainName (hname (by rw [hglobal]; rfl)), ?_, hsort.word⟩
    · rw [Command.entry?, hdisplay, hsort.sortOf]
    · intro text htext
      obtain ⟨sort, hmem, rfl⟩ := List.mem_map.1 htext
      exact (hsorts sort hmem).word

theorem Signature.declared?_of_globalDeclaration {name key : String} {sig : Signature} {c : Command}
    (h : sig.globalDeclaration name = .ok (.declare key c)) : c.declared? = some name := by
  rcases Signature.globalDeclaration_declare h with ⟨_, -, -, -, rfl⟩ |
    ⟨_, _, _, _, -, -, -, -, -, rfl⟩
  · rfl
  · rfl

theorem mem_declarations_iff {env : Env} {e : Expr} {c : Command} :
    c ∈ (env.declarations e).map (·.2) ↔
      (∃ sort ∈ (sortsOfRun env e).toList, c = .declareSort sort) ∨
      ∃ name sig key, env.get? name = some sig ∧
        sig.globalDeclaration name = .ok (.declare key c) := by
  simp only [Env.declarations, List.map_append, List.mem_append]
  refine or_congr ?_ ?_
  · simp [sortDeclarations, eq_comm]
  · constructor
    · intro h
      obtain ⟨d, hd, rfl⟩ := List.mem_map.1 h
      obtain ⟨⟨name, sig⟩, hentry, hd⟩ := List.mem_flatMap.1 hd
      unfold Signature.declarations at hd
      split at hd
      · rename_i key command hdeclare
        rw [List.mem_singleton.1 hd]
        exact ⟨name, sig, key, NameMap.get?_eq_some_iff.2 hentry, hdeclare⟩
      · cases hd
    · rintro ⟨name, sig, key, hsig, hdeclare⟩
      refine List.mem_map.2 ⟨(key, c), ?_, rfl⟩
      refine List.mem_flatMap.2 ⟨(name, sig), NameMap.get?_eq_some_iff.1 hsig, ?_⟩
      simp [Signature.declarations, hdeclare]

section

variable {env : Env} {e : Expr}

theorem not_mem_sortsUsed (htypes : "" ∉ (sortsOfRun env e).toList) {name : String}
    {sig : Signature} (hsig : env.get? name = some sig) : "" ∉ sig.ty.sortsUsed := by
  intro h
  refine htypes (mem_ofNames_iff.2 (List.mem_append_left _ ?_))
  exact List.mem_flatMap.2 ⟨(name, sig), NameMap.get?_eq_some_iff.1 hsig, h⟩

theorem isLegible_of_mem_declarations (hnames : env.IsPlain)
    (htypes : "" ∉ (sortsOfRun env e).toList) {c : Command}
    (h : c ∈ (env.declarations e).map (·.2)) : c.IsLegible := by
  rcases mem_declarations_iff.1 h with ⟨sort, hsort, rfl⟩ | ⟨name, sig, key, hsig, hdeclare⟩
  · refine isWord_of_namesSort (namesSort_of_mem_sortsOfRun hsort) ?_
    rintro rfl
    exact htypes hsort
  · obtain ⟨-, -, -, hlegible⟩ := Signature.entry?_of_globalDeclaration
      (not_mem_sortsUsed htypes hsig) (hnames name sig hsig) hdeclare
    exact hlegible

end

variable {carrier : String → Type}

/-- The model that interprets the globals of an environment, and nothing else. -/
def Interpretation.model (I : Interpretation carrier) (env : Env) : Model carrier where
  symbol name args := (env.get? name).bind fun sig => sig.globalRank?.bind fun rank =>
    if args.map Value.sort = rank.domain then
      some (if sig.origin = .value then I.constant name else I.function name args)
    else none
  byZero := I.byZero

section

variable {I : Interpretation carrier} {env : Env} {e : Expr}

theorem Interpretation.symbol_model {name : String} {sig : Signature} {rank : Rank}
    {args : List (Value carrier)} (hsig : env.get? name = some sig)
    (hrank : sig.globalRank? = some rank) (hsorts : args.map Value.sort = rank.domain) :
    (I.model env).symbol name args =
      some (if sig.origin = .value then I.constant name else I.function name args) := by
  simp only [Interpretation.model, hsig, hrank, Option.bind_some, if_pos hsorts]

theorem knows_model (hnames : env.IsPlain) : Knows env I (I.model env) where
  constant name sort hsort := by
    obtain ⟨sig, hsig, horigin, hrank⟩ := Env.globalRank?_of_valueSort? hsort
    have hplain := hnames name sig hsig (by rw [hrank]; rfl)
    refine ⟨isOwn_of_isPlainName hplain, ?_⟩
    rw [Interpretation.symbol_model hsig hrank List.map_nil, if_pos horigin]
  function name sig rank hsig horigin hrank := by
    have hglobal : sig.globalRank? = some rank := by rw [Signature.globalRank?, horigin, hrank]
    have hplain := hnames name sig hsig (by rw [hglobal]; rfl)
    refine ⟨isOwn_of_isPlainName hplain, fun vs hsorts => ?_⟩
    rw [Interpretation.symbol_model hsig hglobal hsorts, if_neg (by rw [horigin]; decide)]
  byZero := rfl

/-- A value of the model has the sort that its symbol is declared with. -/
theorem Interpretation.Fits.sort_model (hI : I.Fits env) {name : String}
    {args : List (Value carrier)} {v : Value carrier}
    (h : (I.model env).symbol name args = some v) : ∃ sig rank, env.get? name = some sig ∧
      sig.globalRank? = some rank ∧ args.map Value.sort = rank.domain ∧ v.sort = rank.range := by
  obtain ⟨sig, hsig, h⟩ := Option.bind_eq_some_iff.1 h
  obtain ⟨rank, hrank, h⟩ := Option.bind_eq_some_iff.1 h
  split at h
  · rename_i hsorts
    refine ⟨sig, rank, hsig, hrank, hsorts, ?_⟩
    obtain rfl := Option.some.inj h
    cases horigin : sig.origin with
    | builtin => simp [Signature.globalRank?, horigin] at hrank
    | primitive => simp [Signature.globalRank?, horigin] at hrank
    | value =>
        rw [Signature.globalRank?, horigin] at hrank
        obtain ⟨sort, hsort, rfl⟩ := Option.map_eq_some_iff.1 hrank
        rw [if_pos rfl]
        refine hI.constant name sort ?_
        rw [Env.valueSort?, hsig, Option.bind_some, if_pos horigin, hsort]
    | uninterpreted =>
        rw [Signature.globalRank?, horigin] at hrank
        rw [if_neg (by decide)]
        exact hI.function name sig rank hsig horigin hrank args hsorts
  · cases h

/-- Where only the declarations of a run were made, the globals as they are form a model. -/
theorem Interpretation.satisfies_declarations (hI : I.Fits env) (hnames : env.IsPlain)
    (htypes : "" ∉ (sortsOfRun env e).toList) {entries : List Entry}
    (hentries : ∀ entry, entry ∈ entries ↔
      ∃ c ∈ (env.declarations e).map (·.2), c.entry? = some entry) :
    (I.model env).Satisfies entries where
  total name rank hmem args hsorts := by
    obtain ⟨c, hc, hentry⟩ := (hentries _).1 hmem
    rcases mem_declarations_iff.1 hc with ⟨sort, -, rfl⟩ | ⟨found, sig, key, hsig, hdeclare⟩
    · cases hentry
    · obtain ⟨rank', hrank, hentry', -⟩ := Signature.entry?_of_globalDeclaration
        (not_mem_sortsUsed htypes hsig) (hnames found sig hsig) hdeclare
      cases hentry.symm.trans hentry'
      exact ⟨_, Interpretation.symbol_model hsig hrank hsorts⟩
  typed name args v hv := by
    obtain ⟨sig, rank, hsig, hrank, hsorts, hsort⟩ := hI.sort_model hv
    obtain ⟨key, c, hdeclare⟩ := Signature.globalDeclaration_of_globalRank? name hrank
    obtain ⟨rank', hrank', hentry, -⟩ := Signature.entry?_of_globalDeclaration
      (not_mem_sortsUsed htypes hsig) (hnames name sig hsig) hdeclare
    obtain rfl := Option.some.inj (hrank.symm.trans hrank')
    refine ⟨rank, (hentries _).2 ⟨c, ?_, hentry⟩, hsorts, hsort⟩
    exact mem_declarations_iff.2 (.inr ⟨name, sig, key, hsig, hdeclare⟩)
  holds t hmem := by
    obtain ⟨c, hc, hentry⟩ := (hentries _).1 hmem
    rcases mem_declarations_iff.1 hc with ⟨sort, -, rfl⟩ | ⟨found, sig, key, hsig, hdeclare⟩
    · cases hentry
    · obtain ⟨rank', -, hentry', -⟩ := Signature.entry?_of_globalDeclaration
        (not_mem_sortsUsed htypes hsig) (hnames found sig hsig) hdeclare
      cases hentry.symm.trans hentry'

end

end ContractCheck
