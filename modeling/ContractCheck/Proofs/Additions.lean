import ContractCheck.Proofs.Reach
import ContractCheck.Proofs.Settled

/-!
What a signature adds to the declarations of a run that has nothing to do with it
(`Env.Unrelated`): itself, and those of its sorts that nothing else mentions. The solver tells these
from all else that the run declares (`Env.Unrelated.eq_of_word`, `Env.Unrelated.not_addsWord`), and
without them the declarations are those of the run without the signature.
-/

namespace ContractCheck

open Scripted

namespace Dialogue

variable {α : Type} {names names' : String → Prop} {post : α → Nat → Prop}

/-- On some course of the dialogue the name is declared. -/
def MayDeclare (n : String) : Dialogue α → Prop
  | .done _ => False
  | .note _ next => next.MayDeclare n
  | .act deed next => (∃ command, deed = .write command ∧ command.declared? = some n) ∨
      ∃ outcome, (next outcome).MayDeclare n
  | .checkSat next => ∃ outcome, (next outcome).MayDeclare n

theorem Obeys.of_mayDeclare {d : Dialogue α} {height : Nat}
    (h : d.Obeys (Rule.tidy names) post height) {n : String} (hn : d.MayDeclare n) : names n := by
  induction d generalizing height with
  | done a => exact hn.elim
  | note text next ih => exact ih h hn
  | act deed next ih =>
      rcases hn with ⟨command, rfl, hname⟩ | ⟨outcome, hn⟩
      · exact h.1.2 n hname
      · exact ih outcome (h.2 outcome) hn
  | checkSat next ih =>
      obtain ⟨outcome, hn⟩ := hn
      exact ih outcome (h outcome) hn

/-- A dialogue is tidy with the names that it declares. -/
theorem Obeys.tidy_of_mayDeclare {d : Dialogue α} {height : Nat}
    (h : d.Obeys (Rule.tidy names) post height) (hd : ∀ n, d.MayDeclare n → names' n) :
    d.Obeys (Rule.tidy names') post height := by
  induction d generalizing height with
  | done a => exact h
  | note text next ih => exact ih h hd
  | act deed next ih =>
      refine ⟨?_, fun outcome => ih outcome (h.2 outcome) fun n hn => hd n (.inr ⟨outcome, hn⟩)⟩
      cases deed with
      | write command => exact ⟨h.1.1, fun n hname => hd n (.inl ⟨command, rfl, hname⟩)⟩
      | push => trivial
      | pop => exact h.1
  | checkSat next ih =>
      exact fun outcome => ih outcome (h outcome) fun n hn => hd n ⟨outcome, hn⟩

end Dialogue

namespace Env

variable {env : Env} {e : Expr}

/-- A `let` of the expression, or of a contract that its calls lead to, binds the name. -/
def LetOf (env : Env) (e : Expr) (n : String) : Prop :=
  n ∈ e.letNames ∨ ∃ caller sig, env.Reaches e.calls caller ∧ env.get? caller = some sig ∧
    n ∈ Expr.letNamesAll sig.clauses

open Classical in
/-- The signatures of all that calls of the names lead to, and no others. -/
noncomputable def reached (env : Env) (names : List String) : Env :=
  env.filter fun n _ => decide (env.Reaches names n)

theorem get?_reached {names : List String} {n : String} {found : Signature} :
    (env.reached names).get? n = some found ↔
      env.get? n = some found ∧ env.Reaches names n := by
  simp [reached, NameMap.get?_filter_eq_some_iff]

theorem agreeOnReached_reached (env : Env) (names : List String) :
    env.AgreeOnReached (env.reached names) names := by
  intro n hn
  exact Option.ext fun found => (get?_reached.trans (and_iff_left hn)).symm

/-- Its lets are lets of the run. -/
theorem letOf_of_mem_reached {n : String} (h : n ∈ (env.reached e.calls).letNames) :
    env.LetOf e n := by
  obtain ⟨⟨caller, found⟩, hentry, hn⟩ := List.mem_flatMap.1 h
  obtain ⟨hfound, hreaches⟩ := get?_reached.1 (NameMap.get?_eq_some_iff.2 hentry)
  exact .inr ⟨caller, found, hreaches, hfound, hn⟩

end Env

namespace Checker

variable {env env' : Env} {e : Expr}

theorem runDialogue_eq_of_agree (h : env.AgreeOnReached env' e.calls) :
    runDialogue env e = runDialogue env' e := by
  unfold runDialogue
  rw [check_eq_of_agree_reached h]

/-- What the checker declares are fresh variables, and lets of what it comes to. -/
theorem letOf_or_isFresh_of_mayDeclare {n : String} (h : (runDialogue env e).MayDeclare n) :
    env.LetOf e n ∨ IsFresh n := by
  rw [runDialogue_eq_of_agree (env.agreeOnReached_reached e.calls)] at h
  have htidy : (runDialogue (env.reached e.calls) e).Obeys
      (Rule.tidy fun n => env.LetOf e n ∨ IsFresh n) (fun _ height => height = 0) 0 :=
    tidy_run (fun _ hn => .inr hn) (fun _ hn => .inl (Env.letOf_of_mem_reached hn))
      (fun _ hn => .inl (.inl hn)) 0
  exact htidy.of_mayDeclare h

end Checker

/-- If it is a function that the solver knows by name, its parameters and its return have sorts. -/
def Signature.IsDeclarable (sig : Signature) : Prop :=
  sig.origin = .uninterpreted → ∃ params ret, sig.ty.ty.arrow? = some (params, ret) ∧
    ∀ t ∈ params ++ [ret], (SolverSort.of? t.ty).isSome = true

namespace Env

/-- A run of the expression may give the name to what it declares, sorts aside: to a global, a let
or a fresh variable. -/
def MayDeclare (env : Env) (e : Expr) (n : String) : Prop :=
  (∃ sig, env.get? n = some sig ∧ sig.declarations n ≠ []) ∨
    (Checker.runDialogue env e).MayDeclare n

/-- The signature is new to the environment, the calls of the expression do not lead to it, and it
can be declared. The solver does not take its name for that of a sort, a global, a let or a fresh
variable of the run, nor one of its own sorts for a global, a let or a fresh variable. -/
structure Unrelated (env : Env) (e : Expr) (name : String) (sig : Signature) : Prop where
  new : env.get? name = none
  uncalled : ¬ env.Reaches e.calls name
  declarable : sig.IsDeclarable
  sorts : ∀ sort ∈ (sortsOfRun (env.insert name sig) e).toList, sort ≠ firstWord name
  names : ∀ n, env.MayDeclare e n → firstWord n ≠ firstWord name
  ownSorts : ∀ sort ∈ sig.ty.sortsUsed, ∀ n, env.MayDeclare e n → sort ≠ firstWord n

/-- A declaration that a run makes for the signature alone. -/
def Adds (env : Env) (e : Expr) (name : String) (sig : Signature) (d : String × Command) : Prop :=
  Env.Offers (env.insert name sig) [e] d ∧ ¬ env.Offers [e] d

/-- The solver keeps under this word what is declared for the signature alone. -/
def AddsWord (env : Env) (e : Expr) (name : String) (sig : Signature) (word : String) : Prop :=
  ∃ d, env.Adds e name sig d ∧ declaredName? d.2.line = some word

end Env

section

variable {env : Env} {e : Expr} {name : String} {sig : Signature} {d d' : String × Command}

theorem Signature.exists_globalDeclaration (h : sig.IsDeclarable) (name : String) :
    ∃ declaration, sig.globalDeclaration name = .ok declaration := by
  unfold Signature.globalDeclaration
  cases horigin : sig.origin with
  | builtin => exact ⟨_, rfl⟩
  | primitive => exact ⟨_, rfl⟩
  | value => cases SolverSort.of? sig.ty.ty <;> exact ⟨_, rfl⟩
  | uninterpreted =>
      obtain ⟨params, ret, harrow, hsorts⟩ := h horigin
      rw [List.forall_mem_append, List.forall_mem_singleton] at hsorts
      obtain ⟨range, hrange⟩ := Option.isSome_iff_exists.1 hsorts.2
      have hdomain : ∃ domain, params.mapM (fun p => SolverSort.of? p.ty) = some domain := by
        have hparams := hsorts.1
        clear harrow hsorts
        induction params with
        | nil => exact ⟨[], rfl⟩
        | cons param rest ih =>
            rw [List.forall_mem_cons] at hparams
            obtain ⟨sort, hsort⟩ := Option.isSome_iff_exists.1 hparams.1
            obtain ⟨domain, hrest⟩ := ih hparams.2
            exact ⟨sort :: domain, by simp [List.mapM_cons, hsort, hrest]⟩
      obtain ⟨domain, hdomain⟩ := hdomain
      simp only [harrow, SolverSort.mapM_of_eq_ok_iff.2 hdomain, SolverSort.of_eq_ok_iff.2 hrange]
      exact ⟨_, rfl⟩

/-- The solver keeps a signature under the first word of its name. -/
theorem Signature.word_of_mem_declarations (h : d ∈ sig.declarations name) :
    declaredName? d.2.line = some (firstWord name) := by
  unfold Signature.declarations at h
  split at h
  · rename_i key command hdeclare
    obtain rfl := List.mem_singleton.1 h
    exact declaredName?_line_declare (Signature.declared?_of_globalDeclaration hdeclare)
  · cases h

theorem Signature.eq_of_mem_declarations (h : d ∈ sig.declarations name)
    (h' : d' ∈ sig.declarations name) : d = d' := by
  unfold Signature.declarations at h h'
  split at h
  · rename_i key command hdeclare
    rw [hdeclare] at h'
    rw [List.mem_singleton.1 h, List.mem_singleton.1 h']
  · cases h

namespace Env

theorem offers_iff : env.Offers [e] d ↔
    (∃ sort ∈ (sortsOfRun env e).toList, d = ("sort " ++ sort, .declareSort sort)) ∨
      ∃ n found, env.get? n = some found ∧ d ∈ found.declarations n := by
  have honly : env.Offers [e] d ↔ d ∈ env.declarations e := by
    simp [Env.Offers]
  rw [honly, Env.declarations, List.mem_append]
  refine or_congr ?_ ?_
  · simp [sortDeclarations, eq_comm]
  · rw [signatureDeclarations, List.mem_flatMap, Prod.exists]
    simp only [NameMap.get?_eq_some_iff]

theorem mem_sortsOfRun {sort : String} : sort ∈ (sortsOfRun env e).toList ↔
    (∃ n found, env.get? n = some found ∧ sort ∈ found.ty.sortsUsed) ∨ sort ∈ e.sortsUsed := by
  rw [sortsOfRun, mem_ofNames_iff, List.mem_append, List.mem_flatMap, Prod.exists]
  simp only [NameMap.get?_eq_some_iff]

/-- The signatures are those there were and the new one. -/
theorem get?_insert_eq_some_iff (h : env.get? name = none) {n : String} {found : Signature} :
    (env.insert name sig).get? n = some found ↔
      (n = name ∧ found = sig) ∨ env.get? n = some found := by
  rw [NameMap.get?_insert]
  by_cases hn : n = name
  · rw [if_pos hn, hn, h]
    simp [eq_comm]
  · rw [if_neg hn]
    simp [hn]

theorem mem_sortsOfRun_insert (h : env.get? name = none) {sort : String} :
    sort ∈ (sortsOfRun (env.insert name sig) e).toList ↔
      sort ∈ sig.ty.sortsUsed ∨ sort ∈ (sortsOfRun env e).toList := by
  rw [mem_sortsOfRun, mem_sortsOfRun]
  simp only [get?_insert_eq_some_iff h]
  constructor
  · rintro (⟨n, found, ⟨rfl, rfl⟩ | hfound, hsort⟩ | hsort)
    · exact .inl hsort
    · exact .inr (.inl ⟨n, found, hfound, hsort⟩)
    · exact .inr (.inr hsort)
  · rintro (hsort | ⟨n, found, hfound, hsort⟩ | hsort)
    · exact .inl ⟨name, sig, .inl ⟨rfl, rfl⟩, hsort⟩
    · exact .inl ⟨n, found, .inr hfound, hsort⟩
    · exact .inr hsort

/-- What is declared without the signature is declared with it. -/
theorem Offers.insert (hd : env.Offers [e] d) (h : env.get? name = none) :
    Env.Offers (env.insert name sig) [e] d := by
  rw [offers_iff] at hd ⊢
  rcases hd with ⟨sort, hsort, rfl⟩ | ⟨n, found, hfound, hd⟩
  · exact .inl ⟨sort, (mem_sortsOfRun_insert h).2 (.inr hsort), rfl⟩
  · exact .inr ⟨n, found, (get?_insert_eq_some_iff h).2 (.inr hfound), hd⟩

/-- What is added is a sort of the signature's own, or the signature. -/
theorem Adds.cases (hd : env.Adds e name sig d) (h : env.get? name = none) :
    (∃ sort ∈ sig.ty.sortsUsed, sort ∈ (sortsOfRun (env.insert name sig) e).toList ∧
      d = ("sort " ++ sort, .declareSort sort)) ∨ d ∈ sig.declarations name := by
  obtain ⟨hd, hnot⟩ := hd
  rw [offers_iff] at hd hnot
  rcases hd with ⟨sort, hsort, rfl⟩ | ⟨n, found, hfound, hd⟩
  · rcases (mem_sortsOfRun_insert h).1 hsort with hown | hold
    · exact .inl ⟨sort, hown, hsort, rfl⟩
    · exact absurd (.inl ⟨sort, hold, rfl⟩) hnot
  · rcases (get?_insert_eq_some_iff h).1 hfound with ⟨rfl, rfl⟩ | hfound
    · exact .inr hd
    · exact absurd (.inr ⟨n, found, hfound, hd⟩) hnot

theorem offers_sort_iff {sort : String} :
    env.Offers [e] ("sort " ++ sort, .declareSort sort) ↔ sort ∈ (sortsOfRun env e).toList := by
  refine ⟨fun h => ?_, fun h => offers_iff.2 (.inl ⟨sort, h, rfl⟩)⟩
  rcases offers_iff.1 h with ⟨other, hother, heq⟩ | ⟨n, found, -, hd⟩
  · obtain rfl := Command.declareSort.inj (congrArg Prod.snd heq)
    exact hother
  · exact absurd rfl (Session.sort_append_ne_key hd)

theorem adds_of_sort {sort : String} (hsort : sort ∈ (sortsOfRun (env.insert name sig) e).toList)
    (hnot : sort ∉ (sortsOfRun env e).toList) :
    env.Adds e name sig ("sort " ++ sort, .declareSort sort) :=
  ⟨offers_sort_iff.2 hsort, fun h => hnot (offers_sort_iff.1 h)⟩

theorem adds_of_mem_declarations (h : env.get? name = none) (hd : d ∈ sig.declarations name) :
    env.Adds e name sig d := by
  refine ⟨offers_iff.2 (.inr ⟨name, sig, NameMap.get?_insert_self _ _ _, hd⟩), fun hoffers => ?_⟩
  rcases offers_iff.1 hoffers with ⟨sort, -, rfl⟩ | ⟨n, found, hfound, hd'⟩
  · exact Session.sort_append_ne_key hd rfl
  · obtain rfl := Session.eq_of_key_eq hd hd' rfl
    rw [h] at hfound
    cases hfound

theorem word_of_sort {sort : String} (h : sort ∈ (sortsOfRun env e).toList) :
    declaredName? (Command.declareSort sort).line = some sort := by
  have hmentions : env.Mentions [e] sort := ⟨e, List.mem_singleton_self e, h⟩
  rw [declaredName?_line_declare rfl, hmentions.firstWord_eq]

namespace Unrelated

/-- The solver tells what is added from all else that it is told to declare before the checker
starts. -/
theorem eq_of_word (h : Unrelated env e name sig) (hd : env.Adds e name sig d)
    (hoffers : Env.Offers (env.insert name sig) [e] d')
    (hword : declaredName? d.2.line = declaredName? d'.2.line) : d = d' := by
  rcases hd.cases h.new with ⟨sort, hown, hsort, rfl⟩ | hsig
  · rw [word_of_sort hsort] at hword
    rcases offers_iff.1 hoffers with ⟨sort', hsort', rfl⟩ | ⟨n, found, hfound, hd'⟩
    · obtain rfl := Option.some.inj (hword.trans (word_of_sort hsort'))
      rfl
    · obtain rfl := Option.some.inj (hword.trans (Signature.word_of_mem_declarations hd'))
      rcases (get?_insert_eq_some_iff h.new).1 hfound with ⟨rfl, rfl⟩ | hfound
      · exact absurd rfl (h.sorts _ hsort)
      · exact absurd rfl
          (h.ownSorts _ hown n (.inl ⟨found, hfound, List.ne_nil_of_mem hd'⟩))
  · rw [Signature.word_of_mem_declarations hsig] at hword
    rcases offers_iff.1 hoffers with ⟨sort, hsort, rfl⟩ | ⟨n, found, hfound, hd'⟩
    · exact absurd (Option.some.inj (hword.trans (word_of_sort hsort))).symm (h.sorts _ hsort)
    · rw [Signature.word_of_mem_declarations hd', Option.some.injEq] at hword
      rcases (get?_insert_eq_some_iff h.new).1 hfound with ⟨rfl, rfl⟩ | hfound
      · exact Signature.eq_of_mem_declarations hsig hd'
      · exact absurd hword.symm
          (h.names n (.inl ⟨found, hfound, List.ne_nil_of_mem hd'⟩))

/-- Nor does the checker declare anything under a word that is added. -/
theorem not_addsWord (h : Unrelated env e name sig) {n : String}
    (hn : env.MayDeclare e n) : ¬ env.AddsWord e name sig (firstWord n) := by
  rintro ⟨d, hd, hword⟩
  rcases hd.cases h.new with ⟨sort, hown, hsort, rfl⟩ | hsig
  · exact h.ownSorts sort hown n hn (Option.some.inj ((word_of_sort hsort).symm.trans hword))
  · rw [Signature.word_of_mem_declarations hsig, Option.some.injEq] at hword
    exact h.names n hn hword.symm

/-- What both runs declare has words of its own. -/
theorem not_addsWord_of_offers (h : Unrelated env e name sig) (hd : env.Offers [e] d)
    {word : String} (hword : declaredName? d.2.line = some word) :
    ¬ env.AddsWord e name sig word := by
  rintro ⟨d', hd', hword'⟩
  obtain rfl := h.eq_of_word hd' (hd.insert h.new) (hword'.trans hword.symm)
  exact hd'.2 hd

end Unrelated

/-- The sorts of the run without the signature are among those of the run with it. -/
theorem sortsOfRun_eq_filter (h : env.get? name = none) (sig : Signature) (e : Expr) :
    (sortsOfRun env e).toList =
      (sortsOfRun (env.insert name sig) e).toList.filter (sortsOfRun env e).contains := by
  have hmap : sortsOfRun env e = (sortsOfRun (env.insert name sig) e).filter
      fun sort _ => (sortsOfRun env e).contains sort := by
    refine NameMap.ext_get? fun sort => Option.ext fun _ => ?_
    rw [NameMap.get?_filter_eq_some_iff]
    constructor
    · intro hsort
      have hmem : sort ∈ (sortsOfRun env e).toList :=
        mem_toList_iff.2 (Option.isSome_iff_exists.2 ⟨_, hsort⟩)
      have hwith : sort ∈ (sortsOfRun (env.insert name sig) e).toList :=
        (mem_sortsOfRun_insert h).2 (.inr hmem)
      obtain ⟨_, hwith⟩ := Option.isSome_iff_exists.1 (mem_toList_iff.1 hwith)
      exact ⟨hwith, mem_toList_iff.1 hmem⟩
    · rintro ⟨-, hsort⟩
      obtain ⟨_, hsort⟩ := Option.isSome_iff_exists.1 hsort
      exact hsort
  conv_lhs => rw [hmap]
  unfold NameSet.toList NameMap.names
  rw [List.filter_map]
  rfl

theorem entries_eq_filter (h : env.get? name = none) (sig : Signature) :
    env.entries = (env.insert name sig).entries.filter fun entry => entry.1 != name := by
  have hmap : env = (env.insert name sig).erase name := by
    refine NameMap.ext_get? fun n => ?_
    rw [NameMap.get?_erase, NameMap.get?_insert]
    by_cases hn : n = name
    · rw [if_pos hn, hn, h]
    · rw [if_neg hn, if_neg hn]
  conv_lhs => rw [hmap]
  rfl

end Env

end

end ContractCheck
