import Mathlib.Algebra.GroupWithZero.Nat
import Mathlib.Algebra.Order.BigOperators.Group.List
import Mathlib.Algebra.Order.Group.Nat
import Mathlib.Logic.Relation
import ContractCheck.Proofs.Reach
import ContractCheck.Proofs.Steps

/-!
Contracts that do not lead back to themselves (`Env.IsAcyclic`). Where there are no others, whatever
the walk over an expression goes on to has a smaller measure (`Env.measure_lt`). Signatures that are
added to the prelude keep it so unless the contracts of one of them lead back to it, whatever their
origin (`Env.isAcyclic_union_iff`).
-/

namespace ContractCheck

namespace NameMap

variable {α : Type}

theorem sum_filter_ne (F : String × α → Nat) {l : List (String × α)}
    (hl : l.Pairwise (·.1 < ·.1)) {name : String} {value : α} (h : l.lookup name = some value) :
    (l.map F).sum = F (name, value) + ((l.filter fun e => e.1 != name).map F).sum := by
  induction l with
  | nil => cases h
  | cons head rest ih =>
      obtain ⟨hhead, hrest⟩ := List.pairwise_cons.1 hl
      rw [lookup_cons] at h
      by_cases hname : name = head.1
      · rw [if_pos hname] at h
        obtain rfl := Option.some.inj h
        have hothers : (rest.filter fun e => e.1 != name) = rest := by
          apply List.filter_eq_self.2
          intro e he
          have hlt := hhead e he
          rw [bne_iff_ne]
          rintro heq
          rw [heq, hname] at hlt
          exact String.lt_irrefl _ hlt
        have hself : (head.1 != name) = false := by simp [hname]
        rw [List.filter_cons, hself, if_neg Bool.false_ne_true, hothers, hname, List.map_cons,
          List.sum_cons]
      · rw [if_neg hname] at h
        have hkept : (head.1 != name) = true := by simpa using Ne.symm hname
        rw [List.filter_cons, if_pos hkept, List.map_cons, List.sum_cons, List.map_cons,
          List.sum_cons, ih hrest h]
        omega

/-- A sum over the entries, one of them apart. -/
theorem sum_erase (F : String × α → Nat) {m : NameMap α} {name : String} {value : α}
    (h : m.get? name = some value) : (m.entries.map F).sum =
      F (name, value) + ((m.erase name).entries.map F).sum :=
  sum_filter_ne F m.sorted h

end NameMap

theorem RefinedTy.mem_clauseExprs {t : RefinedTy} {binder : String} {clause : Clause}
    (h : t.contract? = some (binder, clause)) : clause.expr ∈ t.clauseExprs := by
  rcases t with ty | ⟨ty, binder | ⟨binder, pred⟩ | ⟨binder, value⟩⟩
  · cases h
  · cases h
  · cases h
    exact List.mem_singleton_self pred
  · cases h
    exact List.mem_singleton_self value

theorem RefinedTy.walkDepth_of_mem_clauseExprs {t : RefinedTy} {e : Expr}
    (h : e ∈ t.clauseExprs) : e.walkDepth = t.walkDepth := by
  rcases t with ty | ⟨ty, binder | ⟨binder, pred⟩ | ⟨binder, value⟩⟩
  · cases h
  · cases h
  · obtain rfl := List.mem_singleton.1 h
    rw [RefinedTy.walkDepth, Refinement.walkDepth]
  · obtain rfl := List.mem_singleton.1 h
    rw [RefinedTy.walkDepth, Refinement.walkDepth]

theorem RefinedTy.calls_of_mem_clauseExprs {t : RefinedTy} {e : Expr} (h : e ∈ t.clauseExprs)
    {name : String} (hname : name ∈ e.calls) : name ∈ t.calls := by
  rcases t with ty | ⟨ty, binder | ⟨binder, pred⟩ | ⟨binder, value⟩⟩
  · cases h
  · cases h
  · obtain rfl := List.mem_singleton.1 h
    rwa [RefinedTy.calls, Refinement.calls]
  · obtain rfl := List.mem_singleton.1 h
    rwa [RefinedTy.calls, Refinement.calls]

namespace Env

variable {env : Env} {names names' : List String}

theorem not_reaches_nil (name : String) : ¬ env.Reaches [] name := by
  intro h
  induction h with
  | called h => cases h
  | contract _ _ _ ih => exact ih

/-- A name without a signature leads nowhere. -/
theorem reaches_cons_of_none {name : String} (h : env.get? name = none) {other : String} :
    env.Reaches (name :: names) other ↔ other = name ∨ env.Reaches names other := by
  constructor
  · intro hother
    induction hother with
    | called hmem => exact (List.mem_cons.1 hmem).imp_right .called
    | contract _ hsig hname ih =>
        rcases ih with rfl | ih
        · rw [h] at hsig
          cases hsig
        · exact .inr (.contract ih hsig hname)
  · rintro (rfl | hother)
    · exact .called List.mem_cons_self
    · exact hother.mono fun _ hmem => List.mem_cons_of_mem _ hmem

/-- A name leads to what its contracts call, and they need not lead to it again. -/
theorem reaches_cons_of_some {name : String} {sig : Signature} (h : env.get? name = some sig)
    {other : String} : env.Reaches (name :: names) other ↔
      other = name ∨ Env.Reaches (env.erase name) (sig.clauseCalls ++ names) other := by
  constructor
  · intro hother
    induction hother with
    | called hmem =>
        exact (List.mem_cons.1 hmem).imp_right fun hmem => .called (List.mem_append_right _ hmem)
    | @contract caller called found _ hfound hcalled ih =>
        right
        by_cases hcaller : caller = name
        · rw [hcaller, h] at hfound
          cases hfound
          exact .called (List.mem_append_left _ hcalled)
        · refine .contract (ih.resolve_left hcaller) ?_ hcalled
          rw [NameMap.get?_erase, if_neg hcaller, hfound]
  · rintro (rfl | hother)
    · exact .called List.mem_cons_self
    · refine hother.of_erase.trans fun called hcalled => ?_
      rcases List.mem_append.1 hcalled with hcalled | hcalled
      · exact .contract (.called List.mem_cons_self) h hcalled
      · exact .called (List.mem_cons_of_mem _ hcalled)

open Classical in
/-- What an entry adds to the depth of all contracts that calls of the names lead to. -/
noncomputable def depthIfReached (env : Env) (names : List String) (entry : String × Signature) :
    Nat := if env.Reaches names entry.1 then entry.2.clauseDepth else 0

theorem depthIfReached_le (h : ∀ name, env.Reaches names name → env.Reaches names' name)
    (entry : String × Signature) :
    env.depthIfReached names entry ≤ env.depthIfReached names' entry := by
  unfold depthIfReached
  by_cases hreached : env.Reaches names entry.1
  · rw [if_pos hreached, if_pos (h _ hreached)]
  · rw [if_neg hreached]
    exact Nat.zero_le _

theorem depthIfReached_congr {env' : Env} {entry : String × Signature}
    (h : env.Reaches names entry.1 ↔ env'.Reaches names' entry.1) :
    env.depthIfReached names entry = env'.depthIfReached names' entry := by
  unfold depthIfReached
  by_cases hreached : env.Reaches names entry.1
  · rw [if_pos hreached, if_pos (h.1 hreached)]
  · rw [if_neg hreached, if_neg (mt h.2 hreached)]

/-- The depths of all functions that calls lead to are added up, each once. -/
theorem reachDepth_eq_sum (env : Env) (names : List String) :
    env.reachDepth names = (env.entries.map (env.depthIfReached names)).sum := by
  induction env, names using reachDepth.induct with
  | case1 env =>
      have hzero : ∀ entry, env.depthIfReached [] entry = 0 := fun entry =>
        if_neg (not_reaches_nil entry.1)
      rw [reachDepth, List.map_congr_left fun entry _ => hzero entry]
      simp
  | case2 env name names hnone ih =>
      rw [reachDepth_cons_of_none hnone, ih]
      congr 1
      apply List.map_congr_left
      intro entry hentry
      have hne : entry.1 ≠ name := by
        intro heq
        have hentry : (name, entry.2) ∈ env.entries := heq ▸ hentry
        rw [NameMap.get?_eq_some_iff.2 hentry] at hnone
        cases hnone
      apply depthIfReached_congr
      rw [reaches_cons_of_none hnone, or_iff_right hne]
  | case3 env name names sig hsig ih =>
      rw [reachDepth_cons_of_some hsig, ih, NameMap.sum_erase _ hsig]
      congr 1
      · exact (if_pos (.called List.mem_cons_self)).symm
      · congr 1
        apply List.map_congr_left
        intro entry hentry
        have hne : entry.1 ≠ name := by
          simpa using (List.mem_filter.1 hentry).2
        apply depthIfReached_congr
        rw [reaches_cons_of_some hsig, or_iff_right hne]

/-- Calls that lead to less have contracts of no greater depth. -/
theorem reachDepth_le (h : ∀ name ∈ names, env.Reaches names' name) :
    env.reachDepth names ≤ env.reachDepth names' := by
  rw [reachDepth_eq_sum, reachDepth_eq_sum]
  apply List.sum_le_sum
  intro entry _
  exact depthIfReached_le (fun name hname => hname.trans h) entry

/-- A contract of the function's parameters or return calls the name. -/
def ContractsCall (env : Env) (f g : String) : Prop :=
  ∃ sig, env.get? f = some sig ∧ g ∈ sig.clauseCalls

/-- No function's contracts lead back to it. -/
def IsAcyclic (env : Env) : Prop := ∀ f, ¬ Relation.TransGen env.ContractsCall f f

/-- What the calls in a function's contracts lead to. -/
theorem transGen_of_reaches {f g : String} {sig : Signature} (hsig : env.get? f = some sig)
    (h : env.Reaches sig.clauseCalls g) : Relation.TransGen env.ContractsCall f g := by
  induction h with
  | called h => exact .single ⟨sig, hsig, h⟩
  | contract _ hcaller hname ih => exact ih.tail ⟨_, hcaller, hname⟩

/-- The contracts of a function are deeper than those that they lead to. -/
theorem clauseDepth_add_reachDepth_le (hacyclic : env.IsAcyclic) {f : String} {sig : Signature}
    (hsig : env.get? f = some sig) (hf : f ∈ names) :
    sig.clauseDepth + env.reachDepth sig.clauseCalls ≤ env.reachDepth names := by
  have hagree : env.AgreeOnReached (env.erase f) sig.clauseCalls := by
    intro name hname
    have hne : name ≠ f := by
      rintro rfl
      exact hacyclic name (transGen_of_reaches hsig hname)
    rw [NameMap.get?_erase, if_neg hne]
  calc sig.clauseDepth + env.reachDepth sig.clauseCalls
      = env.reachDepth [f] := by
        rw [reachDepth_cons_of_some hsig, List.append_nil, reachDepth_eq_of_agree hagree]
    _ ≤ env.reachDepth names := by
        apply reachDepth_le
        intro name hname
        rw [List.mem_singleton.1 hname]
        exact .called hf

/-- How many levels the walk over an expression has at most, if no contracts lead back to
themselves. -/
def measure (env : Env) (e : Expr) : Nat := e.walkDepth + env.reachDepth e.calls

theorem measure_pos (env : Env) (e : Expr) : 0 < env.measure e := by
  have hpos := e.walkDepth_pos
  unfold measure
  omega

/-- What is inside an expression. -/
theorem measure_lt_of_inside {e inside : Expr} (hdepth : inside.walkDepth < e.walkDepth)
    (hcalls : ∀ name ∈ inside.calls, name ∈ e.calls) : env.measure inside < env.measure e := by
  have hle : env.reachDepth inside.calls ≤ env.reachDepth e.calls :=
    reachDepth_le fun name hname => .called (hcalls name hname)
  unfold measure
  omega

/-- What a contract of a callee states. -/
theorem measure_lt_of_clause (hacyclic : env.IsAcyclic) {e clause : Expr} {f : String}
    {sig : Signature} (hsig : env.get? f = some sig) (hf : f ∈ e.calls)
    (hclause : clause ∈ sig.clauses) : env.measure clause < env.measure e := by
  have hdepth : clause.walkDepth ≤ sig.clauseDepth := Expr.walkDepth_le_walkDepthAll hclause
  have hcalls : env.reachDepth clause.calls ≤ env.reachDepth sig.clauseCalls :=
    reachDepth_le fun name hname => .called (Signature.mem_clauseCalls hclause hname)
  have hle := clauseDepth_add_reachDepth_le hacyclic hsig hf
  have hpos := e.walkDepth_pos
  unfold measure
  omega

/-- Whatever a walk goes on to is smaller. -/
theorem measure_lt (hacyclic : env.IsAcyclic) {e next : Expr} (h : next ∈ env.goesOnTo e) :
    env.measure next < env.measure e := by
  obtain ⟨ty, shape, span⟩ := e
  cases shape with
  | var name => cases h
  | bool value => cases h
  | int value => cases h
  | ite test onTrue onFalse => cases h
  | lambda params body => cases h
  | call callee args =>
      rcases List.mem_append.1 h with harg | hclause
      · refine measure_lt_of_inside ?_ fun name hname => ?_
        · have hle := Expr.walkDepth_le_walkDepthAll harg
          rw [Expr.walkDepth, Shape.walkDepth]
          omega
        · rw [Expr.calls, Shape.calls]
          exact List.mem_append_right _ (Expr.mem_callsAll harg hname)
      · obtain ⟨name, hname, hclause⟩ := List.mem_flatMap.1 hclause
        have hcalled : name ∈ Expr.calls ⟨ty, .call callee args, span⟩ := by
          rw [Expr.calls, Shape.calls]
          exact List.mem_append_left _ (List.mem_append_left _ hname)
        cases hsig : env.get? name with
        | none =>
            rw [hsig] at hclause
            cases hclause
        | some sig =>
            rw [hsig] at hclause
            exact measure_lt_of_clause hacyclic hsig hcalled hclause
  | letIn name value body =>
      have hinside : next = value ∨ next = body := by
        simpa [goesOnTo] using h
      rcases hinside with rfl | rfl
      · refine measure_lt_of_inside ?_ fun name hname => ?_
        · rw [Expr.walkDepth, Shape.walkDepth]
          omega
        · rw [Expr.calls, Shape.calls]
          exact List.mem_append_left _ hname
      · refine measure_lt_of_inside ?_ fun name hname => ?_
        · rw [Expr.walkDepth, Shape.walkDepth]
          omega
        · rw [Expr.calls, Shape.calls]
          exact List.mem_append_right _ hname
  | cast e target =>
      rcases List.mem_cons.1 h with rfl | hclause
      · refine measure_lt_of_inside ?_ fun name hname => ?_
        · rw [Expr.walkDepth, Shape.walkDepth]
          omega
        · rw [Expr.calls, Shape.calls]
          exact List.mem_append_left _ hname
      · refine measure_lt_of_inside ?_ fun name hname => ?_
        · have hle := RefinedTy.walkDepth_of_mem_clauseExprs hclause
          rw [Expr.walkDepth, Shape.walkDepth]
          omega
        · rw [Expr.calls, Shape.calls]
          exact List.mem_append_right _ (RefinedTy.calls_of_mem_clauseExprs hclause hname)

/-- The steps that a walk over an expression can take at most, if no contracts lead back to
themselves. -/
def stepBound (env : Env) (e : Expr) : Nat := env.stepsWithin (env.measure e) e

/-- Contracts of the prelude call only what has a lower rank. -/
def preludeRank (name : String) : Nat :=
  match prelude.get? name with
  | none => 0
  | some sig =>
    match sig.origin with
    | .builtin => if sig.clauses.isEmpty then 0 else 1
    | .uninterpreted | .value => 1
    | .primitive => 2

theorem preludeRank_lt {f g : String} (h : ContractsCall prelude f g) :
    preludeRank g < preludeRank f := by
  have hall : prelude.entries.all (fun entry => entry.2.clauseCalls.all fun called =>
      decide (preludeRank called < preludeRank entry.1)) = true := by decide +kernel
  obtain ⟨sig, hsig, hcalled⟩ := h
  have hentry := List.all_eq_true.1 hall _ (NameMap.get?_eq_some_iff.1 hsig)
  exact of_decide_eq_true (List.all_eq_true.1 hentry _ hcalled)

/-- A way along contracts of the prelude and of added signatures goes down in rank, or comes by an
added one that has contracts. -/
theorem transGen_union {added : Env} {f g : String}
    (h : Relation.TransGen (ContractsCall (prelude.union added)) f g) :
    preludeRank g < preludeRank f ∨ ∃ name sig, added.get? name = some sig ∧ sig.clauses ≠ [] ∧
      Relation.ReflTransGen (ContractsCall (prelude.union added)) f name ∧
      Relation.TransGen (ContractsCall (prelude.union added)) name g := by
  have hstep : ∀ {caller called : String}, ContractsCall (prelude.union added) caller called →
      preludeRank called < preludeRank caller ∨
        ∃ sig, added.get? caller = some sig ∧ sig.clauses ≠ [] := by
    rintro caller called ⟨sig, hsig, hcalled⟩
    rw [NameMap.get?_union] at hsig
    cases hvalue : added.get? caller with
    | none =>
        rw [hvalue, Option.none_or] at hsig
        exact .inl (preludeRank_lt ⟨sig, hsig, hcalled⟩)
    | some value =>
        rw [hvalue, Option.some_or] at hsig
        obtain rfl := Option.some.inj hsig
        refine .inr ⟨value, rfl, fun hnil => ?_⟩
        rw [Signature.clauseCalls, hnil] at hcalled
        cases hcalled
  induction h with
  | @single g hcall =>
      rcases hstep hcall with hlt | ⟨sig, hsig, hclauses⟩
      · exact .inl hlt
      · exact .inr ⟨f, sig, hsig, hclauses, .refl, .single hcall⟩
  | @tail between g hbetween hcall ih =>
      rcases hstep hcall with hlt | ⟨sig, hsig, hclauses⟩
      · rcases ih with ih | ⟨name, sig, hsig, hclauses, hto, hfrom⟩
        · exact .inl (Nat.lt_trans hlt ih)
        · exact .inr ⟨name, sig, hsig, hclauses, hto, hfrom.tail hcall⟩
      · exact .inr ⟨between, sig, hsig, hclauses, hbetween.to_reflTransGen, .single hcall⟩

/-- With signatures added the prelude has no circle, unless through the contracts of one of them. -/
theorem isAcyclic_union_iff {added : Env} : IsAcyclic (prelude.union added) ↔
    ∀ name sig, added.get? name = some sig → sig.clauses ≠ [] →
      ¬ Relation.TransGen (ContractsCall (prelude.union added)) name name := by
  constructor
  · intro h name _ _ _
    exact h name
  · intro h f hcircle
    rcases transGen_union hcircle with hlt | ⟨name, sig, hsig, hclauses, hto, hfrom⟩
    · exact Nat.lt_irrefl _ hlt
    · exact h name sig hsig hclauses (hfrom.trans_left hto)

end Env

end ContractCheck
