import Mathlib.Tactic.Abel
import ContractCheck.Proofs.SuccessfulRun

/-!
What a walk has to prove and how many variables it declares, counted over the expression, the
contracts of its casts and the signatures of its calls. A run that succeeds has proved all that was
counted, no more and no less (`prove_counts`), and the expression is one that the walk supports.
-/

namespace ContractCheck

/-- Obligations, fresh variables, and variables of lets. -/
structure Tally where
  obligations : Nat := 0
  fresh : Nat := 0
  lets : Nat := 0
deriving DecidableEq

namespace Tally

instance : Add Tally :=
  ⟨fun a b => ⟨a.obligations + b.obligations, a.fresh + b.fresh, a.lets + b.lets⟩⟩

instance : Zero Tally := ⟨{}⟩

theorem eq_of_fields {a b : Tally} (hobligations : a.obligations = b.obligations)
    (hfresh : a.fresh = b.fresh) (hlets : a.lets = b.lets) : a = b := by
  cases a
  cases b
  simp_all

instance : AddCommMonoid Tally where
  add_assoc _ _ _ := eq_of_fields (Nat.add_assoc ..) (Nat.add_assoc ..) (Nat.add_assoc ..)
  zero_add _ := eq_of_fields (Nat.zero_add _) (Nat.zero_add _) (Nat.zero_add _)
  add_zero _ := rfl
  add_comm _ _ := eq_of_fields (Nat.add_comm ..) (Nat.add_comm ..) (Nat.add_comm ..)
  nsmul := nsmulRec

end Tally

/-- How expressions inside the one at hand are counted. -/
abbrev Count := Mode → Expr → Option Tally

/-- Proving what a refined type states is an obligation beside those of its clause. -/
def tallyProof (count : Count) (t : RefinedTy) : Option Tally :=
  match t.contract? with
  | none => some 0
  | some (_, clause) => do return (← count .full clause.expr) + { obligations := 1 }

/-- Assuming what a refined type states takes the obligations of its clause only. -/
def tallyAssumption (count : Count) (t : RefinedTy) : Option Tally :=
  match t.contract? with
  | none => some 0
  | some (_, clause) => count .full clause.expr

def tallyArgs (count : Count) : List (RefinedTy × Expr) → Option Tally
  | [] => some 0
  | (param, arg) :: rest => do
    return (← count (.ofParam param) arg) + (← tallyProof count param) + (← tallyArgs count rest)

/-- The result of a call is a fresh variable, except that an operator may stay a term. -/
def tallyResult (count : Count) (mode : Mode) (origin : Origin) (ret : RefinedTy) : Option Tally :=
  if origin = .builtin then
    match mode with
    | .full => some 0
    | .simple => some { fresh := 1 }
  else do return { fresh := 1 } + (← tallyAssumption count ret)

/-- The parameters and the return of a name that is bound to a function of so many parameters. -/
def Env.callable? (env : Env) (name : String) (arity : Nat) :
    Option (Origin × List RefinedTy × RefinedTy) := do
  let sig ← env.get? name
  let (params, ret) ← sig.ty.ty.arrow?
  if params.length = arity then some (sig.origin, params, ret) else none

def Shape.variable? : Shape → Option String
  | .var name => some name
  | _ => none

/-- One level of the count. -/
def tallyExpr (env : Env) (count : Count) : Count := fun mode e =>
  match e.shape with
  | .var _ | .bool _ | .int _ => some 0
  | .cast expr target => do return (← count mode expr) + (← tallyProof count target)
  | .letIn _ value body => do
    return { lets := 1 } + (← count .full value) + (← count mode body)
  | .call callee args => do
    let name ← callee.shape.variable?
    let (origin, params, ret) ← env.callable? name args.length
    return (← tallyArgs count (params.zip args)) + (← tallyResult count mode origin ret)
  | .ite _ _ _ | .lambda _ _ => none

/-- The count, at most `depth` contracts and expressions deep. -/
def tallyWithin (env : Env) : Nat → Count
  | 0 => fun _ _ => none
  | depth + 1 => tallyExpr env (tallyWithin env depth)

/-- The count of an expression whose contracts do not call each other without end. -/
def Tallies (env : Env) (mode : Mode) (e : Expr) (tally : Tally) : Prop :=
  ∃ depth, tallyWithin env depth mode e = some tally

/-- Whatever the first counts, the second counts alike. -/
def Count.Below (count count' : Count) : Prop :=
  ∀ ⦃mode e tally⦄, count mode e = some tally → count' mode e = some tally

section Monotone

variable {count count' : Count} (hle : count.Below count')
include hle

theorem tallyProof_mono {t : RefinedTy} {tally : Tally} (h : tallyProof count t = some tally) :
    tallyProof count' t = some tally := by
  unfold tallyProof at h ⊢
  split at h
  · exact h
  · obtain ⟨inner, hinner, h⟩ := Option.bind_eq_some_iff.1 h
    exact Option.bind_eq_some_iff.2 ⟨inner, hle hinner, h⟩

theorem tallyAssumption_mono {t : RefinedTy} {tally : Tally}
    (h : tallyAssumption count t = some tally) : tallyAssumption count' t = some tally := by
  unfold tallyAssumption at h ⊢
  split at h
  · exact h
  · exact hle h

theorem tallyArgs_mono {args : List (RefinedTy × Expr)} {tally : Tally}
    (h : tallyArgs count args = some tally) : tallyArgs count' args = some tally := by
  induction args generalizing tally with
  | nil => exact h
  | cons head rest ih =>
      obtain ⟨arg, harg, h⟩ := Option.bind_eq_some_iff.1 h
      obtain ⟨proof, hproof, h⟩ := Option.bind_eq_some_iff.1 h
      obtain ⟨others, hothers, h⟩ := Option.bind_eq_some_iff.1 h
      exact Option.bind_eq_some_iff.2 ⟨arg, hle harg, Option.bind_eq_some_iff.2
        ⟨proof, tallyProof_mono hle hproof, Option.bind_eq_some_iff.2 ⟨others, ih hothers, h⟩⟩⟩

theorem tallyResult_mono {mode : Mode} {origin : Origin} {ret : RefinedTy} {tally : Tally}
    (h : tallyResult count mode origin ret = some tally) :
    tallyResult count' mode origin ret = some tally := by
  unfold tallyResult at h ⊢
  split
  · rename_i horigin
    rw [if_pos horigin] at h
    exact h
  · rename_i horigin
    rw [if_neg horigin] at h
    obtain ⟨assumption, hassumption, h⟩ := Option.bind_eq_some_iff.1 h
    exact Option.bind_eq_some_iff.2 ⟨assumption, tallyAssumption_mono hle hassumption, h⟩

theorem tallyExpr_mono (env : Env) : (tallyExpr env count).Below (tallyExpr env count') := by
  rintro mode ⟨ty, shape, span⟩ tally h
  cases shape with
  | var name => exact h
  | bool value => exact h
  | int value => exact h
  | ite test onTrue onFalse => cases h
  | lambda params body => cases h
  | cast expr target =>
      obtain ⟨inner, hinner, h⟩ := Option.bind_eq_some_iff.1 h
      obtain ⟨proof, hproof, h⟩ := Option.bind_eq_some_iff.1 h
      exact Option.bind_eq_some_iff.2 ⟨inner, hle hinner, Option.bind_eq_some_iff.2
        ⟨proof, tallyProof_mono hle hproof, h⟩⟩
  | letIn name value body =>
      obtain ⟨first, hfirst, h⟩ := Option.bind_eq_some_iff.1 h
      obtain ⟨second, hsecond, h⟩ := Option.bind_eq_some_iff.1 h
      exact Option.bind_eq_some_iff.2 ⟨first, hle hfirst, Option.bind_eq_some_iff.2
        ⟨second, hle hsecond, h⟩⟩
  | call callee args =>
      obtain ⟨name, hname, h⟩ := Option.bind_eq_some_iff.1 h
      obtain ⟨⟨origin, params, ret⟩, hcallable, h⟩ := Option.bind_eq_some_iff.1 h
      obtain ⟨first, hfirst, h⟩ := Option.bind_eq_some_iff.1 h
      obtain ⟨second, hsecond, h⟩ := Option.bind_eq_some_iff.1 h
      exact Option.bind_eq_some_iff.2 ⟨name, hname, Option.bind_eq_some_iff.2
        ⟨_, hcallable, Option.bind_eq_some_iff.2 ⟨first, tallyArgs_mono hle hfirst,
          Option.bind_eq_some_iff.2 ⟨second, tallyResult_mono hle hsecond, h⟩⟩⟩⟩

end Monotone

theorem tallyWithin_succ (env : Env) (depth : Nat) :
    (tallyWithin env depth).Below (tallyWithin env (depth + 1)) := by
  induction depth with
  | zero =>
      intro mode e tally h
      cases h
  | succ depth ih => exact tallyExpr_mono ih env

theorem tallyWithin_mono (env : Env) {depth more : Nat} (h : depth ≤ more) :
    (tallyWithin env depth).Below (tallyWithin env more) := by
  induction h with
  | refl => exact fun _ _ _ h => h
  | step _ ih => exact fun _ _ _ h => tallyWithin_succ env _ (ih h)

theorem Tallies.unique {env : Env} {mode : Mode} {e : Expr} {tally tally' : Tally}
    (h : Tallies env mode e tally) (h' : Tallies env mode e tally') : tally = tally' := by
  obtain ⟨depth, hdepth⟩ := h
  obtain ⟨depth', hdepth'⟩ := h'
  have hmax := tallyWithin_mono env (Nat.le_max_left depth depth') hdepth
  have hmax' := tallyWithin_mono env (Nat.le_max_right depth depth') hdepth'
  exact Option.some.inj (hmax.symm.trans hmax')

/-- The callee is a name that is bound to a function of so many parameters. -/
def Expr.IsCallable (env : Env) (callee : Expr) (arity : Nat) : Prop :=
  ∃ name sig params ret, callee.shape = .var name ∧ env.get? name = some sig ∧
    sig.ty.ty = .arrow params ret ∧ params.length = arity

mutual

/-- There is no conditional and no function literal, contracts of casts included, and every call
fits a function of the environment. -/
def Expr.IsSupported (env : Env) : Expr → Prop
  | ⟨_, shape, _⟩ => shape.IsSupported env

def Expr.AllSupported (env : Env) : List Expr → Prop
  | [] => True
  | e :: es => e.IsSupported env ∧ Expr.AllSupported env es

def Shape.IsSupported (env : Env) : Shape → Prop
  | .var _ | .bool _ | .int _ => True
  | .call callee args => callee.IsCallable env args.length ∧ Expr.AllSupported env args
  | .letIn _ value body => value.IsSupported env ∧ body.IsSupported env
  | .ite _ _ _ | .lambda _ _ => False
  | .cast expr target => expr.IsSupported env ∧ target.IsSupported env

def RefinedTy.IsSupported (env : Env) : RefinedTy → Prop
  | .plain _ => True
  | .refined _ refinement => refinement.IsSupported env

def Refinement.IsSupported (env : Env) : Refinement → Prop
  | .bind _ => True
  | .holds _ pred => pred.IsSupported env
  | .equals _ value => value.IsSupported env

end

/-- Whatever is counted is supported. -/
def Count.OnlySupported (count : Count) (env : Env) : Prop :=
  ∀ ⦃mode e tally⦄, count mode e = some tally → e.IsSupported env

theorem supported_of_tallyArgs {env : Env} {count : Count} (hcount : count.OnlySupported env)
    {params : List RefinedTy} {args : List Expr} (hlength : params.length = args.length)
    {tally : Tally} (h : tallyArgs count (params.zip args) = some tally) :
    Expr.AllSupported env args := by
  induction args generalizing params tally with
  | nil => trivial
  | cons arg rest ih =>
      cases params with
      | nil => cases hlength
      | cons param params =>
          obtain ⟨first, hfirst, h⟩ := Option.bind_eq_some_iff.1 h
          obtain ⟨proof, -, h⟩ := Option.bind_eq_some_iff.1 h
          obtain ⟨others, hothers, -⟩ := Option.bind_eq_some_iff.1 h
          exact ⟨hcount hfirst, ih (Nat.succ.inj hlength) hothers⟩

theorem supported_of_tallyProof {env : Env} {count : Count} (hcount : count.OnlySupported env)
    {t : RefinedTy} {tally : Tally} (h : tallyProof count t = some tally) : t.IsSupported env := by
  rcases t with ty | ⟨ty, refinement⟩
  · trivial
  · cases refinement with
    | bind binder => trivial
    | holds binder pred =>
        obtain ⟨inner, hinner, -⟩ := Option.bind_eq_some_iff.1 h
        exact hcount hinner
    | equals binder value =>
        obtain ⟨inner, hinner, -⟩ := Option.bind_eq_some_iff.1 h
        exact hcount hinner

theorem callable?_eq_some {env : Env} {name : String} {arity : Nat} {origin : Origin}
    {params : List RefinedTy} {ret : RefinedTy}
    (h : env.callable? name arity = some (origin, params, ret)) : ∃ sig, env.get? name = some sig ∧
      sig.origin = origin ∧ sig.ty.ty = .arrow params ret ∧ params.length = arity := by
  obtain ⟨sig, hsig, h⟩ := Option.bind_eq_some_iff.1 h
  obtain ⟨⟨params', ret'⟩, harrow, h⟩ := Option.bind_eq_some_iff.1 h
  by_cases hlength : params'.length = arity
  · simp only [if_pos hlength] at h
    cases h
    exact ⟨sig, hsig, rfl, Ty.arrow?_eq_some_iff.1 harrow, hlength⟩
  · simp only [if_neg hlength] at h
    cases h

theorem onlySupported_tallyExpr {env : Env} {count : Count} (hcount : count.OnlySupported env) :
    (tallyExpr env count).OnlySupported env := by
  rintro mode ⟨ty, shape, span⟩ tally h
  cases shape with
  | var name => trivial
  | bool value => trivial
  | int value => trivial
  | ite test onTrue onFalse => cases h
  | lambda params body => cases h
  | cast expr target =>
      obtain ⟨inner, hinner, h⟩ := Option.bind_eq_some_iff.1 h
      obtain ⟨proof, hproof, -⟩ := Option.bind_eq_some_iff.1 h
      exact ⟨hcount hinner, supported_of_tallyProof hcount hproof⟩
  | letIn name value body =>
      obtain ⟨first, hfirst, h⟩ := Option.bind_eq_some_iff.1 h
      obtain ⟨second, hsecond, -⟩ := Option.bind_eq_some_iff.1 h
      exact ⟨hcount hfirst, hcount hsecond⟩
  | call callee args =>
      obtain ⟨name, hname, h⟩ := Option.bind_eq_some_iff.1 h
      obtain ⟨⟨origin, params, ret⟩, hcallable, h⟩ := Option.bind_eq_some_iff.1 h
      obtain ⟨first, hfirst, -⟩ := Option.bind_eq_some_iff.1 h
      obtain ⟨sig, hsig, -, harrow, hlength⟩ := callable?_eq_some hcallable
      have hcallee : callee.shape = .var name := by
        unfold Shape.variable? at hname
        split at hname
        · rename_i found hshape
          cases hname
          exact hshape
        · cases hname
      exact ⟨⟨name, sig, params, ret, hcallee, hsig, harrow, hlength⟩,
        supported_of_tallyArgs hcount hlength hfirst⟩

theorem onlySupported_tallyWithin (env : Env) (depth : Nat) :
    (tallyWithin env depth).OnlySupported env := by
  induction depth with
  | zero =>
      intro mode e tally h
      cases h
  | succ depth ih => exact onlySupported_tallyExpr ih

def Command.constant? : Command → Option String
  | .declareConst name _ => some name
  | _ => none

def Command.isCheckSat : Command → Bool
  | .checkSat => true
  | _ => false

/-- The supply after a run of requests. -/
def FreshNames.after (names : FreshNames) (tags : List Char) : FreshNames :=
  tags.foldl (fun names tag => (names.next tag).2) names

theorem FreshNames.nextAll_append (names : FreshNames) (first second : List Char) :
    names.nextAll (first ++ second) =
      names.nextAll first ++ (names.after first).nextAll second := by
  induction first generalizing names with
  | nil => rfl
  | cons tag tags ih => exact congrArg _ (ih _)

@[simp] theorem FreshNames.length_nextAll (names : FreshNames) (tags : List Char) :
    (names.nextAll tags).length = tags.length := by
  induction tags generalizing names with
  | nil => rfl
  | cons tag tags ih => exact congrArg _ (ih _)

/-- A course does what was counted: each obligation is one check, and the constants declared are
the fresh variables, named in turn by the supply, and the variables of lets. -/
structure Tally.Counts (tally : Tally) (p : Progress) (commands : List Command) (p' : Progress) :
    Prop where
  obligations : p'.summary.obligations = p.summary.obligations + tally.obligations
  fresh : p'.summary.fresh = p.summary.fresh + tally.fresh
  checks : commands.countP Command.isCheckSat = tally.obligations
  constants : ∃ tags lets, tags.length = tally.fresh ∧ lets.length = tally.lets ∧
    p'.names = p.names.after tags ∧
    (commands.filterMap Command.constant?).Perm (p.names.nextAll tags ++ lets)

namespace Tally.Counts

theorem append {a b : Tally} {p p₁ p' : Progress} {first second : List Command}
    (h : a.Counts p first p₁) (h' : b.Counts p₁ second p') :
    (a + b).Counts p (first ++ second) p' := by
  obtain ⟨tags, lets, htags, hlets, hnames, hperm⟩ := h.constants
  obtain ⟨tags', lets', htags', hlets', hnames', hperm'⟩ := h'.constants
  refine ⟨?_, ?_, ?_, tags ++ tags', lets ++ lets', ?_, ?_, ?_, ?_⟩
  · rw [h'.obligations, h.obligations, Nat.add_assoc]
    rfl
  · rw [h'.fresh, h.fresh, Nat.add_assoc]
    rfl
  · rw [List.countP_append, h.checks, h'.checks]
    rfl
  · rw [List.length_append, htags, htags']
    rfl
  · rw [List.length_append, hlets, hlets']
    rfl
  · rw [hnames', hnames]
    exact List.foldl_append.symm
  · rw [List.filterMap_append, FreshNames.nextAll_append, ← hnames]
    refine (hperm.append hperm').trans ?_
    rw [List.append_assoc, List.append_assoc]
    exact .append_left _ (List.perm_append_comm_assoc _ _ _)

/-- Commands that neither declare a constant nor check count nothing. -/
theorem silent (commands : List Command) (p : Progress)
    (hchecks : commands.countP Command.isCheckSat = 0)
    (hconstants : commands.filterMap Command.constant? = []) :
    (0 : Tally).Counts p commands p :=
  ⟨rfl, rfl, hchecks, [], [], rfl, rfl, rfl, by rw [hconstants]; exact .nil⟩

theorem ofLet (name : String) (sort : SolverSort) (p : Progress) :
    ({ lets := 1 } : Tally).Counts p [.declareConst name sort.display] p :=
  ⟨rfl, rfl, rfl, [], [name], rfl, rfl, rfl, .refl _⟩

theorem ofFresh (sort : SolverSort) (p : Progress) :
    ({ fresh := 1 } : Tally).Counts p
      [.declareConst (p.names.next sort.tag).1 sort.display]
      ⟨(p.names.next sort.tag).2, { p.summary with fresh := p.summary.fresh + 1 }⟩ :=
  ⟨rfl, rfl, rfl, [sort.tag], [], rfl, rfl, rfl, .refl _⟩

theorem ofRefutation (goal : Term) (p : Progress) :
    ({ obligations := 1 } : Tally).Counts p (Checker.refutation goal)
      { p with summary := { p.summary with obligations := p.summary.obligations + 1 } } :=
  ⟨rfl, rfl, rfl, [], [], rfl, rfl, rfl, .nil⟩

end Tally.Counts

/-- Whenever the walk takes its favourable course, that does what is counted. -/
def Count.Tracks (count : Count) (walk : Checker.Walk) : Prop :=
  ∀ ⦃mode locals e p commands t p'⦄, Checker.Accepts (walk mode locals e) p commands t p' →
    ∃ tally, count mode e = some tally ∧ tally.Counts p commands p'

namespace Checker

section Tracks

variable {count : Count} {walk : Walk} (hcount : count.Tracks walk)
include hcount

theorem counts_provesContract {locals : Bindings} {t : RefinedTy} {p p' : Progress}
    {commands : List Command} (h : ProvesContract walk locals t p commands p') :
    ∃ tally, tallyProof count t = some tally ∧ tally.Counts p commands p' := by
  unfold ProvesContract at h
  unfold tallyProof
  cases hcontract : t.contract? with
  | none =>
      rw [hcontract] at h
      obtain ⟨rfl, rfl⟩ := h
      exact ⟨_, rfl, .silent _ _ rfl rfl⟩
  | some contract =>
      obtain ⟨binder, clause⟩ := contract
      rw [hcontract] at h
      obtain ⟨-, inner, term, p₁, hwalk, rfl, rfl⟩ := h
      obtain ⟨tally, htally, hinner⟩ := hcount hwalk
      have hcourse := (Tally.Counts.silent [.push] p rfl rfl).append
        ((hinner.append (.ofRefutation (clause.goal (locals.resolve binder) term) p₁)).append
          (.silent [.pop] _ rfl rfl))
      rw [zero_add, add_zero] at hcourse
      exact ⟨_, by simp [htally], hcourse⟩

theorem counts_assumesContract {locals : Bindings} {result : Term} {t : RefinedTy}
    {p p' : Progress} {commands : List Command}
    (h : AssumesContract walk locals result t p commands p') :
    ∃ tally, tallyAssumption count t = some tally ∧ tally.Counts p commands p' := by
  unfold AssumesContract at h
  unfold tallyAssumption
  cases hcontract : t.contract? with
  | none =>
      rw [hcontract] at h
      obtain ⟨rfl, rfl⟩ := h
      exact ⟨_, rfl, .silent _ _ rfl rfl⟩
  | some contract =>
      obtain ⟨binder, clause⟩ := contract
      rw [hcontract] at h
      obtain ⟨-, inner, term, hwalk, rfl⟩ := h
      obtain ⟨tally, htally, hinner⟩ := hcount hwalk
      have hcourse := hinner.append
        (.silent [.assert (clause.goal result term)] p' rfl rfl)
      rw [add_zero] at hcourse
      exact ⟨tally, htally, hcourse⟩

theorem counts_checkArgs {callee : String} {span : Option Span} {locals binders : Bindings}
    {args : List (RefinedTy × Expr)} {p p' : Progress} {commands : List Command}
    {r : Bindings × List Term}
    (h : Accepts (checkArgs walk callee span locals args binders) p commands r p') :
    ∃ tally, tallyArgs count args = some tally ∧ tally.Counts p commands p' := by
  induction args generalizing binders p commands r with
  | nil =>
      obtain ⟨rfl, -, rfl⟩ := accepts_checkArgs_nil h
      exact ⟨0, rfl, .silent _ _ rfl rfl⟩
  | cons head rest ih =>
      obtain ⟨param, arg⟩ := head
      obtain ⟨first, term, p₁, second, p₂, third, terms, hwalk, hproof, hrest, rfl, -⟩ :=
        accepts_checkArgs_cons h
      obtain ⟨a, ha, hfirst⟩ := hcount hwalk
      obtain ⟨b, hb, hsecond⟩ := counts_provesContract hcount hproof
      obtain ⟨c, hc, hthird⟩ := ih hrest
      refine ⟨a + b + c, by simp [tallyArgs, ha, hb, hc], ?_⟩
      rw [add_assoc]
      exact hfirst.append (hsecond.append hthird)

omit hcount in
theorem counts_resultDefinition (origin : Origin) (callee : String) (terms : List Term)
    (result : Term) (p : Progress) :
    (0 : Tally).Counts p (resultDefinition origin callee terms result) p := by
  unfold resultDefinition
  split
  · exact .silent _ _ rfl rfl
  · exact .silent _ _ rfl rfl

theorem counts_checkResult {callee : String} {origin : Origin} {ret : RefinedTy} {mode : Mode}
    {binders : Bindings} {terms : List Term} {span : Option Span} {p p' : Progress}
    {commands : List Command} {t : Term} (horigin : origin ≠ .builtin)
    (h : Accepts (checkResult walk callee origin ret binders terms span) p commands t p') :
    ∃ tally, tallyResult count mode origin ret = some tally ∧ tally.Counts p commands p' := by
  obtain ⟨sort, rest, name, -, rfl, -, hassumes, rfl⟩ := accepts_checkResult h
  obtain ⟨tally, htally, hrest⟩ := counts_assumesContract hcount hassumes
  have hcourse := (Tally.Counts.ofFresh sort p).append
    ((counts_resultDefinition origin callee terms
      (.symbol (p.names.next sort.tag).1) _).append hrest)
  rw [zero_add] at hcourse
  exact ⟨{ fresh := 1 } + tally, by simp [tallyResult, horigin, htally], hcourse⟩

omit hcount in
theorem counts_appliesOperator {mode : Mode} {name : String} {ret : RefinedTy}
    {terms : List Term} {p p' : Progress} {commands : List Command} {t : Term}
    (h : AppliesOperator mode name ret terms p commands t p') :
    ∃ tally, tallyResult count mode .builtin ret = some tally ∧ tally.Counts p commands p' := by
  obtain ⟨applied, -, h⟩ := h
  cases mode with
  | full =>
      obtain ⟨rfl, -, rfl⟩ := h
      exact ⟨0, rfl, .silent _ _ rfl rfl⟩
  | simple =>
      obtain ⟨sort, var, -, rfl, -, rfl, rfl⟩ := h
      have hcourse := (Tally.Counts.ofFresh sort p).append (.silent [.assert
        (.eq (.symbol (p.names.next sort.tag).1) applied)] _ rfl rfl)
      rw [add_zero] at hcourse
      exact ⟨{ fresh := 1 }, rfl, hcourse⟩

theorem tracks_checkExpr (env : Env) : (tallyExpr env count).Tracks (checkExpr env walk) := by
  rintro mode locals ⟨ty, shape, span⟩ p commands t p' h
  cases shape with
  | var name =>
      obtain ⟨rfl, -, rfl⟩ := accepts_checkExpr_leaf (.inl ⟨name, rfl⟩) h
      exact ⟨0, rfl, .silent _ _ rfl rfl⟩
  | bool value =>
      obtain ⟨rfl, -, rfl⟩ := accepts_checkExpr_leaf (.inr (.inl ⟨value, rfl⟩)) h
      exact ⟨0, rfl, .silent _ _ rfl rfl⟩
  | int value =>
      obtain ⟨rfl, -, rfl⟩ := accepts_checkExpr_leaf (.inr (.inr ⟨value, rfl⟩)) h
      exact ⟨0, rfl, .silent _ _ rfl rfl⟩
  | ite test onTrue onFalse => exact absurd h not_accepts_checkExpr_ite
  | lambda params body => exact absurd h not_accepts_checkExpr_lambda
  | cast expr target =>
      obtain ⟨first, p₁, second, hwalk, hproof, rfl⟩ := accepts_checkExpr_cast h
      obtain ⟨a, ha, hfirst⟩ := hcount hwalk
      obtain ⟨b, hb, hsecond⟩ := counts_provesContract hcount hproof
      exact ⟨a + b, by simp [tallyExpr, ha, hb], hfirst.append hsecond⟩
  | letIn name value body =>
      obtain ⟨sort, first, term, p₁, second, -, hvalue, hbody, rfl⟩ := accepts_checkExpr_letIn h
      obtain ⟨a, ha, hfirst⟩ := hcount hvalue
      obtain ⟨b, hb, hsecond⟩ := hcount hbody
      have hcourse := (Tally.Counts.ofLet name sort p).append (hfirst.append
        ((Tally.Counts.silent [.assert (.eq (.symbol name) term)] p₁ rfl rfl).append
          hsecond))
      rw [zero_add, ← add_assoc] at hcourse
      exact ⟨{ lets := 1 } + a + b, by simp [tallyExpr, ha, hb], hcourse⟩
  | call callee args =>
      obtain ⟨name, sig, params, ret, first, binders, terms, p₁, second, hcallee, hsig, harrow,
        hlength, hargs, rfl, hresult⟩ := accepts_checkCall h
      obtain ⟨a, ha, hfirst⟩ := counts_checkArgs hcount hargs
      have hcallable : env.callable? name args.length = some (sig.origin, params, ret) := by
        simp [Env.callable?, hsig, harrow, hlength]
      have hrest : ∃ tally, tallyResult count mode sig.origin ret = some tally ∧
          tally.Counts p₁ second p' := by
        rcases hresult with ⟨horigin, happlies⟩ | ⟨horigin, hresult⟩
        · rw [horigin]
          exact counts_appliesOperator happlies
        · exact counts_checkResult hcount horigin hresult
      obtain ⟨b, hb, hsecond⟩ := hrest
      exact ⟨a + b, by simp [tallyExpr, hcallee, Shape.variable?, hcallable, ha, hb],
        hfirst.append hsecond⟩

end Tracks

theorem tracks_checkWithin (env : Env) (depth : Nat) :
    (tallyWithin env depth).Tracks (checkWithin env depth) := by
  induction depth with
  | zero =>
      intro mode locals e p commands t p' h
      obtain ⟨-, hfails, -⟩ := accepts_ofOutcome_iff.1 h
      cases hfails
  | succ depth ih => exact tracks_checkExpr ih env

end Checker

namespace Session

variable {τ ω : Type} [Transport τ ω]

/-- A run of a new session that succeeds has met only what the walk supports, and its summary is
the count: one check for each obligation, and one constant for each fresh variable beside those for
the variables of lets. -/
theorem prove_counts {env : Env} {e : Expr} {world : ω} {summary : Summary} {s' : Session τ ω}
    (h : prove env e { world } = (.ok summary, s')) :
    e.IsSupported env ∧ ∃ tally, Tallies env .full e tally ∧
      summary.obligations = tally.obligations ∧ summary.fresh = tally.fresh ∧
      ∃ commands tags lets, s'.transcript.toList =
          (.scopedDeclarations :: ((env.declarations e).map (·.2) ++
            .push :: (commands ++ [.pop, .sync]))).map Command.line ∧
        commands.countP Command.isCheckSat = summary.obligations ∧
        tags.length = summary.fresh ∧ lets.length = tally.lets ∧
        (commands.filterMap Command.constant?).Perm (FreshNames.nextAll {} tags ++ lets) := by
  obtain ⟨s₁, s₂, commands, t, p, hstart, hcheck, rfl, hsends, hsynced⟩ := prove_eq_ok h
  obtain ⟨tally, htally, hcounts⟩ := Checker.tracks_checkWithin env _ hcheck
  obtain ⟨tags, lets, htags, hlets, -, hperm⟩ := hcounts.constants
  have hobligations : p.summary.obligations = tally.obligations := by
    rw [hcounts.obligations]
    exact Nat.zero_add _
  have hfresh : p.summary.fresh = tally.fresh := by
    rw [hcounts.fresh]
    exact Nat.zero_add _
  refine ⟨onlySupported_tallyWithin env _ htally, tally, ⟨_, htally⟩, hobligations, hfresh,
    commands, tags, lets, ?_, ?_, ?_, hlets, hperm⟩
  · obtain ⟨s₀, -, -, -, -, htranscript, hfirst, hdeclared⟩ := start_new_eq_ok hstart
    rw [hsynced.transcript, hsends.transcript, hfirst.transcript, htranscript,
      missing_of_declared_eq_empty hdeclared]
    simp
  · rw [hcounts.checks, hobligations]
  · rw [htags, hfresh]

open Scripted in
theorem prove_counts_sample : ∃ (summary : Summary) (s' : Session Solver Script),
    prove Sample.env Sample.call { world := { answers := ["unsat"] } } = (.ok summary, s') ∧
      Sample.call.IsSupported Sample.env ∧ ∃ tally, Tallies Sample.env .full Sample.call tally ∧
        summary.obligations = tally.obligations ∧ summary.fresh = tally.fresh := by
  obtain ⟨s', hrun⟩ := Sample.prove_call
  obtain ⟨hsupported, tally, htally, hobligations, hfresh, -⟩ := prove_counts hrun
  exact ⟨_, s', hrun, hsupported, tally, htally, hobligations, hfresh⟩

end Session

end ContractCheck
