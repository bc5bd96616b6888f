import ContractCheck.Proofs.Reach
import ContractCheck.Proofs.Scoping
import ContractCheck.Run
import ContractCheck.Solver.Scripted

/-!
What variables stand for. A lexical walk binds the name of a `let` to the constant of the `let`, so
that each variable stands for its innermost binding (`Checker.LetRule.lexical`). The walk leaves the
bindings of a `let`'s body as they are: the binder of a contract wins over a `let` inside the
contract's clause, and resolution is lexical only where no `let` takes the name of a binder around
it (`Checker.resolution`).
-/

namespace ContractCheck

mutual

/-- No `let` of the expression has one of the bound names, or the name of a binder of a cast around
it. Of shapes that are not supported nothing is required. -/
def Expr.keepsBinders (bound : List String) : Expr → Bool
  | ⟨_, shape, _⟩ => shape.keepsBinders bound

def Expr.keepBinders (bound : List String) : List Expr → Bool
  | [] => true
  | e :: es => e.keepsBinders bound && Expr.keepBinders bound es

def Shape.keepsBinders (bound : List String) : Shape → Bool
  | .var _ | .bool _ | .int _ | .ite _ _ _ | .lambda _ _ => true
  | .call _ args => Expr.keepBinders bound args
  | .letIn name value body =>
    !bound.contains name && (value.keepsBinders bound && body.keepsBinders bound)
  | .cast expr target => expr.keepsBinders bound && target.keepsBinders bound

def RefinedTy.keepsBinders (bound : List String) : RefinedTy → Bool
  | .plain _ => true
  | .refined _ refinement => refinement.keepsBinders bound

def Refinement.keepsBinders (bound : List String) : Refinement → Bool
  | .bind _ => true
  | .holds binder pred => pred.keepsBinders (binder :: bound)
  | .equals binder value => value.keepsBinders (binder :: bound)

end

/-- No `let` in the contracts has the name of its contract's own binder or of one before it. -/
def contractsKeepBinders : List String → List RefinedTy → Bool
  | _, [] => true
  | bound, t :: rest => t.keepsBinders bound && contractsKeepBinders (t.binders ++ bound) rest

def Signature.keepsBinders (sig : Signature) : Bool :=
  match sig.ty.ty.arrow? with
  | none => true
  | some (params, ret) => contractsKeepBinders [] (params ++ [ret])

section

variable {bound : List String}

theorem Expr.keepsBinders_of_mem {es : List Expr} (h : Expr.keepBinders bound es = true) {e : Expr}
    (he : e ∈ es) : e.keepsBinders bound = true := by
  induction es with
  | nil => cases he
  | cons first rest ih =>
      rw [Expr.keepBinders, Bool.and_eq_true] at h
      rcases List.mem_cons.1 he with rfl | he
      · exact h.1
      · exact ih h.2 he

/-- A clause keeps its own binder too. -/
theorem RefinedTy.keepsBinders_clause {t : RefinedTy} (h : t.keepsBinders bound = true)
    {binder : String} {clause : Clause} (hclause : t.contract? = some (binder, clause)) :
    clause.expr.keepsBinders (binder :: bound) = true := by
  rcases t with ty | ⟨ty, _ | ⟨_, pred⟩ | ⟨_, value⟩⟩
  · cases hclause
  · cases hclause
  · cases hclause
    rwa [RefinedTy.keepsBinders, Refinement.keepsBinders] at h
  · cases hclause
    rwa [RefinedTy.keepsBinders, Refinement.keepsBinders] at h

end

namespace Bindings

variable {locals locals' : Bindings}

/-- All names that are bound are among the given ones. -/
def BoundIn (locals : Bindings) (bound : List String) : Prop :=
  ∀ name, locals.contains name = true → name ∈ bound

/-- Names resolve alike. -/
def Same (locals locals' : Bindings) : Prop := ∀ name, locals.resolve name = locals'.resolve name

theorem boundIn_empty : Bindings.BoundIn ∅ [] := fun _ h => nomatch h

theorem boundIn_names (locals : Bindings) : locals.BoundIn locals.names := by
  intro name h
  obtain ⟨term, hterm⟩ := Option.isSome_iff_exists.1 h
  exact List.mem_map_of_mem (NameMap.get?_eq_some_iff.1 hterm)

theorem BoundIn.insert {bound : List String} (h : locals.BoundIn bound) (binder : String)
    (term : Term) : Bindings.BoundIn (NameMap.insert locals binder term) (binder :: bound) := by
  intro name hname
  rw [NameMap.contains, NameMap.get?_insert] at hname
  by_cases hbinder : name = binder
  · exact List.mem_cons.2 (.inl hbinder)
  · rw [if_neg hbinder] at hname
    exact List.mem_cons_of_mem _ (h name hname)

theorem BoundIn.bindRefined {bound : List String} (h : locals.BoundIn bound) (t : RefinedTy)
    (term : Term) : (locals.bindRefined t term).BoundIn (t.binders ++ bound) := by
  cases t with
  | plain ty => exact h
  | refined ty refinement => exact h.insert refinement.binder term

/-- A name that is not bound stands for itself. -/
theorem resolve_of_not_contains {name : String} (h : ¬ locals.contains name = true) :
    locals.resolve name = .symbol name := by
  unfold resolve
  rw [Option.not_isSome_iff_eq_none.1 h]
  rfl

theorem Same.insert (h : locals.Same locals') (binder : String) (term : Term) :
    Bindings.Same (NameMap.insert locals binder term) (NameMap.insert locals' binder term) := by
  intro name
  rw [resolve_insert, resolve_insert, h name]

/-- To bind a name to itself changes nothing if it stands for itself already. -/
theorem Same.insert_symbol (h : locals.Same locals') {name : String}
    (hname : locals'.resolve name = .symbol name) :
    locals.Same (NameMap.insert locals' name (.symbol name)) := by
  intro other
  rw [resolve_insert, h other]
  split
  · rename_i heq
    rw [heq, hname]
  · rfl

end Bindings

namespace Checker

/-- The name stands for the constant that the `let` declares, whatever it stood for. -/
def LetRule.lexical : LetRule := fun locals name => locals.insert name (.symbol name)

/-- The name stands for the constant that the `let` declares unless it is the name of a binder. -/
def LetRule.bindersFirst : LetRule := fun locals name =>
  if locals.contains name then locals else locals.insert name (.symbol name)

/-- To keep the bindings is to bind the names of lets unless they are bound. -/
theorem passesOn_bindersFirst (env : Env) :
    PassesOn (fun locals locals' _ => locals.Same locals') .keep .bindersFirst env env where
  var h := h _
  expr h := h
  target h _ _ _ _ := h.insert _ _
  value h := h
  body := by
    intro locals locals' ty name value body span h
    unfold LetRule.bindersFirst
    split
    · exact h
    · rename_i hname
      exact h.insert_symbol (Bindings.resolve_of_not_contains hname)
  arg h _ _ := h
  callee _ _ _ := rfl
  contracts _ _ _ _ _ _ _ _ := relatesContracts_of_refl (fun _ _ _ _ _ _ _ => rfl) ∅

/-- Names resolve alike and no `let` that the walk comes to has the name of a binder around it. -/
structure KeepsBinders (env : Env) (locals locals' : Bindings) (e : Expr) : Prop where
  same : locals.Same locals'
  expr : ∃ bound, locals.BoundIn bound ∧ e.keepsBinders bound = true
  reached : ∀ name sig, env.Reaches e.calls name → env.get? name = some sig →
    sig.keepsBinders = true

theorem relatesContracts_keepsBinders {env : Env} {ts : List RefinedTy}
    (hreached : ∀ t ∈ ts, ∀ binder clause, t.contract? = some (binder, clause) →
      ∀ name sig, env.Reaches clause.expr.calls name → env.get? name = some sig →
        sig.keepsBinders = true)
    {bound : List String} (hts : contractsKeepBinders bound ts = true) {binders : Bindings}
    (hbinders : binders.BoundIn bound) : RelatesContracts (KeepsBinders env) binders ts := by
  induction ts generalizing bound binders with
  | nil => trivial
  | cons t rest ih =>
      obtain ⟨hhere, hlater⟩ := List.forall_mem_cons.1 hreached
      rw [contractsKeepBinders, Bool.and_eq_true] at hts
      intro term
      have hbound := hbinders.bindRefined t term
      refine ⟨fun binder clause hclause => ⟨fun _ => rfl, ⟨_, hbound, ?_⟩, hhere _ _ hclause⟩,
        ih hlater hts.2 hbound⟩
      have hname : t.binders = [binder] := by
        rcases t with ty | ⟨ty, _ | ⟨_, pred⟩ | ⟨_, value⟩⟩ <;> cases hclause <;> rfl
      rw [hname]
      exact RefinedTy.keepsBinders_clause hts.1 hclause

/-- Where no `let` has the name of a binder around it, to keep the bindings is to bind the names of
lets. -/
theorem passesOn_lexical (env : Env) : PassesOn (KeepsBinders env) .keep .lexical env env where
  var h := h.same _
  expr := by
    rintro _ _ _ _ _ _ ⟨hsame, ⟨bound, hbound, he⟩, hreached⟩
    rw [Expr.keepsBinders, Shape.keepsBinders, Bool.and_eq_true] at he
    refine ⟨hsame, ⟨bound, hbound, he.1⟩, fun name sig hname => hreached name sig ?_⟩
    rw [Expr.calls, Shape.calls]
    exact hname.mono fun _ hcalled => List.mem_append_left _ hcalled
  target := by
    rintro _ _ _ _ _ _ ⟨hsame, ⟨bound, hbound, he⟩, hreached⟩ binder clause hclause term
    rw [Expr.keepsBinders, Shape.keepsBinders, Bool.and_eq_true] at he
    refine ⟨hsame.insert binder term, ⟨binder :: bound, hbound.insert binder term,
      RefinedTy.keepsBinders_clause he.2 hclause⟩, fun name sig hname => hreached name sig ?_⟩
    rw [Expr.calls, Shape.calls]
    exact hname.mono fun _ hcalled =>
      List.mem_append_right _ (RefinedTy.mem_calls hclause hcalled)
  value := by
    rintro _ _ _ _ _ _ _ ⟨hsame, ⟨bound, hbound, he⟩, hreached⟩
    rw [Expr.keepsBinders, Shape.keepsBinders, Bool.and_eq_true, Bool.and_eq_true] at he
    refine ⟨hsame, ⟨bound, hbound, he.2.1⟩, fun name sig hname => hreached name sig ?_⟩
    rw [Expr.calls, Shape.calls]
    exact hname.mono fun _ hcalled => List.mem_append_left _ hcalled
  body := by
    rintro locals locals' _ bindingName _ _ _ ⟨hsame, ⟨bound, hbound, he⟩, hreached⟩
    rw [Expr.keepsBinders, Shape.keepsBinders, Bool.and_eq_true, Bool.and_eq_true] at he
    have hname : ¬ locals.contains bindingName = true := by
      intro hcontains
      simp [hbound bindingName hcontains] at he
    refine ⟨hsame.insert_symbol ?_, ⟨bound, hbound, he.2.2⟩, fun name sig hcalled =>
      hreached name sig ?_⟩
    · rw [← hsame bindingName]
      exact Bindings.resolve_of_not_contains hname
    · rw [Expr.calls, Shape.calls]
      exact hcalled.mono fun _ hcalled => List.mem_append_right _ hcalled
  arg := by
    rintro _ _ _ _ _ _ ⟨hsame, ⟨bound, hbound, he⟩, hreached⟩ arg harg
    rw [Expr.keepsBinders, Shape.keepsBinders] at he
    refine ⟨hsame, ⟨bound, hbound, Expr.keepsBinders_of_mem he harg⟩, fun name sig hname =>
      hreached name sig ?_⟩
    rw [Expr.calls, Shape.calls]
    exact hname.mono fun _ hcalled => List.mem_append_right _ (Expr.mem_callsAll harg hcalled)
  callee _ _ _ := rfl
  contracts := by
    rintro _ _ ty callee args span ⟨-, -, hreached⟩ name sig params ret hcallee hsig harrow
    have hname : env.Reaches (Expr.calls ⟨ty, .call callee args, span⟩) name :=
      .called (Expr.mem_calls_of_callee hcallee ty args span)
    have hkeeps := hreached name sig hname hsig
    rw [Signature.keepsBinders, harrow] at hkeeps
    refine relatesContracts_keepsBinders (fun t ht binder clause hclause other found hother =>
      hreached other found ?_) hkeeps Bindings.boundIn_empty
    refine hname.clauseCalls hsig (hother.mono fun _ hcalled => ?_)
    exact Signature.mem_clauseCalls (Signature.mem_clauses harrow ht hclause) hcalled

variable {env : Env} {locals : Bindings} {e : Expr}

/-- In every clause, wherever it is walked and however deep lets and casts nest in it, a name stands
for the term of a binder in scope, else for the constant of a `let` around it, else for itself. If
no `let` of the expression, and none in the contracts of what it leads to, has the name of a binder
around it, this is lexical: a name stands for its innermost binding. -/
theorem resolution (env : Env) (depth : Nat) (mode : Mode) (locals : Bindings) (e : Expr) :
    checkWithin env depth mode locals e = scopedWithin .bindersFirst env depth mode locals e ∧
      (e.keepsBinders locals.names = true →
        (∀ name sig, env.Reaches e.calls name → env.get? name = some sig →
          sig.keepsBinders = true) →
        checkWithin env depth mode locals e = scopedWithin .lexical env depth mode locals e) := by
  have hfirst := sameWalk_scopedWithin (passesOn_bindersFirst env) depth
  have hlexical := sameWalk_scopedWithin (passesOn_lexical env) depth
  rw [scopedWithin_keep] at hfirst hlexical
  refine ⟨hfirst fun _ => rfl, fun he hreached => hlexical ⟨fun _ => rfl, ?_, hreached⟩⟩
  exact ⟨locals.names, locals.boundIn_names, he⟩

/-- The contract `{binder: bool | let name = value in name}`. -/
def lettingTy (binder name : String) (value : Expr) : RefinedTy :=
  .refined .bool (.holds binder (.letIn name value (.var name .bool)))

/-- The parameter of `f` has to be true. -/
def lettingEnv : Env := .ofList
  [("f", .function .primitive [lettingTy "x" "y" (.var "x" .bool)] (.plain .bool))]

/-- The call `f (true : {v: bool | let w = v in w})`. -/
def letting : Expr := .call "f" [.cast (.bool true) (lettingTy "v" "w" (.var "v" .bool))] .bool

open Scripted in
/-- Lets of other names than the binders around them: what is proved of `v` and of `x` is that the
constants `w` and `y` are true. -/
theorem resolution_letting :
    let c : Checker Solver Script :=
      { session := (Session.start { world := { answers := ["unsat", "unsat"] } }).2 }
    let walked := checkWithin lettingEnv 8 .full ∅ letting
    letting.keepsBinders (∅ : Bindings).names = true ∧
      (∀ name sig, lettingEnv.Reaches letting.calls name → lettingEnv.get? name = some sig →
        sig.keepsBinders = true) ∧
      walked = scopedWithin .lexical lettingEnv 8 .full ∅ letting ∧
      (c.perform walked).2.session.transcript.toList =
        ["(set-option :global-declarations false)",
          "(push 1)", "(declare-const w Bool)", "(assert (= w true))", "(assert (not w))",
          "(check-sat)", "(pop 1)", "(push 1)", "(declare-const y Bool)", "(assert (= y true))",
          "(assert (not y))", "(check-sat)", "(pop 1)", "(declare-const _b0 Bool)"] := by
  intro c walked
  have hall : ∀ name sig, lettingEnv.get? name = some sig → sig.keepsBinders = true :=
    (lettingEnv.forall_signature_iff fun _ sig => sig.keepsBinders = true).2 (by decide +kernel)
  have hkeeps : letting.keepsBinders (∅ : Bindings).names = true := by decide +kernel
  have hreached : ∀ name sig, lettingEnv.Reaches letting.calls name →
      lettingEnv.get? name = some sig → sig.keepsBinders = true := fun name sig _ => hall name sig
  exact ⟨hkeeps, hreached, (resolution lettingEnv 8 .full ∅ letting).2 hkeeps hreached,
    by decide +kernel⟩

/-- The cast `true : {v: bool | let v = false in v}`, whose contract is false. -/
def shadowing : Expr := .cast (.bool true) (lettingTy "v" "v" (.bool false))

open Scripted in
/-- The inner `v` stands for the value of the cast, not for the constant of the `let`. So what is
refuted is `(not true)`, in place of `(not v)` where `v` is false, and the contract is accepted. -/
theorem not_lexical : ¬ ∀ (env : Env) (depth : Nat) (mode : Mode) (locals : Bindings) (e : Expr),
    checkWithin env depth mode locals e = scopedWithin .lexical env depth mode locals e := by
  intro hclaim
  let c : Checker Solver Script :=
    { session := (Session.start { world := { answers := ["unsat"] } }).2 }
  have hlines := congrArg (fun part => (c.perform part).2.session.transcript.toList)
    (hclaim ∅ 8 .full ∅ shadowing)
  have hsent : "(assert (not true))" ∈
      (c.perform (checkWithin ∅ 8 .full ∅ shadowing)).2.session.transcript.toList := by
    decide +kernel
  have hunsent : "(assert (not true))" ∉
      (c.perform (scopedWithin .lexical ∅ 8 .full ∅ shadowing)).2.session.transcript.toList := by
    decide +kernel
  exact hunsent (hlines ▸ hsent)

end Checker

end ContractCheck
