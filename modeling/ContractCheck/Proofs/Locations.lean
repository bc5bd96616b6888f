import ContractCheck.Proofs.Reach
import ContractCheck.Solver.Scripted
import ContractCheck.Solver.Piped

/-!
Where failures point to. A walk gives a failure that is about the program the place of the node it
was met at, or of a node around that. What stops the walk of a signature's clause is the exception:
on its way out of the call it gains context but no place, so that it has none where the nodes of
the clause have none (`Checker.Unplaced`). Otherwise a failure has a place wherever every node of
the expression has one (`Checker.check_places`).
-/

namespace ContractCheck

/-- The fault is one of the program's, and not of the session's or the solver's. -/
def Fault.isVerdict : Fault → Bool
  | .refuted _ | .unsupported | .notAFunction | .unbound | .notScalar | .arity => true
  | .sessionMisuse | .io | .protocol | .tooDeep => false

def Failure.IsPlaced (f : Failure) : Prop := f.span.isSome = true

theorem Failure.isPlaced_locate {span : Option Span} (h : span.isSome = true) (f : Failure) :
    (f.locate span).IsPlaced := by
  rw [IsPlaced, span_locate, Option.isSome_or, h, Bool.or_true]

/-- What a channel itself fails in is never about the program. -/
structure Transport.IsTechnical (τ : Type) {ω : Type} [Transport τ ω] : Prop where
  send : ∀ (line : String) (channel : τ) (world : ω) (f : Failure),
    (Transport.send line channel world).1 = .error f → f.fault.isVerdict = false
  receive : ∀ (channel : τ) (world : ω) (f : Failure),
    (Transport.receive channel world).1 = .error f → f.fault.isVerdict = false

theorem Scripted.isTechnical : Transport.IsTechnical Scripted.Solver where
  send line s script f h := by
    change (Scripted.send line s script).1 = .error f at h
    unfold Scripted.send at h
    split at h
    · cases h
      rfl
    · cases h
  receive s script f h := by
    change (Scripted.receive s script).1 = .error f at h
    unfold Scripted.receive at h
    split at h
    · cases h
      rfl
    · cases h

theorem Piped.isVerdict_of_decode {line : ByteArray} {f : Failure}
    (h : Piped.decode line = .error f) : f.fault.isVerdict = false := by
  unfold Piped.decode at h
  split at h
  · cases h
  · cases h
    rfl

theorem Piped.isTechnical (π : Type) [Processes π] :
    Transport.IsTechnical (Piped.Channel π) where
  send line c w f h := by
    change (Piped.send line c w).1 = .error f at h
    unfold Piped.send at h
    simp only at h
    split at h
    · cases h
      rfl
    · cases h
  receive c w f h := by
    change (Piped.receive c w).1 = .error f at h
    unfold Piped.receive at h
    simp only at h
    split at h
    · exact isVerdict_of_decode h
    · cases h
      rfl

namespace Session

variable {τ ω : Type} [Transport τ ω] {s : Session τ ω} {f : Failure}

theorem isVerdict_of_write (hchannel : Transport.IsTechnical τ) {line : String}
    (h : (write line s).1 = .error f) : f.fault.isVerdict = false := by
  unfold write at h
  cases hstarted : s.channel with
  | none =>
      simp only [hstarted] at h
      cases h
      rfl
  | some channel =>
      rcases hsend : Transport.send line channel s.world with ⟨failure | u, channel', world⟩
      · simp only [hstarted, record, hsend] at h
        cases h
        exact hchannel.send _ _ _ _ (congrArg Prod.fst hsend)
      · simp only [hstarted, record, hsend] at h
        cases h

theorem isVerdict_of_read (hchannel : Transport.IsTechnical τ) (h : (read s).1 = .error f) :
    f.fault.isVerdict = false := by
  unfold read at h
  cases hstarted : s.channel with
  | none =>
      simp only [hstarted] at h
      cases h
      rfl
  | some channel =>
      rcases hreceive : Transport.receive channel s.world with ⟨failure | line, channel', world⟩
      · simp only [hstarted, hreceive] at h
        cases h
        exact hchannel.receive _ _ _ (congrArg Prod.fst hreceive)
      · simp only [hstarted, hreceive] at h
        split at h
        · cases h
          rfl
        · cases h

theorem isVerdict_of_perform (hchannel : Transport.IsTechnical τ) {deed : Deed}
    (h : (perform deed s).1 = .error f) : f.fault.isVerdict = false := by
  cases deed with
  | write command => exact isVerdict_of_write hchannel h
  | pop => exact isVerdict_of_write (s := s.leaveScope) hchannel h
  | push =>
      change (ExceptT.bind (write Command.push.line) _ s).1 = .error f at h
      simp only [ExceptT.bind, ExceptT.mk, bind, StateT.bind] at h
      rcases hwrite : write Command.push.line s with ⟨failure | u, s'⟩
      · rw [hwrite] at h
        cases h
        exact isVerdict_of_write hchannel (congrArg Prod.fst hwrite)
      · rw [hwrite] at h
        cases h

theorem isVerdict_of_checkSat (hchannel : Transport.IsTechnical τ)
    (h : (checkSat s).1 = .error f) : f.fault.isVerdict = false := by
  change (ExceptT.bind (write Command.checkSat.line) _ s).1 = .error f at h
  simp only [ExceptT.bind, ExceptT.mk, bind, StateT.bind] at h
  rcases hwrite : write Command.checkSat.line s with ⟨failure | u, s'⟩
  · rw [hwrite] at h
    cases h
    exact isVerdict_of_write hchannel (congrArg Prod.fst hwrite)
  · rw [hwrite] at h
    exact isVerdict_of_read hchannel h

end Session

mutual

/-- The places of the nodes of an expression, those in contracts of its casts included. -/
def Expr.places : Expr → List (Option Span)
  | ⟨_, shape, span⟩ => span :: shape.places

def Expr.placesAll : List Expr → List (Option Span)
  | [] => []
  | e :: es => e.places ++ Expr.placesAll es

def Shape.places : Shape → List (Option Span)
  | .var _ | .bool _ | .int _ => []
  | .call callee args => callee.places ++ Expr.placesAll args
  | .letIn _ value body => value.places ++ body.places
  | .ite test onTrue onFalse => test.places ++ onTrue.places ++ onFalse.places
  | .lambda _ body => body.places
  | .cast expr target => expr.places ++ target.places

def RefinedTy.places : RefinedTy → List (Option Span)
  | .plain _ => []
  | .refined _ refinement => refinement.places

def Refinement.places : Refinement → List (Option Span)
  | .bind _ => []
  | .holds _ pred => pred.places
  | .equals _ value => value.places

end

/-- Every node has a place. -/
def Expr.IsPlaced (e : Expr) : Prop := ∀ place ∈ e.places, place.isSome = true

instance (e : Expr) : Decidable e.IsPlaced :=
  inferInstanceAs (Decidable (∀ place ∈ e.places, place.isSome = true))

theorem Expr.IsPlaced.span {e : Expr} (h : e.IsPlaced) : e.span.isSome = true := by
  obtain ⟨ty, shape, span⟩ := e
  rw [Expr.IsPlaced, Expr.places] at h
  exact h span List.mem_cons_self

theorem Expr.isPlaced_of_placesAll {es : List Expr}
    (h : ∀ place ∈ Expr.placesAll es, place.isSome = true) {e : Expr} (he : e ∈ es) :
    e.IsPlaced := by
  induction es with
  | nil => cases he
  | cons first rest ih =>
      rw [Expr.placesAll, List.forall_mem_append] at h
      rcases List.mem_cons.1 he with rfl | he
      · exact h.1
      · exact ih h.2 he

theorem Refinement.isPlaced {r : Refinement} {clause : Clause}
    (h : ∀ place ∈ r.places, place.isSome = true) (hclause : r.clause? = some clause) :
    clause.expr.IsPlaced := by
  cases r with
  | bind binder => cases hclause
  | holds binder pred =>
      cases hclause
      rwa [Refinement.places] at h
  | equals binder value =>
      cases hclause
      rwa [Refinement.places] at h

/-- What a refinement's clause calls is called by the type. -/
theorem RefinedTy.mem_calls_of_clause {ty : Ty} {r : Refinement} {clause : Clause}
    (hclause : r.clause? = some clause) {name : String} (hname : name ∈ clause.expr.calls) :
    name ∈ (RefinedTy.refined ty r).calls := by
  have hcontract : (RefinedTy.refined ty r).contract? = some (r.binder, clause) := by
    rw [contract?_refined, hclause, Option.map_some]
  exact RefinedTy.mem_calls hcontract hname

/-- A clause of a parameter or of the return is one of the signature's. -/
theorem Signature.mem_clauses_of_clause {sig : Signature} {params : List RefinedTy}
    {ret : RefinedTy} (harrow : sig.ty.ty.arrow? = some (params, ret)) {t : RefinedTy}
    (ht : t ∈ params ++ [ret]) {clause : Clause} (hclause : t.clause? = some clause) :
    clause.expr ∈ sig.clauses := by
  unfold Signature.clauses
  rw [harrow]
  exact List.mem_filterMap.2 ⟨t, ht, by rw [hclause]; rfl⟩

namespace Checker

variable {τ ω α β : Type} [Transport τ ω]

/-- Whatever the part fails in, if it is about the program, is allowed. -/
def Fails (τ : Type) {ω : Type} [Transport τ ω] (part : CheckM α) (allowed : Failure → Prop) :
    Prop :=
  ∀ (c : Checker τ ω) (f : Failure), (c.perform part).1 = .error f → f.fault.isVerdict = true →
    allowed f

variable {allowed : Failure → Prop} {part : CheckM α}

theorem Fails.mono {allowed' : Failure → Prop} (h : Fails τ part allowed)
    (hallowed : ∀ f, f.fault.isVerdict = true → allowed f → allowed' f) :
    Fails τ part allowed' :=
  fun c f hf hverdict => hallowed f hverdict (h c f hf hverdict)

theorem fails_bind {f : α → CheckM β} (h : Fails τ part allowed)
    (hf : ∀ a, Fails τ (f a) allowed) : Fails τ (part >>= f) allowed := by
  intro c failure hfailure hverdict
  rw [perform_bind] at hfailure
  rcases hpart : c.perform part with ⟨failure' | a, c'⟩
  · rw [hpart] at hfailure
    cases hfailure
    exact h c _ (congrArg Prod.fst hpart) hverdict
  · rw [hpart] at hfailure
    exact hf a c' failure hfailure hverdict

theorem fails_ofOutcome {outcome : Outcome α}
    (h : ∀ f, outcome = .error f → f.fault.isVerdict = true → allowed f) :
    Fails τ (ofOutcome outcome) allowed := fun _ f hf hverdict => h f hf hverdict

theorem fails_pure (a : α) : Fails τ (pure a : CheckM α) allowed := fun _ _ hf _ => nomatch hf

theorem fails_note (text : String) : Fails τ (note text) allowed := fun _ _ hf _ => nomatch hf

theorem fails_updateSummary (f : Summary → Summary) : Fails τ (updateSummary f) allowed :=
  fun _ _ hf _ => nomatch hf

/-- More is said of a failure, and of what kind it is stays. -/
theorem fails_adapt {g : Failure → Failure} (hg : ∀ f, (g f).fault = f.fault)
    (h : Fails τ part fun f => allowed (g f)) : Fails τ (part.adapt g) allowed := by
  intro c f hf hverdict
  rw [perform_adapt] at hf
  rcases hpart : c.perform part with ⟨f' | a, c'⟩
  · rw [hpart] at hf
    cases hf
    rw [hg] at hverdict
    exact h c f' (congrArg Prod.fst hpart) hverdict
  · rw [hpart] at hf
    cases hf

/-- Whatever is located has a place. -/
theorem fails_located {span : Option Span} (h : span.isSome = true) (part : CheckM α) :
    Fails τ (located span part) Failure.IsPlaced :=
  fails_adapt (fun _ => rfl) fun _ f _ _ => f.isPlaced_locate h

theorem fails_requireBool {span : Option Span} (h : span.isSome = true) (pred : Expr) :
    Fails τ (requireBool pred span) Failure.IsPlaced := by
  unfold requireBool
  split
  · exact fails_pure ()
  · refine fails_ofOutcome fun f hf _ => ?_
    cases hf
    exact Failure.isPlaced_locate (by rw [Option.isSome_or, h, Bool.or_true]) _

/-- What is done about the clause of a refinement, if it has one, before the rest. -/
theorem fails_clause {r : Refinement} {act : Clause → CheckM Unit}
    (hact : ∀ clause, r.clause? = some clause → Fails τ (act clause) allowed)
    (hpart : Fails τ part allowed) :
    Fails τ (match r.clause? with
      | none => part
      | some clause => act clause >>= fun _ => part) allowed := by
  cases r with
  | bind binder => exact hpart
  | holds binder pred => exact fails_bind (hact _ rfl) fun _ => hpart
  | equals binder value => exact fails_bind (hact _ rfl) fun _ => hpart

section

variable (hchannel : Transport.IsTechnical τ)
include hchannel

theorem fails_act (deed : Deed) : Fails τ (act deed) allowed := by
  intro c f hf hverdict
  rw [Session.isVerdict_of_perform (s := c.session) hchannel hf] at hverdict
  cases hverdict

theorem fails_checkSat : Fails τ checkSat allowed := by
  intro c f hf hverdict
  rw [Session.isVerdict_of_checkSat (s := c.session) hchannel hf] at hverdict
  cases hverdict

theorem fails_inSolverScope (h : Fails τ part allowed) : Fails τ (inSolverScope part) allowed := by
  intro c f hf hverdict
  rw [perform_inSolverScope] at hf
  rcases hpush : c.perform (act .push) with ⟨f' | u, c₁⟩
  · rw [hpush] at hf
    cases hf
    exact fails_act hchannel .push c _ (congrArg Prod.fst hpush) hverdict
  · rw [hpush] at hf
    simp only at hf
    rcases hbody : c₁.perform part with ⟨f' | a, c₂⟩
    · rw [hbody] at hf
      cases hf
      exact h c₁ _ (congrArg Prod.fst hbody) hverdict
    · rw [hbody] at hf
      simp only at hf
      rcases hpop : c₂.perform (act .pop) with ⟨f' | u', c₃⟩
      · rw [hpop] at hf
        cases hf
        exact fails_act hchannel .pop c₂ _ (congrArg Prod.fst hpop) hverdict
      · rw [hpop] at hf
        cases hf

theorem fails_refute (goal : Term) (obligation : String) {span : Option Span}
    (h : span.isSome = true) : Fails τ (refute goal obligation span) Failure.IsPlaced := by
  refine fails_bind (fails_act hchannel _) fun _ => ?_
  refine fails_bind (fails_checkSat hchannel) fun answer => fails_bind (fails_note _) fun _ => ?_
  split
  · exact fails_updateSummary _
  · refine fails_ofOutcome fun f hf _ => ?_
    cases hf
    exact Failure.isPlaced_locate h _

/-- A walk of the expression may stop with the failure. -/
def StopsWith (τ : Type) {ω : Type} [Transport τ ω] (walk : Walk) (e : Expr) (f : Failure) : Prop :=
  ∃ (c : Checker τ ω) (locals : Bindings), (c.perform (walk .full locals e)).1 = .error f

omit hchannel in
theorem fails_walk (walk : Walk) (locals : Bindings) (e : Expr) :
    Fails τ (walk .full locals e) fun f => f.IsPlaced ∨ StopsWith τ walk e f :=
  fun c _ hf _ => .inr ⟨c, locals, hf⟩

/-- What a clause is not proved for has a place, unless the walk of the clause stopped with it. -/
theorem fails_prove (walk : Walk) (locals : Bindings) (binder : String) (clause : Clause)
    {span : Option Span} (h : span.isSome = true) :
    Fails τ (prove walk locals binder clause span) fun f =>
      f.IsPlaced ∨ StopsWith τ walk clause.expr f := by
  cases clause with
  | holds pred =>
      refine fails_bind ((fails_requireBool h pred).mono fun f _ hf => .inl hf) fun _ => ?_
      refine fails_bind (fails_note _) fun _ => fails_inSolverScope hchannel ?_
      refine fails_bind (fails_walk walk locals pred) fun goal => ?_
      exact (fails_refute hchannel _ _ h).mono fun f _ hf => .inl hf
  | equals value =>
      refine fails_bind (fails_note _) fun _ => fails_inSolverScope hchannel ?_
      refine fails_bind (fails_ofOutcome fun f hf _ => .inl ?_) fun _ => ?_
      · rcases hsort : SolverSort.of value.ty with failure | sort
        · rw [hsort] at hf
          cases hf
          exact Failure.isPlaced_locate (by rw [Option.isSome_or, h, Bool.or_true]) _
        · rw [hsort] at hf
          cases hf
      · refine fails_bind (fails_walk walk locals value) fun term => ?_
        exact (fails_refute hchannel _ _ h).mono fun f _ hf => .inl hf

/-- What a clause is not assumed for has a place, unless the walk of the clause stopped with it. -/
theorem fails_assume (walk : Walk) (locals : Bindings) (result : Term) (clause : Clause)
    {span : Option Span} (h : span.isSome = true) :
    Fails τ (assume walk locals result clause span) fun f =>
      f.IsPlaced ∨ StopsWith τ walk clause.expr f := by
  cases clause with
  | holds pred =>
      refine fails_bind ((fails_requireBool h pred).mono fun f _ hf => .inl hf) fun _ => ?_
      exact fails_bind (fails_walk walk locals pred) fun _ => fails_act hchannel _
  | equals value =>
      exact fails_bind (fails_walk walk locals value) fun _ => fails_act hchannel _

end

/-- The context that a failure gains on its way out of a contract of a call. -/
def IsContextOf (name context : String) : Prop :=
  context = "precondition of `" ++ name ++ "`" ∨ context = "postcondition of `" ++ name ++ "`"

/-- A failure without a place stopped the walk of a clause of a signature that the expression calls,
and is `out` when it has left the call. -/
inductive LeavesClause (τ : Type) {ω : Type} [Transport τ ω] (env : Env) (e clause : Expr)
    (f : Failure) : Failure → Prop where
  | intro {name context : String} {sig : Signature} {depth : Nat} (hcall : name ∈ e.calls)
      (hsig : env.get? name = some sig) (hclause : clause ∈ sig.clauses)
      (hcontext : IsContextOf name context)
      (hstops : StopsWith τ (checkWithin env depth) clause f) (hplace : f.span = none) :
      LeavesClause τ env e clause f (f.withContext context)

/-- Why a failure has no place: it left a clause with a node that has none, or a clause from
whose calls it came in the same way. -/
inductive Unplaced (τ : Type) {ω : Type} [Transport τ ω] (env : Env) : Expr → Failure → Prop where
  | clause {e clause : Expr} {f out : Failure} (h : LeavesClause τ env e clause f out)
      (hclause : ¬ clause.IsPlaced) : Unplaced τ env e out
  | call {e clause : Expr} {f out : Failure} (h : LeavesClause τ env e clause f out)
      (hf : Unplaced τ env clause f) : Unplaced τ env e out

theorem LeavesClause.mono {env : Env} {e e' clause : Expr} {f out : Failure}
    (h : LeavesClause τ env e clause f out) (hcalls : ∀ name ∈ e.calls, name ∈ e'.calls) :
    LeavesClause τ env e' clause f out := by
  cases h with
  | intro hcall hsig hclause hcontext hstops hplace =>
      exact .intro (hcalls _ hcall) hsig hclause hcontext hstops hplace

theorem Unplaced.mono {env : Env} {e e' : Expr} {f : Failure} (h : Unplaced τ env e f)
    (hcalls : ∀ name ∈ e.calls, name ∈ e'.calls) : Unplaced τ env e' f := by
  cases h with
  | clause h hclause => exact .clause (h.mono hcalls) hclause
  | call h hf => exact .call (h.mono hcalls) hf

/-- A clause that the calls lead to has a node without a place. -/
theorem Unplaced.exists_clause {env : Env} {e : Expr} {f : Failure} (h : Unplaced τ env e f) :
    ∃ name sig, env.Reaches e.calls name ∧ env.get? name = some sig ∧
      ∃ clause ∈ sig.clauses, ¬ clause.IsPlaced := by
  induction h with
  | @clause e clause f out h hunplaced =>
      cases h with
      | intro hcall hsig hclause => exact ⟨_, _, .called hcall, hsig, clause, hclause, hunplaced⟩
  | @call e clause f out h _ ih =>
      cases h with
      | intro hcall hsig hclause =>
          obtain ⟨name, sig, hreach, hrest⟩ := ih
          refine ⟨name, sig, ?_, hrest⟩
          refine (Env.Reaches.called hcall).clauseCalls hsig (hreach.mono fun _ hname => ?_)
          exact Signature.mem_clauseCalls hclause hname

/-- The failure has a place, or it is clear why not. -/
def Placed (τ : Type) {ω : Type} [Transport τ ω] (env : Env) (e : Expr) (f : Failure) : Prop :=
  f.IsPlaced ∨ Unplaced τ env e f

theorem Placed.mono {env : Env} {e e' : Expr} {f : Failure} (h : Placed τ env e f)
    (hcalls : ∀ name ∈ e.calls, name ∈ e'.calls) : Placed τ env e' f :=
  h.imp_right (·.mono hcalls)

/-- The walk places what it fails in, in expressions all of whose nodes have a place. -/
def Places (τ : Type) {ω : Type} [Transport τ ω] (env : Env) (walk : Walk) : Prop :=
  ∀ mode locals (e : Expr), e.IsPlaced → Fails τ (walk mode locals e) (Placed τ env e)

section

variable {env : Env} {depth : Nat} (hwalk : Places τ env (checkWithin env depth))
  {e : Expr} {name : String} {sig : Signature} (hcall : name ∈ e.calls)
  (hsig : env.get? name = some sig)
include hwalk hcall hsig

theorem placed_withContext {clause : Expr} (hclause : clause ∈ sig.clauses) {context : String}
    (hcontext : IsContextOf name context) {f : Failure} (hverdict : f.fault.isVerdict = true)
    (h : f.IsPlaced ∨ StopsWith τ (checkWithin env depth) clause f) :
    Placed τ env e (f.withContext context) := by
  by_cases hf : f.IsPlaced
  · exact .inl hf
  have hplace : f.span = none := Option.not_isSome_iff_eq_none.1 hf
  have hstops := h.resolve_left hf
  have hleaves : LeavesClause τ env e clause f (f.withContext context) :=
    .intro hcall hsig hclause hcontext hstops hplace
  by_cases hplaced : clause.IsPlaced
  · obtain ⟨c, locals, hfailure⟩ := hstops
    have hunplaced := (hwalk _ _ _ hplaced c f hfailure hverdict).resolve_left hf
    exact .inr (.call hleaves hunplaced)
  · exact .inr (.clause hleaves hplaced)

variable (hchannel : Transport.IsTechnical τ) {span : Option Span} (hspan : span.isSome = true)
include hchannel hspan

theorem fails_checkArgs (locals : Bindings) {args : List (RefinedTy × Expr)}
    (hargs : ∀ a ∈ args, (∀ clause, a.1.clause? = some clause → clause.expr ∈ sig.clauses) ∧
      a.2.IsPlaced ∧ ∀ called ∈ a.2.calls, called ∈ e.calls) (binders : Bindings) :
    Fails τ (checkArgs (checkWithin env depth) name span locals args binders)
      (Placed τ env e) := by
  induction args generalizing binders with
  | nil => exact fails_pure _
  | cons head rest ih =>
      obtain ⟨param, arg⟩ := head
      obtain ⟨⟨hparam, harg, hcalls⟩, hrest⟩ := List.forall_mem_cons.1 hargs
      have hterm : ∀ mode, Fails τ (checkWithin env depth mode locals arg) (Placed τ env e) :=
        fun mode => (hwalk mode locals arg harg).mono fun _ _ h => h.mono hcalls
      rcases param with ty | ⟨ty, refinement⟩
      · exact fails_bind (hterm _) fun _ => fails_bind (ih hrest _) fun _ => fails_pure _
      · refine fails_bind (hterm _) fun term => fails_clause (fun clause hclause => ?_) ?_
        · have hplace : (arg.span.or span).isSome = true := by
            rw [Option.isSome_or, hspan, Bool.or_true]
          refine fails_adapt (fun _ => rfl) ((fails_prove hchannel _ _ _ _ hplace).mono ?_)
          exact fun f hverdict h =>
            placed_withContext hwalk hcall hsig (hparam _ hclause) (.inl rfl) hverdict h
        · exact fails_bind (ih hrest _) fun _ => fails_pure _

theorem fails_assumeReturn {ret : RefinedTy}
    (hret : ∀ clause, ret.clause? = some clause → clause.expr ∈ sig.clauses) (binders : Bindings)
    (result : Term) : Fails τ (assumeReturn (checkWithin env depth) name ret binders result span)
      (Placed τ env e) := by
  rcases ret with ty | ⟨ty, refinement⟩
  · exact fails_pure _
  · refine fails_clause (fun clause hclause => ?_) (fails_pure _)
    refine fails_adapt (fun _ => rfl) ((fails_assume hchannel _ _ _ _ hspan).mono ?_)
    exact fun f hverdict h =>
      placed_withContext hwalk hcall hsig (hret _ hclause) (.inr rfl) hverdict h

theorem fails_checkResult (origin : Origin) {ret : RefinedTy}
    (hret : ∀ clause, ret.clause? = some clause → clause.expr ∈ sig.clauses) (binders : Bindings)
    (terms : List Term) :
    Fails τ (checkResult (checkWithin env depth) name origin ret binders terms span)
      (Placed τ env e) := by
  refine fails_bind ((fails_located hspan _).mono fun _ _ h => .inl h) fun var => ?_
  have hcontract := fails_assumeReturn hwalk hcall hsig hchannel hspan hret binders (.symbol var)
  by_cases horigin : origin = .uninterpreted
  · simp only [if_pos horigin]
    exact fails_bind (fails_act hchannel _) fun _ => hcontract
  · simp only [if_neg horigin]
    exact hcontract

end

section

variable (hchannel : Transport.IsTechnical τ)
include hchannel

theorem fails_applyOperator (mode : Mode) (name : String) (ret : RefinedTy) (terms : List Term)
    {span : Option Span} (hspan : span.isSome = true) :
    Fails τ (applyOperator mode name ret terms span) Failure.IsPlaced := by
  refine fails_bind (fails_ofOutcome fun f hf _ => ?_) fun term => ?_
  · rcases happly : Operator.apply name terms with failure | applied
    · rw [happly] at hf
      cases hf
      exact Failure.isPlaced_locate hspan _
    · rw [happly] at hf
      cases hf
  · cases mode with
    | full => exact fails_pure _
    | simple =>
        refine fails_bind (fails_located hspan _) fun var => ?_
        exact fails_bind (fails_act hchannel _) fun _ => fails_pure _

omit hchannel in
/-- A call that cannot be carried through fails at the callee or at the call. -/
theorem isPlaced_of_resolveCall {env : Env} {callee : Expr} {args : List Expr}
    {span : Option Span} (hspan : span.isSome = true) {f : Failure}
    (h : resolveCall env callee args span = .error f) : f.IsPlaced := by
  have hplace : (callee.span.or span).isSome = true := by
    rw [Option.isSome_or, hspan, Bool.or_true]
  unfold resolveCall at h
  split at h
  · split at h
    · cases h
      exact Failure.isPlaced_locate hplace _
    · split at h
      · cases h
        exact Failure.isPlaced_locate hplace _
      · split at h
        · cases h
        · cases h
          exact Failure.isPlaced_locate hspan _
  · cases h
    exact Failure.isPlaced_locate hplace _

variable {env : Env} {depth : Nat} (hwalk : Places τ env (checkWithin env depth))
include hwalk

theorem fails_checkCall (mode : Mode) (locals : Bindings) {e callee : Expr} {args : List Expr}
    (hargs : ∀ arg ∈ args, arg.IsPlaced) (hcalls : e.shape = .call callee args)
    {span : Option Span} (hspan : span.isSome = true) :
    Fails τ (checkCall env (checkWithin env depth) mode locals callee args span)
      (Placed τ env e) := by
  unfold checkCall
  rcases hresolve : resolveCall env callee args span with failure | ⟨name, origin, params, ret⟩
  · refine fails_ofOutcome fun f hf _ => .inl ?_
    cases hf
    exact isPlaced_of_resolveCall hspan hresolve
  obtain ⟨hcallee, sig, hsig, -, harrow, -⟩ := resolveCall_eq_ok hresolve
  obtain ⟨ty, shape, place⟩ := e
  obtain rfl : shape = .call callee args := hcalls
  have hcall := Expr.mem_calls_of_callee hcallee ty args place
  have hpairs : ∀ a ∈ params.zip args,
      (∀ clause, a.1.clause? = some clause → clause.expr ∈ sig.clauses) ∧ a.2.IsPlaced ∧
        ∀ called ∈ a.2.calls, called ∈ Expr.calls ⟨ty, .call callee args, place⟩ := by
    rintro ⟨param, arg⟩ hmem
    obtain ⟨hparam, harg⟩ := List.of_mem_zip hmem
    refine ⟨fun clause hclause => ?_, hargs arg harg, fun called hcalled => ?_⟩
    · exact Signature.mem_clauses_of_clause harrow (List.mem_append_left [ret] hparam) hclause
    · rw [Expr.calls, Shape.calls]
      exact List.mem_append_right _ (Expr.mem_callsAll harg hcalled)
  change Fails τ (checkArgs (checkWithin env depth) name span locals (params.zip args) ∅ >>= _) _
  refine fails_bind (fails_checkArgs hwalk hcall hsig hchannel hspan locals hpairs ∅) ?_
  rintro ⟨binders, terms⟩
  by_cases horigin : origin = .builtin
  · simp only [if_pos horigin]
    exact (fails_applyOperator hchannel mode name ret terms hspan).mono fun _ _ h => .inl h
  · simp only [if_neg horigin]
    have hret : ∀ clause, ret.clause? = some clause → clause.expr ∈ sig.clauses :=
      fun _ => Signature.mem_clauses_of_clause harrow
        (List.mem_append_right params (List.mem_singleton_self ret))
    exact fails_checkResult hwalk hcall hsig hchannel hspan origin hret binders terms

theorem places_checkExpr : Places τ env (checkExpr env (checkWithin env depth)) := by
  rintro mode locals ⟨ty, shape, span⟩ he
  have hspan : span.isSome = true := he.span
  have hparts : ∀ place ∈ shape.places, place.isSome = true := by
    rw [Expr.IsPlaced, Expr.places, List.forall_mem_cons] at he
    exact he.2
  cases shape with
  | var name => exact fun _ _ hf _ => nomatch hf
  | bool value => exact fun _ _ hf _ => nomatch hf
  | int value => exact fun _ _ hf _ => nomatch hf
  | ite test onTrue onFalse =>
      refine fails_ofOutcome fun f hf _ => .inl ?_
      cases hf
      exact Failure.isPlaced_locate hspan _
  | lambda params body =>
      refine fails_ofOutcome fun f hf _ => .inl ?_
      cases hf
      exact Failure.isPlaced_locate hspan _
  | call callee args =>
      rw [Shape.places, List.forall_mem_append] at hparts
      refine fails_checkCall hchannel hwalk mode locals (fun arg harg => ?_) rfl hspan
      exact Expr.isPlaced_of_placesAll hparts.2 harg
  | letIn name value body =>
      rw [Shape.places, List.forall_mem_append] at hparts
      refine fails_bind (fails_ofOutcome fun f hf _ => .inl ?_) fun _ => ?_
      · rcases hsort : SolverSort.of value.ty with failure | sort
        · rw [hsort] at hf
          cases hf
          exact Failure.isPlaced_locate (by rw [Option.isSome_or, hspan, Bool.or_true]) _
        · rw [hsort] at hf
          cases hf
      · refine fails_bind (fails_act hchannel _) fun _ => ?_
        refine fails_bind ((hwalk _ _ _ hparts.1).mono fun _ _ h => h.mono ?_) fun _ => ?_
        · intro name hname
          rw [Expr.calls, Shape.calls]
          exact List.mem_append_left _ hname
        · refine fails_bind (fails_act hchannel _) fun _ => ?_
          refine (hwalk _ _ _ hparts.2).mono fun _ _ h => h.mono fun name hname => ?_
          rw [Expr.calls, Shape.calls]
          exact List.mem_append_right _ hname
  | cast expr target =>
      rw [Shape.places, List.forall_mem_append] at hparts
      refine fails_bind ((hwalk _ _ _ hparts.1).mono fun _ _ h => h.mono ?_) fun term => ?_
      · intro name hname
        rw [Expr.calls, Shape.calls]
        exact List.mem_append_left _ hname
      · rcases target with target | ⟨target, refinement⟩
        · exact fails_pure _
        · have htarget := hparts.2
          rw [RefinedTy.places] at htarget
          refine fails_clause (fun clause hclause => ?_) (fails_pure _)
          refine (fails_prove hchannel _ _ _ _ hspan).mono fun f hverdict h => ?_
          rcases h with h | ⟨c, locals', hf⟩
          · exact .inl h
          · have hplaced := Refinement.isPlaced htarget hclause
            refine Placed.mono (hwalk _ _ _ hplaced c f hf hverdict) fun name hname => ?_
            rw [Expr.calls, Shape.calls]
            exact List.mem_append_right _ (RefinedTy.mem_calls_of_clause hclause hname)

omit hwalk

theorem places_checkWithin (env : Env) (depth : Nat) : Places τ env (checkWithin env depth) := by
  induction depth with
  | zero =>
      refine fun _ _ _ _ => fails_ofOutcome fun f hf hverdict => ?_
      cases hf
      cases hverdict
  | succ depth ih => exact places_checkExpr hchannel ih

end

/-- Where the nodes of the expression have places, so has every failure that is about the program,
unless it stopped the walk of a clause that lacks places. If all clauses that the calls lead to
have them, there is no such failure. -/
theorem check_places (hchannel : Transport.IsTechnical τ) (env : Env) (mode : Mode)
    (locals : Bindings) {e : Expr} (he : e.IsPlaced) (c : Checker τ ω) {f : Failure}
    (hf : (c.perform (check env mode locals e)).1 = .error f)
    (hverdict : f.fault.isVerdict = true) :
    (f.IsPlaced ∨ Unplaced τ env e f) ∧
      ((∀ name sig, env.Reaches e.calls name → env.get? name = some sig →
        ∀ clause ∈ sig.clauses, clause.IsPlaced) → f.IsPlaced) := by
  have hplaced := places_checkWithin hchannel env _ mode locals e he c f hf hverdict
  refine ⟨hplaced, fun hclauses => hplaced.resolve_right fun hunplaced => ?_⟩
  obtain ⟨name, sig, hreach, hsig, clause, hclause, hlacks⟩ := hunplaced.exists_clause
  exact hlacks (hclauses name sig hreach hsig clause hclause)

end Checker

namespace Sample

/-- The clause of the parameter calls a function that is not there. Its nodes have the place. -/
def unknownInClause (place : Option Span) : Env := .ofList
  [("f", .function .primitive
    [.refined .int (.holds "x" ⟨.bool, .call ⟨.bool, .var "nope", place⟩ [], place⟩)]
    (.plain .int))]

def placedCall : Expr :=
  ⟨.int, .call ⟨.arrow [.plain .int] (.plain .int), .var "f", some ⟨0, 1⟩⟩
    [⟨.int, .int 1, some ⟨2, 1⟩⟩], some ⟨0, 4⟩⟩

theorem depthLimit_placedCall (place : Option Span) :
    Checker.depthLimit (unknownInClause place) placedCall = 0x100003 := by
  have hf : (unknownInClause place).get? "f" = some (.function .primitive
    [.refined .int (.holds "x" ⟨.bool, .call ⟨.bool, .var "nope", place⟩ [], place⟩)]
    (.plain .int)) := rfl
  have hnope : ((unknownInClause place).erase "f").get? "nope" = none := rfl
  have hreach : (unknownInClause place).reachDepth placedCall.calls = 1 := by
    rw [show placedCall.calls = ["f"] from rfl, Env.reachDepth_cons_of_some hf]
    rw [show Signature.clauseCalls _ ++ [] = ["nope"] from rfl, Env.reachDepth_cons_of_none hnope]
    rw [Env.reachDepth]
    rfl
  rw [Checker.depthLimit, hreach, show placedCall.walkDepth = 2 from rfl, Checker.circleDepth]

open Scripted in
/-- A checker on a solver that accepts every command. -/
def checker : Checker Solver Script := { session := { world := {}, channel := some {} } }

theorem check_placedCall (place : Option Span) :
    (checker.perform (Checker.check (unknownInClause place) .full ∅ placedCall)).1 =
      .error ⟨.unbound, "precondition of `f`: unbound symbol `nope`", place⟩ := by
  rw [Checker.check, depthLimit_placedCall]
  cases place <;> rfl

end Sample

namespace Checker

/-- The nodes of the clause lack places, and so does the failure. -/
theorem check_leaves_unplaced : ∃ (env : Env) (e : Expr) (f : Failure), e.IsPlaced ∧
    (Sample.checker.perform (check env .full ∅ e)).1 = .error f ∧ f.fault = .unbound ∧
    f.span = none :=
  ⟨Sample.unknownInClause none, Sample.placedCall, _, by decide, Sample.check_placedCall none,
    rfl, rfl⟩

/-- With places in the clause, the failure has that of the call that cannot be resolved. -/
theorem check_places_sample :
    (∃ f, (Sample.checker.perform (check (Sample.unknownInClause (some ⟨7, 4⟩)) .full ∅
      Sample.placedCall)).1 = .error f ∧ f.IsPlaced) ∧
    ∃ f, (Sample.checker.perform (check (Sample.unknownInClause none) .full ∅
      Sample.placedCall)).1 = .error f ∧
        Unplaced Scripted.Solver (Sample.unknownInClause none) Sample.placedCall f := by
  have hplaced : Sample.placedCall.IsPlaced := by decide
  constructor
  · refine ⟨_, Sample.check_placedCall _, (check_places Scripted.isTechnical _ .full ∅ hplaced
      Sample.checker (Sample.check_placedCall _) rfl).2 fun name sig _ hsig => ?_⟩
    obtain ⟨rfl, rfl⟩ := Prod.mk.inj (List.mem_singleton.1 (NameMap.get?_eq_some_iff.1 hsig))
    decide
  · refine ⟨_, Sample.check_placedCall _, (check_places Scripted.isTechnical _ .full ∅ hplaced
      Sample.checker (Sample.check_placedCall _) rfl).1.resolve_left ?_⟩
    exact fun h => nomatch h

end Checker

end ContractCheck
