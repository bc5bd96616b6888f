import ContractCheck.Proofs.HonestSolver
import ContractCheck.Proofs.Legibility
import ContractCheck.Proofs.Preamble
import ContractCheck.Proofs.Simulation
import ContractCheck.Proofs.Totality

/-!
Soundness of successful runs. With an honest solver, each command of a run that succeeds can be
trusted (`trusted_of_prove`). Once the globals are declared they form a model themselves, and the
walk over the expression follows each evaluation in a model that extends it, so that no required
contract fails unless one that was assumed before fails (`sound_of_prove`). There are evaluations
to speak of (`exists_evaluates_of_prove`).
-/

namespace ContractCheck

open Smt Scripted

namespace Session

section

variable {τ ω : Type} [Transport τ ω]

/-- All the commands of a run on a new session. -/
def courseOf (env : Env) (e : Expr) (walk : List Command) : List Command :=
  .scopedDeclarations :: ((env.declarations e).map (·.2) ++ .push :: (walk ++ [.pop]))

theorem isLegible_of_mem_courseOf {env : Env} {e : Expr} (hsorted : WellSorted env e)
    {walk : List Command} (hwalk : ∀ c ∈ walk, c.IsLegible) :
    ∀ c ∈ courseOf env e walk, c.IsLegible := by
  intro c hc
  rcases List.mem_cons.1 hc with rfl | hc
  · trivial
  · rcases List.mem_append.1 hc with hc | hc
    · exact isLegible_of_mem_declarations hsorted.names hsorted.types hc
    · rcases List.mem_cons.1 hc with rfl | hc
      · trivial
      · rcases List.mem_append.1 hc with hc | hc
        · exact hwalk c hc
        · obtain rfl := List.mem_singleton.1 hc
          trivial

/-- An honest solver's reply to the marker comes after all others. -/
theorem unread_of_synced (solver : HonestSolver τ ω) {s s' : Session τ ω} (h : s.Synced s') :
    ∃ c reply line rest, s.channel = some c ∧ answerCount reply ≤ 1 ∧ isErrorLine line = false ∧
      solver.unread c s.world ++ reply = line :: rest := by
  obtain ⟨c, c₁, c', w₁, line, hc, hsend, hreceive, herror, -, -⟩ := h.exchange
  obtain ⟨-, reply, hunread, hreply⟩ := solver.send hsend
  obtain ⟨-, hread⟩ := solver.receive hreceive
  have hsingle := (hreply .sync (Command.read?_line trivial)).single
  exact ⟨c, reply, line, _, hc, hsingle, herror, hunread.symm.trans hread⟩

/-- Whatever an honest solver made of a run that succeeded, each of its commands can be trusted. -/
theorem trusted_of_prove (solver : HonestSolver τ ω) {env : Env} {e : Expr}
    (hsorted : WellSorted env e) {world : ω} {summary : Summary} {s' : Session τ ω}
    (h : prove env e { world } = (.ok summary, s')) :
    ∃ walk t p, Checker.Accepts (Checker.check env .full ∅ e) {} walk t p ∧
      Trusted {} (courseOf env e walk) := by
  obtain ⟨s₁, s₂, walk, t, p, hstart, hcheck, -, hsends, hsynced⟩ := prove_eq_ok h
  obtain ⟨s₀, c, hlaunch, hchannel, -, -, hfirst, hdeclared⟩ := start_new_eq_ok hstart
  rw [missing_of_declared_eq_empty hdeclared] at hsends
  have hcourse : s₀.Sends (courseOf env e walk) s₂ := hfirst.append hsends
  obtain ⟨sort, hsort⟩ := Option.isSome_iff_exists.1 hsorted.expr
  obtain ⟨hwalk, -⟩ := Checker.legible_checkWithin hsorted.signatures hsorted.names _ hcheck hsort
    (fun _ => rfl) (Checker.spells_empty hsorted.names)
  have hlegible := isLegible_of_mem_courseOf hsorted hwalk
  obtain ⟨c₀, c₂, hc₀, hc₂, hconverses⟩ := hcourse.converses
  obtain rfl : c = c₀ := Option.some.inj (hchannel.symm.trans hc₀)
  obtain ⟨haccepted, hnothing⟩ := solver.launch hlaunch
  obtain ⟨said, hreplied, hlaw⟩ := solver.replied_of_converses hconverses hlegible
  rw [hnothing, List.nil_append] at hlaw
  rw [haccepted] at hreplied
  obtain ⟨c₂', reply, line, rest, hc₂', hreply, hline, hread⟩ := unread_of_synced solver hsynced
  obtain rfl : c₂ = c₂' := Option.some.inj (hc₂.symm.trans hc₂')
  have hall : said ++ reply =
      unsats ((courseOf env e walk).countP Command.isCheckSat) ++ line :: rest :=
    calc said ++ reply
        = unsats ((courseOf env e walk).countP Command.isCheckSat) ++
            (solver.unread c₂ s₂.world ++ reply) := by rw [hlaw, List.append_assoc]
      _ = _ := by rw [hread]
  have hsaid := eq_unsats_of_read (answerCount_of_replied hreplied) hreply hline hall
  exact ⟨walk, t, p, hcheck, trusted_of_replied hreplied hlegible hsaid rfl⟩

/-- Where a run succeeded, each contract that an evaluation of the expression requires holds if
those that it has assumed before do. -/
theorem sound_of_prove (solver : HonestSolver τ ω) {carrier : String → Type}
    [∀ sort, Nonempty (carrier sort)] {env : Env} {e : Expr} (hsorted : WellSorted env e)
    {world : ω} {summary : Summary} {s' : Session τ ω}
    (h : prove env e { world } = (.ok summary, s')) {I : Interpretation carrier} (hI : I.Fits env)
    {v : Value carrier} {F : List Finding} (heval : Evaluates env I ∅ e v F) : Sound F := by
  obtain ⟨walk, t, p, hcheck, htrusted⟩ := trusted_of_prove solver hsorted h
  obtain ⟨-, htrusted⟩ := htrusted
  obtain ⟨-, -, htrusted⟩ := trusted_append.1 htrusted
  obtain ⟨htrusted, -⟩ := trusted_append.1 htrusted
  obtain ⟨sort, hsort⟩ := Option.isSome_iff_exists.1 hsorted.expr
  have hknows := knows_model (I := I) hsorted.names
  have hplain : ∀ c ∈ (env.declarations e).map (·.2), c.IsPlain := by
    intro c hc
    obtain ⟨d, hd, rfl⟩ := List.mem_map.1 hc
    exact Env.isPlain_of_mem_declarations hd
  -- Nothing is asserted before the walk, and the scope it starts in is empty.
  have hmodel : (I.model env).Satisfies
      (Stack.afterAll {} ((env.declarations e).map (·.2))).push.entries := by
    refine Interpretation.satisfies_declarations hI hsorted.names hsorted.types fun entry => ?_
    rw [Stack.entries_push, Stack.mem_entries_afterAll hplain]
    exact or_iff_left List.not_mem_nil
  exact (Checker.simulates_checkWithin hI hsorted.signatures _ hcheck hsort (fun _ => rfl) heval
    hknows hmodel (hknows.agrees hI) htrusted).1

end

end Session

namespace Sample

variable {carrier : String → Type}

theorem fits_env (I : Interpretation carrier) : I.Fits env := by
  have hprimitive : ∀ name sig, env.get? name = some sig → sig.origin = .primitive :=
    (env.forall_signature_iff fun _ sig => sig.origin = .primitive).2 (by decide)
  refine ⟨fun name sort hsort => ?_, fun name sig rank hsig horigin => ?_⟩
  · obtain ⟨sig, hsig, horigin, -⟩ := Env.globalRank?_of_valueSort? hsort
    rw [hprimitive name sig hsig] at horigin
    cases horigin
  · rw [hprimitive name sig hsig] at horigin
    cases horigin

/-- What is required of the argument of the call. -/
def requirement (carrier : String → Type) : Finding :=
  .required ((Clause.equals (.int 3)).Holds (Value.int 3 : Value carrier) (Value.int 3))

theorem evaluates_call (I : Interpretation carrier) (n : Int) :
    Evaluates env I ∅ call (.int n) [requirement carrier] := by
  let bound : NameMap (Value carrier) := NameMap.insert ∅ "x" (.int 3)
  have hclause : States env I .required bound (.int 3) (.refined .int (.equals "x" (.int 3)))
      ([] ++ [requirement carrier]) := .clause rfl .int
  have harg : EvaluatesArgs env I ∅ ([.refined .int (.equals "x" (.int 3))].zip [.int 3]) ∅
      bound [.int 3] ([] ++ ([requirement carrier] ++ [])) := .cons .int hclause .nil
  have hreturn : States env I .assumed bound (.int n) (.plain .int) [] := .nothing rfl
  exact .call rfl get?_env rfl (by decide) harg rfl (fun h => (nomatch h)) hreturn

theorem prove_call_novice : ∃ s', Session.prove env call
    ({ world := () } : Session Novice Unit) = (.ok ⟨1, 1⟩, s') := by
  rcases hrun : Session.prove env call
    ({ world := () } : Session Novice Unit) with ⟨outcome, s'⟩
  obtain rfl : outcome = .ok ⟨1, 1⟩ := by
    rw [Session.prove_eq_proveWithin depthLimit_call] at hrun
    exact (congrArg Prod.fst hrun).symm.trans rfl
  exact ⟨s', rfl⟩

/-- However the globals are, the sample call requires only that three is three. -/
theorem sound_of_prove_call : ∃ (s' : Session Novice Unit) (I : Interpretation fun _ => Unit),
    WellSorted env call ∧ Session.prove env call { world := () } = (.ok ⟨1, 1⟩, s') ∧
      I.Fits env ∧ Evaluates env I ∅ call (.int 0) [requirement fun _ => Unit] ∧
      Sound [requirement fun _ => Unit] := by
  obtain ⟨s', hrun⟩ := prove_call_novice
  have hsorted : WellSorted env call := by decide
  let I : Interpretation fun _ => Unit := ⟨fun _ => .int 0, fun _ _ => .int 0, ⟨id, id⟩⟩
  have heval := evaluates_call I 0
  exact ⟨s', I, hsorted, hrun, fits_env I, heval,
    Session.sound_of_prove Novice.honest hsorted hrun (fits_env I) heval⟩

end Sample

end ContractCheck
