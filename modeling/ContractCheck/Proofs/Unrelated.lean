import ContractCheck.Proofs.Additions
import ContractCheck.Proofs.Independence

/-!
Signatures that have nothing to do with an expression. Declaration by declaration, a run under an
environment that has one more goes beside the run under the environment without it
(`Session.beside_declareGlobals`), until the two solvers differ in what was declared for the
signature alone. The checker then goes the same way in both (`Session.prove_unaffected`).
-/

namespace ContractCheck

open Scripted

namespace Session

section

variable {τ ω α : Type} {R : Session τ ω → Session τ ω → Prop}

/-- What the second session leaves out is as good as done in the first. -/
theorem abreast_filter {op : List α → SessionM τ ω Unit} (hnil : op [] = pure ())
    (hcons : ∀ a l, op (a :: l) = op [a] >>= fun _ => op l) {p : α → Bool} {l : List α}
    (hkept : ∀ a ∈ l, p a = true → Lockstep R (op [a]))
    (hleft : ∀ a ∈ l, p a = false → Abreast R (op [a]) (pure ())) :
    Abreast R (op l) (op (l.filter p)) := by
  induction l with
  | nil =>
      rw [List.filter_nil, hnil]
      exact fun s t h => ⟨rfl, h⟩
  | cons a rest ih =>
      obtain ⟨hkeptHere, hkept⟩ := List.forall_mem_cons.1 hkept
      obtain ⟨hleftHere, hleft⟩ := List.forall_mem_cons.1 hleft
      have hrest := ih hkept hleft
      rw [hcons a rest]
      cases hp : p a with
      | true =>
          rw [List.filter_cons_of_pos hp, hcons a (rest.filter p)]
          exact Abreast.bind (hkeptHere hp) fun _ => hrest
      | false =>
          have hskip : Abreast R (op [a] >>= fun _ => op rest)
              (pure () >>= fun _ => op (rest.filter p)) := (hleftHere hp).bind fun _ => hrest
          rwa [List.filter_cons_of_neg (by simp [hp]), ← pure_bind () fun _ => op (rest.filter p)]

variable [Transport τ ω]

theorem declareSorts_cons (sort : String) (rest : List String) :
    (declareSorts (sort :: rest) : SessionM τ ω Unit) =
      declareSorts [sort] >>= fun _ => declareSorts rest := by
  simp [declareSorts]

theorem declareSorts_singleton (sort : String) : (declareSorts [sort] : SessionM τ ω Unit) =
    declareGlobal ("sort " ++ sort) (Command.declareSort sort).line := by
  simp [declareSorts]

theorem declareSignatures_cons (entry : String × Signature) (rest : List (String × Signature)) :
    (declareSignatures (entry :: rest) : SessionM τ ω Unit) =
      declareSignatures [entry] >>= fun _ => declareSignatures rest := by
  obtain ⟨name, sig⟩ := entry
  simp only [declareSignatures, bind_assoc]
  refine congrArg _ (funext fun declaration => ?_)
  cases declaration <;> simp

end

section

variable {env : Env} {e : Expr} {name : String} {sig : Signature} {d : String × Command}
  {before : List String} {s t : Session Solver Script}

/-- What is still to be declared for the signature the solver does not hold yet. -/
def Awaits (env : Env) (e : Expr) (name : String) (sig : Signature) (declared : NameMap Nat)
    (a : Solver) : Prop :=
  ∀ d word, env.Adds e name sig d → declaredName? d.2.line = some word →
    declared.contains d.1 = false → a.holds word = false

theorem Awaits.declare {declared : NameMap Nat} {a : Solver} {word : String}
    (ha : Awaits env e name sig declared a) (h : env.Unrelated e name sig)
    (hd : Env.Offers (env.insert name sig) [e] d) (hword : declaredName? d.2.line = some word)
    (depth : Nat) : Awaits env e name sig (declared.insert d.1 depth) (a.declare word) := by
  intro d' word' hd' hword' hkey
  rw [NameMap.contains_insert, Bool.or_eq_false_iff, beq_eq_false_iff_ne] at hkey
  refine holds_declare_of_ne (ha d' word' hd' hword' hkey.1) ?_
  rintro rfl
  obtain rfl := h.eq_of_word hd' hd (hword'.trans hword.symm)
  exact hkey.2 rfl

/-- The first session has made declarations for the signature, and both have made the same
others. Nothing keeps what they send from being accepted. -/
structure Beside (env : Env) (e : Expr) (name : String) (sig : Signature) (before : List String)
    (s t : Session Solver Script) : Prop where
  solvers : ∃ a b, s.channel = some a ∧ t.channel = some b ∧
    SameBut (env.AddsWord e name sig) a b ∧ Awaits env e name sig s.declared a
  declared : ∀ d, env.Offers [e] d → s.declared.contains d.1 = t.declared.contains d.1
  answers : s.world.answers = t.world.answers
  failLaunch : s.world.failLaunch = t.world.failLaunch
  failSend : s.world.failSend = []
  failSend' : t.world.failSend = []
  lines : Opening before s
  lines' : Opening before t

theorem Beside.sendable (h : Beside env e name sig before s t) (line : String) :
    line ∉ s.world.failSend ∧ line ∉ t.world.failSend := by
  rw [h.failSend, h.failSend']
  exact ⟨List.not_mem_nil, List.not_mem_nil⟩

theorem isClosed_beside : IsClosed (fun {α} (op : SessionM Solver Script α) =>
    Lockstep (Beside env e name sig before) op) :=
  isClosed_lockstep fun _ _ _ _ h => ⟨h.solvers, h.declared, h.answers, h.failLaunch, h.failSend,
    h.failSend', h.lines, h.lines'⟩

/-- What is declared for the signature only the first session declares. -/
theorem beside_adds (h : env.Unrelated e name sig) (hd : env.Adds e name sig d) :
    Abreast (Beside env e name sig before) (declareGlobal d.1 d.2.line) (pure ()) := by
  intro s t hst
  by_cases hkey : s.declared.contains d.1 = true
  · rw [declareGlobal_of_declared hkey]
    exact ⟨rfl, hst⟩
  rw [Bool.not_eq_true] at hkey
  obtain ⟨a, b, hs, ht, hsame, hawaits⟩ := hst.solvers
  obtain ⟨n, -, hword⟩ := hd.1.word
  obtain ⟨hline, -⟩ := hst.sendable d.2.line
  obtain ⟨sent, log, hsent⟩ := declareGlobal_of_sent hs hkey hline hword
  have hsame' := hsame.declare_left ⟨d, hd, hword⟩ (hawaits d _ hd hword hkey)
  rw [hsent]
  refine ⟨rfl, ⟨_, b, rfl, ht, hsame', hawaits.declare h hd.1 hword _⟩, fun d' hd' => ?_,
    hst.answers, hst.failLaunch, hst.failSend, hst.failSend',
    hst.lines.line hd.1.isPlain.isFlat rfl, hst.lines'⟩
  have hne : (d.1 == d'.1) = false := by
    rw [beq_eq_false_iff_ne]
    intro heq
    obtain rfl := hd.1.eq_of_key (hd'.insert h.new) heq
    exact hd.2 hd'
  rw [NameMap.contains_insert, hne, Bool.or_false]
  exact hst.declared d' hd'

/-- What is declared in any case both declare. -/
theorem beside_shares (h : env.Unrelated e name sig) (hd : env.Offers [e] d) :
    Lockstep (Beside env e name sig before) (declareGlobal d.1 d.2.line) := by
  intro s t hst
  have hkeys := hst.declared d hd
  by_cases hkey : s.declared.contains d.1 = true
  · rw [declareGlobal_of_declared hkey, declareGlobal_of_declared (hkeys ▸ hkey)]
    exact ⟨rfl, hst⟩
  rw [Bool.not_eq_true] at hkey
  obtain ⟨a, b, hs, ht, hsame, hawaits⟩ := hst.solvers
  obtain ⟨n, -, hword⟩ := hd.word
  obtain ⟨hline, hline'⟩ := hst.sendable d.2.line
  obtain ⟨sent, log, hsent⟩ := declareGlobal_of_sent hs hkey hline hword
  obtain ⟨sent', log', hsent'⟩ := declareGlobal_of_sent ht (hkeys ▸ hkey) hline' hword
  have hsame' := hsame.declare (h.not_addsWord_of_offers hd hword)
  have hflat : IsFlat d.2.line := hd.isPlain.isFlat
  rw [hsent, hsent']
  refine ⟨rfl, ⟨_, _, rfl, rfl, hsame', hawaits.declare h (hd.insert h.new) hword _⟩,
    fun d' hd' => ?_, hst.answers, hst.failLaunch, hst.failSend, hst.failSend',
    hst.lines.line hflat rfl, hst.lines'.line hflat rfl⟩
  rw [NameMap.contains_insert, NameMap.contains_insert, hst.declared d' hd']

/-- The first session declares the signature, if that is declared at all. -/
theorem beside_declareSignature (h : env.Unrelated e name sig) :
    Abreast (Beside env e name sig before) (declareSignatures [(name, sig)]) (pure ()) := by
  obtain ⟨declaration, hdeclaration⟩ := Signature.exists_globalDeclaration h.declarable name
  have hadds : ∀ d ∈ sig.declarations name, Abreast (Beside env e name sig before)
      (declareGlobal d.1 d.2.line) (pure ()) :=
    fun d hd => beside_adds h (Env.adds_of_mem_declarations h.new hd)
  unfold Signature.declarations at hadds
  unfold declareSignatures
  rw [hdeclaration] at hadds ⊢
  cases declaration with
  | declare key command =>
      change Abreast _ (declareGlobal key command.line >>= pure) (pure ())
      rw [bind_pure]
      exact hadds _ List.mem_cons_self
  | «omit» unsorted =>
      intro s t hst
      exact ⟨rfl, hst.solvers, hst.declared, hst.answers, hst.failLaunch, hst.failSend,
        hst.failSend', hst.lines, hst.lines'⟩
  | none => exact isClosed_beside.answer _

theorem beside_declareGlobals (h : env.Unrelated e name sig) :
    Abreast (Beside env e name sig before) (declareGlobals (env.insert name sig) e)
      (declareGlobals env e) := by
  unfold declareGlobals
  refine Abreast.bind ?_ fun _ => ?_
  · rw [Env.sortsOfRun_eq_filter h.new sig e]
    refine abreast_filter rfl declareSorts_cons (fun sort _ hkept => ?_) fun sort hsort hleft => ?_
    · refine isClosed_beside.declareSorts fun d hd => beside_shares h ?_
      rw [List.mem_singleton.1 hd, Env.offers_sort_iff]
      exact mem_toList_iff.2 hkept
    · have hnot : sort ∉ (sortsOfRun env e).toList := by
        rw [mem_toList_iff, hleft]
        exact Bool.false_ne_true
      rw [declareSorts_singleton]
      exact beside_adds h (Env.adds_of_sort hsort hnot)
  · rw [Env.entries_eq_filter h.new sig]
    refine abreast_filter rfl declareSignatures_cons (fun entry hentry hkept => ?_)
      fun entry hentry hleft => ?_
    · refine isClosed_beside.declareSignatures fun d hd => beside_shares h ?_
      rw [signatureDeclarations, List.flatMap_singleton] at hd
      rcases (Env.get?_insert_eq_some_iff h.new).1 (NameMap.get?_eq_some_iff.2 hentry) with
        ⟨heq, -⟩ | hfound
      · exact absurd heq (bne_iff_ne.1 hkept)
      · exact Env.offers_iff.2 (.inr ⟨entry.1, entry.2, hfound, hd⟩)
    · rcases (Env.get?_insert_eq_some_iff h.new).1 (NameMap.get?_eq_some_iff.2 hentry) with
        ⟨heq, hsig⟩ | hfound
      · rw [← Prod.eta entry, heq, hsig]
        exact beside_declareSignature h
      · rw [bne_eq_false_iff_eq.1 hleft, h.new] at hfound
        cases hfound

/-- Once the declarations are made, the solvers differ in those for the signature alone. -/
theorem Beside.alike (h : Beside env e name sig before s t) :
    Alike (env.AddsWord e name sig) before before s t := by
  obtain ⟨a, b, hs, ht, hsame, -⟩ := h.solvers
  refine ⟨h.answers, h.failLaunch, h.failSend.trans h.failSend'.symm, ?_,
    h.lines.sameFromPush h.lines'⟩
  rw [hs, ht]
  exact .some hsame

/-- The checker declares nothing that was declared for the signature. -/
theorem lockstep_verdict_of_unrelated (h : env.Unrelated e name sig) :
    Lockstep (Alike (env.AddsWord e name sig) before before) (verdict env e) := by
  have htidy : (Checker.runDialogue env e).Obeys (Rule.tidy fun _ => True)
      (fun _ height => height = 0) 0 :=
    Checker.tidy_run (fun _ _ => trivial) (fun _ _ => trivial) (fun _ _ => trivial) 0
  refine lockstep_verdict (lockstep_runChecker_of_tidy (htidy.tidy_of_mayDeclare fun n hn => ?_))
  exact h.not_addsWord (.inr hn)

theorem Beside.sameRun (hst : Beside env e name sig before s t)
    (h : env.Unrelated e name sig) :
    SameRun before before (prove (env.insert name sig) e s) (prove env e t) := by
  obtain ⟨a, b, hs, ht, -⟩ := hst.solvers
  have hwith : verdict (env.insert name sig) e = verdict env e := by
    unfold verdict runChecker
    rw [Checker.runDialogue_eq_of_agree (Env.agreeOnReached_insert h.uncalled sig)]
  rw [prove_of_started (by simp [isStarted, hs]), prove_of_started (by simp [isStarted, ht]), hwith,
    bind_apply, bind_apply]
  have hdeclare := beside_declareGlobals h s t hst
  rcases hs₁ : declareGlobals (env.insert name sig) e s with ⟨outcome, s₁⟩
  rcases ht₁ : declareGlobals env e t with ⟨outcome', t₁⟩
  rw [hs₁, ht₁] at hdeclare
  obtain ⟨houtcome, hst₁⟩ := hdeclare
  obtain rfl : outcome = outcome' := houtcome
  have halike := hst₁.alike
  rcases outcome with failure | u
  · exact ⟨rfl, halike.isStarted, halike.lines⟩
  · exact halike.sameRun (lockstep_verdict_of_unrelated h)

/-- The lines that a run sends, from the first on that opens a scope. -/
def linesFromPush (env : Env) (e : Expr) (s : Session Solver Script) : List String :=
  ((prove env e s).2.transcript.toList.drop s.transcript.size).dropWhile (· != Command.push.line)

/-- A signature that has nothing to do with an expression does not change the verdict on it. Unless
the solver takes names for each other, a run that launches a solver that accepts every line ends in
the same summary or the same failure with the signature and without, and both send the same lines
from the first on that opens a scope. -/
theorem prove_unaffected (h : env.Unrelated e name sig) (hs : s.isStarted = false)
    (hlaunch : s.world.failLaunch = 0) (hsend : s.world.failSend = []) :
    (prove (env.insert name sig) e s).1 = (prove env e s).1 ∧
      linesFromPush (env.insert name sig) e s = linesFromPush env e s := by
  have hline : Command.scopedDeclarations.line ∉ s.world.failSend := by
    rw [hsend]
    exact List.not_mem_nil
  obtain ⟨sent, log, hstart⟩ := start_of_sent hs hlaunch hline
  have hrun : SameRun s.transcript.toList s.transcript.toList (prove (env.insert name sig) e s)
      (prove env e s) := by
    rw [prove_of_start hstart, prove_of_start hstart]
    -- the solver that was launched holds nothing, so nothing is declared yet for the signature
    refine Beside.sameRun ⟨⟨_, _, rfl, rfl, sameBut_launched, fun _ _ _ _ _ => rfl⟩,
      fun _ _ => rfl, rfl, rfl, hsend, hsend, ?_, ?_⟩ h <;>
    exact ⟨[Command.scopedDeclarations.line], by decide +kernel, Array.toList_push⟩
  refine ⟨hrun.outcome, ?_⟩
  have hdrop := hrun.lines.dropWhile
  rwa [Array.length_toList] at hdrop

end

section

open Sample (call)

/-- The length of an array, which is an integer that is not negative. -/
def lengthSignature : Signature :=
  .function .uninterpreted [.plain Prelude.array] (Prelude.natural "n")

theorem eq_of_reaches_call {n : String} (h : Sample.env.Reaches call.calls n) : n = "f" := by
  induction h with
  | called h => exact List.mem_singleton.1 h
  | contract _ hsig hname ih =>
      subst ih
      obtain rfl := Option.some.inj (Sample.get?_env.symm.trans hsig)
      cases hname

theorem isFresh_of_mayDeclare_call {n : String} (h : Sample.env.MayDeclare call n) :
    IsFresh n := by
  rcases h with ⟨sig, hsig, hglobal⟩ | h
  · have hentry := NameMap.get?_eq_some_iff.1 hsig
    obtain ⟨rfl, rfl⟩ := Prod.mk.inj (List.mem_singleton.1 hentry)
    exact absurd rfl hglobal
  rcases Checker.letOf_or_isFresh_of_mayDeclare h with (hlet | ⟨caller, sig, hcaller, hsig, hlet⟩) |
    hfresh
  · cases hlet
  · obtain rfl := eq_of_reaches_call hcaller
    obtain rfl := Option.some.inj (Sample.get?_env.symm.trans hsig)
    cases hlet
  · exact hfresh

/-- The solver is told of arrays and of their length, and the call is verified all the same. -/
theorem prove_unaffected_sample :
    let s : Session Solver Script := { world := { answers := ["unsat"] } }
    let env := Sample.env.insert "length" lengthSignature
    Sample.env.Unrelated call "length" lengthSignature ∧ s.isStarted = false ∧
      s.world.failLaunch = 0 ∧ s.world.failSend = [] ∧
      (Env.declarations env call).map (·.2.line) =
        ["(declare-sort array_int 0)", "(declare-fun length (array_int) Int)"] ∧
      (prove env call s).1 = .ok ⟨1, 1⟩ ∧ linesFromPush env call s =
        ["(push 1)", "(push 1)", "(assert (not (= 3 3)))", "(check-sat)", "(pop 1)",
          "(declare-const _i0 Int)", "(pop 1)", "(echo \"refine-sync\")"] := by
  intro s env
  have hunrelated : Sample.env.Unrelated call "length" lengthSignature := by
    have hsorts : (sortsOfRun env call).toList = ["array_int"] := by decide +kernel
    have hown : lengthSignature.ty.sortsUsed = ["array_int"] := by decide +kernel
    refine ⟨rfl, fun h => ?_, fun _ => ⟨_, _, rfl, by decide +kernel⟩, fun sort hsort => ?_,
      fun n hn heq => ?_, fun sort hsort n hn heq => ?_⟩
    · exact absurd (eq_of_reaches_call h) (by decide)
    · rw [hsorts, List.mem_singleton] at hsort
      subst hsort
      decide +kernel
    · have hhead := (Verifier.head?_of_isFresh (isFresh_of_mayDeclare_call hn)).2
      rw [heq] at hhead
      exact absurd hhead (by decide +kernel)
    · rw [hown, List.mem_singleton] at hsort
      have hhead := (Verifier.head?_of_isFresh (isFresh_of_mayDeclare_call hn)).2
      rw [← heq, hsort] at hhead
      exact absurd hhead (by decide +kernel)
  obtain ⟨houtcome, hlines⟩ := prove_unaffected (s := s) hunrelated rfl rfl rfl
  have hrun : prove Sample.env call s = proveWithin 0x100003 Sample.env call s := by
    rw [prove_eq_proveWithin Sample.depthLimit_call]
  refine ⟨hunrelated, rfl, rfl, rfl, by decide +kernel, houtcome.trans ?_, hlines.trans ?_⟩
  · rw [hrun]
    decide +kernel
  · unfold linesFromPush
    rw [hrun]
    decide +kernel

end

/-- The solver takes `foo bar` for `foo`, which the run then cannot declare. -/
theorem prove_affected : ¬ ∀ (env : Env) (e : Expr) (name : String) (sig : Signature)
    (answers : List String), env.get? name = none → ¬ env.Reaches e.calls name →
    sig.IsDeclarable → (∀ taken, taken ∈ (sortsOfRun (env.insert name sig) e).toList ∨
      env.contains taken = true ∨ taken ∈ env.letNames ∨ taken ∈ e.letNames ∨ IsFresh taken →
        name ≠ taken) →
    (∀ sort ∈ sig.ty.sortsUsed, ∀ taken, taken ∈ (sortsOfRun env e).toList ∨
      env.contains taken = true ∨ taken ∈ env.letNames ∨ taken ∈ e.letNames ∨ IsFresh taken →
        sort ≠ taken) →
    let s : Session Solver Script := { world := { answers } }
    (prove (env.insert name sig) e s).1 = (prove env e s).1 ∧
      linesFromPush (env.insert name sig) e s = linesFromPush env e s := by
  intro hclaim
  have hsorts : (sortsOfRun (NameMap.insert ∅ "foo bar" (.value .int))
      (Verifier.naming "foo")).toList = [] := by decide +kernel
  have huncalled : ¬ Env.Reaches ∅ (Verifier.naming "foo").calls "foo bar" := by
    intro h
    cases h with
    | called h => cases h
    | contract _ hsig _ => cases hsig
  have hnames : ∀ taken, taken ∈ (sortsOfRun (NameMap.insert ∅ "foo bar" (.value .int))
      (Verifier.naming "foo")).toList ∨ (∅ : Env).contains taken = true ∨
        taken ∈ Env.letNames ∅ ∨ taken ∈ (Verifier.naming "foo").letNames ∨ IsFresh taken →
      "foo bar" ≠ taken := by
    rintro taken htaken rfl
    rcases htaken with hsort | hglobal | hlet | hlet | hfresh
    · rw [hsorts] at hsort
      cases hsort
    · cases hglobal
    · cases hlet
    · exact absurd (List.mem_singleton.1 hlet) (by decide +kernel)
    · exact absurd (Verifier.head?_of_isFresh hfresh).1 (by decide +kernel)
  obtain ⟨hsame, -⟩ := hclaim ∅ (Verifier.naming "foo") "foo bar" (.value .int) [] rfl huncalled
    nofun hnames nofun
  rw [prove_eq_proveWithin (Verifier.depthLimit_naming _ "foo"),
    prove_eq_proveWithin (Verifier.depthLimit_naming _ "foo")] at hsame
  exact absurd hsame (by decide +kernel)

end Session

end ContractCheck
