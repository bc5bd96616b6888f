import ContractCheck.Proofs.Lockstep
import ContractCheck.Proofs.Preamble
import ContractCheck.Proofs.Shadow
import ContractCheck.Proofs.Untraced

/-!
What a solver holds between runs. Its one scope holds the names of the global declarations in force
and no others, and nothing that it said is unread (`Session.Settled`). Each global declaration keeps
this, unless its name is held already: then the solver disputes it, and no run succeeds that has
to read what it said (`Session.settled_or_disputed`).
-/

namespace ContractCheck

open Scripted

namespace Env

variable {env : Env} {es es' : List Expr} {d d' : String × Command}

/-- The runs of these expressions mention the sort. -/
def Mentions (env : Env) (es : List Expr) (sort : String) : Prop :=
  ∃ e ∈ es, sort ∈ (sortsOfRun env e).toList

/-- It is a global declaration of a run of one of these expressions. -/
def Offers (env : Env) (es : List Expr) (d : String × Command) : Prop :=
  ∃ e ∈ es, d ∈ env.declarations e

namespace Offers

theorem mono (h : env.Offers es d) (hes : es ⊆ es') : env.Offers es' d := by
  obtain ⟨e, he, hd⟩ := h
  exact ⟨e, hes he, hd⟩

theorem isPlain (h : env.Offers es d) : d.2.IsPlain := by
  obtain ⟨e, -, hd⟩ := h
  exact Env.isPlain_of_mem_declarations hd

theorem sort_or_global (h : env.Offers es d) :
    (∃ sort, env.Mentions es sort ∧ d = ("sort " ++ sort, .declareSort sort)) ∨
      d ∈ signatureDeclarations env.entries := by
  obtain ⟨e, he, hd⟩ := h
  rcases List.mem_append.1 hd with hd | hd
  · obtain ⟨sort, hsort, rfl⟩ := List.mem_map.1 hd
    exact .inl ⟨sort, ⟨e, he, hsort⟩, rfl⟩
  · exact .inr hd

/-- A key stands for one declaration. -/
theorem eq_of_key (h : env.Offers es d) (h' : env.Offers es' d') (heq : d.1 = d'.1) : d = d' := by
  have hne : ∀ {sort : String} {d : String × Command}, d ∈ signatureDeclarations env.entries →
      "sort " ++ sort ≠ d.1 := by
    intro sort d hd heq
    obtain ⟨entry, -, hd⟩ := List.mem_flatMap.1 hd
    exact Session.sort_append_ne_key hd heq
  rcases h.sort_or_global with ⟨sort, -, rfl⟩ | hd <;>
    rcases h'.sort_or_global with ⟨sort', -, rfl⟩ | hd'
  · obtain rfl := (String.append_right_inj _).1 heq
    rfl
  · exact absurd heq (hne hd')
  · exact absurd heq.symm (hne hd)
  · exact List.inj_on_of_nodup_map (nodup_keys_signatureDeclarations env.sorted) hd hd' heq

/-- The solver keeps what is declared under a word. -/
theorem word (h : env.Offers es d) :
    ∃ name, d.2.declared? = some name ∧ declaredName? d.2.line = some (firstWord name) := by
  suffices hname : ∃ name, d.2.declared? = some name by
    obtain ⟨name, hname⟩ := hname
    exact ⟨name, hname, declaredName?_line_declare hname⟩
  obtain ⟨e, -, hd⟩ := h
  rcases mem_declarations_iff.1 (List.mem_map_of_mem hd) with ⟨sort, -, hsort⟩ |
    ⟨name, sig, key, -, hdeclare⟩
  · exact ⟨sort, by rw [hsort]; rfl⟩
  · exact ⟨name, Signature.declared?_of_globalDeclaration hdeclare⟩

end Offers

/-- A sort's name is a word. -/
theorem Mentions.firstWord_eq {sort : String} (h : env.Mentions es sort) :
    firstWord sort = sort := by
  obtain ⟨e, -, hsort⟩ := h
  obtain ⟨ty, hty⟩ := namesSort_of_mem_sortsOfRun hsort
  obtain ⟨rfl, -⟩ := SolverSort.of?_eq_named hty
  refine firstWord_eq_self fun c hc => ?_
  exact (ne_of_isPlainChar (isPlainChar_of_isSortChar (isSortChar_sortName hc))).1

end Env

namespace Session

section

variable {s : Session Solver Script} {a : Solver} {key line word : String}

theorem declareGlobal_of_declared {τ ω : Type} [Transport τ ω] {s : Session τ ω}
    (h : s.declared.contains key = true) (line : String) :
    declareGlobal key line s = (.ok (), s) := by
  rw [declareGlobal_apply, if_pos h]

theorem declareGlobal_of_lost (hs : s.channel = some a) (hkey : s.declared.contains key = false)
    (hline : line ∈ s.world.failSend) :
    ∃ log, declareGlobal key line s = (.error sendFailure, { s with log }) := by
  have hsend : Transport.send line a s.world = (.error sendFailure, a, s.world) := if_pos hline
  refine ⟨(s.record .trace ("> " ++ line)).log, ?_⟩
  rw [declareGlobal_apply, hkey, if_neg Bool.false_ne_true, bind_apply, write_of_refused hs hsend,
    hs]
  rfl

theorem declareGlobal_of_sent (hs : s.channel = some a) (hkey : s.declared.contains key = false)
    (hline : line ∉ s.world.failSend) (hword : declaredName? line = some word) :
    ∃ sent log, declareGlobal key line s = (.ok (), { s with
      channel := some (a.declare word), world := { s.world with sent }
      transcript := s.transcript.push line, declared := s.declared.insert key s.depth, log }) := by
  have hsend : Transport.send line a s.world = (.ok (), a.declare word,
      { s.world with sent := s.world.sent.push line }) := by
    change Scripted.send line a s.world = _
    unfold Scripted.send
    rw [if_neg hline, obey_of_declaredName? hword]
  refine ⟨s.world.sent.push line, (s.record .trace ("> " ++ line)).log, ?_⟩
  rw [declareGlobal_apply, hkey, if_neg Bool.false_ne_true, bind_apply, write_of_accepted hs hsend]
  rfl

end

variable {env : Env} {es es' : List Expr} {d d' : String × Command} {scope scope' : List String}
  {s s' t : Session Solver Script}

/-- A declaration of one of the runs is in force. -/
def InForce (env : Env) (es : List Expr) (s : Session Solver Script) (d : String × Command) :
    Prop :=
  env.Offers es d ∧ s.declared.contains d.1 = true

/-- Nothing is unread, the solver has one scope, and this holds what the declarations in force
declare, each under a word of its own. -/
structure Settled (env : Env) (es : List Expr) (scope : List String) (s : Session Solver Script) :
    Prop where
  channel : s.channel = some ⟨[], [scope]⟩
  offered : ∀ key, s.declared.contains key = true → ∃ d, env.Offers es d ∧ d.1 = key
  sendable : ∀ d, InForce env es s d → d.2.line ∉ s.world.failSend
  held : ∀ word, word ∈ scope ↔ ∃ d, InForce env es s d ∧ declaredName? d.2.line = some word
  distinct : ∀ d d', InForce env es s d → InForce env es s d' →
    declaredName? d.2.line = declaredName? d'.2.line → d = d'

/-- What is in force after a declaration was recorded. -/
theorem inForce_insert (hd : env.Offers es d) {depth : Nat}
    (hdeclared : s'.declared = s.declared.insert d.1 depth) :
    InForce env es s' d' ↔ InForce env es s d' ∨ d' = d := by
  unfold InForce
  rw [hdeclared, NameMap.contains_insert, Bool.or_eq_true, beq_iff_eq]
  constructor
  · rintro ⟨hd', hkey | hkey⟩
    · exact .inl ⟨hd', hkey⟩
    · exact .inr (hd'.eq_of_key hd hkey.symm)
  · rintro (⟨hd', hkey⟩ | rfl)
    · exact ⟨hd', .inl hkey⟩
    · exact ⟨hd, .inr rfl⟩

namespace Settled

theorem isStarted (h : Settled env es scope s) : s.isStarted = true := by
  simp [Session.isStarted, h.channel]

theorem congr (h : Settled env es scope s) (hchannel : s'.channel = s.channel)
    (hdeclared : s'.declared = s.declared) (hfailSend : s'.world.failSend = s.world.failSend) :
    Settled env es scope s' := by
  have hforce : ∀ d, InForce env es s' d ↔ InForce env es s d := by
    intro d
    unfold InForce
    rw [hdeclared]
  refine ⟨hchannel.trans h.channel, ?_, fun d hd => ?_, fun word => ?_, fun d d' hd hd' => ?_⟩
  · rw [hdeclared]
    exact h.offered
  · rw [hfailSend]
    exact h.sendable d ((hforce d).1 hd)
  · simp only [hforce]
    exact h.held word
  · exact h.distinct d d' ((hforce d).1 hd) ((hforce d').1 hd')

/-- What else runs may declare does not matter. -/
theorem mono (h : Settled env es scope s) (hes : es ⊆ es') : Settled env es' scope s := by
  have hforce : ∀ d, InForce env es' s d ↔ InForce env es s d := by
    refine fun d => ⟨fun hd => ?_, fun hd => ⟨hd.1.mono hes, hd.2⟩⟩
    obtain ⟨d', hd', hkey⟩ := h.offered d.1 hd.2
    obtain rfl := hd.1.eq_of_key hd' hkey.symm
    exact ⟨hd', hd.2⟩
  refine ⟨h.channel, fun key hkey => ?_, fun d hd => ?_, fun word => ?_, fun d d' hd hd' => ?_⟩
  · obtain ⟨d, hd, heq⟩ := h.offered key hkey
    exact ⟨d, hd.mono hes, heq⟩
  · exact h.sendable d ((hforce d).1 hd)
  · simp only [hforce]
    exact h.held word
  · exact h.distinct d d' ((hforce d).1 hd) ((hforce d').1 hd')

/-- A declaration joins those in force under a word that is not held. -/
theorem insert (h : Settled env es scope s) (hd : env.Offers es d)
    (hline : d.2.line ∉ s.world.failSend) {word : String}
    (hword : declaredName? d.2.line = some word) (hfresh : word ∉ scope)
    (hchannel : s'.channel = some ⟨[], [word :: scope]⟩)
    (hdeclared : s'.declared = s.declared.insert d.1 s.depth)
    (hfailSend : s'.world.failSend = s.world.failSend) : Settled env es (word :: scope) s' := by
  have hforce : ∀ d', InForce env es s' d' ↔ InForce env es s d' ∨ d' = d :=
    fun d' => inForce_insert hd hdeclared
  have hother : ∀ d', InForce env es s d' → declaredName? d'.2.line ≠ some word :=
    fun d' hd' heq => hfresh ((h.held word).2 ⟨d', hd', heq⟩)
  refine ⟨hchannel, fun key hkey => ?_, fun d' hd' => ?_, fun other => ?_, ?_⟩
  · rw [hdeclared, NameMap.contains_insert, Bool.or_eq_true, beq_iff_eq] at hkey
    rcases hkey with hkey | hkey
    · exact h.offered key hkey
    · exact ⟨d, hd, hkey⟩
  · rw [hfailSend]
    rcases (hforce d').1 hd' with hd' | rfl
    · exact h.sendable d' hd'
    · exact hline
  · rw [List.mem_cons, h.held other]
    constructor
    · rintro (rfl | ⟨d', hd', hother⟩)
      · exact ⟨d, (hforce d).2 (.inr rfl), hword⟩
      · exact ⟨d', (hforce d').2 (.inl hd'), hother⟩
    · rintro ⟨d', hd', hother⟩
      rcases (hforce d').1 hd' with hd' | rfl
      · exact .inr ⟨d', hd', hother⟩
      · exact .inl (Option.some.inj (hother.symm.trans hword))
  · intro d₁ d₂ hd₁ hd₂ heq
    rcases (hforce d₁).1 hd₁ with hd₁ | rfl <;> rcases (hforce d₂).1 hd₂ with hd₂ | rfl
    · exact h.distinct d₁ d₂ hd₁ hd₂ heq
    · exact absurd (heq.trans hword) (hother d₁ hd₁)
    · exact absurd (heq.symm.trans hword) (hother d₂ hd₂)
    · rfl

end Settled

end Session

namespace Scripted

variable {c c' : Solver} {w w' : Script} {commands : List Command}

theorem declare_of_mem {scope : List String} {word : String} (h : word ∈ scope) :
    Solver.declare ⟨[], [scope]⟩ word = ⟨[redeclared word], [scope]⟩ := by
  simp [Solver.declare, Solver.holds, Solver.say, h]

theorem declare_of_not_mem {scope : List String} {word : String} (h : word ∉ scope) :
    Solver.declare ⟨[], [scope]⟩ word = ⟨[], [word :: scope]⟩ := by
  simp [Solver.declare, Solver.holds, h]

/-- The next line to be read is an error. -/
def Solver.Disputes (c : Solver) : Prop :=
  ∃ line rest, c.output = line :: rest ∧ Session.isErrorLine line = true

theorem send_eq_ok {line : String} (h : Transport.send line c w = (.ok (), c', w')) :
    line ∉ w.failSend ∧ c' = (obey line c w.answers).1 ∧ w'.failSend = w.failSend := by
  change Scripted.send line c w = _ at h
  unfold Scripted.send at h
  by_cases hline : line ∈ w.failSend
  · rw [if_pos hline] at h
    cases h
  · rw [if_neg hline] at h
    cases h
    exact ⟨hline, rfl, rfl⟩

theorem receive_eq_ok {line : String} (h : Transport.receive c w = (.ok line, c', w')) :
    c.output = line :: c'.output ∧ c'.scopes = c.scopes ∧ w' = w := by
  change Scripted.receive c w = _ at h
  unfold Scripted.receive at h
  cases houtput : c.output with
  | nil =>
      rw [houtput] at h
      cases h
  | cons text rest =>
      rw [houtput] at h
      cases h
      exact ⟨rfl, rfl, rfl⟩

/-- What is said comes after what is unread. -/
theorem output_obey (line : String) (c : Solver) (answers : List String) :
    ∃ said, (obey line c answers).1.output = c.output ++ said := by
  unfold obey
  split
  · cases answers with
    | nil => exact ⟨[], (List.append_nil _).symm⟩
    | cons answer rest => exact ⟨[answer], rfl⟩
  split
  · exact ⟨[], (List.append_nil _).symm⟩
  split
  · exact ⟨[], by rw [output_pop, List.append_nil]⟩
  cases echoed? line with
  | some text => exact ⟨[text], rfl⟩
  | none =>
      cases declaredName? line with
      | none => exact ⟨[], (List.append_nil _).symm⟩
      | some name =>
          rcases output_declare c name with h | h
          · exact ⟨[], h.trans (List.append_nil _).symm⟩
          · exact ⟨[redeclared name], h⟩

theorem disputes_of_send {line : String} (h : Transport.send line c w = (.ok (), c', w'))
    (hc : c.Disputes) : c'.Disputes := by
  obtain ⟨error, rest, houtput, herror⟩ := hc
  obtain ⟨-, rfl, -⟩ := send_eq_ok h
  obtain ⟨said, hsaid⟩ := output_obey line c w.answers
  exact ⟨error, rest ++ said, by rw [hsaid, houtput, List.cons_append], herror⟩

/-- A dispute is read before any answer. -/
theorem not_disputes_of_receive {line : String} (h : Transport.receive c w = (.ok line, c', w'))
    (hline : Session.isErrorLine line = false) : ¬ c.Disputes := by
  rintro ⟨error, rest, houtput, herror⟩
  obtain ⟨hread, -⟩ := receive_eq_ok h
  obtain ⟨rfl, -⟩ := List.cons.inj (houtput.symm.trans hread)
  exact absurd (herror.symm.trans hline) (by decide)

/-- A dispute lasts while all goes well. -/
theorem disputes_of_converses (h : Converses c w commands c' w') (hc : c.Disputes) :
    c'.Disputes := by
  induction h with
  | nil => exact hc
  | send _ hsend _ ih => exact ih (disputes_of_send hsend hc)
  | check hsend hreceive _ _ =>
      have hunsat : Session.isErrorLine "unsat" = false := by decide
      exact absurd (disputes_of_send hsend hc) (not_disputes_of_receive hreceive hunsat)

/-- What was accepted can be sent. -/
theorem sendable_of_converses (h : Converses c w commands c' w') :
    ∀ command ∈ commands, command.line ∉ w.failSend := by
  induction h with
  | nil => exact nofun
  | send _ hsend _ ih =>
      obtain ⟨hline, -, hfailSend⟩ := send_eq_ok hsend
      rw [hfailSend] at ih
      exact List.forall_mem_cons.2 ⟨hline, ih⟩
  | check hsend hreceive _ ih =>
      obtain ⟨hline, -, hfailSend⟩ := send_eq_ok hsend
      obtain ⟨-, -, rfl⟩ := receive_eq_ok hreceive
      rw [hfailSend] at ih
      exact List.forall_mem_cons.2 ⟨hline, ih⟩

end Scripted

namespace Session

variable {env : Env} {es : List Expr} {e : Expr} {d : String × Command}
  {s s' s₁ : Session Solver Script}

/-- The next line to be read is an error. -/
def Disputed (s : Session Solver Script) : Prop :=
  ∃ solver, s.channel = some solver ∧ solver.Disputes

/-- What a global declaration leaves is settled or disputed. -/
theorem settled_or_disputed (hd : env.Offers es d) :
    Preserves (fun s => (∃ scope, Settled env es scope s) ∨ s.Disputed)
      (declareGlobal d.1 d.2.line) := by
  intro s hs
  by_cases hkey : s.declared.contains d.1 = true
  · rwa [declareGlobal_of_declared hkey]
  rw [Bool.not_eq_true] at hkey
  have hsolver : ∃ solver, s.channel = some solver :=
    hs.elim (fun ⟨_, h⟩ => ⟨_, h.channel⟩) fun ⟨solver, h, _⟩ => ⟨solver, h⟩
  obtain ⟨solver, hsolver⟩ := hsolver
  by_cases hline : d.2.line ∈ s.world.failSend
  · obtain ⟨log, hlost⟩ := declareGlobal_of_lost hsolver hkey hline
    rw [hlost]
    exact hs.imp_left fun ⟨scope, h⟩ => ⟨scope, h.congr rfl rfl rfl⟩
  obtain ⟨name, -, hword⟩ := hd.word
  obtain ⟨sent, log, hsent⟩ := declareGlobal_of_sent hsolver hkey hline hword
  rw [hsent]
  rcases hs with ⟨scope, hs⟩ | ⟨solver', hsolver', line, rest, houtput, herror⟩
  · obtain rfl : solver = ⟨[], [scope]⟩ := Option.some.inj (hsolver.symm.trans hs.channel)
    by_cases hheld : firstWord name ∈ scope
    · refine .inr ⟨_, rfl, redeclared (firstWord name), [], ?_, isErrorLine_redeclared _⟩
      rw [declare_of_mem hheld]
    · refine .inl ⟨_, hs.insert hd hline hword hheld ?_ rfl rfl⟩
      rw [declare_of_not_mem hheld]
  · obtain rfl : solver = solver' := Option.some.inj (hsolver.symm.trans hsolver')
    have hdisputes : (solver.declare (firstWord name)).Disputes := by
      rcases output_declare solver (firstWord name) with hsaid | hsaid
      · exact ⟨line, rest, hsaid.trans houtput, herror⟩
      · exact ⟨line, rest ++ _, by rw [hsaid, houtput, List.cons_append], herror⟩
    exact .inr ⟨_, rfl, hdisputes⟩

theorem inSession_snd {α : Type} (part : CheckM α) (p : Progress) (s : Session Solver Script) :
    (Checker.inSession part p s).2 = (hold (part p) s).2 := by
  unfold Checker.inSession Checker.perform
  rcases hold (part p) s with ⟨⟨outcome, progress⟩, s₁⟩
  rfl

theorem runChecker_snd (env : Env) (e : Expr) (s : Session Solver Script) :
    (runChecker env e s).2 = (hold (Checker.runDialogue env e) s).2 := by
  unfold runChecker
  rcases hold (Checker.runDialogue env e) s with ⟨⟨outcome, progress⟩, s₁⟩
  rfl

/-- The checker leaves nothing behind. -/
theorem restored_runChecker (env : Env) (e : Expr) (hs : s.Bounded) :
    s.Restored (runChecker env e s).2 := by
  let body : CheckM Unit := do let _ ← Checker.check env .full ∅ e
  have hsame : (runChecker env e s).2 = (pushPop (Checker.inSession body {}) s).2 := by
    rw [← Checker.inSession_inSolverScope, inSession_snd, runChecker_snd]
    rfl
  have hpart : Checker.Part (fun _ => True) body :=
    (Checker.part_checkWithin_trivial env _ .full ∅ e).andThen fun _ => .answer (.ok ())
  rw [hsame]
  exact restored_pushPop (fun _ _ h => (Checker.opened_inSession hpart {} h).kept) hs

/-- The marker changes nothing but what is unread. -/
theorem synced_scopes {s s' : Session Solver Script} (h : s.Synced s') :
    ∃ a b, s.channel = some a ∧ s'.channel = some b ∧ b.scopes = a.scopes ∧ ¬ a.Disputes := by
  obtain ⟨a, a', b, w, line, hs, hsend, hreceive, hline, -, hs'⟩ := h.exchange
  have hfair := not_disputes_of_receive hreceive hline
  obtain ⟨-, hscopes, -⟩ := receive_eq_ok hreceive
  refine ⟨a, b, hs, hs', ?_, fun hdisputes => hfair (disputes_of_send hsend hdisputes)⟩
  obtain ⟨-, rfl, -⟩ := send_eq_ok hsend
  rw [hscopes, obey_sync]
  rfl

theorem sync_keeps (s : Session Solver Script) :
    (sync s).2.declared = s.declared ∧ (sync s).2.world.failSend = s.world.failSend := by
  let P : Session Solver Script → Prop := fun s' =>
    s'.declared = s.declared ∧ s'.world.failSend = s.world.failSend
  have hsaid : ∀ {s₁ s₂ : Session Solver Script} {lines}, s₁.Said lines s₂ → P s₁ → P s₂ := by
    intro s₁ s₂ lines hsaid h
    have hfail := hsaid.fine (isStable _ _) ⟨h.2, rfl⟩
    exact ⟨hsaid.declared.trans h.1, hfail.1⟩
  have hclosed : IsClosed (fun {α} (op : SessionM Solver Script α) => Preserves P op) :=
    isClosed_preserves fun _ _ _ h => h
  exact hclosed.sync (fun s₁ h => hsaid (said_of_write _ s₁) h)
    (fun s₁ h => hsaid (said_of_read s₁) h) s ⟨rfl, rfl⟩

/-- Whoever leaves nothing behind lets a settled session be as it is, but for what is unread. -/
theorem Settled.restored (h : Settled env es scope s) (hrestored : s.Restored s')
    (hpop : Command.pop.line ∉ s.world.failSend) :
    s'.channel.map Solver.scopes = some [scope] ∧ s'.declared = s.declared ∧
      s'.world.failSend = s.world.failSend := by
  have hscope : s.HasScope := by
    intro solver hsolver
    obtain rfl := Option.some.inj (h.channel.symm.trans hsolver)
    exact List.cons_ne_nil _ _
  obtain ⟨lines, hlines, -⟩ := hrestored.spoke
  refine ⟨?_, hrestored.declared, (hlines.fine (isStable _ _) ⟨rfl, rfl⟩).1⟩
  rw [(hrestored.sameStack hscope hpop).scopes, h.channel, Option.map_some]

/-- A run that succeeds leaves a settled session, if nothing is unread. -/
theorem settled_of_run {s₂ s₃ : Session Solver Script} {summary : Summary}
    (hs₁ : (∃ scope, Settled env es scope s₁) ∨ s₁.Disputed) (hbounded : s₁.Bounded)
    (hrun : runChecker env e s₁ = (.ok summary, s₂)) (hsync : sync s₂ = (.ok (), s₃))
    (hunread : s₃.unread = []) : ∃ scope, Settled env es scope s₃ := by
  obtain ⟨a, b, hs₂, hs₃, hscopes, hfair⟩ := synced_scopes (synced_of_sync hsync)
  have hkeeps := sync_keeps s₂
  have hrestored := restored_runChecker env e hbounded
  rw [hsync] at hkeeps
  rw [hrun] at hrestored
  have hstarted : s₁.isStarted = true := by
    rcases hs₁ with ⟨scope, hs₁⟩ | ⟨solver, hsolver, -⟩
    · exact hs₁.isStarted
    · simp [isStarted, hsolver]
  obtain ⟨commands, t, p, -, -, hsends⟩ := runChecker_eq_ok hstarted hrun
  obtain ⟨c, c', hc, hc', hconverses⟩ := hsends.converses
  obtain rfl : a = c' := Option.some.inj (hs₂.symm.trans hc')
  rcases hs₁ with ⟨scope, hs₁⟩ | ⟨solver, hsolver, hdisputes⟩
  · have hpop : Command.pop.line ∉ s₁.world.failSend :=
      sendable_of_converses hconverses .pop (by simp)
    obtain ⟨hstack, hdeclared, hfailSend⟩ := hs₁.restored hrestored hpop
    refine ⟨scope, hs₁.congr ?_ (hkeeps.1.trans hdeclared) (hkeeps.2.trans hfailSend)⟩
    rw [hs₂, Option.map_some, Option.some.injEq, ← hscopes] at hstack
    have houtput : b.output = [] := by
      simpa only [unread, hs₃] using hunread
    rw [hs₃, hs₁.channel, Option.some.injEq]
    obtain ⟨output, scopes⟩ := b
    obtain rfl : output = [] := houtput
    exact congrArg (Solver.mk []) hstack
  · obtain rfl : c = solver := Option.some.inj (hc.symm.trans hsolver)
    exact absurd (disputes_of_converses hconverses hdisputes) hfair

end Session

end ContractCheck
