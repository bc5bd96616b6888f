import ContractCheck.Proofs.CatchingUp
import ContractCheck.Proofs.VerifierRuns

/-!
A verifier's verdicts do not depend on what it verified before. A run finds the solver either not
running, or prepared: it holds global declarations and nothing else (`Session.Idle`). A prepared
solver and one that was just launched come to differ in sorts alone before the checker starts, which
then goes the same way in both (`Verifier.verify_independent`).
-/

namespace ContractCheck

open Scripted

namespace Session

variable {env : Env} {es : List Expr} {e : Expr} {before before' : List String}
  {s s' t : Session Solver Script}

theorem prove_of_started (hs : s.isStarted = true) (env : Env) (e : Expr) :
    prove env e s = (declareGlobals env e >>= fun _ => verdict env e) s := by
  have hprove : (prove env e : SessionM Solver Script Summary) =
      start >>= fun _ => declareGlobals env e >>= fun _ => verdict env e := rfl
  rw [hprove, bind_apply, start_of_started hs]

/-- The runs end in the same, and what they send is the same from the first line on that opens a
scope. -/
structure SameRun (before before' : List String) (r r' : Outcome Summary × Session Solver Script) :
    Prop where
  outcome : r.1 = r'.1
  started : r.2.isStarted = r'.2.isStarted
  lines : SameFromPush before before' r.2 r'.2

/-- Runs are the same if they start in lockstep and go on the same. -/
theorem sameRun_bind {α : Type} {R : Session Solver Script → Session Solver Script → Prop}
    {op : SessionM Solver Script α} {f : α → SessionM Solver Script Summary}
    (hR : ∀ s t, R s t → s.isStarted = t.isStarted ∧ SameFromPush before before' s t)
    (hop : Lockstep R op) (hst : R s t)
    (hf : ∀ a s₁ t₁, op s = (.ok a, s₁) → op t = (.ok a, t₁) → R s₁ t₁ →
      SameRun before before' (f a s₁) (f a t₁)) :
    SameRun before before' ((op >>= f) s) ((op >>= f) t) := by
  have hsame := hop s t hst
  rw [bind_apply, bind_apply]
  rcases hs₁ : op s with ⟨outcome, s₁⟩
  rcases ht₁ : op t with ⟨outcome', t₁⟩
  rw [hs₁, ht₁] at hsame
  obtain ⟨houtcome, hsessions⟩ := hsame
  obtain rfl : outcome = outcome' := houtcome
  rcases outcome with failure | a
  · obtain ⟨hstarted, hlines⟩ := hR s₁ t₁ hsessions
    exact ⟨rfl, hstarted, hlines⟩
  · exact hf a s₁ t₁ hs₁ ht₁ hsessions

theorem Alike.sameRun {except : String → Prop} (h : Alike except before before' s t)
    {op : SessionM Solver Script Summary} (hop : Lockstep (Alike except before before') op) :
    SameRun before before' (op s) (op t) := by
  obtain ⟨houtcome, halike⟩ := hop s t h
  exact ⟨houtcome, halike.isStarted, halike.lines⟩

theorem Twins.sameRun (h : Twins before before' s t) (env : Env) (e : Expr) :
    SameRun before before' (prove env e s) (prove env e t) := by
  have hR : ∀ s t, Twins before before' s t →
      s.isStarted = t.isStarted ∧ SameFromPush before before' s t :=
    fun s t h => ⟨h.isStarted, h.lines⟩
  refine sameRun_bind hR twins_start h fun _ s₁ t₁ _ _ h₁ => ?_
  refine sameRun_bind hR (isClosed_twins.declareGlobals fun d _ => twins_declareGlobal _ _) h₁ ?_
  intro _ s₂ t₂ _ _ h₂
  exact h₂.toAlike.sameRun (lockstep_verdict
    (lockstep_runChecker (fun _ _ => id) (fun _ _ => id) fun _ _ => id))

theorem CatchingUp.sameRun (h : CatchingUp env es before before' s t) (he : e ∈ es)
    (hapart : env.SortsApart es e) : SameRun before before' (prove env e s) (prove env e t) := by
  rw [prove_of_started h.isStarted, prove_of_started h.isStarted_right]
  refine sameRun_bind (fun s t h => ⟨h.isStarted.trans h.isStarted_right.symm, ?_⟩)
    (isClosed_catchingUp.declareGlobals fun d hd => catchingUp_declareGlobal hapart ⟨e, he, hd⟩)
    h ?_
  · exact h.lines.sameFromPush h.lines'
  · intro _ s₁ t₁ _ ht₁ h₁
    have hchecker : Lockstep (Alike (env.Mentions es) before before') (runChecker env e) :=
      lockstep_runChecker (fun name hname => hapart.not_mentions (.inr (.inr (.inr hname))))
        (fun name hname => hapart.not_mentions (.inr (.inl hname)))
        (fun name hname => hapart.not_mentions (.inr (.inr (.inl hname))))
    have hdeclares := declares_of_declareGlobals h.isStarted_right ht₁
    refine (h₁.alike fun d hd => ?_).sameRun (lockstep_verdict hchecker)
    rw [hdeclares.declared, Bool.or_eq_true, List.any_eq_true]
    exact .inr ⟨d, List.mem_append_right _ hd, beq_self_eq_true d.1⟩

theorem launch_of_unfailing (hlaunch : s.world.failLaunch = 0) :
    launch s = (.ok (), { s with channel := some {}, depth := 0 }) := by
  have hscripted : (Transport.launch s.world : Outcome Solver × Script) = (.ok {}, s.world) := by
    change Scripted.launch s.world = _
    unfold Scripted.launch
    rw [hlaunch]
  unfold launch
  simp only [Transport.announcement, hscripted]

theorem start_of_lost (hs : s.isStarted = false) (hlaunch : s.world.failLaunch = 0)
    (hline : Command.scopedDeclarations.line ∈ s.world.failSend) :
    ∃ s₁, start s = (.error sendFailure, s₁) := by
  have hsend : Transport.send Command.scopedDeclarations.line ({} : Solver) s.world =
      (.error sendFailure, {}, s.world) := if_pos hline
  rw [start_apply, hs, if_neg Bool.false_ne_true, bind_apply, launch_of_unfailing hlaunch]
  exact ⟨_, write_of_refused rfl hsend⟩

theorem start_of_sent (hs : s.isStarted = false) (hlaunch : s.world.failLaunch = 0)
    (hline : Command.scopedDeclarations.line ∉ s.world.failSend) :
    ∃ sent log, start s = (.ok (), { s with
      channel := some {}, depth := 0, world := { s.world with sent }, log
      transcript := s.transcript.push Command.scopedDeclarations.line }) := by
  have hsend : Transport.send Command.scopedDeclarations.line ({} : Solver) s.world =
      (.ok (), {}, { s.world with sent := s.world.sent.push Command.scopedDeclarations.line }) := by
    change Scripted.send _ _ _ = _
    unfold Scripted.send
    rw [if_neg hline, obey_scopedDeclarations]
  rw [start_apply, hs, if_neg Bool.false_ne_true, bind_apply, launch_of_unfailing hlaunch]
  exact ⟨_, _, write_of_accepted rfl hsend⟩

/-- A solver that was just launched holds nothing. -/
theorem settled_of_empty (hchannel : s.channel = some {}) (hdeclared : s.declared = ∅) :
    Settled env es [] s := by
  have hforce : ∀ d, ¬ InForce env es s d := by
    rintro d ⟨-, hkey⟩
    rw [hdeclared] at hkey
    cases hkey
  refine ⟨hchannel, fun key hkey => ?_, fun d hd => absurd hd (hforce d), fun word => ?_,
    fun d d' hd => absurd hd (hforce d)⟩
  · rw [hdeclared] at hkey
    cases hkey
  · exact ⟨nofun, fun ⟨d, hd, _⟩ => absurd hd (hforce d)⟩

theorem fine_prove {fine : Script → Prop} (hfine : IsStable Solver fine)
    (hlaunch : ∀ script, fine script → script.failLaunch = 0) (hs : s.Consistent)
    (hworld : fine s.world) (env : Env) (e : Expr) : fine (prove env e s).2.world := by
  have hstart : fine (start s).2.world := by
    rw [start_apply]
    split
    · exact hworld
    · rw [bind_apply, launch_of_unfailing (hlaunch _ hworld)]
      exact (said_of_write Command.scopedDeclarations.line _).fine hfine hworld
  have hconsistent := consistent_start hs
  rcases hs₁ : start s with ⟨failure | u, s₁⟩
  · rw [hs₁] at hstart
    rwa [prove_of_start_error hs₁]
  · rw [hs₁] at hstart hconsistent
    rw [prove_of_start hs₁]
    obtain ⟨lines, hlines, -⟩ :=
      (keeps_prove env e s₁ (isStarted_of_start hs₁) hconsistent.bounded).spoke
    exact hlines.fine hfine hstart

/-- The solver runs, and holds global declarations of these runs and nothing else, all globals of
the environment among them. -/
structure Prepared (env : Env) (es : List Expr) (s : Session Solver Script) : Prop where
  settled : ∃ scope, Settled env es scope s
  sendable : Command.scopedDeclarations.line ∉ s.world.failSend
  globals : ∀ d ∈ signatureDeclarations env.entries, s.declared.contains d.1 = true

/-- What is true of a session before and after every run of a verifier with this script. -/
structure Idle (script : Script) (env : Env) (es : List Expr) (s : Session Solver Script) :
    Prop where
  consistent : s.Consistent
  failSend : s.world.failSend = script.failSend
  failLaunch : s.world.failLaunch = 0
  prepared : s.isStarted = true → Prepared env es s

/-- A run that succeeds on a settled session prepares it for the next. -/
theorem prepared_of_prove {summary : Summary} (hs : ∃ scope, Settled env es scope s)
    (hsendable : Command.scopedDeclarations.line ∉ s.world.failSend)
    (hbounded : s.Bounded) (he : e ∈ es) (h : prove env e s = (.ok summary, s'))
    (hunread : s'.unread = []) : Prepared env es s' := by
  have hstarted : s.isStarted = true := hs.elim fun _ h => h.isStarted
  have hkept := keeps_prove env e s hstarted hbounded
  rw [h] at hkept
  rw [prove_of_started hstarted] at h
  obtain ⟨_, s₁, hdeclare, h⟩ := bind_eq_ok_iff.1 h
  obtain ⟨_, s₂, hrun, h⟩ := bind_eq_ok_iff.1 h
  obtain ⟨_, s₃, hsync, h⟩ := bind_eq_ok_iff.1 h
  cases h
  have hclosed : IsClosed (fun {α} (op : SessionM Solver Script α) =>
      Preserves (fun s => (∃ scope, Settled env es scope s) ∨ s.Disputed) op) :=
    isClosed_preserves fun _ _ _ h => h.imp_left fun ⟨scope, h⟩ => ⟨scope, h.congr rfl rfl rfl⟩
  have hs₁ := hclosed.declareGlobals (fun d hd => settled_or_disputed ⟨e, he, hd⟩) s (.inl hs)
  have hkept₁ := keeps_declareGlobals env e s hstarted hbounded
  have hdeclares := declares_of_declareGlobals hstarted hdeclare
  rw [hdeclare] at hs₁ hkept₁
  have hbounded₁ := hkept₁.bounded hbounded
  have hrestored := restored_runChecker env e hbounded₁
  have hkeeps := sync_keeps s₂
  rw [hrun] at hrestored
  rw [hsync] at hkeeps
  refine ⟨settled_of_run hs₁ hbounded₁ hrun hsync hunread, ?_, fun d hd => ?_⟩
  · obtain ⟨lines, hlines, -⟩ := hkept.spoke
    have hfail := hlines.fine (isStable _ _) ⟨rfl, rfl⟩
    rwa [hfail.1]
  · rw [hkeeps.1, hrestored.declared, hdeclares.declared, Bool.or_eq_true, List.any_eq_true]
    exact .inr ⟨d, List.mem_append_right _ hd, beq_self_eq_true d.1⟩

/-- Of these lines, global declarations of the run are left standing in the innermost scope, and
nothing else. -/
def LeavesGlobals (env : Env) (e : Expr) (lines : List String) : Prop :=
  ∀ scope rest, ∃ added, lines.foldl standing (scope :: rest) = (added ++ scope) :: rest ∧
    ∀ line ∈ added, ∃ d ∈ env.declarations e, line = d.2.line

namespace LeavesGlobals

variable {lines more : List String}

theorem append (h : LeavesGlobals env e lines) (h' : LeavesGlobals env e more) :
    LeavesGlobals env e (lines ++ more) := by
  intro scope rest
  obtain ⟨added, hlines, hadded⟩ := h scope rest
  obtain ⟨added', hmore, hadded'⟩ := h' (added ++ scope) rest
  refine ⟨added' ++ added, ?_, List.forall_mem_append.2 ⟨hadded', hadded⟩⟩
  rw [List.foldl_append, hlines, hmore, List.append_assoc]

/-- Lines that let all scopes be as they were. -/
theorem of_neutral (h : Neutral lines) : LeavesGlobals env e lines :=
  fun scope rest => ⟨[], h isScoping_standing _ (List.cons_ne_nil scope rest), nofun⟩

/-- A line that neither declares nor asserts. -/
theorem of_silent {line : String} (hline : IsFlat line)
    (hsilent : ¬ ((declaredName? line).isSome ∨ IsAssertion line)) :
    LeavesGlobals env e [line] := by
  intro scope rest
  refine ⟨[], ?_, nofun⟩
  rw [List.foldl_cons, List.foldl_nil, standing_of_isFlat hline, if_neg hsilent, List.nil_append]

theorem of_declarations {ds : List (String × Command)} (h : ∀ d ∈ ds, d ∈ env.declarations e) :
    LeavesGlobals env e ((ds.map (·.2)).map Command.line) := by
  induction ds with
  | nil => exact .of_neutral neutral_nil
  | cons d rest ih =>
      obtain ⟨hd, hrest⟩ := List.forall_mem_cons.1 h
      have hfirst : LeavesGlobals env e [d.2.line] := by
        intro scope others
        rw [List.foldl_cons, List.foldl_nil,
          standing_of_isFlat (Env.isPlain_of_mem_declarations hd).isFlat]
        split
        · exact ⟨[d.2.line], rfl, fun line hline => ⟨d, hd, List.mem_singleton.1 hline⟩⟩
        · exact ⟨[], rfl, nofun⟩
      exact hfirst.append (ih hrest)

end LeavesGlobals

theorem leavesGlobals_of_start (env : Env) (e : Expr) (h : start s = (.ok (), s')) : ∃ gained,
    s'.transcript.toList = s.transcript.toList ++ gained ∧ LeavesGlobals env e gained := by
  rcases start_eq_ok h with ⟨-, rfl⟩ | ⟨-, s₀, hlaunch, hsends, -⟩
  · exact ⟨[], (List.append_nil _).symm, .of_neutral neutral_nil⟩
  · obtain ⟨_, -, -, -, htranscript, -⟩ := launch_eq_ok hlaunch
    refine ⟨_, hsends.transcript.trans (by rw [htranscript]), ?_⟩
    exact .of_silent isFlat_scopedDeclarations (by decide +kernel)

/-- What a run that succeeds leaves standing are global declarations. -/
theorem leavesGlobals_of_prove {summary : Summary} (hs : s.Consistent)
    (h : prove env e s = (.ok summary, s')) : ∃ gained,
      s'.transcript.toList = s.transcript.toList ++ gained ∧ LeavesGlobals env e gained := by
  obtain ⟨_, s₁, hstart, h⟩ := bind_eq_ok_iff.1 h
  obtain ⟨_, s₂, hdeclare, h⟩ := bind_eq_ok_iff.1 h
  obtain ⟨_, s₃, hrun, h⟩ := bind_eq_ok_iff.1 h
  obtain ⟨_, s₄, hsync, h⟩ := bind_eq_ok_iff.1 h
  cases h
  have hconsistent := consistent_start hs
  rw [hstart] at hconsistent
  have hkept := keeps_declareGlobals env e s₁ (isStarted_of_start hstart) hconsistent.bounded
  rw [hdeclare] at hkept
  have hdeclares := declares_of_declareGlobals (isStarted_of_start hstart) hdeclare
  have hrestored := restored_runChecker env e (hkept.bounded hconsistent.bounded)
  rw [hrun] at hrestored
  obtain ⟨commands, _, _, -, -, hsends⟩ := runChecker_eq_ok hdeclares.sends.isStarted hrun
  obtain ⟨_, _, -, -, hconverses⟩ := hsends.converses
  have hpop : Command.pop.line ∉ s₂.world.failSend :=
    sendable_of_converses hconverses .pop (by simp)
  obtain ⟨opening, hopening, hleft⟩ := leavesGlobals_of_start env e hstart
  obtain ⟨lines, hlines, hneutral⟩ := hrestored.spoke
  have hsynced := synced_of_sync hsync
  refine ⟨opening ++ (((env.declarations e).filter fun d => !s₁.declared.contains d.1).map
    (·.2)).map Command.line ++ lines ++ [Command.sync.line], ?_, ?_⟩
  · rw [hsynced.transcript, hlines.transcript, hdeclares.sends.transcript, hopening]
    simp only [List.append_assoc]
  · refine ((hleft.append (.of_declarations fun d hd => (List.mem_filter.1 hd).1)).append
      (.of_neutral (hneutral isUnfailing hpop))).append ?_
    exact .of_silent isFlat_sync (by decide +kernel)

/-- And so does one that has to launch the solver. -/
theorem Idle.prepared_of_prove {script : Script} {summary : Summary} (hs : Idle script env es s)
    (h : prove env e s = (.ok summary, s')) (hunread : s'.unread = []) :
    Prepared env (es ++ [e]) s' := by
  have he : e ∈ es ++ [e] := List.mem_append_right _ (List.mem_singleton_self e)
  cases hstarted : s.isStarted with
  | true =>
      obtain ⟨⟨scope, hsettled⟩, hsendable, -⟩ := hs.prepared hstarted
      exact Session.prepared_of_prove ⟨scope, hsettled.mono (List.subset_append_left es [e])⟩
        hsendable hs.consistent.bounded he h hunread
  | false =>
      have hdeclared := hs.consistent.declared hstarted
      have hline : Command.scopedDeclarations.line ∉ s.world.failSend := by
        intro hline
        obtain ⟨s₁, hstart⟩ := start_of_lost hstarted hs.failLaunch hline
        rw [prove_of_start_error hstart] at h
        cases h
      have hconsistent := consistent_start hs.consistent
      obtain ⟨sent, log, hstart⟩ := start_of_sent hstarted hs.failLaunch hline
      rw [prove_of_start hstart] at h
      rw [hstart] at hconsistent
      refine Session.prepared_of_prove ?_ ?_ hconsistent.bounded he h hunread
      · exact ⟨[], settled_of_empty rfl hdeclared⟩
      · exact hline

/-- A run on a new session is the same as one on a session between runs. -/
theorem Idle.sameRun {script : Script} (hlaunch : script.failLaunch = 0)
    (hs : Idle script env es s) (hapart : env.SortsApart (es ++ [e]) e) :
    SameRun s.transcript.toList [] (prove env e s)
      (prove env e { world := { script with answers := s.world.answers } }) := by
  have hlaunch' : s.world.failLaunch = script.failLaunch := hs.failLaunch.trans hlaunch.symm
  cases hstarted : s.isStarted with
  | false =>
      have hchannel : s.channel = none := by simpa [isStarted] using hstarted
      have htwins : Twins s.transcript.toList [] s
          { world := { script with answers := s.world.answers } } := by
        refine ⟨⟨rfl, hlaunch', hs.failSend, ?_, .refl s _⟩, fun key => ?_⟩
        · rw [hchannel]
          exact .none
        · rw [hs.consistent.declared hstarted]
      exact htwins.sameRun env e
  | true =>
      obtain ⟨⟨scope, hsettled⟩, hline, hglobals⟩ := hs.prepared hstarted
      have hline' : Command.scopedDeclarations.line ∉ script.failSend := hs.failSend ▸ hline
      obtain ⟨sent, log, hstart⟩ := start_of_sent
        (s := { world := { script with answers := s.world.answers } }) rfl hlaunch hline'
      rw [prove_of_start hstart]
      refine CatchingUp.sameRun ?_ (List.mem_append_right es List.mem_cons_self) hapart
      refine ⟨⟨scope, hsettled.mono (List.subset_append_left es [e])⟩,
        ⟨[], settled_of_empty rfl rfl⟩, fun key hkey => ?_, hglobals, rfl, hlaunch', hs.failSend,
        ?_, ?_⟩
      · cases hkey
      · exact ⟨[], List.not_mem_nil, (List.append_nil _).symm⟩
      · exact ⟨[Command.scopedDeclarations.line], by decide +kernel, rfl⟩

end Session

namespace Verifier

open Session

variable {env : Env} {es : List Expr} {e : Expr} {script : Script}
  {v alone : Verifier Solver Script}

theorem idle_new (hlaunch : script.failLaunch = 0) (env : Env) :
    Idle script env [] ({ world := script } : Session Solver Script) :=
  ⟨consistent_stopped rfl rfl, rfl, hlaunch, nofun⟩

theorem consistent_stopQuietly (occasion : String) {s : Session Solver Script}
    (hs : s.Consistent) : (s.stopQuietly occasion).Consistent := by
  have hstop := consistent_stop hs
  unfold stopQuietly
  rcases h : stop s with ⟨failure | u, s'⟩ <;> rw [h] at hstop
  · exact hstop.of_eq rfl rfl rfl
  · exact hstop

theorem fine_stopQuietly {fine : Script → Prop} (hfine : IsStable Solver fine) (occasion : String)
    {s : Session Solver Script} (hs : fine s.world) : fine (s.stopQuietly occasion).world := by
  have hstop := fine_stop hfine hs
  unfold stopQuietly
  rcases h : stop s with ⟨failure | u, s'⟩ <;> rw [h] at hstop <;> exact hstop

/-- A verifier is idle again after a run, however that ended. -/
theorem idle_verify (hready : v.Ready) (hv : Idle script v.env es v.session) (e : Expr) :
    Idle script v.env (es ++ [e]) (v.verify e).2.session := by
  have hconsistent := consistent_prove v.env e hv.consistent
  have hworld := fine_prove (isStable _ _) (fun _ h => h.2) hv.consistent
    ⟨hv.failSend, hv.failLaunch⟩ v.env e
  have hready' := ready_verify hready e
  unfold verify at hready' ⊢
  rcases h : Session.prove v.env e v.session with ⟨failure | summary, s'⟩
  · rw [h] at hconsistent hworld
    have hworld' := fine_stopQuietly (isStable _ _)
      "while stopping solver after a failed run" hworld
    refine ⟨consistent_stopQuietly _ hconsistent, hworld'.1, hworld'.2, fun hstarted => ?_⟩
    have hstopped := channel_stopQuietly "while stopping solver after a failed run" s'
    simp [isStarted, hstopped] at hstarted
  · rw [h] at hconsistent hworld hready'
    exact ⟨hconsistent, hworld.1, hworld.2, fun _ => hv.prepared_of_prove h hready'.unread⟩

theorem env_verify (e : Expr) (v : Verifier Solver Script) : (v.verify e).2.env = v.env := by
  unfold verify
  rcases Session.prove v.env e v.session with ⟨failure | summary, s'⟩ <;> rfl

theorem idle_after (hready : v.Ready) (hv : Idle script v.env es v.session) (more : List Expr) :
    (v.after more).Ready ∧ (v.after more).env = v.env ∧
      Idle script v.env (es ++ more) (v.after more).session := by
  induction more generalizing v es with
  | nil =>
      rw [List.append_nil]
      exact ⟨hready, rfl, hv⟩
  | cons e rest ih =>
      have hidle := idle_verify hready hv e
      rw [← env_verify e v] at hidle
      have hrest := ih (ready_verify hready e) hidle
      rwa [env_verify, List.append_assoc] at hrest

/-- The lines that are sent when the expression is verified, from the first on that opens a
scope. -/
def linesFromPush (v : Verifier Solver Script) (e : Expr) : List String :=
  ((v.verify e).2.session.transcript.toList.drop v.session.transcript.size).dropWhile
    (· != Command.push.line)

theorem transcript_stopQuietly (occasion : String) (s : Session Solver Script) :
    (s.stopQuietly occasion).transcript =
      if s.isStarted then s.transcript.push Command.exit.line else s.transcript := by
  have hquiet : (s.stopQuietly occasion).transcript = (stop s).2.transcript := by
    unfold stopQuietly
    rcases stop s with ⟨failure | u, s'⟩ <;> rfl
  rw [hquiet, transcript_stop]

/-- Verifiers whose runs are the same answer the same and send the same. -/
theorem verify_of_sameRun (h : SameRun v.session.transcript.toList alone.session.transcript.toList
    (Session.prove v.env e v.session) (Session.prove alone.env e alone.session)) :
    (v.verify e).1 = (alone.verify e).1 ∧ v.linesFromPush e = alone.linesFromPush e := by
  obtain ⟨houtcome, hstarted, hlines⟩ := h
  have hsame : (v.verify e).1 = (alone.verify e).1 ∧ SameFromPush v.session.transcript.toList
      alone.session.transcript.toList (v.verify e).2.session (alone.verify e).2.session := by
    unfold verify
    rcases hv : Session.prove v.env e v.session with ⟨outcome, s⟩
    rcases halone : Session.prove alone.env e alone.session with ⟨outcome', t⟩
    rw [hv, halone] at houtcome hstarted hlines
    obtain rfl : outcome = outcome' := houtcome
    rcases outcome with failure | summary
    · refine ⟨rfl, ?_⟩
      have hs := transcript_stopQuietly "while stopping solver after a failed run" s
      have ht := transcript_stopQuietly "while stopping solver after a failed run" t
      rw [show s.isStarted = t.isStarted from hstarted] at hs
      cases h : t.isStarted with
      | false =>
          rw [h, if_neg Bool.false_ne_true] at hs ht
          exact hlines.congr hs ht
      | true =>
          rw [h, if_pos rfl] at hs ht
          exact hlines.line hs ht
    · exact ⟨rfl, hlines⟩
  refine ⟨hsame.1, ?_⟩
  unfold linesFromPush
  have hdrop := hsame.2.dropWhile
  rwa [Array.length_toList, Array.length_toList] at hdrop

/-- After the run the solver does not run, and nothing is counted. -/
structure Stopped (s : Session Solver Script) : Prop where
  channel : s.channel = none
  depth : s.depth = 0
  declared : s.declared = ∅

/-- After the run of the last expression the solver has one scope, and what this holds was declared
by a global declaration of one of the runs. Of the lines of the last run, such declarations are left
standing, and nothing else. -/
structure HoldsGlobals (env : Env) (es : List Expr) (e : Expr) (s s' : Session Solver Script) :
    Prop where
  solver : ∃ scope, s'.channel = some ⟨[], [scope]⟩ ∧ ∀ word ∈ scope, ∃ d name,
    env.Offers (es ++ [e]) d ∧ s'.declared.contains d.1 = true ∧ d.2.declared? = some name ∧
      word = firstWord name
  depth : s'.depth = 0
  standing : ∃ gained, s'.transcript.toList = s.transcript.toList ++ gained ∧
    LeavesGlobals env e gained

theorem stopped_of_error {failure : Failure} (hv : v.session.Consistent)
    (h : (v.verify e).1 = .error failure) : Stopped (v.verify e).2.session := by
  have hconsistent := consistent_prove v.env e hv
  unfold verify at h ⊢
  rcases hprove : Session.prove v.env e v.session with ⟨found | summary, s'⟩
  · rw [hprove] at hconsistent
    have hquiet := consistent_stopQuietly "while stopping solver after a failed run" hconsistent
    have hchannel := channel_stopQuietly "while stopping solver after a failed run" s'
    have hstopped : (s'.stopQuietly "while stopping solver after a failed run").isStarted =
        false := by simp [isStarted, hchannel]
    exact ⟨hchannel, hquiet.depth hstopped, hquiet.declared hstopped⟩
  · rw [hprove] at h
    cases h

theorem holdsGlobals_of_ok {summary : Summary} (hready : v.Ready)
    (hv : Idle script v.env es v.session) (h : (v.verify e).1 = .ok summary) :
    HoldsGlobals v.env es e v.session (v.verify e).2.session := by
  have hidle := idle_verify hready hv e
  have hready' := ready_verify hready e
  unfold verify at h hidle hready' ⊢
  rcases hprove : Session.prove v.env e v.session with ⟨found | found, s'⟩
  · rw [hprove] at h
    cases h
  rw [hprove] at hidle hready'
  have hprepared := hv.prepared_of_prove hprove hready'.unread
  obtain ⟨scope, hsettled⟩ := hprepared.settled
  refine ⟨⟨scope, hsettled.channel, fun word hword => ?_⟩, hready'.depth hsettled.isStarted,
    leavesGlobals_of_prove hv.consistent hprove⟩
  obtain ⟨d, ⟨hd, hforce⟩, hline⟩ := (hsettled.held word).1 hword
  obtain ⟨name, hname, hline'⟩ := hd.word
  exact ⟨d, name, hd, hforce, hname, Option.some.inj (hline.symm.trans hline')⟩

/-- An integer of a type that has a sort of its own. -/
def foreign : Expr := ⟨.con "foo", .int 1, none⟩

/-- Declares one variable, and proves nothing. -/
def naming (name : String) : Expr := .letIn name (.int 1) (.int 2)

theorem depthLimit_foreign : Checker.depthLimit ∅ foreign = 0x100001 := by
  have hdepth : foreign.walkDepth = 1 := by decide +kernel
  rw [Checker.depthLimit, show foreign.calls = [] from rfl, Env.reachDepth, hdepth,
    Checker.circleDepth]

theorem depthLimit_naming (env : Env) (name : String) :
    Checker.depthLimit env (naming name) = 0x100002 := by
  rw [Checker.depthLimit, show (naming name).calls = [] from rfl, Env.reachDepth,
    show (naming name).walkDepth = 2 from rfl, Checker.circleDepth]

theorem outcome_naming {name : String} {s : Session Solver Script} {outcome : Outcome Summary}
    (h : (proveWithin 0x100002 ∅ (naming name) s).1 = outcome) :
    (verify (naming name) (⟨s, ∅⟩ : Verifier Solver Script)).1 = outcome := by
  unfold verify
  rw [prove_eq_proveWithin (depthLimit_naming ∅ name)]
  rcases hrun : proveWithin 0x100002 ∅ (naming name) s with ⟨failure | summary, s'⟩ <;>
    rw [hrun] at h <;> exact h

/-- The run of the former on a new session. -/
def foreignRun : Outcome Summary × Session Solver Script :=
  proveWithin 0x100001 ∅ foreign { world := {} }

/-- What a run of the latter fails with if the name is taken. -/
def refusal : Failure :=
  .protocol "solver rejected a command: (error \"invalid declaration, `foo` already declared\")"

/-- Once a sort was declared, a variable that the solver reads as the sort is refused. -/
theorem after_foreign : ∃ s : Session Solver Script,
    after ⟨{ world := {} }, ∅⟩ [foreign] = ⟨s, ∅⟩ ∧ s.isStarted = true ∧ s.world.answers = [] ∧
      (verify (naming "x") (⟨s, ∅⟩ : Verifier Solver Script)).1 = .ok ⟨0, 0⟩ ∧
      (verify (naming "foo bar") (⟨s, ∅⟩ : Verifier Solver Script)).1 = .error refusal := by
  have hok : foreignRun.1 = .ok ⟨0, 0⟩ := by decide +kernel
  have hrun : prove ∅ foreign ({ world := {} } : Session Solver Script) = foreignRun := by
    rw [foreignRun, prove_eq_proveWithin depthLimit_foreign]
  have hprove : prove ∅ foreign ({ world := {} } : Session Solver Script) =
      (.ok ⟨0, 0⟩, foreignRun.2) := by
    rw [hrun, ← hok]
  have hverify := verify_of_prove (v := ⟨{ world := {} }, ∅⟩) hprove
  refine ⟨foreignRun.2, ?_, by decide +kernel, by decide +kernel, ?_, ?_⟩
  · unfold after
    rw [List.foldl_cons, List.foldl_nil, hverify]
  · exact outcome_naming (by decide +kernel)
  · exact outcome_naming (by decide +kernel)

theorem eq_of_mentions_foreign {name sort : String}
    (h : Env.Mentions ∅ [foreign, naming name] sort) : sort = "foo" := by
  have hforeign : (sortsOfRun ∅ foreign).toList = ["foo"] := by decide +kernel
  have hnaming : (sortsOfRun ∅ (naming name)).toList = [] := rfl
  obtain ⟨e, he, hsort⟩ := h
  simp only [List.mem_cons, List.not_mem_nil, or_false] at he
  rcases he with rfl | rfl
  · rw [hforeign] at hsort
    exact List.mem_singleton.1 hsort
  · rw [hnaming] at hsort
    cases hsort

/-- Fresh variables are told by their first character. -/
theorem head?_of_isFresh {name : String} (h : IsFresh name) :
    name.toList.head? = some '_' ∧ (firstWord name).toList.head? = some '_' := by
  obtain ⟨sort, index, rfl⟩ := h
  have hname : (FreshNames.nameOf sort.tag index).toList =
      '_' :: sort.tag :: (toString index).toList := by
    simp [FreshNames.nameOf]
  have hword : (firstWord (FreshNames.nameOf sort.tag index)).toList =
      '_' :: (sort.tag :: (toString index).toList).takeWhile (· != ' ') := by
    rw [firstWord, hname, String.toList_ofList]
    rfl
  rw [hname, hword]
  exact ⟨rfl, rfl⟩

/-- A verdict does not depend on what was verified before. Unless a launch fails, or the solver
takes the name of a sort that one of the runs mentions for that of a global, a let or a fresh
variable, a run answers what a new verifier answers that verifies this expression alone with the
answers still left, and both send the same lines from the first on that opens a scope. After a run
that fails the solver is stopped and nothing is counted; after one that succeeds it holds global
declarations and nothing else. -/
theorem verify_independent {script : Script} (hlaunch : script.failLaunch = 0) {env : Env}
    {es : List Expr} {e : Expr} (hnames : ∀ sort name, env.Mentions (es ++ [e]) sort →
      env.Declarable e name → sort ≠ firstWord name) :
    let v : Verifier Solver Script := after ⟨{ world := script }, env⟩ es
    let alone : Verifier Solver Script :=
      ⟨{ world := { script with answers := v.session.world.answers } }, env⟩
    (v.verify e).1 = (alone.verify e).1 ∧ v.linesFromPush e = alone.linesFromPush e ∧
      (∀ failure, (v.verify e).1 = .error failure → Stopped (v.verify e).2.session) ∧
      ∀ summary, (v.verify e).1 = .ok summary →
        HoldsGlobals env es e v.session (v.verify e).2.session := by
  intro v alone
  obtain ⟨hready, henv, hidle⟩ : v.Ready ∧ v.env = env ∧ Idle script env es v.session :=
    idle_after (ready_new script env) (idle_new hlaunch env) es
  have hrun := hidle.sameRun hlaunch hnames
  have hsame : (v.verify e).1 = (alone.verify e).1 ∧ v.linesFromPush e = alone.linesFromPush e := by
    refine verify_of_sameRun ?_
    rw [henv]
    exact hrun
  refine ⟨hsame.1, hsame.2, fun failure h => stopped_of_error hidle.consistent h, ?_⟩
  intro summary h
  have hholds := holdsGlobals_of_ok hready (henv ▸ hidle) h
  rwa [henv] at hholds

/-- The second run finds a sort in force that a verifier of its own does not declare. -/
theorem verify_independent_sample :
    (∀ sort name, Env.Mentions ∅ ([foreign] ++ [naming "x"]) sort →
      Env.Declarable ∅ (naming "x") name → sort ≠ firstWord name) ∧
    let v : Verifier Solver Script := after ⟨{ world := {} }, ∅⟩ [foreign]
    let alone : Verifier Solver Script :=
      ⟨{ world := { answers := v.session.world.answers } }, ∅⟩
    v.session.isStarted = true ∧ (v.verify (naming "x")).1 = .ok ⟨0, 0⟩ ∧
      (alone.verify (naming "x")).1 = .ok ⟨0, 0⟩ ∧
      v.linesFromPush (naming "x") = alone.linesFromPush (naming "x") ∧
      HoldsGlobals ∅ [foreign] (naming "x") v.session (v.verify (naming "x")).2.session := by
  have hnames : ∀ sort name, Env.Mentions ∅ ([foreign] ++ [naming "x"]) sort →
      Env.Declarable ∅ (naming "x") name → sort ≠ firstWord name := by
    rintro sort name hsort hname heq
    obtain rfl := eq_of_mentions_foreign hsort
    rcases hname with ⟨d, hd, -⟩ | hlet | hlet | hfresh
    · cases hd
    · cases hlet
    · obtain rfl := List.mem_singleton.1 hlet
      exact absurd heq (by decide +kernel)
    · have hhead := (head?_of_isFresh hfresh).2
      rw [← heq] at hhead
      exact absurd hhead (by decide +kernel)
  obtain ⟨houtcome, hlines, -, hholds⟩ := @verify_independent {} rfl ∅ [foreign] (naming "x") hnames
  obtain ⟨s, hafter, hstarted, -, hok, -⟩ := after_foreign
  have hverdict : ((after ⟨{ world := {} }, ∅⟩ [foreign] : Verifier Solver Script).verify
      (naming "x")).1 = .ok ⟨0, 0⟩ := by
    rw [hafter]
    exact hok
  refine ⟨hnames, ?_, hverdict, houtcome.symm.trans hverdict, hlines, hholds _ hverdict⟩
  rw [hafter]
  exact hstarted

/-- The solver takes `foo bar` for `foo`, which an earlier run has declared. -/
theorem verify_dependent : ¬ ∀ (script : Script) (env : Env) (es : List Expr) (e : Expr),
    script.failLaunch = 0 → (∀ sort name, env.Mentions (es ++ [e]) sort →
      env.contains name = true ∨ name ∈ env.letNames ∨
        (∃ e' ∈ es ++ [e], name ∈ e'.letNames) ∨ IsFresh name → sort ≠ name) →
    let v : Verifier Solver Script := after ⟨{ world := script }, env⟩ es
    let alone : Verifier Solver Script :=
      ⟨{ world := { script with answers := v.session.world.answers } }, env⟩
    (v.verify e).1 = (alone.verify e).1 := by
  intro hclaim
  have hsame := hclaim {} ∅ [foreign] (naming "foo bar") rfl ?_
  swap
  · rintro sort name hsort hname rfl
    obtain rfl := eq_of_mentions_foreign hsort
    rcases hname with hglobal | hlet | ⟨e, he, hlet⟩ | hfresh
    · cases hglobal
    · cases hlet
    · simp only [List.cons_append, List.nil_append, List.mem_cons, List.not_mem_nil,
        or_false] at he
      rcases he with rfl | rfl
      · cases hlet
      · exact absurd (List.mem_singleton.1 hlet) (by decide +kernel)
    · exact absurd (head?_of_isFresh hfresh).1 (by decide +kernel)
  obtain ⟨s, hafter, -, hanswers, -, hrefused⟩ := after_foreign
  have hok : (verify (naming "foo bar") (⟨{ world := {} }, ∅⟩ : Verifier Solver Script)).1 =
      .ok ⟨0, 0⟩ := outcome_naming (by decide +kernel)
  simp only [hafter, hanswers] at hsame
  exact absurd (hrefused.symm.trans (hsame.trans hok)) nofun

end Verifier

end ContractCheck
