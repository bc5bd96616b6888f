import ContractCheck.Proofs.Chronicle
import ContractCheck.Proofs.Frames
import ContractCheck.Proofs.ReadingLaw

/-!
What is true of every session that a host can reach: it counts no declaration from a scope that it
has left, and none at all while no solver runs (`Session.Reachable.consistent`). If its solver
follows a script, that holds some scope (`Session.Reachable.hasScope`).
-/

namespace ContractCheck

namespace Session

variable {τ ω α : Type} [Transport τ ω]

/-- No declaration is counted that was made deeper than where the session is, nor any scope or
declaration while no solver runs. -/
structure Consistent (s : Session τ ω) : Prop where
  bounded : s.Bounded
  depth : s.isStarted = false → s.depth = 0
  declared : s.isStarted = false → s.declared = ∅

omit [Transport τ ω] in
theorem consistent_stopped {s : Session τ ω} (hdepth : s.depth = 0) (hdeclared : s.declared = ∅) :
    s.Consistent := by
  refine ⟨fun key d hfound => ?_, fun _ => hdepth, fun _ => hdeclared⟩
  rw [hdeclared] at hfound
  cases hfound

omit [Transport τ ω] in
theorem Bounded.consistent {s : Session τ ω} (h : s.Bounded) (hs : s.isStarted = true) :
    s.Consistent :=
  ⟨h, fun h => absurd (hs.symm.trans h) (by decide), fun h => absurd (hs.symm.trans h) (by decide)⟩

omit [Transport τ ω] in
/-- What counts scopes and declarations as before, and runs if it did before, is consistent too. -/
theorem Consistent.of_eq {s s' : Session τ ω} (h : s.Consistent)
    (hstarted : s'.isStarted = s.isStarted) (hdepth : s'.depth = s.depth)
    (hdeclared : s'.declared = s.declared) : s'.Consistent where
  bounded key d hfound := by
    rw [hdepth]
    exact h.bounded key d (by rwa [← hdeclared])
  depth hs := hdepth.trans (h.depth (hstarted.symm.trans hs))
  declared hs := hdeclared.trans (h.declared (hstarted.symm.trans hs))

theorem Said.consistent {s s' : Session τ ω} {lines : List String} (h : s.Said lines s')
    (hs : s.Consistent) : s'.Consistent := hs.of_eq h.started h.depth h.declared

omit [Transport τ ω] in
theorem isClosed_consistent :
    IsClosed (fun {α} (op : SessionM τ ω α) => Preserves Consistent op) :=
  isClosed_preserves fun _ _ _ h => h.of_eq rfl rfl rfl

theorem consistent_write (line : String) {s : Session τ ω} (hs : s.Consistent) :
    (write line s).2.Consistent := (said_of_write line s).consistent hs

theorem consistent_read {s : Session τ ω} (hs : s.Consistent) : (read s).2.Consistent :=
  (said_of_read s).consistent hs

theorem consistent_start {s : Session τ ω} (hs : s.Consistent) : (start s).2.Consistent := by
  rw [start_apply]
  split
  · exact hs
  rename_i hstopped
  rw [Bool.not_eq_true] at hstopped
  have hdeclared := hs.declared hstopped
  rw [bind_apply]
  rcases launch_cases s with ⟨failure, world, log, -, hlaunch⟩ | ⟨c, world, log, -, hlaunch⟩
  · rw [hlaunch]
    exact consistent_stopped (hs.depth hstopped) hdeclared
  · rw [hlaunch]
    exact consistent_write _ (consistent_stopped rfl hdeclared)

theorem consistent_stop {s : Session τ ω} (hs : s.Consistent) : (stop s).2.Consistent := by
  cases hc : s.channel with
  | none =>
      simp only [stop, hc]
      exact hs
  | some c =>
      obtain ⟨log, hstop⟩ := stop_of_started hc rfl rfl
      rw [hstop]
      exact consistent_stopped rfl rfl

theorem consistent_push {s : Session τ ω} (hs : s.Consistent) : (push s).2.Consistent := by
  rcases hpush : push s with ⟨failure | u, s₁⟩
  · exact (said_of_push_error hpush).consistent hs
  · obtain ⟨-, hstarted, hdepth, hdeclared⟩ := entered_of_push hpush
    refine Bounded.consistent (fun key d hfound => ?_) hstarted
    rw [hdeclared] at hfound
    rw [hdepth]
    exact Nat.le_succ_of_le (hs.bounded key d hfound)

theorem consistent_pop {s : Session τ ω} (hs : s.Consistent) : (pop s).2.Consistent := by
  refine (said_of_write Command.pop.line s.leaveScope).consistent ⟨fun key d hfound => ?_, ?_, ?_⟩
  · rw [leaveScope, NameMap.get?_filter_eq_some_iff, decide_eq_true_eq] at hfound
    exact hfound.2
  · intro hstopped
    show s.depth - 1 = 0
    rw [hs.depth hstopped]
  · intro hstopped
    unfold leaveScope
    rw [hs.declared hstopped]
    rfl

theorem consistent_declareGlobal (key line : String) {s : Session τ ω} (hs : s.Consistent) :
    (declareGlobal key line s).2.Consistent := by
  rw [declareGlobal_apply]
  split
  · exact hs
  rw [bind_apply]
  have hwrite := consistent_write line hs
  rcases hs₁ : write line s with ⟨failure | u, s₁⟩
  · rwa [hs₁] at hwrite
  · rw [hs₁] at hwrite
    have hstarted : s₁.isStarted = true := isStarted_of_write hs₁
    refine Bounded.consistent (fun other d hfound => ?_) hstarted
    change (s₁.declared.insert key s₁.depth).get? other = some d at hfound
    rw [NameMap.get?_insert] at hfound
    split at hfound
    · exact Nat.le_of_eq (Option.some.inj hfound).symm
    · exact hwrite.bounded other d hfound

theorem consistent_sync {s : Session τ ω} (hs : s.Consistent) : (sync s).2.Consistent :=
  isClosed_consistent.sync (fun _ => consistent_write _) (fun _ => consistent_read) s hs

theorem consistent_checkSat {s : Session τ ω} (hs : s.Consistent) : (checkSat s).2.Consistent :=
  isClosed_consistent.checkSat (fun _ => consistent_write _) (fun _ => consistent_read) s hs

theorem consistent_prove (env : Env) (e : Expr) {s : Session τ ω} (hs : s.Consistent) :
    (prove env e s).2.Consistent := by
  refine isClosed_consistent.prove (fun _ => consistent_start)
    (fun _ _ _ => consistent_declareGlobal _ _) (fun s hs => ?_) (fun _ => consistent_sync) s hs
  have hopened := opened_runChecker env e hs.bounded
  obtain ⟨lines, hlines, -⟩ := hopened.spoke
  exact hs.of_eq hlines.started hopened.depth hopened.declared

theorem Reachable.consistent {s : Session τ ω} (h : s.Reachable) : s.Consistent := by
  refine h.induction (fun world => consistent_stopped rfl rfl) fun step c hsimple hc => ?_
  cases step with
  | start => exact consistent_start hc
  | stop => exact consistent_stop hc
  | push => exact consistent_push hc
  | pop => exact consistent_pop hc
  | sync => exact consistent_sync hc
  | read => exact consistent_read hc
  | checkSat => exact consistent_checkSat hc
  | write line => exact consistent_write line hc
  | declareGlobal key line => exact consistent_declareGlobal key line hc
  | prove env e => exact consistent_prove env e hc
  | pushPop body failure => exact hsimple.elim

theorem depth_start {s : Session τ ω} (hs : s.Consistent) : (start s).2.depth = s.depth := by
  rw [start_apply]
  split
  · rfl
  rename_i hstopped
  rw [Bool.not_eq_true] at hstopped
  have hdepth := hs.depth hstopped
  rw [bind_apply]
  rcases launch_cases s with ⟨failure, world, log, -, hlaunch⟩ | ⟨c, world, log, -, hlaunch⟩
  · rw [hlaunch]
  · rw [hlaunch, hdepth]
    exact (said_of_write Command.scopedDeclarations.line _).depth

theorem declared_start (s : Session τ ω) : (start s).2.declared = s.declared := by
  rw [start_apply]
  split
  · rfl
  rw [bind_apply]
  rcases launch_cases s with ⟨failure, world, log, -, hlaunch⟩ | ⟨c, world, log, -, hlaunch⟩
  · rw [hlaunch]
  · rw [hlaunch]
    exact (said_of_write Command.scopedDeclarations.line _).declared

/-- A run ends at the depth at which it began, also if it has to launch the solver. -/
theorem depth_prove (env : Env) (e : Expr) {s : Session τ ω} (hs : s.Consistent) :
    (prove env e s).2.depth = s.depth := by
  have hdepth := depth_start hs
  have hconsistent := consistent_start hs
  rcases hstart : start s with ⟨failure | u, s₁⟩
  · rw [hstart] at hdepth
    rwa [prove_of_start_error hstart]
  · rw [hstart] at hdepth hconsistent
    rw [prove_of_start hstart, ← hdepth]
    exact (keeps_prove env e s₁ (isStarted_of_start hstart) hconsistent.bounded).depth

theorem contains_declareGlobal (key line : String) (s : Session τ ω) {other : String}
    (h : s.declared.contains other = true) :
    (declareGlobal key line s).2.declared.contains other = true := by
  have hwrite := (said_of_write line s).declared
  rw [declareGlobal_apply]
  split
  · exact h
  rw [bind_apply]
  rcases hs₁ : write line s with ⟨failure | u, s₁⟩
  · rw [hs₁] at hwrite
    exact (congrArg (·.contains other) hwrite).trans h
  · rw [hs₁] at hwrite
    change (s₁.declared.insert key s₁.depth).contains other = true
    rw [NameMap.contains_insert, show s₁.declared = s.declared from hwrite, h, Bool.true_or]

/-- What the parts of a run keep that it consists of, the run keeps. A key that is not in force when
it is declared was not in force when the run began. -/
theorem preserved_by_prove {P : Session τ ω → Prop} {env : Env} {e : Expr} {s : Session τ ω}
    (hconsistent : ∀ s₁, P s₁ → s₁.Consistent)
    (hrecord : ∀ s₁ level text, P s₁ → P (s₁.record level text)) (hstart : Preserves P start)
    (hdeclare : ∀ d ∈ env.declarations e, ∀ s₁, P s₁ →
      (s₁.declared.contains d.1 = false → s.declared.contains d.1 = false) →
      P (declareGlobal d.1 d.2.line s₁).2)
    (hrun : Preserves P (runChecker env e)) (hwrite : Preserves P (write Command.sync.line))
    (hread : Preserves P read) (hs : P s) : P (prove env e s).2 := by
  let Q : Session τ ω → Prop := fun s₁ => P s₁ ∧
    ∀ key, s.declared.contains key = true → s₁.declared.contains key = true
  have hclosed : IsClosed (fun {α} (op : SessionM τ ω α) => Preserves Q op) :=
    isClosed_preserves fun s₁ level text h => ⟨hrecord s₁ level text h.1, h.2⟩
  have hkeep : ∀ {s₁ s₂ : Session τ ω}, Q s₁ → P s₂ → s₂.declared = s₁.declared → Q s₂ := by
    intro s₁ s₂ h₁ h₂ hdeclared
    refine ⟨h₂, fun key hkey => ?_⟩
    rw [hdeclared]
    exact h₁.2 key hkey
  refine (hclosed.prove (fun s₁ h₁ => ?_) (fun d hd s₁ h₁ => ?_) (fun s₁ h₁ => ?_)
    (hclosed.sync (fun s₁ h₁ => ?_) fun s₁ h₁ => ?_) s ⟨hs, fun _ h => h⟩).1
  · exact hkeep h₁ (hstart s₁ h₁.1) (declared_start s₁)
  · refine ⟨hdeclare d hd s₁ h₁.1 fun hkey => ?_,
      fun key hkey => contains_declareGlobal _ _ _ (h₁.2 key hkey)⟩
    by_contra hdeclared
    rw [Bool.not_eq_false] at hdeclared
    exact absurd ((h₁.2 _ hdeclared).symm.trans hkey) (by decide)
  · exact hkeep h₁ (hrun s₁ h₁.1)
      (opened_runChecker env e (hconsistent s₁ h₁.1).bounded).declared
  · exact hkeep h₁ (hwrite s₁ h₁.1) (said_of_write _ s₁).declared
  · exact hkeep h₁ (hread s₁ h₁.1) (said_of_read s₁).declared

end Session

/-! ### The scripted solver -/

namespace Scripted

theorem isView_scopes : IsView (fun s : Solver => s.scopes) scopesAfter where
  accepted line c c' w w' h := by
    change Scripted.send line c w = _ at h
    unfold Scripted.send at h
    split at h
    · cases h
    · cases h
      exact scopes_obey line c w.answers
  refused line failure c c' w w' h := by
    change Scripted.send line c w = _ at h
    unfold Scripted.send at h
    split at h
    · cases h
      rfl
    · cases h
  received c w := by
    change (Scripted.receive c w).2.1.scopes = _
    unfold Scripted.receive
    split <;> rfl

/-- What cannot be sent, and how many launches are to fail, is not changed by what is sent. -/
theorem isStable (failSend : List String) (failLaunch : Nat) : IsStable Solver
    fun script => script.failSend = failSend ∧ script.failLaunch = failLaunch where
  send line c w h := by
    change (Scripted.send line c w).2.2.failSend = _ ∧ (Scripted.send line c w).2.2.failLaunch = _
    unfold Scripted.send
    split
    · exact h
    · exact h
  receive c w h := by
    change (Scripted.receive c w).2.2.failSend = _ ∧ (Scripted.receive c w).2.2.failLaunch = _
    unfold Scripted.receive
    split
    · exact h
    · exact h

theorem isUnfailing : IsUnfailing Solver fun script => Command.pop.line ∉ script.failSend where
  pop c w h := by
    change (Scripted.send Command.pop.line c w).1 = _
    unfold Scripted.send
    rw [if_neg h]
  send line c w h := by
    rwa [((isStable _ _).send line c w ⟨rfl, rfl⟩).1]
  receive c w h := by
    rwa [((isStable _ _).receive c w ⟨rfl, rfl⟩).1]

/-- A solver that was just launched holds one scope without names. -/
theorem solver_of_launch {script script' : Script} {solver : Solver}
    (h : Transport.launch script = (.ok solver, script')) : solver = {} := by
  change Scripted.launch script = _ at h
  unfold Scripted.launch at h
  split at h <;> cases h
  rfl

theorem scopesAfter_ne_nil {scopes : List (List String)} (h : scopes ≠ []) (line : String) :
    scopesAfter scopes line ≠ [] := by
  obtain ⟨scope, rest, rfl⟩ := List.exists_cons_of_ne_nil h
  by_cases hpush : line = Command.push.line
  · rw [hpush]
    exact List.cons_ne_nil _ _
  by_cases hpop : line = Command.pop.line
  · rw [hpop]
    cases rest <;> exact List.cons_ne_nil _ _
  · obtain ⟨scope', hflat⟩ := isScoping_scopesAfter.flat line ⟨hpush, hpop⟩ scope rest
    rw [hflat]
    exact List.cons_ne_nil _ _

theorem foldl_scopesAfter_ne_nil {scopes : List (List String)} (h : scopes ≠ [])
    (lines : List String) : lines.foldl scopesAfter scopes ≠ [] := by
  induction lines generalizing scopes with
  | nil => exact h
  | cons line rest ih => exact ih (scopesAfter_ne_nil h line)

end Scripted

namespace Session

open Scripted

/-- The solver holds some scope, if it runs. -/
def HasScope (s : Session Solver Script) : Prop :=
  ∀ solver, s.channel = some solver → solver.scopes ≠ []

theorem Spoke.hasScope {s s' : Session Solver Script} {lines : List String}
    (h : s.Spoke lines s') (hs : s.HasScope) : s'.HasScope := by
  intro solver hsolver
  have hview := h.view isView_scopes
  rw [hsolver, Option.map_some, eq_comm, Option.map_eq_some_iff] at hview
  obtain ⟨before, hbefore, hscopes⟩ := hview
  rw [← hscopes]
  exact foldl_scopesAfter_ne_nil (hs before hbefore) lines

theorem isClosed_hasScope :
    IsClosed (fun {α} (op : SessionM Solver Script α) => Preserves HasScope op) :=
  isClosed_preserves fun _ _ _ h => h

theorem hasScope_start {s : Session Solver Script} (hs : s.HasScope) : (start s).2.HasScope := by
  rw [start_apply]
  split
  · exact hs
  rw [bind_apply]
  rcases launch_cases s with ⟨failure, world, log, -, hlaunch⟩ | ⟨c, world, log, hc, hlaunch⟩
  · rw [hlaunch]
    exact hs
  · rw [hlaunch]
    refine (said_of_write Command.scopedDeclarations.line _).hasScope ?_
    rintro solver ⟨⟩
    rw [solver_of_launch hc]
    exact List.cons_ne_nil _ _

theorem hasScope_stop (s : Session Solver Script) : (stop s).2.HasScope := by
  intro solver hsolver
  rw [channel_stop] at hsolver
  cases hsolver

theorem hasScope_declareGlobal (key line : String) {s : Session Solver Script}
    (hs : s.HasScope) : (declareGlobal key line s).2.HasScope := by
  have hwrite := (said_of_write line s).hasScope hs
  rw [declareGlobal_apply]
  split
  · exact hs
  rw [bind_apply]
  rcases hs₁ : write line s with ⟨failure | u, s₁⟩
  · rwa [hs₁] at hwrite
  · rw [hs₁] at hwrite
    exact hwrite

theorem Reachable.hasScope {s : Session Solver Script} (h : s.Reachable) : s.HasScope := by
  have hwrite : ∀ line (s : Session Solver Script), s.HasScope → (write line s).2.HasScope :=
    fun line s hs => (said_of_write line s).hasScope hs
  have hread : ∀ s : Session Solver Script, s.HasScope → (read s).2.HasScope :=
    fun s hs => (said_of_read s).hasScope hs
  have hperform : ∀ (deed : Deed) (s : Session Solver Script), s.HasScope →
      (perform deed s).2.HasScope := fun deed s hs => (spoke_perform deed s).hasScope hs
  refine h.induction (fun world solver hsolver => nomatch hsolver) fun step c hsimple hc => ?_
  cases step with
  | start => exact hasScope_start hc
  | stop => exact hasScope_stop c.session
  | push => exact hperform .push _ hc
  | pop => exact hperform .pop _ hc
  | sync => exact isClosed_hasScope.sync (hwrite _) hread _ hc
  | read => exact hread _ hc
  | checkSat => exact isClosed_hasScope.checkSat (hwrite _) hread _ hc
  | write line => exact hwrite line _ hc
  | declareGlobal key line => exact hasScope_declareGlobal key line hc
  | prove env e =>
      refine isClosed_hasScope.prove (fun _ => hasScope_start)
        (fun _ _ _ => hasScope_declareGlobal _ _) (fun s hs => ?_)
        (isClosed_hasScope.sync (hwrite _) hread) _ hc
      obtain ⟨lines, hlines⟩ := spoke_hold (Checker.runDialogue env e) s
      exact hlines.hasScope hs
  | pushPop body failure => exact hsimple.elim

end Session

end ContractCheck
