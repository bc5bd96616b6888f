import ContractCheck.Proofs.Observed
import ContractCheck.Proofs.SuccessfulRun

/-!
How the operations of a session are put together: what a line does to a session when it is accepted
and when it is not, and which operations a run consists of. A property of operations that is kept
when they are carried out one after the other holds of a run if it holds of these
(`Session.IsClosed.prove`).
-/

namespace ContractCheck

theorem inScope_apply {σ α : Type} (enter leave : ExceptT Failure (StateM σ) Unit)
    (body : ExceptT Failure (StateM σ) α) (s : σ) : inScope enter leave body s =
      match enter s with
      | (.error failure, s₁) => (.error failure, s₁)
      | (.ok (), s₁) =>
        (Outcome.settle (body s₁).1 (leave (body s₁).2).1, (leave (body s₁).2).2) := by
  unfold inScope
  simp only [bind, ExceptT.bind, ExceptT.mk, ExceptT.bindCont, StateT.bind]
  rcases enter s with ⟨failure | u, s₁⟩ <;> rfl

namespace Session

variable {τ ω α β : Type} [Transport τ ω]

theorem write_of_stopped {s : Session τ ω} (hc : s.channel = none) (line : String) :
    write line s = (.error (.misuse ("write before start: `" ++ line ++ "`")), s) := by
  simp only [write, hc]

theorem write_of_refused {s : Session τ ω} {c c' : τ} {w' : ω} {line : String} {failure : Failure}
    (hc : s.channel = some c)
    (hsend : Transport.send line c s.world = (.error failure, c', w')) :
    write line s = (.error failure,
      { s.record .trace ("> " ++ line) with channel := some c', world := w' }) := by
  have hsend' : Transport.send line c (s.record .trace ("> " ++ line)).world = _ := hsend
  simp only [write, hc, hsend']

theorem write_of_accepted {s : Session τ ω} {c c' : τ} {w' : ω} {line : String}
    (hc : s.channel = some c) (hsend : Transport.send line c s.world = (.ok (), c', w')) :
    write line s = (.ok (), { s.record .trace ("> " ++ line) with
      channel := some c', world := w', transcript := s.transcript.push line }) := by
  have hsend' : Transport.send line c (s.record .trace ("> " ++ line)).world = _ := hsend
  simp only [write, hc, hsend']
  rfl

/-- To read changes the channel, the world and the log alone. -/
theorem read_of_channel {s : Session τ ω} {c : τ} (hc : s.channel = some c) :
    ∃ log, (read s).2 = { s with
      channel := some (Transport.receive c s.world).2.1
      world := (Transport.receive c s.world).2.2
      log } := by
  simp only [read, hc]
  rcases Transport.receive c s.world with ⟨failure | line, c', w'⟩
  · exact ⟨_, rfl⟩
  · by_cases herror : isErrorLine line = true
    · simp only [if_pos herror]
      exact ⟨_, rfl⟩
    · simp only [if_neg herror]
      exact ⟨_, rfl⟩

theorem launch_cases (s : Session τ ω) :
    (∃ failure world log, (Transport.launch s.world : Outcome τ × ω) = (.error failure, world) ∧
      launch s = (.error failure, { s with world, log })) ∨
    ∃ c world log, Transport.launch s.world = (.ok c, world) ∧
      launch s = (.ok (), { s with world, channel := some c, depth := 0, log }) := by
  unfold launch
  cases @Transport.announcement τ ω _ s.world with
  | none =>
      rcases hlaunch : (Transport.launch s.world : Outcome τ × ω) with ⟨failure | c, world⟩
      · exact .inl ⟨failure, world, s.log, rfl, by simp only [hlaunch]⟩
      · exact .inr ⟨c, world, s.log, rfl, by simp only [hlaunch]⟩
  | some text =>
      rcases hlaunch : (Transport.launch s.world : Outcome τ × ω) with ⟨failure | c, world⟩
      · exact .inl ⟨failure, world, _, rfl, by simp only [record, hlaunch]; rfl⟩
      · exact .inr ⟨c, world, _, rfl, by simp only [record, hlaunch]; rfl⟩

/-- Once it has stopped, a session counts no scope and no declaration. -/
theorem stop_of_started {s : Session τ ω} {c c' : τ} {sent : Outcome Unit}
    {report : Outcome ExitReport} {w' w'' : ω} (hc : s.channel = some c)
    (hsend : Transport.send Command.exit.line c s.world = (sent, c', w'))
    (hshutdown : Transport.shutdown c' w' = (report, w'')) :
    ∃ log, stop s = (stopOutcome sent report s.depth, { s with
      channel := none, world := w'', depth := 0, declared := ∅, log
      transcript := s.transcript.push Command.exit.line }) := by
  simp only [stop, hc, hsend, hshutdown]
  cases transcriptLevel? sent report with
  | none => exact ⟨_, rfl⟩
  | some level => exact ⟨_, rfl⟩

theorem transcript_stop (s : Session τ ω) : (stop s).2.transcript =
    if s.isStarted then s.transcript.push Command.exit.line else s.transcript := by
  cases hc : s.channel with
  | none => simp [stop, hc, isStarted]
  | some c =>
      obtain ⟨log, hstop⟩ := stop_of_started hc rfl rfl
      simp [hstop, isStarted, hc]

theorem push_eq_ok {s s' : Session τ ω} (h : push s = (.ok (), s')) :
    ∃ s₁, write Command.push.line s = (.ok (), s₁) ∧ s' = { s₁ with depth := s₁.depth + 1 } := by
  obtain ⟨u, s₁, hwrite, hmodify⟩ := bind_eq_ok_iff.1 h
  cases hmodify
  exact ⟨s₁, hwrite, rfl⟩

theorem push_eq_error {s s' : Session τ ω} {failure : Failure}
    (h : push s = (.error failure, s')) :
    write Command.push.line s = (.error failure, s') := by
  unfold push at h
  rw [bind_apply] at h
  rcases hs : write Command.push.line s with ⟨failure' | u, s₁⟩
  · rw [hs] at h
    exact h
  · rw [hs] at h
    cases h

theorem pushPop_apply (body : SessionM τ ω α) (s : Session τ ω) : pushPop body s =
    match push s with
    | (.error failure, s₁) => (.error failure, s₁)
    | (.ok (), s₁) =>
      (Outcome.settle (body s₁).1 (pop (body s₁).2).1, (pop (body s₁).2).2) := by
  unfold pushPop
  rw [inScope_apply]
  rcases push s with ⟨failure | u, s₁⟩ <;> rfl

/-- The session in which the key is declared. -/
def withDeclared (s : Session τ ω) (key : String) : Session τ ω :=
  { s with declared := s.declared.insert key s.depth }

theorem declareGlobal_apply (key line : String) (s : Session τ ω) :
    declareGlobal key line s = if s.declared.contains key then (.ok (), s) else
      (write line >>= fun _ => modify (withDeclared · key) : SessionM τ ω Unit) s := by
  change (unless s.declared.contains key do _ : SessionM τ ω Unit) s = _
  cases s.declared.contains key <;> rfl

theorem isStarted_of_write {line : String} {s s' : Session τ ω}
    (h : write line s = (.ok (), s')) : s'.isStarted = true := by
  obtain ⟨c, c', -, -, hs'⟩ := write_eq_ok h
  rw [hs']
  rfl

theorem isStarted_of_start {s s₁ : Session τ ω} (h : start s = (.ok (), s₁)) :
    s₁.isStarted = true := by
  rw [start_apply] at h
  split at h
  · rename_i hs
    cases h
    exact hs
  · obtain ⟨u, s₂, -, hwrite⟩ := bind_eq_ok_iff.1 h
    exact isStarted_of_write hwrite

theorem start_of_started {s : Session τ ω} (hs : s.isStarted = true) : start s = (.ok (), s) := by
  rw [start_apply, if_pos hs]

/-- A run in a session that has to be started is the run in the session once it has started. -/
theorem prove_of_start {env : Env} {e : Expr} {s s₁ : Session τ ω} (h : start s = (.ok (), s₁)) :
    prove env e s = prove env e s₁ := by
  unfold prove
  rw [bind_apply, bind_apply, h, start_of_started (isStarted_of_start h)]

theorem prove_of_start_error {env : Env} {e : Expr} {s s₁ : Session τ ω} {failure : Failure}
    (h : start s = (.error failure, s₁)) : prove env e s = (.error failure, s₁) := by
  unfold prove
  rw [bind_apply, h]

/-- A property of operations that is kept when they are put together. -/
structure IsClosed (C : ∀ {α : Type}, SessionM τ ω α → Prop) : Prop where
  answer : ∀ {α : Type} (outcome : Outcome α), C fun s => (outcome, s)
  andThen : ∀ {α β : Type} {op : SessionM τ ω α} {f : α → SessionM τ ω β},
    C op → (∀ a, C (f a)) → C (op >>= f)
  record : ∀ level text, C (modify (·.record level text))

namespace IsClosed

variable {C : ∀ {α : Type}, SessionM τ ω α → Prop} (hC : IsClosed (τ := τ) (ω := ω) C)
include hC

theorem checkSat (hwrite : C (write Command.checkSat.line)) (hread : C read) : C checkSat :=
  hC.andThen hwrite fun _ => hread

theorem sync (hwrite : C (write Command.sync.line)) (hread : C read) : C sync := by
  refine hC.andThen hwrite fun _ => hC.andThen hread fun line => ?_
  cases trimQuotes line == Command.syncMarker <;> exact hC.answer _

theorem declareSorts {names : List String}
    (h : ∀ d ∈ sortDeclarations names, C (declareGlobal d.1 d.2.line)) :
    C (declareSorts names) := by
  induction names with
  | nil => exact hC.answer _
  | cons name rest ih =>
      obtain ⟨hname, hrest⟩ := List.forall_mem_cons.1 h
      exact hC.andThen hname fun _ => ih hrest

theorem declareSignatures {entries : List (String × Signature)}
    (h : ∀ d ∈ signatureDeclarations entries, C (declareGlobal d.1 d.2.line)) :
    C (declareSignatures entries) := by
  induction entries with
  | nil => exact hC.answer _
  | cons entry rest ih =>
      obtain ⟨name, sig⟩ := entry
      rw [signatureDeclarations, List.flatMap_cons, List.forall_mem_append] at h
      obtain ⟨hname, hrest⟩ := h
      unfold Signature.declarations at hname
      unfold Session.declareSignatures
      rcases hsig : sig.globalDeclaration name with failure | ⟨key, command⟩ | unsorted | _
      · exact hC.answer _
      · rw [hsig] at hname
        change C (declareGlobal key command.line >>= fun _ => Session.declareSignatures rest)
        exact hC.andThen (hname _ List.mem_cons_self) fun _ => ih hrest
      · let text := "`" ++ unsorted ++ "` has no solver sort, not declared"
        change C (modify (·.record .debug text) >>= fun _ => Session.declareSignatures rest)
        exact hC.andThen (hC.record _ _) fun _ => ih hrest
      · exact ih hrest

theorem declareGlobals {env : Env} {e : Expr}
    (h : ∀ d ∈ env.declarations e, C (declareGlobal d.1 d.2.line)) : C (declareGlobals env e) := by
  rw [Env.declarations, List.forall_mem_append] at h
  exact hC.andThen (hC.declareSorts h.1) fun _ => hC.declareSignatures h.2

theorem prove {env : Env} {e : Expr} (hstart : C start)
    (hdeclare : ∀ d ∈ env.declarations e, C (declareGlobal d.1 d.2.line))
    (hrun : C (runChecker env e)) (hsync : C Session.sync) : C (prove env e) :=
  hC.andThen hstart fun _ => hC.andThen (hC.declareGlobals hdeclare) fun _ =>
    hC.andThen hrun fun _ => hC.andThen hsync fun _ => hC.answer _

end IsClosed

/-- The operation keeps a property of sessions, whatever it ends in. -/
def Preserves (P : Session τ ω → Prop) (op : SessionM τ ω α) : Prop := ∀ s, P s → P (op s).2

omit [Transport τ ω] in
theorem isClosed_preserves {P : Session τ ω → Prop}
    (hrecord : ∀ s level text, P s → P (s.record level text)) :
    IsClosed (fun {α} (op : SessionM τ ω α) => Preserves P op) where
  answer _ _ h := h
  andThen {_ _ op f} h hf s hs := by
    have hop := h s hs
    rw [bind_apply]
    rcases hs₁ : op s with ⟨failure | a, s₁⟩
    · rwa [hs₁] at hop
    · rw [hs₁] at hop
      exact hf a s₁ hop
  record level text s h := hrecord s level text h

end Session

end ContractCheck
