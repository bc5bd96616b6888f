import ContractCheck.Proofs.ReadingLaw

/-!
Runs of a session that is used for anything in between. A run that failed, or a failed wait for the
marker, may leave lines unread, and a later run in the same session takes them for its own answers:
it can succeed although the solver refused its commands (`prove_deceived`). This happens only then.
What a run that succeeds has read is what was unread before it and what was said to it, in this
order, and from this it follows exactly when its success is its own (`prove_after`).
-/

namespace ContractCheck

namespace Scripted

/-- What the solver answered to a check. -/
def Exchange.answers : Exchange → List String
  | .sent line said => if line = Command.checkSat.line then said else []
  | _ => []

/-- The solver refused nothing, and its answers to the checks are one `unsat` for each
obligation. -/
structure Undeceived (obligations : Nat) (x : List Exchange) : Prop where
  unrefused : ∀ line said, .sent line said ∈ x → ∀ reply ∈ said, Session.isErrorLine reply = false
  answers : x.flatMap Exchange.answers = unsats obligations

theorem answers_of_isMute {c : Command} (h : c.IsMute) (said : List String) :
    (Exchange.sent c.line said).answers = [] := if_neg (line_ne_checkSat_of_isMute h)

/-- If no command was refused, all that was said are answers to checks. -/
theorem saids_eq_answers {commands : List Command} {x : List Exchange} (h : Talk commands x)
    (hx : ∀ line said, .sent line said ∈ x → ∀ reply ∈ said, Session.isErrorLine reply = false) :
    saids x = x.flatMap Exchange.answers := by
  induction h with
  | nil => rfl
  | accepted hmute _ ih =>
      rw [List.flatMap_cons, answers_of_isMute hmute,
        ← ih fun line said hmem => hx line said (List.mem_cons_of_mem _ hmem)]
      rfl
  | @refused c rest x name hmute _ _ =>
      have hrefused := hx c.line [redeclared name] List.mem_cons_self _ List.mem_cons_self
      rw [isErrorLine_redeclared] at hrefused
      cases hrefused
  | answered answer _ ih =>
      have hrest := ih fun line said hmem =>
        hx line said (List.mem_cons_of_mem _ (List.mem_cons_of_mem _ hmem))
      exact congrArg ([answer] ++ ·) hrest
  | unanswered _ ih =>
      have hrest := ih fun line said hmem =>
        hx line said (List.mem_cons_of_mem _ (List.mem_cons_of_mem _ hmem))
      exact hrest

theorem undeceived_genuine {commands : List Command}
    (hmute : ∀ c ∈ commands, c = .checkSat ∨ c.IsMute) :
    Undeceived (commands.countP Command.isCheckSat) (genuine commands) := by
  induction commands with
  | nil => exact ⟨(fun _ _ h => nomatch h), rfl⟩
  | cons c rest ih =>
      obtain ⟨hunrefused, hanswers⟩ := ih fun c hc => hmute c (List.mem_cons_of_mem _ hc)
      rcases hmute c List.mem_cons_self with rfl | hc
      · have hsplit : genuine (.checkSat :: rest) =
            .sent Command.checkSat.line ["unsat"] :: .heard "unsat" :: genuine rest := rfl
        rw [hsplit, List.countP_cons_of_pos rfl]
        refine ⟨?_, congrArg ("unsat" :: ·) hanswers⟩
        intro line said hmem reply hreply
        rcases List.mem_cons.1 hmem with hsame | hmem
        · rw [(Exchange.sent.inj hsame).2, List.mem_singleton] at hreply
          rw [hreply]
          decide +kernel
        · rcases List.mem_cons.1 hmem with hheard | hmem
          · cases hheard
          · exact hunrefused line said hmem reply hreply
      · rw [countP_cons_of_isMute hc, genuine_cons_of_isMute hc]
        refine ⟨?_, ?_⟩
        · intro line said hmem reply hreply
          rcases List.mem_cons.1 hmem with hsame | hmem
          · rw [(Exchange.sent.inj hsame).2] at hreply
            cases hreply
          · exact hunrefused line said hmem reply hreply
        · rw [List.flatMap_cons, answers_of_isMute hc, hanswers]
          rfl

end Scripted

namespace Session

open Scripted

/-- What a host may do with a session between its runs, and the runs themselves. -/
inductive Operation where
  | start
  | stop
  | push
  | pop
  | sync
  | prove (env : Env) (e : Expr)

namespace Operation

def run : Operation → SessionM Solver Script Unit
  | .start => Session.start
  | .stop => Session.stop
  | .push => Session.push
  | .pop => Session.pop
  | .sync => Session.sync
  | .prove env e => do let _ ← Session.prove env e

/-- Whether the operation waits for the marker. -/
def awaits : Operation → Bool
  | .sync | .prove _ _ => true
  | _ => false

end Operation

/-- A session, and whether no operation that waits for the marker has failed since its solver was
launched. -/
structure History where
  session : Session Solver Script
  calm : Bool

namespace History

def new (script : Script) : History := ⟨{ world := script }, true⟩

def next (h : History) (op : Operation) : History :=
  match op.run h.session with
  | (.ok (), session) => ⟨session, h.calm || !h.session.isStarted⟩
  | (.error _, session) => ⟨session, (h.calm || !h.session.isStarted) && !op.awaits⟩

/-- The session after the operations, whether they succeed or fail. -/
def after (script : Script) (ops : List Operation) : History := ops.foldl next (new script)

end History

theorem unread_eq_nil_of_channel {s : Session Solver Script} (h : s.channel = none) :
    s.unread = [] := by
  simp only [unread, h]

theorem unread_write (line : String)
    (hquiet : ∀ solver answers, (obey line solver answers).1.output = solver.output)
    (s : Session Solver Script) : (write line s).2.unread = s.unread := by
  unfold write
  cases hc : s.channel with
  | none => rfl
  | some solver =>
      have hunread : s.unread = solver.output := by simp only [unread, hc]
      simp only
      by_cases hfail : line ∈ s.world.failSend
      · have hsend : Transport.send line solver (s.record .trace ("> " ++ line)).world =
            (.error sendFailure, solver, s.world) := if_pos hfail
        rw [hsend, hunread]
        rfl
      · have hsend : (Transport.send line solver (s.record .trace ("> " ++ line)).world).1 =
            .ok () ∧ (Transport.send line solver
              (s.record .trace ("> " ++ line)).world).2.1.output = solver.output := by
          change (Scripted.send line solver s.world).1 = _ ∧
            (Scripted.send line solver s.world).2.1.output = _
          unfold Scripted.send
          rw [if_neg hfail]
          exact ⟨rfl, hquiet solver _⟩
        rcases hs : Transport.send line solver (s.record .trace ("> " ++ line)).world with
          ⟨outcome, solver', script'⟩
        rw [hs] at hsend
        obtain ⟨houtcome, houtput⟩ := hsend
        obtain rfl : outcome = .ok () := houtcome
        rw [hunread]
        exact houtput

theorem unread_push (s : Session Solver Script) : (push s).2.unread = s.unread := by
  have hwrite := unread_write Command.push.line (fun _ _ => rfl) s
  unfold push
  rw [bind_apply]
  rcases hs : write Command.push.line s with ⟨failure | u, s₁⟩
  · rw [hs] at hwrite
    exact hwrite
  · rw [hs] at hwrite
    exact hwrite

theorem unread_pop (s : Session Solver Script) : (pop s).2.unread = s.unread := by
  have hwrite := unread_write Command.pop.line
    (fun solver answers => output_pop solver) s.leaveScope
  exact hwrite

theorem unread_launch {s : Session Solver Script} (h : s.channel = none) :
    (launch s).2.unread = [] := by
  obtain ⟨script, channel, depth, transcript, declared, log⟩ := s
  obtain rfl : channel = none := h
  simp only [launch, Transport.announcement, Transport.launch, Scripted.launch]
  cases script.failLaunch <;> rfl

theorem unread_start (s : Session Solver Script) : (start s).2.unread = s.unread := by
  rw [start_apply]
  cases hs : s.isStarted with
  | true => rfl
  | false =>
      have hnone : s.channel = none := by simpa [isStarted] using hs
      have hlaunch := unread_launch hnone
      rw [if_neg Bool.false_ne_true, bind_apply, unread_eq_nil_of_channel hnone]
      rcases hs : launch s with ⟨failure | u, s₁⟩
      · rw [hs] at hlaunch
        exact hlaunch
      · rw [hs] at hlaunch
        exact (unread_write _ (fun _ _ => rfl) s₁).trans hlaunch

theorem unread_stop (s : Session Solver Script) : (stop s).2.unread = [] :=
  unread_eq_nil_of_channel (channel_stop s)

theorem unread_sync {s s' : Session Solver Script} (hunread : s.unread = [])
    (h : sync s = (.ok (), s')) : s'.unread = [] := by
  obtain ⟨t, ht, rfl⟩ := faithful_sync.observe_eq_ok h
  obtain ⟨line, -, -, -, hlaw⟩ := exchanges_of_synced (synced_of_sync ht)
  rw [forget_observe, hunread] at hlaw
  exact (List.cons.inj hlaw).2.symm

theorem undeceived_iff {s : Session Observed Observation} {commands : List Command}
    {x : List Exchange} (h : Talk commands x) (line : String) :
    Undeceived (commands.countP Command.isCheckSat) (s.opening ++ (x ++ closing line)) ↔
      saids x = unsats (commands.countP Command.isCheckSat) := by
  have hopening : s.opening.flatMap Exchange.answers = [] := by
    unfold opening
    split
    · rfl
    · decide +kernel
  have hclosing : (closing line).flatMap Exchange.answers = [] := by
    simp only [closing, List.flatMap_cons, Exchange.answers, List.flatMap_nil, List.append_nil]
    exact if_neg (by decide +kernel)
  constructor
  · rintro ⟨hunrefused, hanswers⟩
    rw [saids_eq_answers h fun line said hmem =>
      hunrefused line said (List.mem_append_right _ (List.mem_append_left _ hmem)), ← hanswers,
      List.flatMap_append, List.flatMap_append, hopening, hclosing, List.nil_append,
      List.append_nil]
  · intro hsaids
    obtain rfl := eq_genuine_of_saids h hsaids
    have horderly := undeceived_genuine h.isMute
    refine ⟨?_, ?_⟩
    · intro other said hmem reply hreply
      rcases List.mem_append.1 hmem with hmem | hmem
      · unfold opening at hmem
        split at hmem
        · cases hmem
        · simp only [List.mem_cons, reduceCtorEq, Exchange.sent.injEq, List.not_mem_nil, or_false,
            false_or] at hmem
          rw [hmem.2] at hreply
          cases hreply
      · rcases List.mem_append.1 hmem with hmem | hmem
        · exact horderly.unrefused other said hmem reply hreply
        · simp only [closing, List.mem_cons, reduceCtorEq, Exchange.sent.injEq, List.not_mem_nil,
            or_false] at hmem
          rw [hmem.2, List.mem_singleton] at hreply
          rw [hreply]
          decide +kernel
    · rw [List.flatMap_append, List.flatMap_append, hopening, hclosing, List.nil_append,
        List.append_nil, horderly.answers]

/-- What a run that succeeds was, from what was unread before it. -/
theorem deception_of_prove {env : Env} {e : Expr} {summary : Summary}
    {s s' : Session Solver Script} (h : prove env e s = (.ok summary, s')) :
    ∃ line, trimQuotes line = Command.syncMarker ∧
      s.unread ++ saids (exchanges (prove env e) s) =
        unsats summary.obligations ++ line :: s'.unread ∧
      (Undeceived summary.obligations (exchanges (prove env e) s) ↔
        s.unread ++ (unsats summary.obligations ++ [quotedMarker]) =
          unsats summary.obligations ++ line :: s'.unread) ∧
      (s.unread = [] → Undeceived summary.obligations (exchanges (prove env e) s) ∧
        s'.unread = []) := by
  obtain ⟨t, ht, rfl⟩ := (faithful_prove env e).observe_eq_ok h
  obtain ⟨commands, x, line, htalk, hchecks, herror, hmarker, hexchanges, hlaw⟩ :=
    exchanges_of_prove ht
  have hseen : exchanges (prove env e) s = s.observe.opening ++ (x ++ closing line) := by
    unfold exchanges
    rw [ht]
    exact hexchanges
  have hopening : saids s.observe.opening = [] := by
    unfold opening
    split <;> rfl
  have hiff := undeceived_iff (s := s.observe) htalk line
  rw [hchecks] at hiff
  rw [forget_observe] at hlaw
  rw [hseen]
  refine ⟨line, hmarker, ?_, ?_, ?_⟩
  · rw [← hlaw, saids_append, saids_append, hopening]
    rfl
  · rw [hiff, ← hlaw, List.append_cancel_left_eq, List.append_cancel_right_eq, eq_comm]
  · intro hunread
    rw [hunread, List.nil_append, ← hchecks] at hlaw
    obtain ⟨hsaids, -, hrest⟩ := saids_eq_of_nothing_unread htalk herror hlaw
    rw [hchecks] at hsaids
    exact ⟨hiff.2 hsaids, hrest⟩

namespace History

/-- In a calm session nothing is unread. -/
theorem unread_next {h : History} (hcalm : h.calm = true → h.session.unread = [])
    (op : Operation) : (h.next op).calm = true → (h.next op).session.unread = [] := by
  have hbefore : (h.calm || !h.session.isStarted) = true → h.session.unread = [] := by
    intro hor
    rcases Bool.or_eq_true_iff.1 hor with hcalm' | hstopped
    · exact hcalm hcalm'
    · refine unread_eq_nil_of_channel ?_
      simpa [isStarted] using hstopped
  unfold next
  rcases hop : op.run h.session with ⟨failure | u, s'⟩
  · intro hcalm'
    simp only [Bool.and_eq_true] at hcalm'
    obtain ⟨hor, hawaits⟩ := hcalm'
    have hunread := hbefore hor
    have hs' : s' = (op.run h.session).2 := by rw [hop]
    rw [hs']
    cases op with
    | start => exact (unread_start _).trans hunread
    | stop => exact unread_stop _
    | push => exact (unread_push _).trans hunread
    | pop => exact (unread_pop _).trans hunread
    | sync => cases hawaits
    | prove env e => cases hawaits
  · intro hor
    have hunread := hbefore hor
    have hs' : s' = (op.run h.session).2 := by rw [hop]
    cases op with
    | start => exact hs' ▸ (unread_start _).trans hunread
    | stop => exact hs' ▸ unread_stop _
    | push => exact hs' ▸ (unread_push _).trans hunread
    | pop => exact hs' ▸ (unread_pop _).trans hunread
    | sync => exact unread_sync hunread hop
    | prove env e =>
        obtain ⟨summary, s₁, hprove, hpure⟩ := bind_eq_ok_iff.1 hop
        cases hpure
        obtain ⟨-, -, -, -, hgenuine⟩ := deception_of_prove hprove
        exact (hgenuine hunread).2

theorem unread_after (script : Script) (ops : List Operation)
    (hcalm : (after script ops).calm = true) : (after script ops).session.unread = [] := by
  have hfold : ∀ (ops : List Operation) (h : History),
      (h.calm = true → h.session.unread = []) →
      (ops.foldl next h).calm = true → (ops.foldl next h).session.unread = [] := by
    intro ops
    induction ops with
    | nil => exact fun h hinv => hinv
    | cons op rest ih => exact fun h hinv => ih (h.next op) (unread_next hinv op)
  exact hfold ops (new script) (fun _ => rfl) hcalm

end History

/-- A run after any operations that succeeds has read what was unread before it and what was said
to it, in this order: one line for each check, and a line for the marker. That the solver refused
nothing and answered each check with `unsat` is then the same as that these lines, had they been
said, would have left unread what the run left unread. It is so whenever nothing was unread before
the run, in particular if no operation that waits for the marker has failed since the solver was
launched. -/
theorem prove_after {script : Script} {ops : List Operation} {env : Env} {e : Expr}
    {summary : Summary} {s' : Session Solver Script}
    (h : prove env e (History.after script ops).session = (.ok summary, s')) :
    ∃ line, trimQuotes line = Command.syncMarker ∧
      (History.after script ops).session.unread ++
          saids (exchanges (prove env e) (History.after script ops).session) =
        unsats summary.obligations ++ line :: s'.unread ∧
      (Undeceived summary.obligations
          (exchanges (prove env e) (History.after script ops).session) ↔
        (History.after script ops).session.unread ++
            (unsats summary.obligations ++ [quotedMarker]) =
          unsats summary.obligations ++ line :: s'.unread) ∧
      ((History.after script ops).session.unread = [] ∨ (History.after script ops).calm = true →
        Undeceived summary.obligations
          (exchanges (prove env e) (History.after script ops).session) ∧ s'.unread = []) := by
  obtain ⟨line, hmarker, hlaw, hiff, hgenuine⟩ := deception_of_prove h
  refine ⟨line, hmarker, hlaw, hiff, ?_⟩
  rintro (hunread | hcalm)
  · exact hgenuine hunread
  · exact hgenuine (History.unread_after script ops hcalm)

theorem prove_after_sample : ∃ (summary : Summary) (s' : Session Solver Script),
    prove Sample.env Sample.call
        (History.after { answers := ["unsat"] } [.start, .push]).session = (.ok summary, s') ∧
      Undeceived summary.obligations (exchanges (prove Sample.env Sample.call)
        (History.after { answers := ["unsat"] } [.start, .push]).session) ∧ s'.unread = [] := by
  rcases hrun : prove Sample.env Sample.call
    (History.after { answers := ["unsat"] } [.start, .push]).session with ⟨outcome, s'⟩
  have hok : outcome = .ok ⟨1, 1⟩ := by
    rw [prove_eq_proveWithin Sample.depthLimit_call] at hrun
    exact (congrArg Prod.fst hrun).symm.trans rfl
  subst hok
  obtain ⟨line, -, -, -, hgenuine⟩ := prove_after hrun
  exact ⟨_, s', rfl, hgenuine (.inr rfl)⟩

/-- Declares one name twice in a scope, which the solver refuses, and proves nothing. -/
def twice : Expr := .letIn "x" (.int 1) (.letIn "x" (.int 2) (.var "x" .int))

theorem depthLimit_twice (env : Env) : Checker.depthLimit env twice = 0x100003 := by
  rw [Checker.depthLimit, show twice.calls = [] from rfl, Env.reachDepth,
    show twice.walkDepth = 3 from rfl, Checker.circleDepth]

/-- The first run fails on the refusal and leaves its marker unread. -/
theorem session_after_twice : ∃ transcript log sent,
    (History.after {} [.prove ∅ twice]).session =
      { world := { sent }, channel := some { output := [quotedMarker] }, transcript, log } := by
  have hrun : Operation.run (.prove ∅ twice) =
      (do let _ ← proveWithin 0x100003 ∅ twice : SessionM Solver Script Unit) := by
    rw [Operation.run, prove_eq_proveWithin (depthLimit_twice ∅)]
  unfold History.after
  rw [List.foldl_cons, List.foldl_nil, History.next, hrun]
  exact ⟨_, _, _, rfl⟩

theorem prove_twice_of_marker (transcript : Array String) (log : Array LogRecord)
    (sent : Array String) : (proveWithin 0x100003 ∅ twice
      ({ world := { sent }, channel := some { output := [quotedMarker] }, transcript, log } :
        Session Solver Script)).1 = .ok ⟨0, 0⟩ := rfl

theorem exchanges_of_twice (transcript : Array String) (log : Array LogRecord)
    (sent : Array String) : .sent "(declare-const x Int)" [redeclared "x"] ∈
      exchanges (proveWithin 0x100003 ∅ twice)
        { world := { sent }, channel := some { output := [quotedMarker] }, transcript, log } := by
  have hexchanges : exchanges (proveWithin 0x100003 ∅ twice)
      { world := { sent }, channel := some { output := [quotedMarker] }, transcript, log } =
      [.sent "(push 1)" [], .sent "(declare-const x Int)" [], .sent "(assert (= x 1))" [],
        .sent "(declare-const x Int)" [redeclared "x"], .sent "(assert (= x 2))" [],
        .sent "(pop 1)" []] ++ closing quotedMarker := rfl
  rw [hexchanges]
  simp

/-- The second run takes that marker for its own and succeeds, although it was refused as well. -/
theorem prove_deceived : ¬ ∀ (script : Script) (ops : List Operation) (env : Env) (e : Expr)
    (summary : Summary) (s' : Session Solver Script),
    prove env e (History.after script ops).session = (.ok summary, s') →
      Undeceived summary.obligations
        (exchanges (prove env e) (History.after script ops).session) := by
  intro hclaim
  obtain ⟨transcript, log, sent, hsession⟩ := session_after_twice
  rcases hrun : prove ∅ twice (History.after {} [.prove ∅ twice]).session with ⟨outcome, s'⟩
  have hundeceived := hclaim {} [.prove ∅ twice] ∅ twice ⟨0, 0⟩ s'
  rw [hsession, prove_eq_proveWithin (depthLimit_twice ∅)] at hrun hundeceived
  obtain rfl : outcome = .ok ⟨0, 0⟩ :=
    (congrArg Prod.fst hrun).symm.trans (prove_twice_of_marker transcript log sent)
  rw [hrun, prove_eq_proveWithin (depthLimit_twice ∅)] at hundeceived
  have hrefused := (hundeceived rfl).unrefused _ _ (exchanges_of_twice transcript log sent)
    (redeclared "x") (List.mem_singleton.2 rfl)
  rw [isErrorLine_redeclared] at hrefused
  cases hrefused

end Session

end ContractCheck
