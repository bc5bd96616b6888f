import ContractCheck.Proofs.Lockstep

/-!
A stop makes a session as good as new. Sessions are peers if they run the same channel and count the
same scopes and declarations, in worlds that no channel tells apart, whatever their transcripts hold
from before. Peers stay peers, and a host sees the same of both (`Host.Peers.steps`). A session that
has stopped is the peer of a new one in what is left of its world.
-/

namespace ContractCheck

/-- No channel tells apart worlds that are so related, and none makes them differ. -/
structure IsBlind (τ : Type) {ω : Type} [Transport τ ω] (W : ω → ω → Prop) : Prop where
  launch : ∀ w w', W w w' →
    (Transport.launch w : Outcome τ × ω).1 = (Transport.launch w' : Outcome τ × ω).1 ∧
      W (Transport.launch w : Outcome τ × ω).2 (Transport.launch w' : Outcome τ × ω).2
  send : ∀ line (c : τ) w w', W w w' →
    (Transport.send line c w).1 = (Transport.send line c w').1 ∧
      (Transport.send line c w).2.1 = (Transport.send line c w').2.1 ∧
      W (Transport.send line c w).2.2 (Transport.send line c w').2.2
  receive : ∀ (c : τ) w w', W w w' →
    (Transport.receive c w).1 = (Transport.receive c w').1 ∧
      (Transport.receive c w).2.1 = (Transport.receive c w').2.1 ∧
      W (Transport.receive c w).2.2 (Transport.receive c w').2.2
  shutdown : ∀ (c : τ) w w', W w w' →
    (Transport.shutdown c w).1 = (Transport.shutdown c w').1 ∧
      W (Transport.shutdown c w).2 (Transport.shutdown c w').2

namespace Session

variable {τ ω : Type} {W : ω → ω → Prop} {before before' : List String}

/-- What the sessions do from here on is the same. Their transcripts have gained the same lines. -/
structure Peers (W : ω → ω → Prop) (before before' : List String) (s t : Session τ ω) : Prop where
  world : W s.world t.world
  channel : s.channel = t.channel
  depth : s.depth = t.depth
  declared : s.declared = t.declared
  lines : ∃ gained, s.transcript.toList = before ++ gained ∧ t.transcript.toList = before' ++ gained

theorem Peers.isStarted {s t : Session τ ω} (h : s.Peers W before before' t) :
    s.isStarted = t.isStarted := congrArg Option.isSome h.channel

/-- One more line is gained by both. -/
theorem gained_push {before before' : List String} {transcript transcript' : Array String}
    (h : ∃ gained, transcript.toList = before ++ gained ∧ transcript'.toList = before' ++ gained)
    (line : String) : ∃ gained, (transcript.push line).toList = before ++ gained ∧
      (transcript'.push line).toList = before' ++ gained := by
  obtain ⟨gained, hlines, hlines'⟩ := h
  refine ⟨gained ++ [line], ?_, ?_⟩
  · rw [Array.toList_push, hlines, List.append_assoc]
  · rw [Array.toList_push, hlines', List.append_assoc]

variable [Transport τ ω]

omit [Transport τ ω] in
theorem isClosed_peers : IsClosed
    (fun {α} (op : SessionM τ ω α) => Lockstep (Peers W before before') op) :=
  isClosed_lockstep fun _ _ _ _ h => ⟨h.world, h.channel, h.depth, h.declared, h.lines⟩

section

variable (hW : IsBlind τ W)
include hW

theorem peers_write (line : String) :
    Lockstep (Peers W before before') (write line : SessionM τ ω Unit) := by
  intro s t h
  cases hs : s.channel with
  | none =>
      rw [write_of_stopped hs, write_of_stopped (h.channel.symm.trans hs)]
      exact ⟨rfl, h⟩
  | some c =>
      have ht : t.channel = some c := h.channel.symm.trans hs
      have hsame := hW.send line c s.world t.world h.world
      rcases hsend : Transport.send line c s.world with ⟨outcome, c', w⟩
      rcases hsend' : Transport.send line c t.world with ⟨outcome', c'', w'⟩
      rw [hsend, hsend'] at hsame
      obtain ⟨houtcome, hchannel, hworld⟩ := hsame
      obtain rfl : outcome = outcome' := houtcome
      obtain rfl : c' = c'' := hchannel
      rcases outcome with failure | u
      · rw [write_of_refused hs hsend, write_of_refused ht hsend']
        exact ⟨rfl, hworld, rfl, h.depth, h.declared, h.lines⟩
      · rw [write_of_accepted hs hsend, write_of_accepted ht hsend']
        exact ⟨rfl, hworld, rfl, h.depth, h.declared, gained_push h.lines line⟩

theorem peers_read : Lockstep (Peers W before before') (read : SessionM τ ω String) := by
  intro s t h
  cases hs : s.channel with
  | none =>
      simp only [read, hs, h.channel.symm.trans hs, true_and]
      exact h
  | some c =>
      have ht : t.channel = some c := h.channel.symm.trans hs
      have hsame := hW.receive c s.world t.world h.world
      rcases hreceive : Transport.receive c s.world with ⟨outcome, c', w⟩
      rcases hreceive' : Transport.receive c t.world with ⟨outcome', c'', w'⟩
      rw [hreceive, hreceive'] at hsame
      obtain ⟨houtcome, hchannel, hworld⟩ := hsame
      obtain rfl : outcome = outcome' := houtcome
      obtain rfl : c' = c'' := hchannel
      rcases outcome with failure | line
      · simp only [read, hs, ht, hreceive, hreceive', true_and]
        exact ⟨hworld, rfl, h.depth, h.declared, h.lines⟩
      · simp only [read, hs, ht, hreceive, hreceive']
        by_cases herror : isErrorLine line = true
        · simp only [if_pos herror, true_and]
          exact ⟨hworld, rfl, h.depth, h.declared, h.lines⟩
        · simp only [if_neg herror, true_and]
          exact ⟨hworld, rfl, h.depth, h.declared, h.lines⟩

theorem peers_launch : Lockstep (Peers W before before') (launch : SessionM τ ω Unit) := by
  intro s t h
  have hsame := hW.launch s.world t.world h.world
  rcases launch_cases s with ⟨failure, w, log, hs, hlaunch⟩ | ⟨c, w, log, hs, hlaunch⟩
  · rcases launch_cases t with ⟨failure', w', log', ht, hlaunch'⟩ | ⟨c', w', log', ht, hlaunch'⟩
    · rw [hs, ht] at hsame
      obtain ⟨houtcome, hworld⟩ := hsame
      cases houtcome
      rw [hlaunch, hlaunch']
      exact ⟨rfl, hworld, h.channel, h.depth, h.declared, h.lines⟩
    · rw [hs, ht] at hsame
      cases hsame.1
  · rcases launch_cases t with ⟨failure', w', log', ht, hlaunch'⟩ | ⟨c', w', log', ht, hlaunch'⟩
    · rw [hs, ht] at hsame
      cases hsame.1
    · rw [hs, ht] at hsame
      obtain ⟨houtcome, hworld⟩ := hsame
      cases houtcome
      rw [hlaunch, hlaunch']
      exact ⟨rfl, hworld, rfl, rfl, h.declared, h.lines⟩

theorem peers_start : Lockstep (Peers W before before') (start : SessionM τ ω Unit) := by
  intro s t h
  rw [start_apply, start_apply, h.isStarted]
  split
  · exact ⟨rfl, h⟩
  · exact isClosed_peers.andThen (peers_launch hW) (fun _ => peers_write hW _) s t h

theorem peers_stop : Lockstep (Peers W before before') (stop : SessionM τ ω Unit) := by
  intro s t h
  cases hs : s.channel with
  | none =>
      simp only [stop, hs, h.channel.symm.trans hs, true_and]
      exact h
  | some c =>
      have ht : t.channel = some c := h.channel.symm.trans hs
      have htold := hW.send Command.exit.line c s.world t.world h.world
      rcases hsend : Transport.send Command.exit.line c s.world with ⟨sent, c', w⟩
      rcases hsend' : Transport.send Command.exit.line c t.world with ⟨sent', c'', w'⟩
      rw [hsend, hsend'] at htold
      obtain ⟨hsent, hchannel, hworld⟩ := htold
      obtain rfl : sent = sent' := hsent
      obtain rfl : c' = c'' := hchannel
      have hended := hW.shutdown c' w w' hworld
      rcases hshutdown : Transport.shutdown c' w with ⟨report, last⟩
      rcases hshutdown' : Transport.shutdown c' w' with ⟨report', last'⟩
      rw [hshutdown, hshutdown'] at hended
      obtain ⟨hreport, hlast⟩ := hended
      obtain rfl : report = report' := hreport
      obtain ⟨log, hstop⟩ := stop_of_started hs hsend hshutdown
      obtain ⟨log', hstop'⟩ := stop_of_started ht hsend' hshutdown'
      rw [hstop, hstop', h.depth]
      exact ⟨rfl, hlast, rfl, rfl, rfl, gained_push h.lines _⟩

theorem peers_push : Lockstep (Peers W before before') (push : SessionM τ ω Unit) :=
  isClosed_peers.andThen (peers_write hW _) fun _ => lockstep_modify fun _ _ h =>
    ⟨h.world, h.channel, congrArg (· + 1) h.depth, h.declared, h.lines⟩

theorem peers_pop : Lockstep (Peers W before before') (pop : SessionM τ ω Unit) := by
  refine isClosed_peers.andThen (lockstep_modify fun s t h => ?_) fun _ => peers_write hW _
  refine ⟨h.world, h.channel, congrArg (· - 1) h.depth, ?_, h.lines⟩
  rw [leaveScope, leaveScope, h.declared, h.depth]

theorem peers_checkSat : Lockstep (Peers W before before') (checkSat : SessionM τ ω String) :=
  isClosed_peers.checkSat (peers_write hW _) (peers_read hW)

theorem peers_sync : Lockstep (Peers W before before') (sync : SessionM τ ω Unit) :=
  isClosed_peers.sync (peers_write hW _) (peers_read hW)

theorem peers_declareGlobal (key line : String) :
    Lockstep (Peers W before before') (declareGlobal key line : SessionM τ ω Unit) := by
  intro s t h
  rw [declareGlobal_apply, declareGlobal_apply, h.declared]
  split
  · exact ⟨rfl, h⟩
  refine isClosed_peers.andThen (peers_write hW line) (fun _ => ?_) s t h
  refine lockstep_modify fun s t h => ⟨h.world, h.channel, h.depth, ?_, h.lines⟩
  rw [withDeclared, withDeclared, h.declared, h.depth]

theorem peers_hold {α : Type} (d : Dialogue α) {s t : Session τ ω}
    (h : s.Peers W before before' t) :
    (hold d s).1 = (hold d t).1 ∧ (hold d s).2.Peers W before before' (hold d t).2 := by
  have hdeed : ∀ deed : Deed,
      Lockstep (Peers W before before') (perform deed : SessionM τ ω Unit) := by
    intro deed
    cases deed with
    | write command => exact peers_write hW _
    | push => exact peers_push hW
    | pop => exact peers_pop hW
  exact hold_lockstep (fun _ _ _ _ h => ⟨h.world, h.channel, h.depth, h.declared, h.lines⟩)
    (fun _ deed _ => hdeed deed) (peers_checkSat hW) d.obeys_free h

theorem peers_prove (env : Env) (e : Expr) :
    Lockstep (Peers W before before') (prove env e : SessionM τ ω Summary) := by
  refine isClosed_peers.prove (peers_start hW) (fun _ _ => peers_declareGlobal hW _ _)
    (fun s t h => ?_) (peers_sync hW)
  have hhold := peers_hold hW (Checker.runDialogue env e) h
  unfold runChecker
  rcases hs : hold (Checker.runDialogue env e) s with ⟨result, s₁⟩
  rcases ht : hold (Checker.runDialogue env e) t with ⟨result', t₁⟩
  rw [hs, ht] at hhold
  obtain ⟨hresult, hsessions⟩ := hhold
  obtain rfl : result = result' := hresult
  exact ⟨rfl, hsessions⟩

end

end Session

namespace Host

open Session (Step Answer Report)

variable {τ ω : Type} {W : ω → ω → Prop} {before before' : List String}

/-- The sessions are peers, and of the lines that both have gained the hosts have seen as many. -/
structure Peers (W : ω → ω → Prop) (before before' : List String) (h k : Host τ ω) : Prop where
  session : h.session.Peers W before before' k.session
  seen : ∃ n, h.seen = before.length + n ∧ k.seen = before'.length + n

theorem Peers.report {h k : Host τ ω} (hpeers : h.Peers W before before' k)
    (outcome : Outcome Answer) (body : Option (List Report)) :
    (report outcome body h).1 = (report outcome body k).1 ∧
      (report outcome body h).2.Peers W before before' (report outcome body k).2 := by
  obtain ⟨gained, hlines, hlines'⟩ := hpeers.session.lines
  obtain ⟨n, hseen, hseen'⟩ := hpeers.seen
  have hnew : h.session.transcript.toList.drop h.seen =
      k.session.transcript.toList.drop k.seen := by
    rw [hlines, hlines', hseen, hseen', List.drop_length_add_append, List.drop_length_add_append]
  refine ⟨?_, hpeers.session, gained.length, ?_, ?_⟩
  · change Report.mk _ _ _ _ _ = Report.mk _ _ _ _ _
    rw [hnew, hpeers.session.depth, hpeers.session.isStarted]
  · change h.session.transcript.size = _
    rw [← Array.length_toList, hlines, List.length_append]
  · change k.session.transcript.size = _
    rw [← Array.length_toList, hlines', List.length_append]

variable [Transport τ ω]

omit [Transport τ ω] in
theorem simple_apply {α : Type} (op : SessionM τ ω α) (answer : α → Answer) (h : Host τ ω) :
    simple op answer h =
      report ((op h.session).1.map answer) none { h with session := (op h.session).2 } := rfl

omit [Transport τ ω] in
theorem Peers.simple {α : Type} {op : SessionM τ ω α}
    (hop : Session.Lockstep (Session.Peers W before before') op) (answer : α → Answer)
    {h k : Host τ ω} (hpeers : h.Peers W before before' k) :
    (simple op answer h).1 = (simple op answer k).1 ∧
      (simple op answer h).2.Peers W before before' (simple op answer k).2 := by
  obtain ⟨houtcome, hsessions⟩ := hop h.session k.session hpeers.session
  have hdone : Peers W before before' { h with session := (op h.session).2 }
      { k with session := (op k.session).2 } := ⟨hsessions, hpeers.seen⟩
  rw [simple_apply, simple_apply, houtcome]
  exact hdone.report _ _

theorem Peers.leave (hW : IsBlind τ W) (failure : Option Failure) (reports : List Report)
    {h k : Host τ ω} (hpeers : h.Peers W before before' k) :
    (leave failure reports h).1 = (leave failure reports k).1 ∧
      (leave failure reports h).2.Peers W before before' (leave failure reports k).2 := by
  obtain ⟨hpopped, hsessions⟩ := Session.peers_pop hW h.session k.session hpeers.session
  have hdone : Peers W before before'
      { h with session := (Session.pop h.session).2, inner := some reports }
      { k with session := (Session.pop k.session).2, inner := some reports } :=
    ⟨hsessions, hpeers.seen⟩
  unfold Host.leave
  rw [hpopped]
  exact hdone.report _ _

mutual

/-- Peers that take the same step report the same of it, and are peers again. -/
theorem Peers.step (hW : IsBlind τ W) : ∀ (s : Step) {h k : Host τ ω}, h.Peers W before before' k →
    (step s h).1 = (step s k).1 ∧ (step s h).2.Peers W before before' (step s k).2
  | .start, _, _, hpeers => hpeers.simple (Session.peers_start hW) _
  | .stop, _, _, hpeers => hpeers.simple (Session.peers_stop hW) _
  | .push, _, _, hpeers => hpeers.simple (Session.peers_push hW) _
  | .pop, _, _, hpeers => hpeers.simple (Session.peers_pop hW) _
  | .sync, _, _, hpeers => hpeers.simple (Session.peers_sync hW) _
  | .read, _, _, hpeers => hpeers.simple (Session.peers_read hW) _
  | .checkSat, _, _, hpeers => hpeers.simple (Session.peers_checkSat hW) _
  | .write line, _, _, hpeers => hpeers.simple (Session.peers_write hW line) _
  | .declareGlobal key line, _, _, hpeers =>
      hpeers.simple (Session.peers_declareGlobal hW key line) _
  | .prove env e, _, _, hpeers => hpeers.simple (Session.peers_prove hW env e) _
  | .pushPop body failure, h, k, hpeers => by
      obtain ⟨houtcome, hsessions⟩ := Session.peers_push hW h.session k.session hpeers.session
      rcases hpush : Session.push h.session with ⟨outcome, s⟩
      rcases hpush' : Session.push k.session with ⟨outcome', t⟩
      rw [hpush, hpush'] at houtcome hsessions
      obtain rfl : outcome = outcome' := houtcome
      have hentered : Peers W before before' { h with session := s, inner := none }
          { k with session := t, inner := none } := ⟨hsessions, hpeers.seen⟩
      rcases outcome with refused | u
      · rw [step_pushPop_of_refused body failure hpush, step_pushPop_of_refused body failure hpush']
        exact hentered.report _ _
      · obtain ⟨hreports, hleft⟩ := Peers.steps hW body hentered
        rw [step_pushPop_of_entered body failure hpush, step_pushPop_of_entered body failure hpush',
          hreports]
        exact hleft.leave hW failure _

theorem Peers.steps (hW : IsBlind τ W) : ∀ (ss : List Step) {h k : Host τ ω},
    h.Peers W before before' k →
    (steps ss h).1 = (steps ss k).1 ∧ (steps ss h).2.Peers W before before' (steps ss k).2
  | [], _, _, hpeers => ⟨rfl, hpeers⟩
  | s :: rest, h, k, hpeers => by
      obtain ⟨hreport, hpeers'⟩ := Peers.step hW s hpeers
      obtain ⟨hreports, hlast⟩ := Peers.steps hW rest hpeers'
      refine ⟨?_, hlast⟩
      change (Host.step s h).1 :: (Host.steps rest (Host.step s h).2).1 = _
      rw [hreport, hreports]
      rfl

end

/-- A host that has stopped its session is the peer of one with a new session. -/
theorem peers_of_stop {h : Host τ ω} (hconsistent : h.session.Consistent) {w : ω}
    (hworld : W (Session.stop h.session).2.world w) :
    (step .stop h).2.Peers W (Session.stop h.session).2.transcript.toList []
      { session := { world := w } } := by
  have hchannel := Session.channel_stop h.session
  have hstopped : (Session.stop h.session).2.isStarted = false := by
    rw [Session.isStarted, hchannel]
    rfl
  have hafter := Session.consistent_stop hconsistent
  refine ⟨⟨hworld, hchannel, hafter.depth hstopped, hafter.declared hstopped, [], ?_, rfl⟩,
    0, rfl, rfl⟩
  exact (List.append_nil _).symm

end Host

namespace Scripted

/-- What is left of a script, whatever was accepted before. -/
def Script.rest (script : Script) : Script := { script with sent := #[] }

theorem isBlind_rest : IsBlind Solver fun w w' : Script => w.rest = w'.rest where
  launch w w' h := by
    obtain ⟨answers, failLaunch, failSend, exitStatus, failShutdown, sent⟩ := w
    obtain ⟨answers', failLaunch', failSend', exitStatus', failShutdown', sent'⟩ := w'
    cases h
    cases failLaunch <;> exact ⟨rfl, rfl⟩
  send line c w w' h := by
    obtain ⟨answers, failLaunch, failSend, exitStatus, failShutdown, sent⟩ := w
    obtain ⟨answers', failLaunch', failSend', exitStatus', failShutdown', sent'⟩ := w'
    cases h
    by_cases hline : line ∈ failSend
    · simp only [Transport.send, send, if_pos hline]
      exact ⟨trivial, trivial, rfl⟩
    · simp only [Transport.send, send, if_neg hline]
      exact ⟨trivial, trivial, rfl⟩
  receive c w w' h := by
    obtain ⟨output, scopes⟩ := c
    cases output <;> exact ⟨rfl, rfl, h⟩
  shutdown c w w' h := by
    obtain ⟨answers, failLaunch, failSend, exitStatus, failShutdown, sent⟩ := w
    obtain ⟨answers', failLaunch', failSend', exitStatus', failShutdown', sent'⟩ := w'
    cases h
    cases failShutdown <;> cases exitStatus <;> exact ⟨rfl, rfl⟩

/-- To send a line does not change how solvers end. -/
theorem endings_of_send {line : String} {c c' : Solver} {script script' : Script}
    {outcome : Outcome Unit} (h : Transport.send line c script = (outcome, c', script')) :
    script'.failShutdown = script.failShutdown ∧ script'.exitStatus = script.exitStatus := by
  by_cases hline : line ∈ script.failSend
  · simp only [Transport.send, send, if_pos hline] at h
    cases h
    exact ⟨rfl, rfl⟩
  · simp only [Transport.send, send, if_neg hline] at h
    cases h
    exact ⟨rfl, rfl⟩

theorem send_eq_ok_iff (line : String) (c : Solver) (script : Script) :
    (Transport.send line c script).1 = .ok () ↔ line ∉ script.failSend := by
  by_cases hline : line ∈ script.failSend
  · simp [Transport.send, send, hline]
  · simp [Transport.send, send, hline]

/-- A solver exits normally unless its script says otherwise. -/
theorem exists_shutdown_eq_ok_iff (c : Solver) (script : Script) :
    (∃ report, (Transport.shutdown c script).1 = .ok report ∧ report.success = true) ↔
      script.failShutdown = false ∧ script.exitStatus = none := by
  obtain ⟨answers, failLaunch, failSend, exitStatus, failShutdown, sent⟩ := script
  cases failShutdown <;> cases exitStatus <;> simp [Transport.shutdown, shutdown]

end Scripted

namespace Session

open Scripted

theorem stopOutcome_eq_ok_iff {sent : Outcome Unit} {report : Outcome ExitReport} {depth : Nat} :
    stopOutcome sent report depth = .ok () ↔
      sent = .ok () ∧ (∃ r, report = .ok r ∧ r.success = true) ∧ depth = 0 := by
  rcases sent with failure | u
  · simp [stopOutcome]
  rcases report with failure | ⟨success, status⟩
  · simp [stopOutcome]
  by_cases hdepth : depth = 0 <;> cases success <;> simp [stopOutcome, hdepth]

/-- The stop of a running solver succeeds if it is told to exit, exits normally, and has no scope
open. -/
theorem stop_eq_ok_iff {s : Session Solver Script} (hs : s.isStarted = true) :
    (stop s).1 = .ok () ↔ Command.exit.line ∉ s.world.failSend ∧
      (s.world.failShutdown = false ∧ s.world.exitStatus = none) ∧ s.depth = 0 := by
  obtain ⟨c, hc⟩ := Option.isSome_iff_exists.1 hs
  rcases hsend : Transport.send Command.exit.line c s.world with ⟨sent, c', w⟩
  rcases hshutdown : Transport.shutdown c' w with ⟨report, w'⟩
  obtain ⟨log, hstop⟩ := stop_of_started hc hsend hshutdown
  have hkept := Scripted.endings_of_send hsend
  have htold := Scripted.send_eq_ok_iff Command.exit.line c s.world
  have hexited := Scripted.exists_shutdown_eq_ok_iff c' w
  rw [hsend] at htold
  rw [hshutdown, hkept.1, hkept.2] at hexited
  rw [hstop, stopOutcome_eq_ok_iff, htold, hexited]

end Session

namespace Host

open Scripted Session

/-- A stop makes a session as good as new. Wherever a host gets, no scope and no declaration is
counted while no solver runs, and none of the declarations in force was made deeper than the
session is while one does. A running solver is stopped with success if and only if it is told to
exit, exits normally, and has no scope open. Whatever a stop ends in, all that the host sees from
then on is what it would see of a new session in what is left of the script. -/
theorem reports_after_stop (script : Script) (ss : List Step) :
    let h : Host Solver Script := (steps ss { session := { world := script } }).2
    h.session.Consistent ∧
    (h.session.isStarted = true → ((stop h.session).1 = .ok () ↔
      Command.exit.line ∉ h.session.world.failSend ∧
        (h.session.world.failShutdown = false ∧ h.session.world.exitStatus = none) ∧
        h.session.depth = 0)) ∧
    ∀ later : List Step, (steps later (step .stop h).2).1 =
      (steps later ({ session := { world := (stop h.session).2.world.rest } } :
        Host Solver Script)).1 := by
  intro h
  have hreachable : h.session.Reachable := ⟨script, ss, rfl⟩
  have hconsistent := hreachable.consistent
  refine ⟨hconsistent, stop_eq_ok_iff, fun later => ?_⟩
  have hpeers := peers_of_stop (W := fun w w' : Script => w.rest = w'.rest)
    (w := (stop h.session).2.world.rest) hconsistent rfl
  exact (Peers.steps isBlind_rest later hpeers).1

end Host

end ContractCheck
