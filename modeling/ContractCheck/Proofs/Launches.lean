import ContractCheck.Proofs.Transcripts

/-!
What a start leaves behind. A solver that runs was given the option that scopes its declarations
before any other line, unless that option cannot be sent: then a start fails and leaves the solver
running all the same, and every later start of it succeeds (`Host.start_of_script`).
-/

namespace ContractCheck

open Scripted
open Session (Step)

namespace Scripted

/-- The lines accepted by the solver that was launched last. -/
def sinceLaunch (x : List Exchange) : List String :=
  x.foldl (fun
    | _, .launched => []
    | lines, exchange => lines ++ exchange.accepted?.toList) []

@[simp] theorem sinceLaunch_launched (x : List Exchange) : sinceLaunch (x ++ [.launched]) = [] := by
  simp [sinceLaunch]

@[simp] theorem sinceLaunch_sent (x : List Exchange) (line : String) (said : List String) :
    sinceLaunch (x ++ [.sent line said]) = sinceLaunch x ++ [line] := by
  simp [sinceLaunch, Exchange.accepted?]

/-- Nothing else changes which lines were accepted. -/
theorem sinceLaunch_of_none (exchange : Exchange) (hlaunched : exchange ≠ .launched)
    (hnone : exchange.accepted? = none) (x : List Exchange) :
    sinceLaunch (x ++ [exchange]) = sinceLaunch x := by
  cases exchange <;> simp_all [sinceLaunch, Exchange.accepted?]

end Scripted

namespace Session

/-- The line that a solver is given when it is launched. -/
def scopingOption : String := Command.scopedDeclarations.line

variable {s : Session Observed Observation}

/-- A start that has to launch a solver has two points at which it can fail. -/
theorem start_of_stopped (hs : s.isStarted = false) :
    (∃ left log, start s = (.error launchFailure, { s with
      world := { s.world with script := { s.world.script with failLaunch := left } }, log })) ∨
    (scopingOption ∈ s.world.script.failSend ∧ ∃ c log, start s = (.error sendFailure, { s with
      world := (s.world.see s.world.script .launched).see s.world.script (.lost scopingOption)
      channel := some c, depth := 0, log })) ∨
    (scopingOption ∉ s.world.script.failSend ∧ ∃ c answers said log, start s = (.ok (), { s with
      world := (s.world.see s.world.script .launched).see { s.world.script with
        answers, sent := s.world.script.sent.push scopingOption } (.sent scopingOption said)
      channel := some c, depth := 0, transcript := s.transcript.push scopingOption, log })) := by
  rw [start_apply, hs, if_neg Bool.false_ne_true, bind_apply]
  have hworld := Observation.launch_cases s.world
  rcases launch_cases s with ⟨failure, world, log, h, hlaunch⟩ | ⟨c, world, log, h, hlaunch⟩
  all_goals
    rw [h] at hworld
    rw [hlaunch]
    rcases hworld with ⟨left, hworld⟩ | ⟨c', hworld⟩ <;> cases hworld
  · exact .inl ⟨_, _, rfl⟩
  · refine .inr ?_
    let launched : Session Observed Observation :=
      { s with world := s.world.see s.world.script .launched, channel := some c, depth := 0, log }
    have hc : launched.channel = some c := rfl
    rcases Observation.send_cases scopingOption c launched.world with
      ⟨hline, hsend⟩ | ⟨hline, c', answers, said, hsend⟩
    · exact .inl ⟨hline, _, _, write_of_refused hc hsend⟩
    · exact .inr ⟨hline, _, _, _, _, write_of_accepted hc hsend⟩

/-- A start fails at the launch, and then no solver runs, or at the option, and then one does. -/
theorem start_error_cases {failure : Failure} (h : (start s).1 = .error failure) :
    (failure = launchFailure ∧ (start s).2.isStarted = false) ∨
    (failure = sendFailure ∧ scopingOption ∈ s.world.script.failSend ∧
      (start s).2.isStarted = true) := by
  cases hs : s.isStarted with
  | true =>
      rw [start_of_started hs] at h
      cases h
  | false =>
      rcases start_of_stopped hs with ⟨left, log, hstart⟩ | ⟨hlost, c, log, hstart⟩ |
        ⟨hsendable, c, answers, said, log, hstart⟩
      all_goals
        rw [hstart] at h ⊢
        cases h
      · exact .inl ⟨rfl, hs⟩
      · exact .inr ⟨rfl, hlost, rfl⟩

/-- A start succeeds where a solver runs already, and else if the option can be sent. -/
theorem start_ok_cases (h : (start s).1 = .ok ()) :
    (start s).2.isStarted = true ∧
    (start s).2.world.script.failSend = s.world.script.failSend ∧
    ((start s).2 = s ∨ scopingOption ∉ s.world.script.failSend) := by
  cases hs : s.isStarted with
  | true =>
      rw [start_of_started hs]
      exact ⟨hs, rfl, .inl rfl⟩
  | false =>
      rcases start_of_stopped hs with ⟨left, log, hstart⟩ | ⟨hlost, c, log, hstart⟩ |
        ⟨hsendable, c, answers, said, log, hstart⟩
      all_goals
        rw [hstart] at h ⊢
        cases h
      exact ⟨rfl, rfl, .inr hsendable⟩

/-- Every line that the running solver accepted can be sent, and the option was the first, if it can
be sent. -/
structure Greeted (s : Session Observed Observation) : Prop where
  sendable : ∀ line ∈ sinceLaunch s.world.exchanges, line ∉ s.world.script.failSend
  first : s.isStarted = true → scopingOption ∉ s.world.script.failSend →
    (sinceLaunch s.world.exchanges).head? = some scopingOption

theorem Greeted.first_iff (h : s.Greeted) (hs : s.isStarted = true) :
    (sinceLaunch s.world.exchanges).head? = some scopingOption ↔
      scopingOption ∉ s.world.script.failSend :=
  ⟨fun hfirst => h.sendable scopingOption (List.mem_of_head? hfirst), h.first hs⟩

/-- An exchange that is neither a launch nor a line that was accepted. -/
theorem Greeted.see (h : s.Greeted) {s' : Session Observed Observation} (exchange : Exchange)
    (hlaunched : exchange ≠ .launched) (hnone : exchange.accepted? = none)
    (hworld : s'.world = s.world.see s.world.script exchange)
    (hstarted : s'.isStarted = true → s.isStarted = true) : s'.Greeted := by
  have hsince : sinceLaunch s'.world.exchanges = sinceLaunch s.world.exchanges := by
    rw [hworld]
    exact sinceLaunch_of_none _ hlaunched hnone _
  have hscript : s'.world.script = s.world.script := by
    rw [hworld]
    rfl
  refine ⟨?_, fun hs => ?_⟩
  · rw [hsince, hscript]
    exact h.sendable
  · rw [hsince, hscript]
    exact h.first (hstarted hs)

theorem greeted_write (line : String) (h : s.Greeted) : (write line s).2.Greeted := by
  cases hc : s.channel with
  | none =>
      rw [write_of_stopped hc]
      exact h
  | some c =>
      have hs : s.isStarted = true := by simp [isStarted, hc]
      rcases Observation.send_cases line c s.world with
        ⟨hline, hsend⟩ | ⟨hline, c', answers, said, hsend⟩
      · rw [write_of_refused hc hsend]
        exact h.see (.lost line) (by simp) rfl rfl fun _ => hs
      · rw [write_of_accepted hc hsend]
        refine ⟨?_, fun _ hoption => ?_⟩
        · intro other hother
          rw [Observation.see, sinceLaunch_sent, List.mem_append, List.mem_singleton] at hother
          rcases hother with hother | rfl
          · exact h.sendable other hother
          · exact hline
        · rw [Observation.see, sinceLaunch_sent, List.head?_append, h.first hs hoption]
          rfl

theorem greeted_read (h : s.Greeted) : (read s).2.Greeted := by
  cases hc : s.channel with
  | none =>
      simp only [read, hc]
      exact h
  | some c =>
      have hs : s.isStarted = true := by simp [isStarted, hc]
      obtain ⟨log, hread⟩ := read_of_channel hc
      obtain ⟨exchange, hexchange, hworld⟩ := Observation.receive_cases c s.world
      rw [hread, hworld]
      rcases hexchange with rfl | ⟨line, rfl⟩
      · exact h.see .silence (by simp) rfl rfl fun _ => hs
      · exact h.see (.heard line) (by simp) rfl rfl fun _ => hs

theorem greeted_start (h : s.Greeted) : (start s).2.Greeted := by
  cases hs : s.isStarted with
  | true =>
      rw [start_of_started hs]
      exact h
  | false =>
      rcases start_of_stopped hs with ⟨left, log, hstart⟩ | ⟨hoption, c, log, hstart⟩ |
        ⟨hoption, c, answers, said, log, hstart⟩
      all_goals rw [hstart]
      · exact ⟨h.sendable, fun hstarted => absurd (hs.symm.trans hstarted) (by decide)⟩
      · have hsince :
            sinceLaunch (s.world.exchanges ++ [.launched] ++ [.lost scopingOption]) = [] := by
          rw [sinceLaunch_of_none (.lost scopingOption) (by simp) rfl, sinceLaunch_launched]
        refine ⟨fun line hline => ?_, fun _ hsendable => absurd hoption hsendable⟩
        rw [Observation.see, Observation.see, hsince] at hline
        cases hline
      · have hsince : sinceLaunch (s.world.exchanges ++ [.launched] ++ [.sent scopingOption said]) =
            [scopingOption] := by
          rw [sinceLaunch_sent, sinceLaunch_launched]
          rfl
        refine ⟨fun line hline => ?_, fun _ _ => ?_⟩
        · rw [Observation.see, Observation.see, hsince, List.mem_singleton] at hline
          rw [hline]
          exact hoption
        · rw [Observation.see, Observation.see, hsince]
          rfl

theorem greeted_stop (h : s.Greeted) : (stop s).2.Greeted := by
  cases hc : s.channel with
  | none =>
      simp only [stop, hc]
      exact h
  | some c =>
      have hs : s.isStarted = true := by simp [isStarted, hc]
      have htold : (write Command.exit.line s).2.Greeted := greeted_write _ h
      rcases hsend : Transport.send Command.exit.line c s.world with ⟨sent, c', world⟩
      obtain ⟨report, hshutdown⟩ := Observation.shutdown_apply c' world
      obtain ⟨log, hstop⟩ := stop_of_started hc hsend hshutdown
      have hworld : (write Command.exit.line s).2.world = world := by
        rcases sent with failure | u
        · rw [write_of_refused hc hsend]
        · rw [write_of_accepted hc hsend]
      rw [hstop]
      refine htold.see .closed (by simp) rfl ?_ (by simp [isStarted])
      rw [hworld]

theorem isWired_greeted : IsWired Greeted where
  congr := by
    rintro ⟨world, channel, depth, transcript, declared, log⟩
      ⟨world', channel', depth', transcript', declared', log'⟩ rfl rfl rfl h
    exact ⟨h.sendable, h.first⟩
  write line _ h := greeted_write line h
  read _ h := greeted_read h
  start _ h := greeted_start h
  stop _ h := greeted_stop h

end Session

namespace Host

open Session (scopingOption)

/-- What a start would have to do to be all or nothing. -/
def AllOrNothing (s : Session Observed Observation) : Prop :=
  (∀ failure, (Session.start s).1 = .error failure → (Session.start s).2.isStarted = false) ∧
  ((Session.start s).1 = .ok () →
    (sinceLaunch (Session.start s).2.world.exchanges).head? = some scopingOption)

/-- What a start does, wherever a host got before, by whether the script lets the option be sent. It
fails at the launch, and no solver runs then; or at the option, and then the solver runs that was
launched. It succeeds if a solver runs afterwards that was given the option first; or if one ran
before that was never given it, because it cannot be sent. -/
theorem start_of_script (script : Script) (ss : List Step) :
    let s := (steps ss (observed script)).2.session
    let started := (Session.start s).2
    Session.start (steps ss { session := { world := script } }).2.session =
      ((Session.start s).1, started.forget) ∧
    (∀ failure, (Session.start s).1 = .error failure →
      (failure = launchFailure ∧ started.isStarted = false) ∨
      (failure = sendFailure ∧ scopingOption ∈ script.failSend ∧ started.isStarted = true)) ∧
    ((Session.start s).1 = .ok () → started.isStarted = true ∧
      ((sinceLaunch started.world.exchanges).head? = some scopingOption ↔
        scopingOption ∉ script.failSend) ∧
      (scopingOption ∈ script.failSend →
        s.isStarted = true ∧ scopingOption ∉ sinceLaunch started.world.exchanges)) := by
  intro s started
  have hgreeted : s.Greeted := Session.isWired_greeted.steps ss ⟨nofun, nofun⟩
  have hfinally : started.Greeted := Session.greeted_start hgreeted
  obtain ⟨x, hx⟩ := passed_steps (observed script) ss
  have hscript : s.world.script.failSend = script.failSend := hx.failSend
  refine ⟨by rw [forget_steps, Session.faithful_start s], fun failure h => ?_, fun h => ?_⟩
  · rw [← hscript]
    exact Session.start_error_cases h
  · obtain ⟨hruns, hkept, hbefore⟩ := Session.start_ok_cases h
    rw [← hscript]
    refine ⟨hruns, ?_, fun hlost => ⟨?_, fun hgiven => ?_⟩⟩
    · rw [← hkept]
      exact hfinally.first_iff hruns
    · have hsame : started = s := hbefore.resolve_right (not_not_intro hlost)
      rw [← hsame]
      exact hruns
    · rw [← hkept] at hlost
      exact hfinally.sendable scopingOption hgiven hlost

/-- If the option cannot be sent, the first start leaves the solver running, and the second succeeds
on a solver that was given nothing. -/
theorem start_not_all_or_nothing :
    let script : Script := { failSend := [scopingOption] }
    ¬ AllOrNothing (steps [] (observed script)).2.session ∧
    ¬ AllOrNothing (steps [.start] (observed script)).2.session := by
  refine ⟨fun h => ?_, fun h => ?_⟩
  · cases h.1 sendFailure rfl
  · cases h.2 rfl

end Host

end ContractCheck
