import ContractCheck.Proofs.Settled
import ContractCheck.Proofs.Upheld

/-!
Sessions in which the solver disputes nothing. As long as no line declares a name that a line
declares that stands, the scripted solver holds the names of the lines that stand, and nothing that
it said is unread (`Session.Quiet`). The first line that it disputes it answers with an error, which
is read before all else, so that a run which succeeds in such a session disputes nothing either
(`Session.accords_of_prove`).
-/

namespace ContractCheck

open Scripted

/-- The line declares no name that a line declares that stands. -/
def Undisputed (st : List (List String)) (line : String) : Prop :=
  ∀ name, declaredName? line = some name → ¬ DeclaredIn st name

/-- The names that the lines declare that stand. -/
def declaredNames (st : List (List String)) : List String := st.flatten.filterMap declaredName?

/-- The lines that stand and declare the name. -/
def declarationsOf (st : List (List String)) (name : String) : List String :=
  st.flatten.filter fun line => declaredName? line == some name

section

variable {st : List (List String)} {line name : String}

theorem mem_declaredNames : name ∈ declaredNames st ↔ DeclaredIn st name := List.mem_filterMap

instance : Decidable (DeclaredIn st name) := decidable_of_iff _ mem_declaredNames

instance : Decidable (Undisputed st line) :=
  inferInstanceAs (Decidable (∀ name ∈ declaredName? line, ¬ DeclaredIn st name))

theorem undisputed_of_nameless (h : declaredName? line = none) : Undisputed st line := by
  intro name hname
  rw [h] at hname
  cases hname

theorem standing_ne_nil (hst : st ≠ []) (line : String) : standing st line ≠ [] := by
  obtain ⟨scope, rest, rfl⟩ := List.exists_cons_of_ne_nil hst
  unfold standing
  split
  · exact List.cons_ne_nil _ _
  split
  · cases rest <;> exact List.cons_ne_nil _ _
  split <;> exact List.cons_ne_nil _ _

theorem foldl_standing_ne_nil (hst : st ≠ []) (lines : List String) :
    lines.foldl standing st ≠ [] := by
  induction lines generalizing st with
  | nil => exact hst
  | cons line rest ih => exact ih (standing_ne_nil hst line)

/-- Names stay distinct as long as nothing is disputed. -/
theorem nodup_standing (hline : Undisputed st line) (h : (declaredNames st).Nodup) :
    (declaredNames (standing st line)).Nodup := by
  unfold standing
  split
  · exact h
  split
  · rcases st with _ | ⟨inner, _ | ⟨scope, rest⟩⟩
    · exact h
    · exact h
    · refine h.sublist (List.Sublist.filterMap _ ?_)
      exact List.sublist_append_right inner _
  split
  · rcases st with _ | ⟨scope, rest⟩
    · exact h
    unfold declaredNames at h ⊢
    rw [List.flatten_cons, List.cons_append, ← List.flatten_cons]
    cases hname : declaredName? line with
    | none => rwa [List.filterMap_cons_none hname]
    | some name =>
        rw [List.filterMap_cons_some hname]
        exact List.nodup_cons.2 ⟨fun hmem => hline name hname (mem_declaredNames.1 hmem), h⟩
  · exact h

theorem nodup_foldl_standing {lines : List String} (hlines : Along Undisputed st lines)
    (h : (declaredNames st).Nodup) : (declaredNames (lines.foldl standing st)).Nodup := by
  induction lines generalizing st with
  | nil => exact h
  | cons line rest ih => exact ih hlines.2 (nodup_standing hlines.1 h)

/-- If names are distinct, a line that stands is the one declaration of its name. -/
theorem declarationsOf_eq_singleton (hname : declaredName? line = some name)
    (h : (declaredNames st).Nodup) (hline : line ∈ st.flatten) :
    declarationsOf st name = [line] := by
  unfold declaredNames at h
  unfold declarationsOf
  generalize st.flatten = lines at h hline ⊢
  induction lines with
  | nil => cases hline
  | cons first rest ih =>
      have hrest : (rest.filterMap declaredName?).Nodup :=
        h.sublist ((List.sublist_cons_self first rest).filterMap _)
      rcases List.mem_cons.1 hline with rfl | hline
      · rw [List.filterMap_cons_some hname, List.nodup_cons] at h
        rw [List.filter_cons_of_pos (by simp [hname]), List.filter_eq_nil_iff.2]
        intro other hother hsame
        exact h.1 (List.mem_filterMap.2 ⟨other, hother, by simpa using hsame⟩)
      · have hother : declaredName? first ≠ some name := by
          intro hfirst
          rw [List.filterMap_cons_some hfirst, List.nodup_cons] at h
          exact h.1 (List.mem_filterMap.2 ⟨line, hline, hname⟩)
        rw [List.filter_cons_of_neg (by simpa using hother)]
        exact ih hrest hline

end

namespace Scripted

variable {st : List (List String)} {c c' : Solver} {w w' : Script} {line name : String}

/-- The solver has said nothing that is unread, and holds the names that the lines declare that
stand. -/
structure Solver.Attends (c : Solver) (st : List (List String)) : Prop where
  output : c.output = []
  scopes : c.scopes = st.map (List.filterMap declaredName?)

theorem attends_new : Solver.Attends {} [[]] := ⟨rfl, rfl⟩

namespace Solver.Attends

theorem holds_iff (hc : c.Attends st) : c.holds name = true ↔ DeclaredIn st name := by
  unfold Solver.holds
  rw [hc.scopes, ← mem_declaredNames, declaredNames, List.filterMap_flatten]
  simp

theorem declare (hc : c.Attends st) (hst : st ≠ []) (hname : declaredName? line = some name)
    (hfresh : ¬ DeclaredIn st name) : (c.declare name).Attends (standing st line) := by
  obtain ⟨scope, rest, rfl⟩ := List.exists_cons_of_ne_nil hst
  rw [standing_of_declaredName? hname]
  unfold Solver.declare
  rw [if_neg (mt hc.holds_iff.1 hfresh)]
  simp only [hc.scopes, List.map_cons]
  exact ⟨hc.output, by simp [hname]⟩

theorem disputes (hc : c.Attends st) (h : DeclaredIn st name) : (c.declare name).Disputes := by
  refine ⟨redeclared name, [], ?_, isErrorLine_redeclared name⟩
  unfold Solver.declare
  rw [if_pos (hc.holds_iff.2 h), Solver.say, hc.output]
  rfl

theorem push (hc : c.Attends st) : c.push.Attends (standing st Command.push.line) := by
  have hstanding : standing st Command.push.line = [] :: st := if_pos rfl
  rw [hstanding]
  exact ⟨hc.output, by simp [Solver.push, hc.scopes]⟩

/-- The scope that is left takes the names with it that its lines declared. -/
theorem pop (hc : c.Attends st) : c.pop.Attends (standing st Command.pop.line) := by
  unfold standing
  rw [if_neg (by decide), if_pos rfl]
  refine ⟨(output_pop c).trans hc.output, ?_⟩
  unfold Solver.pop
  rw [hc.scopes]
  rcases st with _ | ⟨inner, _ | ⟨scope, rest⟩⟩
  · exact hc.scopes
  · exact hc.scopes
  · rfl

/-- An undisputed line without an answer leaves the solver attentive. -/
theorem obey (hc : c.Attends st) {command : Command} (hmute : command.IsMute) (hst : st ≠ [])
    (hline : Undisputed st command.line) (answers : List String) :
    (obey command.line c answers).1.Attends (standing st command.line) := by
  have hdeclare : ∀ name, command.declared? = some name →
      (Scripted.obey command.line c answers).1.Attends (standing st command.line) := by
    intro name hname
    have hword := declaredName?_line_declare hname
    rw [obey_of_declaredName? hword]
    exact hc.declare hst hword (hline _ hword)
  cases command with
  | scopedDeclarations =>
      rw [obey_scopedDeclarations, standing_of_idle isFlat_scopedDeclarations
        (by decide +kernel) (by decide +kernel)]
      exact hc
  | push =>
      have hpush : Scripted.obey Command.push.line c answers = (c.push, answers) := rfl
      rw [hpush]
      exact hc.push
  | pop =>
      have hpop : Scripted.obey Command.pop.line c answers = (c.pop, answers) := rfl
      rw [hpop]
      exact hc.pop
  | checkSat | sync | exit => exact hmute.elim
  | declareSort name => exact hdeclare name rfl
  | declareFun name domain range => exact hdeclare name rfl
  | declareConst name sort => exact hdeclare name rfl
  | assert t =>
      obtain ⟨scope, rest, rfl⟩ := List.exists_cons_of_ne_nil hst
      have hname := declaredName?_line_assert t
      rw [obey_assert, standing_of_isFlat (Command.IsPlain.isFlat (c := .assert t) trivial)]
      refine ⟨hc.output, hc.scopes.trans ?_⟩
      split
      · rw [List.map_cons, List.map_cons, List.filterMap_cons_none hname]
      · rfl

/-- The answer to a check or the marker is read at once. -/
theorem receive (hc : c.Attends st)
    (hsaid : c' = c ∨ ∃ text, c' = c.say text) (w : Script) :
    (Transport.receive c' w).2.1.Attends st := by
  change (Scripted.receive c' w).2.1.Attends st
  unfold Scripted.receive
  rcases hsaid with rfl | ⟨text, rfl⟩
  · rw [hc.output]
    exact hc
  · have houtput : (c.say text).output = [text] := by rw [Solver.say, hc.output]; rfl
    rw [houtput]
    exact ⟨rfl, hc.scopes⟩

end Solver.Attends

theorem obey_checkSat (c : Solver) (answers : List String) :
    (obey Command.checkSat.line c answers).1 = c ∨
      ∃ text, (obey Command.checkSat.line c answers).1 = c.say text := by
  unfold obey
  rw [if_pos rfl]
  cases answers with
  | nil => exact .inl rfl
  | cons answer rest => exact .inr ⟨answer, rfl⟩

/-- What an undisputed solver accepts without a dispute in the end was not disputed on the way. -/
theorem along_of_converses {commands : List Command} (h : Converses c w commands c' w')
    (hst : st ≠ []) (hc : c.Attends st) (hfair : ¬ c'.Disputes) :
    Along Undisputed st (commands.map Command.line) := by
  induction h generalizing st with
  | nil => trivial
  | @send c c₁ c' w w₁ w' command rest hmute hsend hrest ih =>
      obtain ⟨-, rfl, -⟩ := send_eq_ok hsend
      have hline : Undisputed st command.line := by
        intro name hname hdeclared
        rw [obey_of_declaredName? hname] at hrest
        exact hfair (disputes_of_converses hrest (hc.disputes hdeclared))
      exact ⟨hline, ih (standing_ne_nil hst _) (hc.obey hmute hst hline _) hfair⟩
  | @check c c₁ c₂ c' w w₁ w₂ w' rest hsend hreceive hrest ih =>
      obtain ⟨-, rfl, -⟩ := send_eq_ok hsend
      have hread := hc.receive (obey_checkSat c w.answers) w₁
      rw [hreceive] at hread
      refine ⟨undisputed_of_nameless (by decide +kernel), ?_⟩
      rw [standing_checkSat]
      exact ih hst hread hfair

end Scripted

namespace Session

variable {lost : List String} {s s' : Session Solver Script}

/-- These lines cannot be sent, no line was sent before the solver was launched, and unless a line
was disputed the solver attends to what stands. -/
structure Quiet (lost : List String) (s : Session Solver Script) : Prop where
  failSend : s.world.failSend = lost
  idle : s.isStarted = false → s.stands = [[]]
  attends : s.Accords Undisputed → ∀ c, s.channel = some c → c.Attends s.stands

theorem quiet_new (script : Script) :
    Quiet script.failSend ({ world := script } : Session Solver Script) :=
  ⟨rfl, fun _ => rfl, nofun⟩

theorem Quiet.congr (h : s.Quiet lost) (hchannel : s'.channel = s.channel)
    (htranscript : s'.transcript = s.transcript)
    (hfailSend : s'.world.failSend = s.world.failSend) : s'.Quiet lost := by
  refine ⟨hfailSend.trans h.failSend, ?_, ?_⟩
  · unfold isStarted stands
    rw [hchannel, htranscript]
    exact h.idle
  · unfold Accords stands
    rw [hchannel, htranscript]
    exact h.attends

theorem isClosed_quiet :
    IsClosed (fun {α} (op : SessionM Solver Script α) => Preserves (Quiet lost) op) :=
  isClosed_preserves fun _ _ _ h => h.congr rfl rfl rfl

theorem stands_ne_nil (s : Session Solver Script) : s.stands ≠ [] :=
  foldl_standing_ne_nil (List.cons_ne_nil [] []) _

/-- A running solver obeys the line, unless it cannot be sent. -/
theorem write_cases {c : Solver} (hs : s.channel = some c) (line : String) :
    (∃ log, write line s = (.error sendFailure, { s with log })) ∨
    ∃ world log, world.failSend = s.world.failSend ∧ write line s = (.ok (), { s with
      channel := some (obey line c s.world.answers).1, world
      transcript := s.transcript.push line, log }) := by
  by_cases hline : line ∈ s.world.failSend
  · have hsend : Transport.send line c s.world = (.error sendFailure, c, s.world) := if_pos hline
    refine .inl ⟨(s.record .trace ("> " ++ line)).log, ?_⟩
    rw [write_of_refused hs hsend, hs]
    rfl
  · rcases hsend : Transport.send line c s.world with ⟨outcome, c', world⟩
    have hobeyed : outcome = .ok () ∧ c' = (obey line c s.world.answers).1 ∧
        world.failSend = s.world.failSend := by
      change Scripted.send line c s.world = _ at hsend
      unfold Scripted.send at hsend
      rw [if_neg hline] at hsend
      cases hsend
      exact ⟨rfl, rfl, rfl⟩
    obtain ⟨rfl, rfl, hworld⟩ := hobeyed
    refine .inr ⟨world, (s.record .trace ("> " ++ line)).log, hworld, ?_⟩
    rw [write_of_accepted hs hsend]
    rfl

/-- One line more accords if it fits what stood before it. -/
theorem accords_push {fits : List (List String) → String → Prop} {line : String}
    (htranscript : s'.transcript = s.transcript.push line) :
    s'.Accords fits ↔ s.Accords fits ∧ fits s.stands line := by
  unfold Accords
  rw [htranscript, Array.toList_push, along_append]
  exact and_congr_right fun _ => and_iff_left trivial

theorem stands_push {line : String} (htranscript : s'.transcript = s.transcript.push line) :
    s'.stands = standing s.stands line := by
  unfold stands
  rw [htranscript, Array.toList_push, List.foldl_append]
  rfl

theorem Quiet.write (h : s.Quiet lost) (command : Command) (hmute : command.IsMute) :
    (write command.line s).2.Quiet lost := by
  cases hs : s.channel with
  | none => rwa [write_of_stopped hs]
  | some c =>
      rcases write_cases hs command.line with ⟨log, hwrite⟩ | ⟨world, log, hworld, hwrite⟩
      · rw [hwrite]
        exact h.congr rfl rfl rfl
      · rw [hwrite]
        refine ⟨hworld.trans h.failSend, nofun, fun haccords c' hc' => ?_⟩
        obtain ⟨haccords, hline⟩ := (accords_push rfl).1 haccords
        obtain rfl := Option.some.inj hc'
        rw [stands_push rfl]
        exact (h.attends haccords c hs).obey hmute s.stands_ne_nil hline _

/-- What is asked is answered at once. -/
theorem Quiet.ask (h : s.Quiet lost) (line : String)
    (hsaid : ∀ (c : Solver) answers, (obey line c answers).1 = c ∨
      ∃ text, (obey line c answers).1 = c.say text)
    (hstanding : ∀ st, standing st line = st) :
    ((Session.write line >>= fun _ => read : SessionM Solver Script String) s).2.Quiet lost := by
  rw [bind_apply]
  cases hs : s.channel with
  | none => rwa [write_of_stopped hs]
  | some c =>
      rcases write_cases hs line with ⟨log, hwrite⟩ | ⟨world, log, hworld, hwrite⟩
      · rw [hwrite]
        exact h.congr rfl rfl rfl
      · rw [hwrite]
        simp only
        obtain ⟨log', hread⟩ := read_of_channel (s := { s with
          channel := some (obey line c s.world.answers).1, world
          transcript := s.transcript.push line, log }) rfl
        rw [hread]
        have hfail : (Transport.receive (obey line c s.world.answers).1 world).2.2.failSend =
            world.failSend := ((isStable _ _).receive _ world ⟨rfl, rfl⟩).1
        refine ⟨(hfail.trans hworld).trans h.failSend, nofun, fun haccords c' hc' => ?_⟩
        obtain ⟨haccords, -⟩ := (accords_push rfl).1 haccords
        obtain rfl := Option.some.inj hc'
        rw [stands_push rfl, hstanding]
        exact (h.attends haccords c hs).receive (hsaid c _) world

theorem Quiet.read (h : s.Quiet lost) : (read s).2.Quiet lost := by
  cases hs : s.channel with
  | none =>
      unfold Session.read
      rwa [hs]
  | some c =>
      obtain ⟨log, hread⟩ := read_of_channel hs
      rw [hread]
      have hfail : (Transport.receive c s.world).2.2.failSend = s.world.failSend :=
        ((isStable _ _).receive c s.world ⟨rfl, rfl⟩).1
      refine ⟨hfail.trans h.failSend, nofun, fun haccords c' hc' => ?_⟩
      obtain rfl := Option.some.inj hc'
      exact (h.attends haccords c hs).receive (.inl rfl) s.world

theorem Quiet.checkSat (h : s.Quiet lost) : (checkSat s).2.Quiet lost :=
  h.ask Command.checkSat.line obey_checkSat standing_checkSat

theorem Quiet.sync (h : s.Quiet lost) : (sync s).2.Quiet lost := by
  have hasked := h.ask Command.sync.line
    (fun c answers => .inr ⟨quotedMarker, by rw [obey_sync]⟩)
    (standing_of_idle isFlat_sync (by decide +kernel) (by decide +kernel))
  rw [bind_apply] at hasked
  unfold Session.sync
  rw [bind_apply]
  rcases hs₁ : Session.write Command.sync.line s with ⟨failure | u, s₁⟩
  · rwa [hs₁] at hasked
  rw [hs₁] at hasked
  simp only at hasked ⊢
  rw [bind_apply]
  rcases hs₂ : Session.read s₁ with ⟨failure | line, s₂⟩
  · rwa [hs₂] at hasked
  rw [hs₂] at hasked
  simp only at hasked ⊢
  split <;> exact hasked

theorem Quiet.push (h : s.Quiet lost) : (push s).2.Quiet lost :=
  isClosed_quiet.andThen (fun _ h => h.write .push trivial)
    (fun _ _ h => h.congr rfl rfl rfl) s h

theorem Quiet.pop (h : s.Quiet lost) : (pop s).2.Quiet lost := by
  have hleft : s.leaveScope.Quiet lost := h.congr rfl rfl rfl
  exact hleft.write .pop trivial

theorem Quiet.start (h : s.Quiet lost) : (start s).2.Quiet lost := by
  rw [start_apply]
  split
  · exact h
  rename_i hstopped
  rw [Bool.not_eq_true] at hstopped
  rw [bind_apply]
  rcases launch_cases s with ⟨failure, world, log, hworld, hlaunch⟩ |
    ⟨c, world, log, hworld, hlaunch⟩
  · rw [hlaunch]
    exact h.congr rfl rfl (failSend_of_launch hworld)
  · rw [hlaunch]
    have hlaunched : Quiet lost { s with world, channel := some c, depth := 0, log } := by
      refine ⟨(failSend_of_launch hworld).trans h.failSend, nofun, fun _ c' hc' => ?_⟩
      obtain rfl := Option.some.inj hc'
      obtain rfl := solver_of_launch hworld
      have hstands : ({ s with world, channel := some {}, depth := 0, log } :
          Session Solver Script).stands = [[]] := h.idle hstopped
      rw [hstands]
      exact attends_new
    exact hlaunched.write .scopedDeclarations trivial

theorem quiet_declareGlobal (key : String) (command : Command) (hmute : command.IsMute) :
    Preserves (Quiet lost) (declareGlobal key command.line) := by
  intro s h
  rw [declareGlobal_apply]
  split
  · exact h
  · exact isClosed_quiet.andThen (fun _ h => h.write command hmute)
      (fun _ _ h => h.congr rfl rfl rfl) s h

theorem quiet_runChecker (env : Env) (e : Expr) : Preserves (Quiet lost) (runChecker env e) := by
  intro s h
  have htidy : (Checker.runDialogue env e).Obeys (Rule.tidy fun _ => True)
      (fun _ height => height = 0) 0 :=
    Checker.tidy_run (fun _ _ => trivial) (fun _ _ => trivial) (fun _ _ => trivial) 0
  have hdeed : ∀ (height : Nat) (s : Session Solver Script) deed, s.Quiet lost →
      (Rule.tidy fun _ => True).allows height deed → (perform deed s).2.Quiet lost := by
    intro height s deed h hallowed
    cases deed with
    | write command => exact h.write command hallowed.1.isMute
    | push => exact h.push
    | pop => exact h.pop
  obtain ⟨height, hquiet, -⟩ := hold_obeys (I := fun _ s => s.Quiet lost)
    (fun _ _ _ h => h.congr rfl rfl rfl) hdeed (fun _ _ h => h.checkSat) htidy h
  exact hquiet

theorem Quiet.prove (h : s.Quiet lost) (env : Env) (e : Expr) : (prove env e s).2.Quiet lost :=
  isClosed_quiet.prove (fun _ h => h.start)
    (fun _ hd => quiet_declareGlobal _ _ (Env.isPlain_of_mem_declarations hd).isMute)
    (quiet_runChecker env e) (fun _ h => h.sync) s h

end Session

open Session in
theorem Chronicle.quiet_step {lost : List String} {step : Step} {c : Chronicle Solver Script}
    (hsimple : step.IsSimple) (hroutine : step.IsRoutine) (hc : c.session.Quiet lost) :
    (c.step step).session.Quiet lost := by
  cases step with
  | start => exact hc.start
  | push => exact hc.push
  | pop => exact hc.pop
  | sync => exact hc.sync
  | read => exact hc.read
  | checkSat => exact hc.checkSat
  | prove env e => exact hc.prove env e
  | stop | write line | declareGlobal key line => exact hroutine.elim
  | pushPop body failure => exact hsimple.elim

open Session in
theorem Chronicle.quiet_steps {ss : List Step} (hss : Step.AllIn Step.IsRoutine ss)
    (script : Script) : (steps ss (.new script)).session.Quiet script.failSend := by
  have hkept : IsKept Step.IsRoutine (fun c : Chronicle Solver Script =>
      c.session.Quiet script.failSend) :=
    ⟨fun _ _ hsimple hroutine hc => quiet_step hsimple hroutine hc, trivial, trivial⟩
  exact hkept.steps ss _ hss (quiet_new script)

end ContractCheck
