import ContractCheck.Proofs.Observed
import ContractCheck.Proofs.Replies
import ContractCheck.Proofs.Tally

/-!
How the lines that a solver says line up with those that a run reads. Lines are read in the order
in which they were said, so what a run took for the answers to its checks and for the marker is
what was unread before it, followed by what was said to it (`exchanges_of_prove`). A run that finds
nothing unread has therefore read its own answers only (`saids_eq_of_nothing_unread`).
-/

namespace ContractCheck

namespace Scripted

/-- What the solver said in an exchange. -/
def Exchange.said : Exchange → List String
  | .sent _ said => said
  | _ => []

def saids (x : List Exchange) : List String := x.flatMap Exchange.said

@[simp] theorem saids_nil : saids [] = [] := rfl

@[simp] theorem saids_cons (exchange : Exchange) (x : List Exchange) :
    saids (exchange :: x) = exchange.said ++ saids x := rfl

@[simp] theorem saids_append (x y : List Exchange) : saids (x ++ y) = saids x ++ saids y :=
  List.flatMap_append

namespace Observation

theorem send_eq_ok {line : String} {c c' : Observed} {o o' : Observation}
    (h : Transport.send line c o = (.ok (), c', o')) :
    c'.solver = (obey line c.solver o.script.answers).1 ∧
      o'.script.answers = (obey line c.solver o.script.answers).2 ∧
      o'.exchanges =
        o.exchanges ++ [.sent line (c'.solver.output.drop c.solver.output.length)] := by
  change send line c o = _ at h
  unfold send Scripted.send at h
  by_cases hfail : line ∈ o.script.failSend
  · simp only [if_pos hfail] at h
    cases h
  · simp only [if_neg hfail] at h
    cases h
    exact ⟨rfl, rfl, rfl⟩

theorem receive_eq_ok {line : String} {c c' : Observed} {o o' : Observation}
    (h : Transport.receive c o = (.ok line, c', o')) :
    c.solver.output = line :: c'.solver.output ∧ c'.solver.scopes = c.solver.scopes ∧
      o'.script = o.script ∧ o'.exchanges = o.exchanges ++ [.heard line] := by
  change receive c o = _ at h
  unfold receive Scripted.receive at h
  cases houtput : c.solver.output with
  | nil =>
      simp only [houtput] at h
      cases h
  | cons text rest =>
      simp only [houtput] at h
      cases h
      exact ⟨rfl, rfl, rfl, rfl⟩

theorem launch_eq_ok {c : Observed} {o o' : Observation}
    (h : Transport.launch o = (.ok c, o')) :
    c.solver = {} ∧ o'.exchanges = o.exchanges ++ [.launched] := by
  change launch o = _ at h
  unfold launch Scripted.launch at h
  cases hfail : o.script.failLaunch with
  | zero =>
      simp only [hfail] at h
      cases h
      exact ⟨rfl, rfl⟩
  | succ n =>
      simp only [hfail] at h
      cases h

end Observation

/-- What passes while the commands are sent and each check is taken to be answered `unsat`. A
command without an answer may be refused, and a check may be answered by something else or not at
all, if there was an `unsat` to read. -/
inductive Talk : List Command → List Exchange → Prop where
  | nil : Talk [] []
  | accepted {c : Command} {rest : List Command} {x : List Exchange} (hmute : c.IsMute)
      (h : Talk rest x) : Talk (c :: rest) (.sent c.line [] :: x)
  | refused {c : Command} {rest : List Command} {x : List Exchange} (name : String)
      (hmute : c.IsMute) (h : Talk rest x) :
      Talk (c :: rest) (.sent c.line [redeclared name] :: x)
  | answered {rest : List Command} {x : List Exchange} (answer : String) (h : Talk rest x) :
      Talk (.checkSat :: rest)
        (.sent Command.checkSat.line [answer] :: .heard "unsat" :: x)
  | unanswered {rest : List Command} {x : List Exchange} (h : Talk rest x) :
      Talk (.checkSat :: rest) (.sent Command.checkSat.line [] :: .heard "unsat" :: x)

theorem Talk.isMute {commands : List Command} {x : List Exchange} (h : Talk commands x) :
    ∀ c ∈ commands, c = .checkSat ∨ c.IsMute := by
  induction h with
  | nil => exact fun c hc => nomatch hc
  | accepted hmute _ ih => exact List.forall_mem_cons.2 ⟨.inr hmute, ih⟩
  | refused name hmute _ ih => exact List.forall_mem_cons.2 ⟨.inr hmute, ih⟩
  | answered answer _ ih => exact List.forall_mem_cons.2 ⟨.inl rfl, ih⟩
  | unanswered _ ih => exact List.forall_mem_cons.2 ⟨.inl rfl, ih⟩

/-- The conversation in which every command is accepted and every check is answered. -/
def genuine (commands : List Command) : List Exchange :=
  commands.flatMap fun
    | .checkSat => [.sent Command.checkSat.line ["unsat"], .heard "unsat"]
    | c => [.sent c.line []]

/-- As many `unsat` as there are obligations. -/
def unsats (obligations : Nat) : List String := List.replicate obligations "unsat"

/-- How many of the lines are no errors. -/
def answerCount (lines : List String) : Nat :=
  lines.countP fun line => !Session.isErrorLine line

@[simp] theorem answerCount_append (lines lines' : List String) :
    answerCount (lines ++ lines') = answerCount lines + answerCount lines' := List.countP_append

@[simp] theorem answerCount_unsats (obligations : Nat) :
    answerCount (unsats obligations) = obligations := by
  rw [answerCount, unsats, List.countP_replicate, if_pos (by decide +kernel)]

theorem answerCount_cons {line : String} (h : Session.isErrorLine line = false)
    (rest : List String) : answerCount (line :: rest) = answerCount rest + 1 :=
  List.countP_cons_of_pos (by simp [h])

/-- Whoever reads as many `unsat` as there are checks and then a line that is no error has read all
that was said to the checks, if they have no more answers than that, and the marker has one. -/
theorem eq_unsats_of_read {said reply rest : List String} {line : String} {checks : Nat}
    (hsaid : answerCount said ≤ checks) (hreply : answerCount reply ≤ 1)
    (hline : Session.isErrorLine line = false)
    (hread : said ++ reply = unsats checks ++ line :: rest) : said = unsats checks := by
  rcases List.append_eq_append_iff.1 hread with ⟨late, hunsats, hlate⟩ | ⟨early, hearly, hlines⟩
  · -- The answers that are late and the line would all be said to the marker.
    have hall : late = unsats late.length := by
      refine List.eq_replicate_iff.2 ⟨rfl, fun l hl => ?_⟩
      refine List.eq_of_mem_replicate (n := checks) (a := "unsat") ?_
      rw [← unsats, hunsats]
      exact List.mem_append_right _ hl
    rw [hlate, hall, answerCount_append, answerCount_unsats, answerCount_cons hline] at hreply
    have hnone : late = [] := List.length_eq_zero_iff.1 (by omega)
    rw [hunsats, hnone, List.append_nil]
  · cases early with
    | nil => rw [hearly, List.append_nil]
    | cons first early =>
        obtain ⟨rfl, -⟩ := List.cons.inj hlines
        rw [hearly, answerCount_append, answerCount_unsats, answerCount_cons hline] at hsaid
        omega

theorem countP_cons_of_isMute {c : Command} (h : c.IsMute) (rest : List Command) :
    (c :: rest).countP Command.isCheckSat = rest.countP Command.isCheckSat := by
  refine List.countP_cons_of_neg ?_
  cases c <;> first | exact h.elim | exact Bool.false_ne_true

theorem genuine_cons_of_isMute {c : Command} (h : c.IsMute) (rest : List Command) :
    genuine (c :: rest) = .sent c.line [] :: genuine rest := by
  cases c <;> first | exact h.elim | rfl

theorem unsats_checkSat_cons (rest : List Command) :
    unsats ((Command.checkSat :: rest).countP Command.isCheckSat) =
      "unsat" :: unsats (rest.countP Command.isCheckSat) := by
  rw [List.countP_cons_of_pos rfl]
  rfl

theorem talk_of_converses {c c' : Observed} {o o' : Observation} {commands : List Command}
    (h : Converses c o commands c' o') : ∃ x, Talk commands x ∧
      o'.exchanges = o.exchanges ++ x ∧ c.solver.output ++ saids x =
        unsats (commands.countP Command.isCheckSat) ++ c'.solver.output := by
  induction h with
  | nil c o => exact ⟨[], .nil, by simp, by simp [unsats]⟩
  | @send c c₁ c' o o₁ o' command rest hmute hsend _ ih =>
      obtain ⟨x, htalk, hexchanges, hlaw⟩ := ih
      obtain ⟨hsolver, -, hseen⟩ := Observation.send_eq_ok hsend
      have houtput := output_obey_of_isMute hmute c.solver o.script.answers
      rw [← hsolver] at houtput
      rw [countP_cons_of_isMute hmute]
      rcases houtput with houtput | ⟨name, houtput⟩
      · rw [houtput, List.drop_length] at hseen
        refine ⟨_, .accepted hmute htalk, ?_, ?_⟩
        · rw [hexchanges, hseen, List.append_assoc]
          rfl
        · calc c.solver.output ++ saids (.sent command.line [] :: x)
              = c₁.solver.output ++ saids x := by rw [houtput]; rfl
            _ = _ := hlaw
      · rw [houtput, List.drop_left] at hseen
        refine ⟨_, .refused name hmute htalk, ?_, ?_⟩
        · rw [hexchanges, hseen, List.append_assoc]
          rfl
        · calc c.solver.output ++ saids (.sent command.line [redeclared name] :: x)
              = c₁.solver.output ++ saids x := by rw [houtput, List.append_assoc]; rfl
            _ = _ := hlaw
  | @check c c₁ c₂ c' o o₁ o₂ o' rest hsend hreceive _ ih =>
      obtain ⟨x, htalk, hexchanges, hlaw⟩ := ih
      obtain ⟨hsolver, -, hseen⟩ := Observation.send_eq_ok hsend
      obtain ⟨hunread, -, -, hheard⟩ := Observation.receive_eq_ok hreceive
      have hread : c₁.solver.output ++ saids x =
          unsats ((Command.checkSat :: rest).countP Command.isCheckSat) ++ c'.solver.output := by
        rw [hunread, List.cons_append, hlaw, unsats_checkSat_cons, List.cons_append]
      cases hanswers : o.script.answers with
      | nil =>
          have houtput : c₁.solver.output = c.solver.output := by
            rw [hsolver, hanswers]
            rfl
          rw [houtput, List.drop_length] at hseen
          refine ⟨_, .unanswered htalk, ?_, ?_⟩
          · rw [hexchanges, hheard, hseen, List.append_assoc, List.append_assoc]
            rfl
          · rw [← hread, houtput]
            rfl
      | cons answer answers =>
          have houtput : c₁.solver.output = c.solver.output ++ [answer] := by
            rw [hsolver, hanswers]
            rfl
          rw [houtput, List.drop_left] at hseen
          refine ⟨_, .answered answer htalk, ?_, ?_⟩
          · rw [hexchanges, hheard, hseen, List.append_assoc, List.append_assoc]
            rfl
          · rw [← hread, houtput, List.append_assoc]
            rfl

/-- At most one line is said for each check that is not an error. -/
theorem answerCount_saids_le {commands : List Command} {x : List Exchange} (h : Talk commands x) :
    answerCount (saids x) ≤ commands.countP Command.isCheckSat := by
  induction h with
  | nil => exact Nat.le_refl 0
  | accepted hmute _ ih =>
      rw [countP_cons_of_isMute hmute]
      exact ih
  | refused name hmute _ ih =>
      rw [countP_cons_of_isMute hmute]
      simpa [Exchange.said, answerCount, isErrorLine_redeclared] using ih
  | answered answer _ ih =>
      rw [List.countP_cons_of_pos rfl]
      simp only [saids_cons, Exchange.said, List.nil_append, answerCount_append]
      have hone : answerCount [answer] ≤ [answer].length := List.countP_le_length
      rw [List.length_singleton] at hone
      omega
  | unanswered _ ih =>
      rw [List.countP_cons_of_pos rfl]
      exact Nat.le_succ_of_le ih

/-- If what was said is one `unsat` for each check, no command was refused and each check was
answered. -/
theorem eq_genuine_of_saids {commands : List Command} {x : List Exchange} (h : Talk commands x)
    (hsaids : saids x = unsats (commands.countP Command.isCheckSat)) : x = genuine commands := by
  induction h with
  | nil => rfl
  | accepted hmute _ ih =>
      rw [countP_cons_of_isMute hmute] at hsaids
      rw [genuine_cons_of_isMute hmute, ← ih hsaids]
  | @refused c rest x name hmute _ _ =>
      rw [countP_cons_of_isMute hmute] at hsaids
      have hmem : redeclared name ∈ unsats (rest.countP Command.isCheckSat) := by
        rw [← hsaids]
        exact List.mem_cons_self
      have hunsat : redeclared name = "unsat" := List.eq_of_mem_replicate hmem
      have herror := isErrorLine_redeclared name
      rw [hunsat] at herror
      exact absurd herror (by decide +kernel)
  | answered answer _ ih =>
      rw [List.countP_cons_of_pos rfl] at hsaids
      obtain ⟨rfl, hrest⟩ := List.cons.inj hsaids
      rw [ih hrest]
      rfl
  | @unanswered rest x htalk _ =>
      rw [List.countP_cons_of_pos rfl] at hsaids
      have hle := answerCount_saids_le htalk
      have hsame : saids x = unsats (rest.countP Command.isCheckSat + 1) := hsaids
      rw [hsame, answerCount_unsats] at hle
      omega

/-- Whoever finds nothing unread, and reads as many `unsat` as there are checks and then a line that
is no error, has read all that was said. -/
theorem saids_eq_of_nothing_unread {commands : List Command} {x : List Exchange}
    (h : Talk commands x) {marker line : String} {rest : List String}
    (hline : Session.isErrorLine line = false)
    (hlaw : saids x ++ [marker] =
      unsats (commands.countP Command.isCheckSat) ++ line :: rest) :
    saids x = unsats (commands.countP Command.isCheckSat) ∧ line = marker ∧ rest = [] := by
  have hone : answerCount [marker] ≤ [marker].length := List.countP_le_length
  have hsaids : saids x = unsats (commands.countP Command.isCheckSat) :=
    eq_unsats_of_read (answerCount_saids_le h) hone hline hlaw
  rw [hsaids] at hlaw
  obtain ⟨hmarker, hnil⟩ := List.cons.inj (List.append_cancel_left hlaw)
  exact ⟨hsaids, hmarker.symm, hnil.symm⟩

end Scripted

namespace Session

open Scripted

theorem channel_stop {τ ω : Type} [Transport τ ω] (s : Session τ ω) :
    (stop s).2.channel = none := by
  unfold stop
  cases hc : s.channel with
  | none => exact hc
  | some c =>
      simp only
      split <;> rfl

/-- What passes when a session is started. -/
def opening (s : Session Observed Observation) : List Exchange :=
  if s.isStarted then [] else [.launched, .sent Command.scopedDeclarations.line []]

/-- What passes when the marker is sent and a line is taken for it. -/
def closing (line : String) : List Exchange :=
  [.sent Command.sync.line [quotedMarker], .heard line]

theorem exchanges_of_start {s s' : Session Observed Observation} (h : start s = (.ok (), s')) :
    s'.world.exchanges = s.world.exchanges ++ s.opening ∧ s'.forget.unread = s.forget.unread := by
  unfold opening
  rcases start_eq_ok h with ⟨hs, rfl⟩ | ⟨hs, s₀, hlaunch, hsends, -⟩
  · rw [if_pos hs]
    exact ⟨(List.append_nil _).symm, rfl⟩
  · obtain ⟨c, hlaunched, hc, -⟩ := launch_eq_ok hlaunch
    obtain ⟨hsolver, hseen⟩ := Observation.launch_eq_ok hlaunched
    obtain ⟨c₀, c', hc₀, hc', hconverses⟩ := hsends.converses
    obtain rfl : c = c₀ := Option.some.inj (hc.symm.trans hc₀)
    have hnone : s.channel = none := by simpa [isStarted] using hs
    cases hconverses with
    | send _ hsend hrest =>
        cases hrest
        obtain ⟨hsolver', -, hseen'⟩ := Observation.send_eq_ok hsend
        rw [obey_scopedDeclarations, hsolver] at hsolver'
        rw [hsolver', hsolver] at hseen'
        refine ⟨?_, ?_⟩
        · rw [hseen', hseen, hs, List.append_assoc]
          rfl
        · simp only [unread, forget, hc', hnone, Option.map_some, Option.map_none, hsolver']

theorem exchanges_of_sends {s s' : Session Observed Observation} {commands : List Command}
    (h : s.Sends commands s') : ∃ x, Talk commands x ∧
      s'.world.exchanges = s.world.exchanges ++ x ∧ s.forget.unread ++ saids x =
        unsats (commands.countP Command.isCheckSat) ++ s'.forget.unread := by
  obtain ⟨c, c', hc, hc', hconverses⟩ := h.converses
  obtain ⟨x, htalk, hexchanges, hlaw⟩ := talk_of_converses hconverses
  refine ⟨x, htalk, hexchanges, ?_⟩
  simp only [unread, forget, hc, hc', Option.map_some]
  exact hlaw

theorem exchanges_of_synced {s s' : Session Observed Observation} (h : s.Synced s') :
    ∃ line, isErrorLine line = false ∧ trimQuotes line = Command.syncMarker ∧
      s'.world.exchanges = s.world.exchanges ++ closing line ∧
      s.forget.unread ++ [quotedMarker] = line :: s'.forget.unread := by
  obtain ⟨c, c₁, c', o₁, line, hc, hsend, hreceive, herror, hmarker, hc'⟩ := h.exchange
  obtain ⟨hsolver, -, hseen⟩ := Observation.send_eq_ok hsend
  obtain ⟨hunread, -, -, hheard⟩ := Observation.receive_eq_ok hreceive
  rw [obey_sync] at hsolver
  have houtput : c₁.solver.output = c.solver.output ++ [quotedMarker] := by
    rw [hsolver]
    rfl
  rw [houtput, List.drop_left] at hseen
  refine ⟨line, herror, hmarker, ?_, ?_⟩
  · rw [hheard, hseen, List.append_assoc]
    rfl
  · simp only [unread, forget, hc, hc', Option.map_some]
    rw [← hunread, houtput]

theorem countP_missing (s : Session Observed Observation) (env : Env) (e : Expr) :
    (s.missing env e).countP Command.isCheckSat = 0 := by
  refine List.countP_eq_zero.2 fun c hc => ?_
  have hplain := isPlain_of_mem_missing hc
  cases c <;> first | exact hplain.elim | exact Bool.false_ne_true

/-- What passes in a run that succeeds, and how what was unread before it and what was said to it
became the answers, the marker and what is unread after it. -/
theorem exchanges_of_prove {env : Env} {e : Expr} {summary : Summary}
    {s s' : Session Observed Observation} (h : prove env e s = (.ok summary, s')) :
    ∃ commands x line, Talk commands x ∧
      commands.countP Command.isCheckSat = summary.obligations ∧ isErrorLine line = false ∧
      trimQuotes line = Command.syncMarker ∧
      s'.world.exchanges = s.world.exchanges ++ (s.opening ++ (x ++ closing line)) ∧
      s.forget.unread ++ (saids x ++ [quotedMarker]) =
        unsats summary.obligations ++ line :: s'.forget.unread := by
  obtain ⟨s₁, s₂, walk, t, p, hstart, hcheck, rfl, hsends, hsynced⟩ := prove_eq_ok h
  obtain ⟨hopening, hunread⟩ := exchanges_of_start hstart
  obtain ⟨x, htalk, hexchanges, hlaw⟩ := exchanges_of_sends hsends
  obtain ⟨line, herror, hmarker, hclosing, hlast⟩ := exchanges_of_synced hsynced
  obtain ⟨tally, -, hcounts⟩ := Checker.tracks_checkWithin env _ hcheck
  have hchecks : List.countP Command.isCheckSat
      (s₁.missing env e ++ Command.push :: (walk ++ [.pop])) = p.summary.obligations := by
    rw [List.countP_append, countP_missing, List.countP_cons_of_neg Bool.false_ne_true,
      List.countP_append, hcounts.checks, hcounts.obligations]
    simp [Command.isCheckSat]
  rw [hchecks] at hlaw
  refine ⟨_, x, line, htalk, hchecks, herror, hmarker, ?_, ?_⟩
  · rw [hclosing, hexchanges, hopening, List.append_assoc, List.append_assoc]
  · rw [← hunread, ← List.append_assoc, hlaw, List.append_assoc, hlast]

end Session

end ContractCheck
