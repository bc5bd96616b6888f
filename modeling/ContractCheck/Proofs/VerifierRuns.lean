import ContractCheck.Proofs.Level
import ContractCheck.Proofs.SessionHistory

/-!
A verifier's runs. However often a verifier was used, and whatever failed on the way, a run of it
that succeeds had all its lines accepted and read nothing but the answers to its own checks
(`verify_genuine`): between runs there is never anything unread, since a run that fails stops the
solver.
-/

namespace ContractCheck

namespace Scripted

/-- What is unread after the exchanges. -/
def unreadAfter (unread : List String) : List Exchange → List String
  | [] => unread
  | .launched :: x => unreadAfter [] x
  | .sent _ said :: x => unreadAfter (unread ++ said) x
  | .heard _ :: x => unreadAfter unread.tail x
  | .lost _ :: x | .silence :: x | .closed :: x => unreadAfter unread x

theorem unreadAfter_append (unread : List String) (x y : List Exchange) :
    unreadAfter unread (x ++ y) = unreadAfter (unreadAfter unread x) y := by
  induction x generalizing unread with
  | nil => rfl
  | cons exchange x ih =>
      cases exchange <;> exact ih _

def Exchange.isCheck : Exchange → Bool
  | .sent line _ => line == Command.checkSat.line
  | _ => false

/-- The check at hand finds nothing unread, is answered `unsat`, and that answer is read at once. -/
def Answered (before : List Exchange) (said : List String) (after : List Exchange) : Prop :=
  unreadAfter [] before = [] ∧ said = ["unsat"] ∧ after.head? = some (.heard "unsat")

/-- Every line was accepted, none was refused, there was one check for each obligation, and each
check was answered `unsat` with an answer of its own. -/
structure Genuine (obligations : Nat) (x : List Exchange) : Prop where
  accepted : ∀ line, .lost line ∉ x
  undisputed : ∀ line said, .sent line said ∈ x → line ≠ Command.checkSat.line →
    line ≠ Command.sync.line → said = []
  checks : x.countP Exchange.isCheck = obligations
  answered : ∀ before said after, x = before ++ .sent Command.checkSat.line said :: after →
    Answered before said after

/-- Exchanges without a loss or a refusal that read all that they make the solver say, each answer
to a check at once. -/
structure Orderly (x : List Exchange) : Prop where
  accepted : ∀ line, .lost line ∉ x
  undisputed : ∀ line said, .sent line said ∈ x → line ≠ Command.checkSat.line →
    line ≠ Command.sync.line → said = []
  read : unreadAfter [] x = []
  answered : ∀ before said after, x = before ++ .sent Command.checkSat.line said :: after →
    Answered before said after

namespace Orderly

theorem nil : Orderly [] where
  accepted _ h := nomatch h
  undisputed _ _ h := nomatch h
  read := rfl
  answered before _ _ h := by cases before <;> cases h

theorem append {x y : List Exchange} (hx : Orderly x) (hy : Orderly y) : Orderly (x ++ y) where
  accepted line h := (List.mem_append.1 h).elim (hx.accepted line) (hy.accepted line)
  undisputed line said h :=
    (List.mem_append.1 h).elim (hx.undisputed line said) (hy.undisputed line said)
  read := by rw [unreadAfter_append, hx.read, hy.read]
  answered before said after h := by
    rcases List.append_eq_append_iff.1 h with ⟨before', rfl, hbefore⟩ | ⟨rest, hrest, hafter⟩
    · obtain ⟨hunread, hsaid, hhead⟩ := hy.answered before' said after hbefore
      refine ⟨?_, hsaid, hhead⟩
      rw [unreadAfter_append, hx.read, hunread]
    · cases rest with
      | nil =>
          rw [List.nil_append] at hafter
          obtain ⟨hunread, hsaid, hhead⟩ := hy.answered [] said after hafter.symm
          refine ⟨?_, hsaid, hhead⟩
          rw [List.append_nil] at hrest
          rw [← hrest, hx.read]
      | cons exchange rest =>
          obtain ⟨rfl, rfl⟩ := List.cons.inj hafter
          obtain ⟨hunread, hsaid, hhead⟩ := hx.answered before said rest hrest
          refine ⟨hunread, hsaid, ?_⟩
          change (rest ++ y).head? = _
          rw [List.head?_append, hhead]
          rfl

/-- Exchanges without a check. -/
theorem ofUnchecked {x : List Exchange} (hcheck : ∀ said, .sent Command.checkSat.line said ∉ x)
    (haccepted : ∀ line, .lost line ∉ x)
    (hundisputed : ∀ line said, .sent line said ∈ x → line ≠ Command.sync.line → said = [])
    (hread : unreadAfter [] x = []) : Orderly x where
  accepted := haccepted
  undisputed line said h _ hsync := hundisputed line said h hsync
  read := hread
  answered before said after hx := by
    refine absurd ?_ (hcheck said)
    rw [hx]
    exact List.mem_append_right _ List.mem_cons_self

theorem ofLine {line : String} (h : line ≠ Command.checkSat.line) : Orderly [.sent line []] := by
  refine ofUnchecked ?_ (by simp) ?_ rfl
  · simp [Ne.symm h]
  · rintro other said hmem -
    obtain ⟨-, hsaid⟩ := Exchange.sent.inj (List.mem_singleton.1 hmem)
    exact hsaid

theorem ofCheck : Orderly [.sent Command.checkSat.line ["unsat"], .heard "unsat"] where
  accepted line h := by simp at h
  undisputed line said h hne _ := by
    simp only [List.mem_cons, Exchange.sent.injEq, reduceCtorEq, List.not_mem_nil, or_false] at h
    exact absurd h.1 hne
  read := rfl
  answered before said after hx := by
    rcases List.cons_eq_append_iff.1 hx with ⟨rfl, hsame⟩ | ⟨rest, -, hrest⟩
    · cases hsame
      exact ⟨rfl, rfl, rfl⟩
    · rcases List.cons_eq_append_iff.1 hrest with ⟨-, hheard⟩ | ⟨rest', -, hrest'⟩
      · cases hheard
      · cases rest' <;> cases hrest'

theorem ofClosing : Orderly (Session.closing quotedMarker) := by
  have hline : Command.checkSat.line ≠ Command.sync.line := by decide +kernel
  refine ofUnchecked ?_ (by simp [Session.closing]) ?_ rfl
  · simp [Session.closing, hline]
  · intro line said h hne
    simp only [Session.closing, List.mem_cons, Exchange.sent.injEq, reduceCtorEq,
      List.not_mem_nil, or_false] at h
    exact absurd h.1 hne

theorem ofOpening (s : Session Observed Observation) : Orderly s.opening := by
  unfold Session.opening
  split
  · exact .nil
  · have hlaunched : Orderly [.launched] := ofUnchecked (by simp) (by simp) (by simp) rfl
    exact hlaunched.append (.ofLine (by decide +kernel))

theorem ofGenuine {commands : List Command} (hmute : ∀ c ∈ commands, c = .checkSat ∨ c.IsMute) :
    Orderly (genuine commands) := by
  induction commands with
  | nil => exact .nil
  | cons c rest ih =>
      have hrest := ih fun c hc => hmute c (List.mem_cons_of_mem _ hc)
      rcases hmute c List.mem_cons_self with rfl | hc
      · exact ofCheck.append hrest
      · rw [genuine_cons_of_isMute hc]
        exact (ofLine (line_ne_checkSat_of_isMute hc)).append hrest

end Orderly

theorem isCheck_eq (line : String) (said : List String) :
    (Exchange.sent line said).isCheck = decide (line = Command.checkSat.line) := by
  by_cases h : line = Command.checkSat.line <;> simp [Exchange.isCheck, h]

theorem countP_genuine {commands : List Command}
    (hmute : ∀ c ∈ commands, c = .checkSat ∨ c.IsMute) :
    (genuine commands).countP Exchange.isCheck = commands.countP Command.isCheckSat := by
  induction commands with
  | nil => rfl
  | cons c rest ih =>
      have hrest := ih fun c hc => hmute c (List.mem_cons_of_mem _ hc)
      rcases hmute c List.mem_cons_self with rfl | hc
      · have hsplit : genuine (.checkSat :: rest) =
            .sent Command.checkSat.line ["unsat"] :: .heard "unsat" :: genuine rest := rfl
        rw [hsplit, List.countP_cons_of_pos rfl, List.countP_cons_of_neg Bool.false_ne_true,
          List.countP_cons_of_pos rfl, hrest]
      · rw [countP_cons_of_isMute hc, genuine_cons_of_isMute hc, List.countP_cons_of_neg, hrest]
        rw [isCheck_eq]
        simpa using line_ne_checkSat_of_isMute hc

end Scripted

namespace Session

open Scripted

/-- A run that finds nothing unread, and succeeds, is genuine and leaves nothing unread. -/
theorem genuine_of_nothing_unread {env : Env} {e : Expr} {summary : Summary}
    {s s' : Session Observed Observation} (h : prove env e s = (.ok summary, s'))
    (hunread : s.forget.unread = []) :
    s'.forget.unread = [] ∧ ∃ x, s'.world.exchanges = s.world.exchanges ++ x ∧
      Genuine summary.obligations x := by
  obtain ⟨commands, x, line, htalk, hchecks, herror, -, hexchanges, hlaw⟩ := exchanges_of_prove h
  rw [hunread, List.nil_append, ← hchecks] at hlaw
  obtain ⟨hsaids, rfl, hrest⟩ := saids_eq_of_nothing_unread htalk herror hlaw
  refine ⟨hrest, _, hexchanges, ?_⟩
  rw [eq_genuine_of_saids htalk hsaids]
  have horderly := (Orderly.ofOpening s).append ((Orderly.ofGenuine htalk.isMute).append .ofClosing)
  refine ⟨horderly.accepted, horderly.undisputed, ?_, horderly.answered⟩
  have hopening : s.opening.countP Exchange.isCheck = 0 := by
    unfold opening
    split
    · rfl
    · rw [List.countP_cons_of_neg Bool.false_ne_true, List.countP_singleton, isCheck_eq,
        decide_eq_false (by decide +kernel)]
      rfl
  have hclosing : (closing quotedMarker).countP Exchange.isCheck = 0 := by
    unfold closing
    rw [List.countP_cons_of_neg, List.countP_singleton]
    · rfl
    · rw [isCheck_eq, decide_eq_false (by decide +kernel)]
      exact Bool.false_ne_true
  rw [List.countP_append, List.countP_append, hopening, hclosing,
    countP_genuine htalk.isMute, hchecks, Nat.zero_add, Nat.add_zero]

theorem channel_stopQuietly (occasion : String) (s : Session Solver Script) :
    (s.stopQuietly occasion).channel = none := by
  have hstop := channel_stop s
  unfold stopQuietly
  rcases hs : stop s with ⟨failure | u, s'⟩
  · rw [hs] at hstop
    exact hstop
  · rw [hs] at hstop
    exact hstop

end Session

namespace Verifier

open Scripted

/-- The verifier after it was asked to verify the expressions in turn, whatever it answered. -/
def after (v : Verifier Solver Script) (es : List Expr) : Verifier Solver Script :=
  es.foldl (fun v e => (v.verify e).2) v

/-- Nothing is unread, and no scope is open if the solver runs. -/
structure Ready (v : Verifier Solver Script) : Prop where
  unread : v.session.unread = []
  depth : v.session.isStarted → v.session.depth = 0

theorem ready_new (script : Script) (env : Env) : Ready ⟨{ world := script }, env⟩ :=
  ⟨rfl, fun h => nomatch h⟩

/-- What a run of a ready verifier that succeeds was, and that the verifier is ready again. -/
theorem genuine_of_ready {v v' : Verifier Solver Script} (hv : v.Ready) {e : Expr}
    {summary : Summary} (h : v.verify e = (.ok summary, v')) :
    Genuine summary.obligations (v.exchanges e) ∧ v'.session.unread = [] ∧
      v'.session.depth = 0 := by
  have hobserved := faithful_verify e v.observe
  rw [forget_observe, h] at hobserved
  unfold exchanges
  unfold verify at hobserved ⊢
  rcases hprove : Session.prove v.observe.env e v.observe.session with ⟨failure | found, s'⟩
  · rw [hprove] at hobserved
    cases hobserved
  · rw [hprove] at hobserved
    cases hobserved
    have hunread : v.observe.session.forget.unread = [] := by
      change (Session.forget (Session.observe v.session)).unread = []
      rw [Session.forget_observe]
      exact hv.unread
    obtain ⟨hleft, x, hexchanges, hgenuine⟩ := Session.genuine_of_nothing_unread hprove hunread
    obtain rfl : s'.world.exchanges = x := hexchanges
    refine ⟨hgenuine, hleft, ?_⟩
    have hdepth := Session.depth_of_prove hprove
    change s'.depth = 0
    rw [hdepth]
    split
    · rename_i hs
      have hstarted : v.session.isStarted := by
        rw [← Session.isStarted_forget] at hs
        rwa [← Session.forget_observe v.session]
      exact hv.depth hstarted
    · rfl

theorem ready_verify {v : Verifier Solver Script} (hv : v.Ready) (e : Expr) :
    (v.verify e).2.Ready := by
  rcases h : v.verify e with ⟨failure | summary, v'⟩
  · have hchannel : v'.session.channel = none := by
      unfold verify at h
      rcases hprove : Session.prove v.env e v.session with ⟨failure' | found, s'⟩
      · rw [hprove] at h
        cases h
        exact Session.channel_stopQuietly _ s'
      · rw [hprove] at h
        cases h
    refine ⟨?_, ?_⟩
    · simp only [Session.unread, hchannel]
    · simp [Session.isStarted, hchannel]
  · obtain ⟨-, hunread, hdepth⟩ := genuine_of_ready hv h
    exact ⟨hunread, fun _ => hdepth⟩

theorem ready_after {v : Verifier Solver Script} (hv : v.Ready) (es : List Expr) :
    (v.after es).Ready := by
  induction es generalizing v with
  | nil => exact hv
  | cons e rest ih => exact ih (ready_verify hv e)

/-- Whatever the script is and whatever was verified before, a run that succeeds is genuine: all
its lines were accepted, none of its declarations was refused, and each of its checks was answered
`unsat`, one for each obligation. Nothing is unread after it and no scope is open. -/
theorem verify_genuine {script : Script} {env : Env} {es : List Expr} {e : Expr}
    {summary : Summary} {v' : Verifier Solver Script}
    (h : (after ⟨{ world := script }, env⟩ es).verify e = (.ok summary, v')) :
    Genuine summary.obligations ((after ⟨{ world := script }, env⟩ es).exchanges e) ∧
      v'.session.unread = [] ∧ v'.session.depth = 0 :=
  genuine_of_ready (ready_after (ready_new script env) es) h

theorem verify_of_prove {v : Verifier Solver Script} {e : Expr} {summary : Summary}
    {s' : Session Solver Script} (h : Session.prove v.env e v.session = (.ok summary, s')) :
    v.verify e = (.ok summary, { v with session := s' }) := by
  unfold verify
  rw [h]

/-- A run of which the depth is known. -/
theorem verify_eq_proveWithin {depth : Nat} {env : Env} {e : Expr}
    (h : Checker.depthLimit env e = depth) (s : Session Solver Script) :
    verify e (⟨s, env⟩ : Verifier Solver Script) = match Session.proveWithin depth env e s with
      | (.ok summary, s') => (.ok summary, ⟨s', env⟩)
      | (.error failure, s') =>
        (.error failure, ⟨s'.stopQuietly "while stopping solver after a failed run", env⟩) := by
  rw [verify, Session.prove_eq_proveWithin h]
  rcases Session.proveWithin depth env e s with ⟨failure | summary, s'⟩ <;> rfl

/-- The first launch fails, and the first check is refuted. -/
def troubled : Script := { answers := ["sat", "unsat"], failLaunch := 1 }

/-- A run that finds no solver, one that declares a name twice, and one that is refuted. -/
def failures : List Expr := [Sample.call, Session.twice, Sample.call]

/-- Each of them fails and leaves no solver behind. -/
theorem after_failures : ∃ transcript log sent,
    after ⟨{ world := troubled }, Sample.env⟩ failures =
      ⟨{ world := { answers := ["unsat"], sent }, transcript, log }, Sample.env⟩ := by
  have hcall := verify_eq_proveWithin Sample.depthLimit_call
  have htwice := verify_eq_proveWithin (Session.depthLimit_twice Sample.env)
  obtain ⟨log, hunlaunched⟩ : ∃ log,
      (verify Sample.call
        (⟨{ world := troubled }, Sample.env⟩ : Verifier Solver Script)).2 =
        ⟨{ world := { answers := ["sat", "unsat"] }, log }, Sample.env⟩ := by
    rw [hcall]
    exact ⟨_, rfl⟩
  obtain ⟨transcript, log₁, sent, hrefused⟩ : ∃ transcript log₁ sent,
      (verify Session.twice
        (⟨{ world := { answers := ["sat", "unsat"] }, log }, Sample.env⟩ :
          Verifier Solver Script)).2 =
        ⟨{ world := { answers := ["sat", "unsat"], sent }, transcript, log := log₁ },
          Sample.env⟩ := by
    rw [htwice]
    exact ⟨_, _, _, rfl⟩
  unfold after failures
  rw [List.foldl_cons, hunlaunched, List.foldl_cons, hrefused, List.foldl_cons, List.foldl_nil,
    hcall]
  exact ⟨_, _, _, rfl⟩

/-- A solver is launched anew, and its first check is answered. -/
theorem verify_genuine_sample : ∃ (summary : Summary) (v' : Verifier Solver Script),
    (after ⟨{ world := troubled }, Sample.env⟩ failures).session.isStarted = false ∧
      (after ⟨{ world := troubled }, Sample.env⟩ failures).verify Sample.call =
        (.ok summary, v') ∧
      Genuine summary.obligations
        ((after ⟨{ world := troubled }, Sample.env⟩ failures).exchanges Sample.call) ∧
      v'.session.unread = [] ∧ v'.session.depth = 0 := by
  obtain ⟨transcript, log, sent, hafter⟩ := after_failures
  rcases hrun : (after ⟨{ world := troubled }, Sample.env⟩ failures).verify Sample.call with
    ⟨outcome, v'⟩
  obtain rfl : outcome = .ok ⟨1, 1⟩ := by
    rw [hafter, verify_eq_proveWithin Sample.depthLimit_call] at hrun
    exact (congrArg Prod.fst hrun).symm.trans rfl
  refine ⟨_, v', ?_, rfl, verify_genuine hrun⟩
  rw [hafter]
  rfl

end Verifier

end ContractCheck
