import ContractCheck.Proofs.GivingUp
import ContractCheck.Proofs.Operations
import ContractCheck.Proofs.ReadingLaw
import ContractCheck.Proofs.Scopes

/-!
Two runs of which one is told `unsat` throughout and the other is told something else at some check,
or nothing. Up to this check both send the same lines. There the second run gives up: it leaves the
scopes that are open and sends nothing else (`Session.first_answer`).
-/

namespace ContractCheck

namespace Scripted

/-- To read shows the line that was read, if there was one. -/
def Exchange.ofReply : Option String → Exchange
  | some line => .heard line
  | none => .silence

@[simp] theorem acceptedLines_ofReply (reply : Option String) (x : List Exchange) :
    acceptedLines (.ofReply reply :: x) = acceptedLines x := by
  cases reply <;> rfl

/-- What a check ends in that reads this line, if any. -/
def replyOutcome : Option String → Outcome String
  | none => .error silence
  | some line =>
    if Session.isErrorLine line then .error (.protocol ("solver rejected a command: " ++ line))
    else .ok line

theorem replyOutcome_of_error {line : String} (h : Session.isErrorLine line = true) :
    replyOutcome (some line) =
      .error (.protocol ("solver rejected a command: " ++ line)) := if_pos h

theorem replyOutcome_unsat : replyOutcome (some "unsat") = .ok "unsat" := by
  rw [replyOutcome, if_neg (by decide +kernel)]

/-- How a run fails that reads this line instead of `unsat`, if any. -/
def replyFault : Option String → Fault
  | none => .protocol
  | some line => if Session.isErrorLine line then .protocol else .refuted line

/-- Unless the line that is read is an error, it is the answer. -/
def IsReply (answer reply : Option String) : Prop :=
  ∀ line, reply = some line → Session.isErrorLine line = false → answer = some line

/-- Only checks are answered from the script. -/
theorem obey_of_ne_checkSat {line : String} (h : line ≠ Command.checkSat.line) (c : Solver)
    (answers : List String) : obey line c answers = ((obey line c []).1, answers) := by
  unfold obey
  rw [if_neg h, if_neg h]
  split
  · rfl
  split
  · rfl
  cases echoed? line with
  | some text => rfl
  | none => cases declaredName? line <;> rfl

theorem obey_checkSat_cons (c : Solver) (answer : Option String) {rest : List String}
    (h : answer = none → rest = []) : obey Command.checkSat.line c (answer.toList ++ rest) =
      ({ c with output := c.output ++ answer.toList }, rest) := by
  unfold obey
  rw [if_pos rfl]
  cases answer with
  | none =>
      rw [h rfl, Option.toList_none, List.append_nil, List.append_nil]
  | some text => rfl

end Scripted

namespace Session

open Scripted

/-- The session if these answers are left to the solver. -/
def answering (answers : List String) (t : Session Observed Observation) :
    Session Observed Observation :=
  { t with world := { t.world with script := { t.world.script with answers } } }

/-- A running session in which every line can be sent. -/
structure Sendable (t : Session Observed Observation) : Prop where
  started : t.isStarted = true
  failSend : t.world.script.failSend = []

/-- The solver has said nothing that is unread but that it refused lines. -/
structure Unread (t : Session Observed Observation) : Prop extends Sendable t where
  errors : ∀ text ∈ t.forget.unread, isErrorLine text = true

/-- What passes from the first session to the second. -/
structure Shows (t : Session Observed Observation) (x : List Exchange)
    (t' : Session Observed Observation) : Prop where
  exchanges : t'.world.exchanges = t.world.exchanges ++ x
  transcript : t'.transcript.toList = t.transcript.toList ++ acceptedLines x

theorem Shows.refl (t : Session Observed Observation) : t.Shows [] t :=
  ⟨(List.append_nil _).symm, (List.append_nil _).symm⟩

theorem Shows.trans {t t₁ t₂ : Session Observed Observation} {x y : List Exchange}
    (h : t.Shows x t₁) (h' : t₁.Shows y t₂) : t.Shows (x ++ y) t₂ := by
  refine ⟨?_, ?_⟩
  · rw [h'.exchanges, h.exchanges, List.append_assoc]
  · rw [h'.transcript, h.transcript, acceptedLines_append, List.append_assoc]

/-- Whatever answers are left, the operation goes the same way and leaves them. -/
structure Regardless {β : Type}
    (op : Session Observed Observation → β × Session Observed Observation)
    (t : Session Observed Observation) (b : β) (x : List Exchange)
    (t' : Session Observed Observation) : Prop where
  run : ∀ answers, op (t.answering answers) = (b, t'.answering answers)
  shows : t.Shows x t'

section

variable {t : Session Observed Observation}

/-- In a session in which every line can be sent the solver obeys each. -/
theorem write_of_sendable (ht : t.Sendable) {c : Observed} (hc : t.channel = some c)
    (line : String) : write line t = (.ok (), { t.record .trace ("> " ++ line) with
      channel := some ⟨(obey line c.solver t.world.script.answers).1⟩
      world := ⟨{ t.world.script with
          answers := (obey line c.solver t.world.script.answers).2
          sent := t.world.script.sent.push line },
        t.world.exchanges ++ [.sent line
          ((obey line c.solver t.world.script.answers).1.output.drop c.solver.output.length)]⟩
      transcript := t.transcript.push line }) := by
  refine write_of_accepted hc ?_
  have hmem : line ∉ t.world.script.failSend := by
    rw [ht.failSend]
    exact List.not_mem_nil
  change Observation.send line c t.world = _
  unfold Observation.send Scripted.send
  rw [if_neg hmem]
  rfl

/-- A line other than a check is obeyed in the same way whatever answers are left. -/
theorem regardless_write (ht : t.Sendable) {c : Observed} (hc : t.channel = some c) {line : String}
    (hline : line ≠ Command.checkSat.line) : ∃ t', t'.Sendable ∧
      t'.channel = some ⟨(obey line c.solver []).1⟩ ∧
      Regardless (write line) t (.ok ()) [.sent line
        ((obey line c.solver []).1.output.drop c.solver.output.length)] t' := by
  refine ⟨{ t.record .trace ("> " ++ line) with
    channel := some ⟨(obey line c.solver []).1⟩
    world := ⟨{ t.world.script with sent := t.world.script.sent.push line },
      t.world.exchanges ++ [.sent line
        ((obey line c.solver []).1.output.drop c.solver.output.length)]⟩
    transcript := t.transcript.push line }, ⟨rfl, ht.failSend⟩, rfl, fun answers => ?_, rfl,
    Array.toList_push⟩
  have hanswering : (t.answering answers).Sendable := ⟨ht.started, ht.failSend⟩
  rw [write_of_sendable hanswering hc]
  simp only [answering]
  rw [obey_of_ne_checkSat hline]
  rfl

theorem regardless_perform (ht : t.Sendable) {c : Observed} (hc : t.channel = some c) (deed : Deed)
    (hmute : deed.command.IsMute) : ∃ t', t'.Sendable ∧
      t'.channel = some ⟨(obey deed.command.line c.solver []).1⟩ ∧
      Regardless (perform deed) t (.ok ()) [.sent deed.command.line
        ((obey deed.command.line c.solver []).1.output.drop c.solver.output.length)] t' := by
  have hline := line_ne_checkSat_of_isMute hmute
  cases deed with
  | write command => exact regardless_write ht hc hline
  | push =>
      obtain ⟨t', ht', hc', hrun, hshows⟩ := regardless_write ht hc hline
      refine ⟨{ t' with depth := t'.depth + 1 }, ⟨ht'.started, ht'.failSend⟩, hc',
        fun answers => ?_, hshows.exchanges, hshows.transcript⟩
      change (write Command.push.line >>= fun _ => modify _ : SessionM _ _ Unit) _ = _
      have hwrite : write Command.push.line (t.answering answers) = _ := hrun answers
      rw [bind_apply, hwrite]
      rfl
  | pop =>
      have hleft : t.leaveScope.Sendable := ⟨ht.started, ht.failSend⟩
      obtain ⟨t', ht', hc', hrun, hshows⟩ := regardless_write hleft hc hline
      exact ⟨t', ht', hc', hrun, hshows.exchanges, hshows.transcript⟩

/-- Nothing is said when a scope is left. -/
theorem regardless_pop (ht : t.Sendable) : ∃ t', t'.Sendable ∧
    Regardless (perform .pop) t (.ok ()) [.sent Command.pop.line []] t' := by
  obtain ⟨c, hc⟩ := Option.isSome_iff_exists.1 ht.started
  obtain ⟨t', ht', -, hregardless⟩ := regardless_perform ht hc .pop trivial
  have hsaid : (obey Command.pop.line c.solver []).1.output.drop c.solver.output.length = [] := by
    have hpop : obey Command.pop.line c.solver [] = (c.solver.pop, []) := rfl
    rw [hpop, output_pop, List.drop_length]
  rw [show Deed.pop.command = Command.pop from rfl, hsaid] at hregardless
  exact ⟨t', ht', hregardless⟩

/-- Commands other than checks are answered by refusals alone. -/
theorem Unread.perform (ht : t.Unread) (deed : Deed) (hmute : deed.command.IsMute) :
    ∃ t' said, t'.Unread ∧
      Regardless (perform deed) t (.ok ()) [.sent deed.command.line said] t' := by
  obtain ⟨c, hc⟩ := Option.isSome_iff_exists.1 ht.started
  obtain ⟨t', ht', hc', hregardless⟩ := regardless_perform ht.toSendable hc deed hmute
  refine ⟨t', _, ⟨ht', fun text htext => ?_⟩, hregardless⟩
  have hunread : t.forget.unread = c.solver.output := by simp [unread, forget, hc]
  have hunread' : t'.forget.unread = (obey deed.command.line c.solver []).1.output := by
    simp [unread, forget, hc']
  rw [hunread'] at htext
  rcases output_obey_of_isMute hmute c.solver [] with houtput | ⟨name, houtput⟩
  · rw [houtput, ← hunread] at htext
    exact ht.errors text htext
  · rw [houtput, List.mem_append, List.mem_singleton, ← hunread] at htext
    rcases htext with htext | rfl
    · exact ht.errors text htext
    · exact isErrorLine_redeclared name

/-- The line is read that was said first. -/
theorem read_of_channel_eq {c : Observed} (hc : t.channel = some c) :
    ∃ t' : Session Observed Observation,
      t'.isStarted = true ∧ t'.world.script = t.world.script ∧
      t'.forget.unread = c.solver.output.tail ∧ t'.transcript = t.transcript ∧
      t'.world.exchanges = t.world.exchanges ++ [.ofReply c.solver.output.head?] ∧
      ∀ answers, read (t.answering answers) =
        (replyOutcome c.solver.output.head?, t'.answering answers) := by
  obtain ⟨⟨output, scopes⟩⟩ := c
  cases output with
  | nil =>
      refine ⟨{ t with
        channel := some ⟨{ output := [], scopes }⟩
        world := ⟨t.world.script, t.world.exchanges ++ [.silence]⟩ }, rfl, rfl, rfl, rfl, rfl,
        fun answers => ?_⟩
      simp only [read, answering, hc]
      rfl
  | cons text rest =>
      refine ⟨{ t.record .trace ("< " ++ text) with
        channel := some ⟨{ output := rest, scopes }⟩
        world := ⟨t.world.script, t.world.exchanges ++ [.heard text]⟩ }, rfl, rfl, rfl, rfl, rfl,
        fun answers => ?_⟩
      simp only [read, answering, hc, Transport.receive, Observation.receive, Scripted.receive,
        replyOutcome, List.head?_cons]
      by_cases herror : isErrorLine text = true
      · simp only [if_pos herror]
        rfl
      · simp only [if_neg herror]
        rfl

/-- A check is answered from the script, and the line is read that was said first. -/
theorem exists_checkSat (ht : t.Sendable) (answer : Option String) :
    ∃ t', t'.Sendable ∧ t'.forget.unread = (t.forget.unread ++ answer.toList).tail ∧
      t.Shows [.sent Command.checkSat.line answer.toList,
        .ofReply (t.forget.unread ++ answer.toList).head?] t' ∧
      ∀ rest, (answer = none → rest = []) → checkSat (t.answering (answer.toList ++ rest)) =
        (replyOutcome (t.forget.unread ++ answer.toList).head?, t'.answering rest) := by
  obtain ⟨c, hc⟩ := Option.isSome_iff_exists.1 ht.started
  have hunread : t.forget.unread = c.solver.output := by simp [unread, forget, hc]
  let t₁ : Session Observed Observation := { t.record .trace ("> " ++ Command.checkSat.line) with
    channel := some ⟨{ c.solver with output := c.solver.output ++ answer.toList }⟩
    world := ⟨{ t.world.script with sent := t.world.script.sent.push Command.checkSat.line },
      t.world.exchanges ++ [.sent Command.checkSat.line answer.toList]⟩
    transcript := t.transcript.push Command.checkSat.line }
  have hwrite : ∀ rest, (answer = none → rest = []) → write Command.checkSat.line
      (t.answering (answer.toList ++ rest)) = (.ok (), t₁.answering rest) := by
    intro rest hrest
    have hanswering : (t.answering (answer.toList ++ rest)).Sendable := ⟨ht.started, ht.failSend⟩
    rw [write_of_sendable hanswering hc]
    simp only [answering]
    rw [obey_checkSat_cons _ _ hrest, List.drop_left]
    rfl
  obtain ⟨t', hstarted, hscript, hunread', htranscript, hexchanges, hread⟩ :=
    read_of_channel_eq (t := t₁) rfl
  rw [hunread]
  refine ⟨t', ⟨hstarted, ?_⟩, hunread', ⟨?_, ?_⟩, fun rest hrest => ?_⟩
  · rw [hscript]
    exact ht.failSend
  · rw [hexchanges, List.append_assoc]
    rfl
  · rw [htranscript, Array.toList_push]
    simp
  · unfold checkSat
    rw [bind_apply, hwrite rest hrest]
    exact hread rest

/-- To unwind is to leave the scopes. -/
theorem hold_of_unwinds {β : Type} {ends : β → Prop} {height : Nat} {d : Dialogue β}
    (hd : d.Unwinds ends height) (ht : t.Sendable) :
    ∃ b t', ends b ∧ t'.Sendable ∧
      Regardless (hold d) t b (List.replicate height (.sent Command.pop.line [])) t' := by
  induction hd generalizing t with
  | @done b h => exact ⟨b, t, h, ht, fun _ => rfl, .refl t⟩
  | note text _ ih =>
      obtain ⟨b, t', hb, ht', hrun, hshows⟩ :=
        ih (t := t.record .debug text) ⟨ht.started, ht.failSend⟩
      exact ⟨b, t', hb, ht', hrun, hshows.exchanges, hshows.transcript⟩
  | pop _ ih =>
      obtain ⟨t₁, ht₁, hpop, hshows₁⟩ := regardless_pop ht
      obtain ⟨b, t', hb, ht', hrun, hshows⟩ := ih ht₁
      refine ⟨b, t', hb, ht', fun answers => ?_, hshows₁.trans hshows⟩
      rw [hold, hpop answers]
      exact hrun answers

end

/-- How many of the lines are this command's. -/
def countOf (c : Command) (x : List Exchange) : Nat := (acceptedLines x).count c.line

@[simp] theorem countOf_append (c : Command) (x y : List Exchange) :
    countOf c (x ++ y) = countOf c x + countOf c y := by
  simp [countOf]

theorem countOf_sent (c : Command) (line : String) (said : List String) (x : List Exchange) :
    countOf c (.sent line said :: x) = countOf c x + if line = c.line then 1 else 0 := by
  unfold countOf
  rw [acceptedLines_sent, List.count_cons]
  simp

theorem countOf_ofReply (c : Command) (reply : Option String) (x : List Exchange) :
    countOf c (.ofReply reply :: x) = countOf c x := by
  rw [countOf, acceptedLines_ofReply, countOf]

theorem countOf_pops (height : Nat) :
    countOf .checkSat (List.replicate height (.sent Command.pop.line [])) = 0 := by
  induction height with
  | zero => rfl
  | succ height ih =>
      rw [List.replicate_succ, countOf_sent, ih, if_neg (by decide +kernel)]

/-- Told `unsat` throughout, the operation passes these exchanges and ends so. Told `unsat` at the
first checks and then something else, it goes the same way up to this check, and from there on it
leaves the scopes that are open, of which there were so many before. -/
structure FirstAnswer {β : Type}
    (op : Session Observed Observation → β × Session Observed Observation)
    (ends : Fault → β → Prop) (height : Nat) (t : Session Observed Observation) (b : β)
    (x : List Exchange) (t' : Session Observed Observation) : Prop where
  shows : t.Shows x t'
  answered : ∀ rest, op (t.answering (unsats (countOf .checkSat x) ++ rest)) =
    (b, t'.answering rest)
  stopped : ∀ k < countOf .checkSat x, ∃ before after scopes,
    x = before ++ .sent Command.checkSat.line ["unsat"] :: after ∧
    countOf .checkSat before = k ∧
    height + countOf .push before = countOf .pop before + scopes ∧
    ∀ rest, rest.head? ≠ some "unsat" → ∃ reply b' t'',
      op (t.answering (unsats k ++ rest)) = (b', t'') ∧
      t.Shows (before ++ .sent Command.checkSat.line rest.head?.toList :: .ofReply reply ::
        List.replicate scopes (.sent Command.pop.line [])) t'' ∧
      ends (replyFault reply) b' ∧ IsReply rest.head? reply

/-- Told something else than `unsat`, or nothing, at the check that comes first, the operation
leaves the scopes that are open and fails with what it read there. -/
def StopsAtOnce {β : Type} (op : Session Observed Observation → β × Session Observed Observation)
    (ends : Fault → β → Prop) (height : Nat) (t : Session Observed Observation) : Prop :=
  ∀ rest, rest.head? ≠ some "unsat" → ∃ reply b t',
    op (t.answering rest) = (b, t') ∧
    t.Shows (.sent Command.checkSat.line rest.head?.toList :: .ofReply reply ::
      List.replicate height (.sent Command.pop.line [])) t' ∧
    ends (replyFault reply) b ∧ IsReply rest.head? reply

namespace FirstAnswer

variable {β γ : Type} {op op₁ : Session Observed Observation → β × Session Observed Observation}
  {ends : Fault → β → Prop} {height height₁ : Nat} {t t₁ t' : Session Observed Observation} {b : β}
  {x x₁ : List Exchange}

/-- What comes before, without a check, comes before in both runs. -/
theorem after (h : FirstAnswer op₁ ends height₁ t₁ b x t')
    (hop : ∀ answers, op (t.answering answers) = op₁ (t₁.answering answers))
    (hshows : t.Shows x₁ t₁) (hchecks : countOf .checkSat x₁ = 0)
    (hscopes : height + countOf .push x₁ = countOf .pop x₁ + height₁) :
    FirstAnswer op ends height t b (x₁ ++ x) t' := by
  have hcount : countOf .checkSat (x₁ ++ x) = countOf .checkSat x := by
    rw [countOf_append, hchecks, Nat.zero_add]
  refine ⟨hshows.trans h.shows, fun rest => ?_, fun k hk => ?_⟩
  · rw [hcount, hop]
    exact h.answered rest
  · rw [hcount] at hk
    obtain ⟨before, after, scopes, rfl, hbefore, hheight, hstopped⟩ := h.stopped k hk
    refine ⟨x₁ ++ before, after, scopes, (List.append_assoc _ _ _).symm, ?_, ?_, ?_⟩
    · rw [countOf_append, hchecks, Nat.zero_add, hbefore]
    · rw [countOf_append, countOf_append]
      omega
    · intro rest hrest
      obtain ⟨reply, b', t'', hrun, hshows', hends, hreply⟩ := hstopped rest hrest
      refine ⟨reply, b', t'', (hop _).trans hrun, ?_, hends, hreply⟩
      rw [List.append_assoc]
      exact hshows.trans hshows'

/-- Without a check both runs are one. -/
theorem of_regardless (h : Regardless op t b x t') (hchecks : countOf .checkSat x = 0) :
    FirstAnswer op ends height t b x t' := by
  refine ⟨h.shows, fun rest => ?_, fun k hk => ?_⟩
  · rw [hchecks]
    exact h.run rest
  · rw [hchecks] at hk
    exact absurd hk (Nat.not_lt_zero k)

/-- What comes after, without a check, comes after the run that does not give up. The other is over
then. -/
theorem andThen {op' : Session Observed Observation → γ × Session Observed Observation}
    {ends' : Fault → γ → Prop} {c : γ} {y : List Exchange} (h : FirstAnswer op ends height t b x t')
    (hrun : ∀ answers s, op s = (b, t'.answering answers) → op' s = (c, t₁.answering answers))
    (hshows : t'.Shows y t₁) (hchecks : countOf .checkSat y = 0)
    (hends : ∀ fault b' s s', op s = (b', s') → ends fault b' →
      ∃ c', op' s = (c', s') ∧ ends' fault c') :
    FirstAnswer op' ends' height t c (x ++ y) t₁ := by
  have hcount : countOf .checkSat (x ++ y) = countOf .checkSat x := by
    rw [countOf_append, hchecks, Nat.add_zero]
  refine ⟨h.shows.trans hshows, fun rest => ?_, fun k hk => ?_⟩
  · rw [hcount]
    exact hrun _ _ (h.answered rest)
  · rw [hcount] at hk
    obtain ⟨before, after, scopes, rfl, hbefore, hheight, hstopped⟩ := h.stopped k hk
    refine ⟨before, after ++ y, scopes, List.append_assoc _ _ _, hbefore, hheight,
      fun rest hrest => ?_⟩
    obtain ⟨reply, b', t'', hstop, hshows', hfails, hreply⟩ := hstopped rest hrest
    obtain ⟨c', hstop', hfails'⟩ := hends _ _ _ _ hstop hfails
    exact ⟨reply, c', t'', hstop', hshows', hfails', hreply⟩

/-- What comes after a check that was answered `unsat` comes after it in both runs. -/
theorem afterUnsat (h : FirstAnswer op₁ ends height t₁ b x t')
    (hop : ∀ rest, op (t.answering ("unsat" :: rest)) = op₁ (t₁.answering rest))
    (hshows : t.Shows [.sent Command.checkSat.line ["unsat"], .ofReply (some "unsat")] t₁)
    (hstops : StopsAtOnce op ends height t) : FirstAnswer op ends height t b
      (.sent Command.checkSat.line ["unsat"] :: .ofReply (some "unsat") :: x) t' := by
  have hcount : ∀ y : List Exchange, countOf .checkSat (.sent Command.checkSat.line ["unsat"] ::
      .ofReply (some "unsat") :: y) = countOf .checkSat y + 1 := by
    intro y
    rw [countOf_sent, countOf_ofReply, if_pos rfl]
  refine ⟨hshows.trans h.shows, fun rest => ?_, fun k hk => ?_⟩
  · rw [hcount]
    exact (hop _).trans (h.answered rest)
  · rw [hcount] at hk
    cases k with
    | zero => exact ⟨[], _, height, rfl, rfl, Nat.add_comm _ _, hstops⟩
    | succ k =>
        obtain ⟨before, after, scopes, rfl, hbefore, hheight, hlater⟩ :=
          h.stopped k (Nat.lt_of_succ_lt_succ hk)
        refine ⟨.sent Command.checkSat.line ["unsat"] :: .ofReply (some "unsat") :: before,
          after, scopes, rfl, by rw [hcount, hbefore], ?_, fun rest hrest => ?_⟩
        · rw [countOf_sent, countOf_sent, countOf_ofReply, countOf_ofReply,
            if_neg (by decide +kernel), if_neg (by decide +kernel)]
          exact hheight
        · obtain ⟨reply, b', t'', hrun, hshows', hends, hreply⟩ := hlater rest hrest
          exact ⟨reply, b', t'', (hop _).trans hrun, hshows.trans hshows', hends, hreply⟩

/-- A check that ends the run, though it is answered `unsat`, is the only one. -/
theorem of_last {reply : Option String}
    (hop : ∀ rest, op (t.answering ("unsat" :: rest)) = (b, t'.answering rest))
    (hshows : t.Shows (.sent Command.checkSat.line ["unsat"] :: .ofReply reply ::
      List.replicate height (.sent Command.pop.line [])) t')
    (hstops : StopsAtOnce op ends height t) : FirstAnswer op ends height t b
      (.sent Command.checkSat.line ["unsat"] :: .ofReply reply ::
        List.replicate height (.sent Command.pop.line [])) t' := by
  have hcount : countOf .checkSat (.sent Command.checkSat.line ["unsat"] :: .ofReply reply ::
      List.replicate height (.sent Command.pop.line [])) = 1 := by
    rw [countOf_sent, countOf_ofReply, if_pos rfl, countOf_pops]
  refine ⟨hshows, fun rest => ?_, fun k hk => ?_⟩
  · rw [hcount]
    exact hop rest
  · obtain rfl : k = 0 := Nat.lt_one_iff.1 (hcount ▸ hk)
    exact ⟨[], _, height, rfl, rfl, Nat.add_comm _ _, hstops⟩

end FirstAnswer

section

variable {β : Type} {ends : Fault → β → Prop} {height height₁ : Nat}
  {t : Session Observed Observation}

/-- What a deed does, it does in both runs. -/
theorem firstAnswer_act (deed : Deed) (hmute : deed.command.IsMute)
    (hscopes : height + (if deed.command.line = Command.push.line then 1 else 0) =
      (if deed.command.line = Command.pop.line then 1 else 0) + height₁)
    {next : Outcome Unit → Dialogue β}
    (hnext : ∀ {t : Session Observed Observation}, t.Unread → ∃ b x t', t'.Sendable ∧
      FirstAnswer (hold (next (.ok ()))) ends height₁ t b x t') (ht : t.Unread) :
    ∃ b x t', t'.Sendable ∧ FirstAnswer (hold (.act deed next)) ends height t b x t' := by
  obtain ⟨t₁, said, ht₁, hrun, hshows⟩ := ht.perform deed hmute
  obtain ⟨b, x, t', ht', hfirst⟩ := hnext ht₁
  refine ⟨b, _, t', ht', hfirst.after (fun answers => ?_) hshows ?_ ?_⟩
  · rw [hold, hrun answers]
  · rw [countOf_sent, if_neg (line_ne_checkSat_of_isMute hmute)]
    rfl
  · rw [countOf_sent, countOf_sent]
    simpa [countOf] using hscopes

theorem unwinds_replyOutcome {next : Outcome String → Dialogue β}
    (hrefuted : ∀ answer, answer ≠ "unsat" →
      (next (.ok answer)).Unwinds (ends (.refuted answer)) height)
    (hfailed : ∀ failure, (next (.error failure)).Unwinds (ends failure.fault) height)
    {reply : Option String} (hreply : reply ≠ some "unsat") :
    (next (replyOutcome reply)).Unwinds (ends (replyFault reply)) height := by
  cases reply with
  | none =>
      have hsilence := hfailed silence
      exact hsilence
  | some line =>
      by_cases herror : isErrorLine line = true
      · rw [replyOutcome_of_error herror, replyFault, if_pos herror]
        have hrejected := hfailed (.protocol ("solver rejected a command: " ++ line))
        exact hrejected
      · rw [replyOutcome, replyFault, if_neg herror, if_neg herror]
        exact hrefuted line fun heq => hreply (congrArg some heq)

theorem isErrorLine_unsat : isErrorLine "unsat" = false := by decide +kernel

/-- The line that was said first is a refusal or the answer. -/
theorem Unread.isReply (ht : t.Unread) (answer : Option String) :
    IsReply answer (t.forget.unread ++ answer.toList).head? := by
  intro line hline hanswer
  cases hunread : t.forget.unread with
  | nil =>
      rw [hunread, List.nil_append] at hline
      cases answer <;> exact hline
  | cons text rest =>
      rw [hunread] at hline
      cases hline
      rw [ht.errors line (hunread ▸ List.mem_cons_self)] at hanswer
      cases hanswer

/-- A check with another answer than `unsat` ends in leaving the scopes. -/
theorem stopsAtOnce_checkSat {next : Outcome String → Dialogue β}
    (hrefuted : ∀ answer, answer ≠ "unsat" →
      (next (.ok answer)).Unwinds (ends (.refuted answer)) height)
    (hfailed : ∀ failure, (next (.error failure)).Unwinds (ends failure.fault) height)
    (ht : t.Unread) : StopsAtOnce (hold (.checkSat next)) ends height t := by
  intro rest hrest
  obtain ⟨t₁, ht₁, -, hshows₁, hcheck⟩ := exists_checkSat ht.toSendable rest.head?
  have hreply := ht.isReply rest.head?
  generalize (t.forget.unread ++ rest.head?.toList).head? = reply at hshows₁ hcheck hreply
  have hne : reply ≠ some "unsat" := fun heq => hrest (hreply _ heq isErrorLine_unsat)
  obtain ⟨b, t', hends, -, hrun, hshows⟩ :=
    hold_of_unwinds (unwinds_replyOutcome hrefuted hfailed hne) ht₁
  have hsplit : rest = rest.head?.toList ++ rest.tail := by cases rest <;> rfl
  have htail : rest.head? = none → rest.tail = [] := by cases rest <;> simp
  refine ⟨reply, b, t'.answering rest.tail, ?_, ?_, hends, hreply⟩
  · have hchecked := hcheck rest.tail htail
    rw [← hsplit] at hchecked
    rw [hold, hchecked]
    exact hrun _
  · have hall := hshows₁.trans hshows
    exact ⟨hall.exchanges, hall.transcript⟩

/-- A check goes on in the same way in both runs if both read `unsat`, and else it is the last. -/
theorem firstAnswer_checkSat {next : Outcome String → Dialogue β}
    (hnext : ∀ {t : Session Observed Observation}, t.Unread → ∃ b x t', t'.Sendable ∧
      FirstAnswer (hold (next (.ok "unsat"))) ends height t b x t')
    (hrefuted : ∀ answer, answer ≠ "unsat" →
      (next (.ok answer)).Unwinds (ends (.refuted answer)) height)
    (hfailed : ∀ failure, (next (.error failure)).Unwinds (ends failure.fault) height)
    (ht : t.Unread) : ∃ b x t', t'.Sendable ∧
      FirstAnswer (hold (.checkSat next)) ends height t b x t' := by
  have hstops := stopsAtOnce_checkSat hrefuted hfailed ht
  obtain ⟨t₁, ht₁, hunread₁, hshows₁, hcheck⟩ := exists_checkSat ht.toSendable (some "unsat")
  have hread : ∀ rest, hold (.checkSat next) (t.answering ("unsat" :: rest)) =
      hold (next (replyOutcome (t.forget.unread ++ ["unsat"]).head?)) (t₁.answering rest) := by
    intro rest
    have hchecked : checkSat (t.answering ("unsat" :: rest)) = _ :=
      hcheck rest fun h => absurd h (Option.some_ne_none _)
    rw [hold, hchecked]
    rfl
  cases hunread : t.forget.unread with
  | nil =>
      rw [hunread] at hunread₁ hshows₁ hread
      have hready : t₁.Unread := ⟨ht₁, hunread₁ ▸ List.forall_mem_nil _⟩
      obtain ⟨b, x, t', ht', hfirst⟩ := hnext hready
      refine ⟨b, _, t', ht', hfirst.afterUnsat (fun rest => (hread rest).trans ?_) hshows₁ hstops⟩
      exact congrArg (fun outcome => hold (next outcome) _) replyOutcome_unsat
  | cons text texts =>
      -- The refusal that is unread ends both runs, whatever the answer.
      rw [hunread] at hread hshows₁
      have herror : isErrorLine text = true := ht.errors text (hunread ▸ List.mem_cons_self)
      obtain ⟨b, t', -, ht', hrun, hshows⟩ := hold_of_unwinds
        (hfailed (.protocol ("solver rejected a command: " ++ text))) ht₁
      refine ⟨b, _, t', ht', .of_last (fun rest => (hread rest).trans ?_) (hshows₁.trans hshows)
        hstops⟩
      exact (congrArg (fun outcome => hold (next outcome) _)
        (replyOutcome_of_error herror)).trans (hrun rest)

theorem firstAnswer_hold {d : Dialogue β} (hd : d.GivesUp ends height) (ht : t.Unread) :
    ∃ b x t', t'.Sendable ∧ FirstAnswer (hold d) ends height t b x t' := by
  induction hd generalizing t with
  | done b => exact ⟨b, [], t, ht.toSendable, .refl t, fun _ => rfl, nofun⟩
  | note text _ ih =>
      have hnoted : (t.record .debug text).Unread := ⟨⟨ht.started, ht.failSend⟩, ht.errors⟩
      obtain ⟨b, x, t', ht', hfirst⟩ := ih hnoted
      have hshows : t.Shows [] (t.record .debug text) :=
        ⟨(List.append_nil _).symm, (List.append_nil _).symm⟩
      exact ⟨b, [] ++ x, t', ht', hfirst.after (fun _ => rfl) hshows rfl (Nat.add_comm _ _)⟩
  | write c hplain _ ih =>
      refine firstAnswer_act (.write c) hplain.isMute ?_ ih ht
      have hflat : IsFlat c.line := Command.IsPlain.isFlat hplain
      rw [Deed.command, if_neg hflat.1, if_neg hflat.2, Nat.add_comm]
  | push _ ih =>
      refine firstAnswer_act .push trivial ?_ ih ht
      rw [Deed.command, if_pos rfl, if_neg (by decide), Nat.zero_add]
  | @pop height _ _ ih => exact firstAnswer_act .pop trivial (Nat.add_comm height 1) ih ht
  | checkSat _ hrefuted hfailed ih => exact firstAnswer_checkSat ih hrefuted hfailed ht

end

/-- No check passes, and no scope is opened or left. -/
structure IsPassive (x : List Exchange) : Prop where
  checks : countOf .checkSat x = 0
  pushes : countOf .push x = 0
  pops : countOf .pop x = 0

theorem isPassive_nil : IsPassive [] := ⟨rfl, rfl, rfl⟩

theorem IsPassive.append {x y : List Exchange} (hx : IsPassive x) (hy : IsPassive y) :
    IsPassive (x ++ y) := by
  refine ⟨?_, ?_, ?_⟩ <;> rw [countOf_append]
  · rw [hx.checks, hy.checks]
  · rw [hx.pushes, hy.pushes]
  · rw [hx.pops, hy.pops]

theorem isPassive_sent {line : String} (hline : IsFlat line) (hcheck : line ≠ Command.checkSat.line)
    (said : List String) : IsPassive [.sent line said] := by
  refine ⟨?_, ?_, ?_⟩ <;> rw [countOf_sent]
  · rw [if_neg hcheck]
    rfl
  · rw [if_neg hline.1]
    rfl
  · rw [if_neg hline.2]
    rfl

theorem isPassive_ofReply (reply : Option String) : IsPassive [.ofReply reply] := by
  cases reply <;> exact ⟨rfl, rfl, rfl⟩

section

variable {α β : Type} {P : Session Observed Observation → Prop} {t : Session Observed Observation}

/-- In sessions with this property, which it keeps, the operation goes the same way whatever answers
are left, without a check, and opens and leaves no scope. -/
def Ignores (P : Session Observed Observation → Prop) (op : SessionM Observed Observation α) :
    Prop :=
  ∀ t, P t → ∃ outcome x t', P t' ∧ Regardless op t outcome x t' ∧ IsPassive x

theorem isClosed_ignores (hrecord : ∀ t level text, P t → P (t.record level text)) :
    IsClosed (fun {α} (op : SessionM Observed Observation α) => Ignores P op) where
  answer outcome t ht := ⟨outcome, [], t, ht, ⟨fun _ => rfl, .refl t⟩, isPassive_nil⟩
  andThen {_ _ op f} h hf t ht := by
    obtain ⟨outcome, x, t₁, ht₁, hop, hx⟩ := h t ht
    rcases outcome with failure | a
    · refine ⟨.error failure, x, t₁, ht₁, ⟨fun answers => ?_, hop.shows⟩, hx⟩
      rw [bind_apply, hop.run]
    · obtain ⟨outcome, y, t₂, ht₂, hgo, hy⟩ := hf a t₁ ht₁
      refine ⟨outcome, x ++ y, t₂, ht₂, ⟨fun answers => ?_, hop.shows.trans hgo.shows⟩,
        hx.append hy⟩
      rw [bind_apply, hop.run]
      exact hgo.run answers
  record level text t ht := ⟨.ok (), [], _, hrecord t level text ht,
    ⟨fun _ => rfl, (List.append_nil _).symm, (List.append_nil _).symm⟩, isPassive_nil⟩

theorem ignores_write {line : String} (hline : IsFlat line)
    (hcheck : line ≠ Command.checkSat.line) : Ignores Sendable (write line) := by
  intro t ht
  obtain ⟨c, hc⟩ := Option.isSome_iff_exists.1 ht.started
  obtain ⟨t', ht', -, hwrite⟩ := regardless_write ht hc hcheck
  exact ⟨_, _, t', ht', hwrite, isPassive_sent hline hcheck _⟩

theorem ignores_read : Ignores Sendable read := by
  intro t ht
  obtain ⟨c, hc⟩ := Option.isSome_iff_exists.1 ht.started
  obtain ⟨t', hstarted, hscript, -, htranscript, hexchanges, hread⟩ := read_of_channel_eq hc
  refine ⟨_, _, t', ⟨hstarted, ?_⟩, ⟨hread, hexchanges, ?_⟩, isPassive_ofReply _⟩
  · rw [hscript]
    exact ht.failSend
  · rw [htranscript, acceptedLines_ofReply, acceptedLines_nil, List.append_nil]

theorem ignores_sync : Ignores Sendable sync :=
  (isClosed_ignores fun _ _ _ h => ⟨h.started, h.failSend⟩).sync
    (ignores_write isFlat_sync (by decide +kernel)) ignores_read

theorem ignores_declareGlobal (key : String) {c : Command} (hplain : c.IsPlain) :
    Ignores Unread (declareGlobal key c.line) := by
  intro t ht
  have hflat := Command.IsPlain.isFlat hplain
  obtain ⟨t₁, said, ht₁, hwrite⟩ := ht.perform (.write c) hplain.isMute
  by_cases hkey : t.declared.contains key = true
  · refine ⟨.ok (), [], t, ht, ⟨fun answers => ?_, .refl t⟩, isPassive_nil⟩
    rw [declareGlobal_apply]
    exact if_pos hkey
  · refine ⟨.ok (), _, t₁.withDeclared key, ⟨⟨ht₁.started, ht₁.failSend⟩, ht₁.errors⟩,
      ⟨fun answers => ?_, hwrite.shows.exchanges, hwrite.shows.transcript⟩,
      isPassive_sent hflat (line_ne_checkSat_of_isMute hplain.isMute) said⟩
    have hrun : write c.line (t.answering answers) = _ := hwrite.run answers
    rw [declareGlobal_apply]
    refine (if_neg hkey).trans ?_
    rw [bind_apply, hrun]
    rfl

theorem ignores_declareGlobals (env : Env) (e : Expr) : Ignores Unread (declareGlobals env e) :=
  (isClosed_ignores fun _ _ _ h => ⟨⟨h.started, h.failSend⟩, h.errors⟩).declareGlobals
    fun d hd => ignores_declareGlobal d.1 (Env.isPlain_of_mem_declarations hd)

/-- A launch fails for want of a solver, or the solver has said nothing. -/
theorem start_cases (hstopped : t.channel = none) (hfail : t.world.script.failSend = []) :
    (∃ failure t', Regardless start t (.error failure) [] t') ∨
    ∃ x t', t'.Unread ∧ Regardless start t (.ok ()) x t' ∧ IsPassive x := by
  have hstart : ∀ answers, start (t.answering answers) =
      (launch >>= fun _ => write Command.scopedDeclarations.line :
        SessionM Observed Observation Unit) (t.answering answers) := by
    intro answers
    rw [start_apply, if_neg (by simp [isStarted, answering, hstopped])]
  cases hlaunch : t.world.script.failLaunch with
  | succ n =>
      refine .inl ⟨launchFailure, { t with world := { t.world with
        script := { t.world.script with failLaunch := n } } }, fun answers => ?_, ?_⟩
      · rw [hstart, bind_apply]
        simp only [launch, answering, Transport.announcement, Transport.launch,
          Observation.launch, Scripted.launch, hlaunch]
      · exact ⟨(List.append_nil _).symm, (List.append_nil _).symm⟩
  | zero =>
      let t₁ : Session Observed Observation := { t with
        world := ⟨{ t.world.script with failLaunch := 0 }, t.world.exchanges ++ [.launched]⟩
        channel := some ⟨{}⟩
        depth := 0 }
      have hlaunched : ∀ answers,
          launch (t.answering answers) = (.ok (), t₁.answering answers) := by
        intro answers
        simp only [launch, answering, Transport.announcement, Transport.launch,
          Observation.launch, Scripted.launch, hlaunch]
        rfl
      have hpassive : IsPassive [.launched] := ⟨rfl, rfl, rfl⟩
      have ht₁ : t₁.Unread := ⟨⟨rfl, hfail⟩, List.forall_mem_nil _⟩
      have hcommand : Command.scopedDeclarations.IsMute := trivial
      obtain ⟨t₂, said, ht₂, hwrite⟩ := ht₁.perform (.write .scopedDeclarations) hcommand
      refine .inr ⟨[.launched] ++ _, t₂, ht₂, ⟨fun answers => ?_, ?_⟩,
        hpassive.append (isPassive_sent isFlat_scopedDeclarations
          (line_ne_checkSat_of_isMute hcommand) said)⟩
      · rw [hstart, bind_apply, hlaunched]
        exact hwrite.run answers
      · have hshows : t.Shows [.launched] t₁ := ⟨rfl, (List.append_nil _).symm⟩
        exact hshows.trans hwrite.shows

/-- The checks of a run are those of its walk. -/
theorem firstAnswer_walk (env : Env) (e : Expr) (ht : t.Unread) : ∃ outcome x t', FirstAnswer
    (runChecker env e >>= fun summary => sync >>= fun _ => pure summary :
      SessionM Observed Observation Summary) Outcome.FailsWith 0 t outcome x t' := by
  obtain ⟨⟨outcome, p⟩, x, t', ht', hfirst⟩ :=
    firstAnswer_hold (Checker.givesUp_runDialogue env e) ht
  have hfails : ∀ fault (result : Outcome Unit × Progress) (s s' : Session Observed Observation),
      hold (Checker.runDialogue env e) s = (result, s') → Outcome.FailsWith fault result.1 →
      ∃ outcome, (runChecker env e >>= fun summary => sync >>= fun _ => pure summary :
        SessionM Observed Observation Summary) s = (outcome, s') ∧
          Outcome.FailsWith fault outcome := by
    rintro fault ⟨_, p⟩ s s' hhold ⟨failure, rfl, hfault⟩
    refine ⟨.error failure, ?_, failure, rfl, hfault⟩
    rw [bind_apply, runChecker, hhold]
    rfl
  rcases outcome with failure | u
  · refine ⟨_, _, _, hfirst.andThen (c := .error failure) (fun answers s hs => ?_) (.refl t') rfl
      hfails⟩
    rw [bind_apply, runChecker, hs]
    rfl
  · have hignores : Ignores Sendable
        (sync >>= fun _ => pure p.summary : SessionM Observed Observation Summary) :=
      (isClosed_ignores fun _ _ _ h => ⟨h.started, h.failSend⟩).andThen ignores_sync fun _ =>
        (isClosed_ignores fun _ _ _ h => ⟨h.started, h.failSend⟩).answer (.ok p.summary)
    obtain ⟨outcome, y, t₁, -, hgo, hy⟩ := hignores t' ht'
    refine ⟨outcome, _, t₁, hfirst.andThen (fun answers s hs => ?_) hgo.shows hy.checks hfails⟩
    rw [bind_apply, runChecker, hs]
    exact hgo.run answers

theorem firstAnswer_prove (env : Env) (e : Expr) (hstopped : t.channel = none)
    (hfail : t.world.script.failSend = []) :
    ∃ outcome x t', FirstAnswer (prove env e) Outcome.FailsWith 0 t outcome x t' := by
  rcases start_cases hstopped hfail with ⟨failure, t', hstart⟩ | ⟨x, t₁, ht₁, hstart, hx⟩
  · have hprove : Regardless (prove env e) t (.error failure) [] t' :=
      ⟨fun answers => prove_of_start_error (hstart.run answers), hstart.shows⟩
    exact ⟨_, _, _, .of_regardless hprove rfl⟩
  obtain ⟨outcome, y, t₂, ht₂, hdeclare, hy⟩ := ignores_declareGlobals env e t₁ ht₁
  have hprove : ∀ answers, prove env e (t.answering answers) =
      (declareGlobals env e >>= fun _ => runChecker env e >>= fun summary => sync >>= fun _ =>
        pure summary : SessionM Observed Observation Summary) (t₁.answering answers) := by
    intro answers
    rw [prove, bind_apply, hstart.run]
  have hpassive := hx.append hy
  rcases outcome with failure | u
  · have hrefused : Regardless (prove env e) t (.error failure) (x ++ y) t₂ := by
      refine ⟨fun answers => ?_, hstart.shows.trans hdeclare.shows⟩
      rw [hprove, bind_apply, hdeclare.run]
    exact ⟨_, _, _, .of_regardless hrefused hpassive.checks⟩
  · obtain ⟨outcome, z, t', hfirst⟩ := firstAnswer_walk env e ht₂
    refine ⟨outcome, _, t', hfirst.after (fun answers => ?_) (hstart.shows.trans hdeclare.shows)
      hpassive.checks ?_⟩
    · rw [hprove, bind_apply, hdeclare.run]
    · rw [hpassive.pushes, hpassive.pops]

end

/-- Of the lines that were sent where every check was answered `unsat`, this run sent those up to
the check after the first `k`, and then left the scopes that were open there. It failed with the
answer, unless what it read there was an error line or nothing. -/
def GaveUp (lines : List String) (k : Nat) (answer : Option String) (transcript : List String)
    (seen : List Exchange) (outcome : Outcome Summary) : Prop :=
  ∃ before after scopes passed reply,
    lines = before ++ Command.checkSat.line :: after ∧
    before.count Command.checkSat.line = k ∧
    before.count Command.push.line = before.count Command.pop.line + scopes ∧
    transcript = before ++ Command.checkSat.line :: List.replicate scopes Command.pop.line ∧
    acceptedLines passed = before ∧
    seen = passed ++ .sent Command.checkSat.line answer.toList :: .ofReply reply ::
      List.replicate scopes (.sent Command.pop.line []) ∧
    Outcome.FailsWith (replyFault reply) outcome ∧ IsReply answer reply

/-- A new session on a solver that gives these answers. -/
def told (script : Script) (answers : List String) : Session Solver Script :=
  { world := { script with answers } }

/-- The lines that a run sends in such a session. -/
def linesTold (script : Script) (env : Env) (e : Expr) (answers : List String) : List String :=
  (prove env e (told script answers)).2.transcript.toList

theorem acceptedLines_pops (scopes : Nat) :
    acceptedLines (List.replicate scopes (.sent Command.pop.line [])) =
      List.replicate scopes Command.pop.line := by
  exact List.filterMap_replicate_of_some (f := Exchange.accepted?) rfl

section

variable {script : Script} {env : Env} {e : Expr} {outcome : Outcome Summary} {x : List Exchange}
  {t' : Session Observed Observation}

/-- A new session on a solver whose exchanges are noted. -/
def watched (script : Script) : Session Observed Observation :=
  ({ world := script } : Session Solver Script).observe

theorem prove_told (script : Script) (env : Env) (e : Expr) (answers : List String) :
    prove env e (told script answers) =
      ((prove env e ((watched script).answering answers)).1,
        (prove env e ((watched script).answering answers)).2.forget) :=
  faithful_prove env e ((watched script).answering answers)

/-- With as many answers `unsat` as there are checks, the run is the one that does not give up. -/
theorem FirstAnswer.run_of_le
    (h : FirstAnswer (prove env e) Outcome.FailsWith 0 (watched script) outcome x t') {n : Nat}
    (hn : countOf .checkSat x ≤ n) (rest : List String) :
    linesTold script env e (unsats n ++ rest) = acceptedLines x ∧
      (prove env e (told script (unsats n ++ rest))).1 = outcome := by
  have hsplit : unsats n ++ rest =
      unsats (countOf .checkSat x) ++ (unsats (n - countOf .checkSat x) ++ rest) := by
    rw [← List.append_assoc, unsats, unsats, unsats, List.replicate_append_replicate,
      Nat.add_sub_cancel' hn]
  rw [hsplit, linesTold, prove_told, h.answered]
  exact ⟨h.shows.transcript, rfl⟩

/-- With fewer of them, and then another answer, the run gives up. -/
theorem FirstAnswer.gaveUp
    (h : FirstAnswer (prove env e) Outcome.FailsWith 0 (watched script) outcome x t') {k : Nat}
    (hk : k < countOf .checkSat x) {rest : List String} (hrest : rest.head? ≠ some "unsat") :
    GaveUp (acceptedLines x) k rest.head? (linesTold script env e (unsats k ++ rest))
      (exchanges (prove env e) (told script (unsats k ++ rest)))
      (prove env e (told script (unsats k ++ rest))).1 := by
  obtain ⟨before, after, scopes, rfl, hbefore, hheight, hlater⟩ := h.stopped k hk
  obtain ⟨reply, b, t'', hstop, hshows, hfails, hreply⟩ := hlater rest hrest
  refine ⟨acceptedLines before, acceptedLines after, scopes, before, reply, ?_, hbefore, ?_, ?_,
    rfl, ?_, ?_, hreply⟩
  · rw [acceptedLines_append, acceptedLines_sent]
  · rwa [Nat.zero_add] at hheight
  · have htranscript := hshows.transcript
    rw [acceptedLines_append, acceptedLines_sent, acceptedLines_ofReply, acceptedLines_pops]
      at htranscript
    rw [linesTold, prove_told, hstop]
    exact htranscript
  · have hexchanges := hshows.exchanges
    change (prove env e ((watched script).answering _)).2.world.exchanges = _
    rw [hstop]
    exact hexchanges
  · rw [prove_told, hstop]
    exact hfails

/-- A run whose checks are all answered `unsat` is the one that does not give up. -/
theorem FirstAnswer.countOf_le
    (h : FirstAnswer (prove env e) Outcome.FailsWith 0 (watched script) outcome x t') {n : Nat}
    (hn : (linesTold script env e (unsats n)).count Command.checkSat.line ≤ n) :
    countOf .checkSat x ≤ n := by
  by_contra hlt
  -- Otherwise it gives up at the check after these, which is one more than there are.
  have hrest : ([] : List String).head? ≠ some "unsat" := nofun
  obtain ⟨before, after, scopes, passed, reply, -, hbefore, -, htranscript, -⟩ :=
    h.gaveUp (Nat.lt_of_not_le hlt) hrest
  rw [List.append_nil] at htranscript
  rw [htranscript, List.count_append, hbefore, List.count_cons_self] at hn
  omega

end

/-- The first answer that is not `unsat` ends a run on a new session. If every check is answered
`unsat`, a run sends some lines. Told something else after the first `k` checks, it sends these
lines up to the next check and then leaves the scopes that are open there, if there is such a check,
and otherwise it sends the same lines and ends in the same. -/
theorem first_answer {script : Script} (hsend : script.failSend = []) (env : Env) (e : Expr) :
    (∃ n, (linesTold script env e (unsats n)).count Command.checkSat.line ≤ n) ∧
    ∀ n, (linesTold script env e (unsats n)).count Command.checkSat.line ≤ n →
      ∀ k rest, rest.head? ≠ some "unsat" →
        let s := told script (unsats k ++ rest)
        (k < (linesTold script env e (unsats n)).count Command.checkSat.line →
          GaveUp (linesTold script env e (unsats n)) k rest.head?
            (linesTold script env e (unsats k ++ rest)) (exchanges (prove env e) s)
            (prove env e s).1) ∧
        ((linesTold script env e (unsats n)).count Command.checkSat.line ≤ k →
          linesTold script env e (unsats k ++ rest) = linesTold script env e (unsats n) ∧
          (prove env e s).1 = (prove env e (told script (unsats n))).1) := by
  obtain ⟨outcome, x, t', hfirst⟩ := firstAnswer_prove env e (t := watched script) rfl hsend
  refine ⟨⟨countOf .checkSat x, ?_⟩, fun n hn k rest hrest => ?_⟩
  · have hlines := (hfirst.run_of_le (Nat.le_refl _) []).1
    rw [List.append_nil] at hlines
    exact Nat.le_of_eq (congrArg (List.count Command.checkSat.line) hlines)
  · obtain ⟨hlines, houtcome⟩ := hfirst.run_of_le (hfirst.countOf_le hn) []
    rw [List.append_nil] at hlines houtcome
    rw [hlines, houtcome]
    exact ⟨fun hk => hfirst.gaveUp hk hrest, fun hk => hfirst.run_of_le hk rest⟩

/-- A call whose precondition is not proved: of these lines the run sends those up to the check. -/
def provedLines : List String := [
  "(set-option :global-declarations false)", "(push 1)", "(push 1)", "(assert (not (= 3 3)))",
  "(check-sat)", "(pop 1)", "(declare-const _i0 Int)", "(pop 1)", "(echo \"refine-sync\")"]

theorem first_answer_sat :
    GaveUp provedLines 0 (some "sat") (provedLines.take 5 ++ ["(pop 1)", "(pop 1)"])
      (exchanges (prove Sample.env Sample.call) (told {} ["sat"]))
      (prove Sample.env Sample.call (told {} ["sat"])).1 := by
  have hsend : ({} : Script).failSend = [] := rfl
  have hproved : linesTold {} Sample.env Sample.call (unsats 1) = provedLines := by
    rw [linesTold, prove_eq_proveWithin Sample.depthLimit_call]
    rfl
  have hrefuted : linesTold {} Sample.env Sample.call ["sat"] =
      provedLines.take 5 ++ ["(pop 1)", "(pop 1)"] := by
    rw [linesTold, prove_eq_proveWithin Sample.depthLimit_call]
    rfl
  have hcount : provedLines.count Command.checkSat.line = 1 := by decide +kernel
  obtain ⟨-, hall⟩ := first_answer hsend Sample.env Sample.call
  have hchecks := hall 1
  rw [hproved, hcount] at hchecks
  have hfirst := (hchecks (Nat.le_refl 1) 0 ["sat"] (by decide)).1 Nat.one_pos
  rw [← hrefuted]
  exact hfirst

end Session

end ContractCheck
