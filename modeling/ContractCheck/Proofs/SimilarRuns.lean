import ContractCheck.Proofs.Events
import ContractCheck.Proofs.Operations
import ContractCheck.Proofs.Similarity

/-!
What sessions do that carry similar dialogues out. If every line is accepted in both
(`Session.IsObliging`) and the checks have the same answers, they send the same lines, but for those
of the name that the first may give to a term, and after these for the names of fresh variables and
the terms of assertions (`Dialogue.Similar.runAlike`).
-/

namespace ContractCheck

section

variable {τ ω α : Type} [Transport τ ω]

/-- Lines that are sent and answers that are read bring a channel and its world from one state to
the other. -/
inductive Transport.Leads : τ → ω → τ → ω → Prop where
  | refl (c : τ) (w : ω) : Leads c w c w
  | send {c c' : τ} {w w' : ω} (line : String)
      (h : Leads (Transport.send line c w).2.1 (Transport.send line c w).2.2 c' w') :
      Leads c w c' w'
  | receive {c c' : τ} {w w' : ω}
      (h : Leads (Transport.receive c w).2.1 (Transport.receive c w).2.2 c' w') : Leads c w c' w'

namespace Session

/-- The session is started, and its transport accepts every line from here on. -/
def IsObliging (s : Session τ ω) : Prop :=
  ∃ c, s.channel = some c ∧ ∀ c' w', Transport.Leads c s.world c' w' →
    ∀ line, (Transport.send line c' w').1 = .ok ()

theorem IsObliging.congr {s s' : Session τ ω} (h : s.IsObliging) (hchannel : s'.channel = s.channel)
    (hworld : s'.world = s.world) : s'.IsObliging := by
  unfold IsObliging
  rwa [hchannel, hworld]

theorem IsObliging.write {s : Session τ ω} (h : s.IsObliging) (line : String) :
    ∃ s', Session.write line s = (.ok (), s') ∧ s'.IsObliging ∧ s'.depth = s.depth ∧
      s'.transcript = s.transcript.push line := by
  obtain ⟨c, hc, haccepts⟩ := h
  rcases hsend : Transport.send line c s.world with ⟨outcome, c', w'⟩
  have hok := haccepts c s.world (.refl c s.world) line
  rw [hsend] at hok
  obtain rfl : outcome = .ok () := hok
  rw [write_of_accepted hc hsend]
  refine ⟨_, rfl, ⟨c', rfl, fun c'' w'' hleads => ?_⟩, rfl, rfl⟩
  refine haccepts c'' w'' (.send line ?_)
  rwa [hsend]

/-- Whatever is done has no failure, and enters the transcript. -/
theorem IsObliging.perform {s : Session τ ω} (h : s.IsObliging) (deed : Deed) :
    ∃ s', Session.perform deed s = (.ok (), s') ∧ s'.IsObliging ∧
      s'.transcript = s.transcript.push deed.command.line := by
  cases deed with
  | write command =>
      obtain ⟨s', hwrite, hs', -, hline⟩ := h.write command.line
      exact ⟨s', hwrite, hs', hline⟩
  | push =>
      obtain ⟨s', hwrite, hs', -, hline⟩ := h.write Command.push.line
      refine ⟨{ s' with depth := s'.depth + 1 }, ?_, hs'.congr rfl rfl, hline⟩
      rw [Session.perform, push, bind_apply, hwrite]
      rfl
  | pop =>
      have hleft : s.leaveScope.IsObliging := h.congr rfl rfl
      obtain ⟨s', hwrite, hs', -, hline⟩ := hleft.write Command.pop.line
      exact ⟨s', hwrite, hs', hline⟩

theorem IsObliging.checkSat {s : Session τ ω} (h : s.IsObliging) :
    (Session.checkSat s).2.IsObliging ∧
      (Session.checkSat s).2.transcript = s.transcript.push Command.checkSat.line := by
  obtain ⟨s₁, hwrite, ⟨c, hc, haccepts⟩, -, hline⟩ := h.write Command.checkSat.line
  have hread : Session.checkSat s = read s₁ := by
    rw [Session.checkSat, bind_apply, hwrite]
  obtain ⟨log, hs'⟩ := read_of_channel hc
  rw [hread, hs']
  exact ⟨⟨_, rfl, fun c' w' hleads => haccepts c' w' (.receive hleads)⟩, hline⟩

end Session

/-- What was read for a check. -/
def Event.answer? : Event → Option (Outcome String)
  | .did _ _ => none
  | .answered outcome => some outcome

/-- The answers to the checks while the dialogue is carried out. -/
def Session.heard (d : Dialogue α) (s : Session τ ω) : List (Outcome String) :=
  (s.events d).filterMap Event.answer?

theorem Session.heard_act {deed : Deed} {next : Outcome Unit → Dialogue α} {s s' : Session τ ω}
    {outcome : Outcome Unit} (h : perform deed s = (outcome, s')) :
    heard (.act deed next) s = heard (next outcome) s' := by
  simp only [heard, events, h]
  rfl

theorem Session.heard_checkSat (next : Outcome String → Dialogue α) (s : Session τ ω) :
    heard (.checkSat next) s =
      (checkSat s).1 :: heard (next (checkSat s).1) (checkSat s).2 := rfl

end

/-- One of the runs got the answers that the other got, and perhaps more. -/
def SameAnswers (answers answers' : List (Outcome String)) : Prop :=
  answers <+: answers' ∨ answers' <+: answers

theorem SameAnswers.cons_iff {answer answer' : Outcome String}
    {answers answers' : List (Outcome String)} :
    SameAnswers (answer :: answers) (answer' :: answers') ↔
      answer = answer' ∧ SameAnswers answers answers' := by
  unfold SameAnswers
  rw [List.cons_prefix_cons, List.cons_prefix_cons, eq_comm (a := answer'), ← and_or_left]

/-- The same command, but for the name of a fresh variable or what is asserted. -/
inductive Command.Like : Command → Command → Prop where
  | refl (c : Command) : Like c c
  | fresh {name name' : String} (sort : String) (hname : IsFresh name) (hname' : IsFresh name') :
      Like (.declareConst name sort) (.declareConst name' sort)
  | assert (term term' : Term) : Like (.assert term) (.assert term')

/-- What was sent on the way from one gap to the other: the same until the first names something,
and like commands from there on. -/
def Differ (naming naming' : Option Naming) (commands commands' : List Command) : Prop :=
  match naming, naming' with
  | none, none => commands = commands'
  | none, some x => ∃ before after after', commands = before ++ (x.commands ++ after) ∧
    commands' = before ++ after' ∧ List.Forall₂ Command.Like after after'
  | some x, naming' => naming' = some x ∧ List.Forall₂ Command.Like commands commands'

theorem Differ.refl (naming : Option Naming) : Differ naming naming [] [] := by
  cases naming with
  | none => rfl
  | some x => exact ⟨rfl, .nil⟩

theorem Differ.cons {naming naming' : Option Naming} {commands commands' : List Command}
    (h : Differ naming naming' commands commands') {c c' : Command} (hlike : c.Like c')
    (heq : naming = none → c = c') : Differ naming naming' (c :: commands) (c' :: commands') := by
  rcases naming with _ | x
  · obtain rfl := heq rfl
    rcases naming' with _ | x
    · exact congrArg (c :: ·) h
    · obtain ⟨before, after, after', rfl, rfl, hafter⟩ := h
      exact ⟨c :: before, after, after', rfl, rfl, hafter⟩
  · exact ⟨h.1, .cons hlike h.2⟩

theorem Differ.name {x : Naming} {naming' : Option Naming} {commands commands' : List Command}
    (h : Differ (some x) naming' commands commands') :
    Differ none naming' (x.commands ++ commands) commands' := by
  obtain ⟨rfl, hlike⟩ := h
  exact ⟨[], commands, commands', rfl, rfl, hlike⟩

theorem isFresh_next (names : FreshNames) (sort : SolverSort) :
    IsFresh (names.next sort.tag).1 := ⟨sort, _, rfl⟩

namespace Session

variable {τ ω α α' : Type}

/-- Since they were as given first, the sessions have sent lines that differ so. -/
def HaveSent (s t s' t' : Session τ ω) (naming naming' : Option Naming) : Prop :=
  ∃ commands commands', Differ naming naming' commands commands' ∧
    s'.transcript.toList = s.transcript.toList ++ commands.map Command.line ∧
    t'.transcript.toList = t.transcript.toList ++ commands'.map Command.line

variable {s s₁ s' t t₁ t' : Session τ ω} {naming naming' : Option Naming}

theorem HaveSent.cons (h : HaveSent s₁ t₁ s' t' naming naming') {c c' : Command}
    (hs : s₁.transcript = s.transcript.push c.line) (ht : t₁.transcript = t.transcript.push c'.line)
    (hlike : c.Like c') (heq : naming = none → c = c') : HaveSent s t s' t' naming naming' := by
  obtain ⟨commands, commands', hdiffer, hlines, hlines'⟩ := h
  refine ⟨c :: commands, c' :: commands', hdiffer.cons hlike heq, ?_, ?_⟩
  · rw [hlines, hs, Array.toList_push, List.append_assoc]
    rfl
  · rw [hlines', ht, Array.toList_push, List.append_assoc]
    rfl

theorem HaveSent.name {x : Naming} (h : HaveSent s₁ t s' t' (some x) naming')
    (hs : s₁.transcript.toList = s.transcript.toList ++ x.commands.map Command.line) :
    HaveSent s t s' t' none naming' := by
  obtain ⟨commands, commands', hdiffer, hlines, hlines'⟩ := h
  refine ⟨x.commands ++ commands, commands', hdiffer.name, ?_, hlines'⟩
  rw [hlines, hs, List.map_append, List.append_assoc]

variable [Transport τ ω]

/-- Carried out in obliging sessions with the same answers, the dialogues end as the postcondition
says and send lines that differ as the gaps do. -/
def RunAlike (τ : Type) {ω : Type} [Transport τ ω] (post : α → α' → Gap → Prop) (gap : Gap)
    (d : Dialogue α) (d' : Dialogue α') : Prop :=
  ∀ s t : Session τ ω, s.IsObliging → t.IsObliging → SameAnswers (heard d s) (heard d' t) →
    ∃ gap', post (hold d s).1 (hold d' t).1 gap' ∧
      HaveSent s t (hold d s).2 (hold d' t).2 gap.naming gap'.naming

theorem hold_act {deed : Deed} {next : Outcome Unit → Dialogue α} {outcome : Outcome Unit}
    (h : perform deed s = (outcome, s')) : hold (.act deed next) s = hold (next outcome) s' := by
  simp only [hold, h]

theorem hold_checkSat (next : Outcome String → Dialogue α) (s : Session τ ω) :
    hold (.checkSat next) s = hold (next (checkSat s).1) (checkSat s).2 := rfl

variable {post : α → α' → Gap → Prop} {gap gap₁ : Gap}

theorem RunAlike.act {deed deed' : Deed} {next : Outcome Unit → Dialogue α}
    {next' : Outcome Unit → Dialogue α'}
    (h : RunAlike τ post gap₁ (next (.ok ())) (next' (.ok ()))) (hgap : gap₁.naming = gap.naming)
    (hlike : deed.command.Like deed'.command)
    (heq : gap.naming = none → deed.command = deed'.command) :
    RunAlike τ post gap (.act deed next) (.act deed' next') := by
  intro s t hs ht hanswers
  obtain ⟨s₁, hperform, hs₁, hline⟩ := hs.perform deed
  obtain ⟨t₁, hperform', ht₁, hline'⟩ := ht.perform deed'
  rw [heard_act hperform, heard_act hperform'] at hanswers
  rw [hold_act hperform, hold_act hperform']
  obtain ⟨gap', hpost, hsent⟩ := h s₁ t₁ hs₁ ht₁ hanswers
  rw [hgap] at hsent
  exact ⟨gap', hpost, hsent.cons hline hline' hlike heq⟩

end Session

open Session in
/-- Similar dialogues are carried out alike. -/
theorem Dialogue.Similar.runAlike {τ ω α α' : Type} [Transport τ ω] {lets : String → Prop}
    {post : α → α' → Gap → Prop} {gap : Gap} {d : Dialogue α} {d' : Dialogue α'}
    (h : d.Similar lets post gap d') (hgap : gap.IsOrderly) : RunAlike τ post gap d d' := by
  induction h with
  | @done gap a a' h =>
      intro s t _ _ _
      exact ⟨gap, h, [], [], .refl _, by simp [hold], by simp [hold]⟩
  | note text _ ih =>
      intro s t hs ht hanswers
      exact ih hgap (s.record .debug text) (t.record .debug text) (hs.congr rfl rfl)
        (ht.congr rfl rfl) hanswers
  | declare hname sort _ ih => exact (ih hgap).act rfl (.refl _) fun _ => rfl
  | @fresh gap sort next next' _ ih =>
      refine (ih (hgap.fresh sort)).act rfl (.fresh _ (isFresh_next _ _) (isFresh_next _ _)) ?_
      intro hnaming
      simp only [Deed.command]
      rw [hgap hnaming]
  | assert hterm _ ih =>
      refine (ih hgap).act rfl (.assert _ _) fun hnaming => ?_
      rw [hterm hnaming]
  | push _ ih => exact (ih hgap).act rfl (.refl _) fun _ => rfl
  | pop _ ih => exact (ih hgap).act rfl (.refl _) fun _ => rfl
  | @checkSat gap next next' _ ih =>
      intro s t hs ht hanswers
      rw [heard_checkSat, heard_checkSat, SameAnswers.cons_iff] at hanswers
      obtain ⟨houtcome, hanswers⟩ := hanswers
      rw [← houtcome] at hanswers
      obtain ⟨hs₁, hline⟩ := hs.checkSat
      obtain ⟨ht₁, hline'⟩ := ht.checkSat
      obtain ⟨gap', hpost, hsent⟩ := ih _ hgap _ _ hs₁ ht₁ hanswers
      rw [hold_checkSat, hold_checkSat, ← houtcome]
      exact ⟨gap', hpost, hsent.cons hline hline' (.refl _) fun _ => rfl⟩
  | @name gap hnaming sort term next next₁ d' hnext _ ih =>
      intro s t hs ht hanswers
      obtain ⟨s₁, hdeclare, hs₁, hline⟩ :=
        hs.perform (.write (.declareConst (gap.names.next sort.tag).1 sort.display))
      obtain ⟨s₂, hassert, hs₂, hline'⟩ :=
        hs₁.perform (.write (.assert (.eq (.symbol (gap.names.next sort.tag).1) term)))
      rw [heard_act hdeclare, hnext, heard_act hassert] at hanswers
      rw [hold_act hdeclare, hnext, hold_act hassert, hnaming]
      have horderly : (gap.name sort term).IsOrderly := by
        intro hnone
        cases hnone
      obtain ⟨gap', hpost, hsent⟩ := ih horderly s₂ t hs₂ ht hanswers
      refine ⟨gap', hpost, hsent.name ?_⟩
      rw [hline', hline]
      simp [Naming.commands, Deed.command]

end ContractCheck
