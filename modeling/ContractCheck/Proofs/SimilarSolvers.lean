import ContractCheck.Proofs.Lockstep
import ContractCheck.Proofs.SimilarRuns
import ContractCheck.Proofs.SolverNames

/-!
Why the answers are the same. A scripted solver answers a check from its script unless something it
refused is still to be read, and it refuses nothing but names that it holds. The names of fresh
variables are never given twice, so where no let has the form of such a name, similar dialogues get
the same answers (`Dialogue.Similar.heardAlike`).
-/

namespace ContractCheck

open Scripted

namespace FreshNames

/-- The name is one of those given so far. -/
def Issued (names : FreshNames) (name : String) : Prop :=
  ∃ tag index, index < names.issued.count tag ∧ name = nameOf tag index

theorem nameOf_inj {tag tag' : Char} {index index' : Nat}
    (h : nameOf tag index = nameOf tag' index') : tag = tag' ∧ index = index' := by
  have hchars := congrArg String.toList h
  simp only [nameOf, String.toList_append, String.toList_ofList, List.cons_append,
    List.nil_append, List.cons.injEq, true_and] at hchars
  obtain ⟨htag, hdigits⟩ := hchars
  have hnumeral : some index = some index' := by
    rw [← Smt.numeral?_toString, ← Smt.numeral?_toString, String.toList_injective hdigits]
  exact ⟨htag, Option.some.inj hnumeral⟩

theorem issued_next (names : FreshNames) (tag : Char) :
    (names.next tag).2.Issued (names.next tag).1 :=
  ⟨tag, names.issued.count tag, by simp [next], rfl⟩

/-- The next name has not been given before. -/
theorem not_issued_next (names : FreshNames) (tag : Char) :
    ¬ names.Issued (names.next tag).1 := by
  rintro ⟨tag', index, hlt, hname⟩
  obtain ⟨rfl, rfl⟩ := nameOf_inj hname
  exact Nat.lt_irrefl _ hlt

theorem Issued.next {names : FreshNames} {name : String} (h : names.Issued name) (tag : Char) :
    (names.next tag).2.Issued name := by
  obtain ⟨tag', index, hlt, hname⟩ := h
  exact ⟨tag', index, Nat.lt_of_lt_of_le hlt List.count_le_count_cons, hname⟩

end FreshNames

theorem firstWord_next (names : FreshNames) (sort : SolverSort) :
    firstWord (names.next sort.tag).1 = (names.next sort.tag).1 :=
  firstWord_eq_self fun c hc => ((isWord_of_isPlainName (isPlainName_next names sort)).2 c hc).1

namespace Scripted

/-- What the solver holds that has the form of a fresh variable's name is one of these names. -/
def Solver.HoldsIssued (a : Solver) (names : FreshNames) : Prop :=
  ∀ name, a.holds name = true → IsFresh name → names.Issued name

namespace Solver.HoldsIssued

variable {a : Solver} {names : FreshNames}

theorem declare (h : a.HoldsIssued names) {word : String} (hword : ¬ IsFresh word) :
    (a.declare word).HoldsIssued names := by
  intro name hholds hfresh
  rcases eq_or_holds_of_declare hholds with rfl | hheld
  · exact absurd hfresh hword
  · exact h name hheld hfresh

/-- A fresh variable is declared under the next name. -/
theorem next (h : a.HoldsIssued names) (tag : Char) :
    (a.declare (names.next tag).1).HoldsIssued (names.next tag).2 := by
  intro name hholds hfresh
  rcases eq_or_holds_of_declare hholds with rfl | hheld
  · exact names.issued_next tag
  · exact (h name hheld hfresh).next tag

theorem not_holds (h : a.HoldsIssued names) (sort : SolverSort) :
    a.holds (names.next sort.tag).1 = false := by
  rw [Bool.eq_false_iff]
  intro hholds
  exact names.not_issued_next sort.tag (h _ hholds (isFresh_next names sort))

theorem push (h : a.HoldsIssued names) : a.push.HoldsIssued names := by
  intro name hholds
  refine h name ?_
  simpa [Solver.holds, Solver.push] using hholds

theorem pop (h : a.HoldsIssued names) : a.pop.HoldsIssued names := by
  intro name hholds
  refine h name ?_
  obtain ⟨output, scopes⟩ := a
  rcases scopes with _ | ⟨inner, _ | ⟨scope, rest⟩⟩
  · exact hholds
  · exact hholds
  · simp only [Solver.holds, Solver.pop] at hholds
    rw [Solver.holds, List.any_cons, hholds, Bool.or_true]

end Solver.HoldsIssued

/-- The solvers are the same but for fresh variables, and each holds such as its walk declared. -/
structure Paired (gap : Gap) (a b : Solver) : Prop where
  same : SameBut IsFresh a b
  issued : a.HoldsIssued gap.names
  issued' : b.HoldsIssued gap.names'

namespace Paired

variable {gap : Gap} {a b : Solver}

theorem say (h : Paired gap a b) (text : String) : Paired gap (a.say text) (b.say text) :=
  ⟨h.same.say text, h.issued, h.issued'⟩

theorem push (h : Paired gap a b) : Paired gap a.push b.push :=
  ⟨h.same.push, h.issued.push, h.issued'.push⟩

theorem pop (h : Paired gap a b) : Paired gap a.pop b.pop :=
  ⟨h.same.pop, h.issued.pop, h.issued'.pop⟩

theorem declare (h : Paired gap a b) {word : String} (hword : ¬ IsFresh word) :
    Paired gap (a.declare word) (b.declare word) :=
  ⟨h.same.declare hword, h.issued.declare hword, h.issued'.declare hword⟩

theorem name (h : Paired gap a b) (sort : SolverSort) (term : Term) :
    Paired (gap.name sort term) (a.declare (gap.names.next sort.tag).1) b :=
  ⟨h.same.declare_left (isFresh_next _ _) (h.issued.not_holds sort), h.issued.next sort.tag,
    h.issued'⟩

theorem fresh (h : Paired gap a b) (sort : SolverSort) :
    Paired (gap.fresh sort) (a.declare (gap.names.next sort.tag).1)
      (b.declare (gap.names'.next sort.tag).1) := by
  refine ⟨?_, h.issued.next sort.tag, h.issued'.next sort.tag⟩
  have hleft := h.same.declare_left (isFresh_next gap.names sort) (h.issued.not_holds sort)
  exact (hleft.symm.declare_left (isFresh_next gap.names' sort) (h.issued'.not_holds sort)).symm

end Paired

/-- Lines that, obeyed one by each solver, keep the solvers alike. -/
def KeepPaired (gap gap' : Gap) (line line' : String) : Prop :=
  ∀ a b answers, Paired gap a b → (obey line a answers).2 = (obey line' b answers).2 ∧
    Paired gap' (obey line a answers).1 (obey line' b answers).1

/-- A line that, obeyed by the first solver alone, keeps the solvers alike. -/
def KeepsPaired (gap gap' : Gap) (line : String) : Prop :=
  ∀ a b answers, Paired gap a b → (obey line a answers).2 = answers ∧
    Paired gap' (obey line a answers).1 b

variable {gap : Gap}

theorem keepPaired_push : KeepPaired gap gap Command.push.line Command.push.line :=
  fun _ _ _ h => ⟨rfl, h.push⟩

theorem keepPaired_pop : KeepPaired gap gap Command.pop.line Command.pop.line :=
  fun _ _ _ h => ⟨rfl, h.pop⟩

theorem keepPaired_checkSat : KeepPaired gap gap Command.checkSat.line Command.checkSat.line := by
  intro a b answers h
  cases answers with
  | nil => exact ⟨rfl, h⟩
  | cons answer rest => exact ⟨rfl, h.say answer⟩

theorem keepPaired_declare {name : String} (hname : ¬ IsFresh (firstWord name)) (sort : String) :
    KeepPaired gap gap (Command.declareConst name sort).line
      (Command.declareConst name sort).line := by
  intro a b answers h
  rw [obey_declare rfl, obey_declare rfl]
  exact ⟨rfl, h.declare hname⟩

theorem keepPaired_fresh (sort : SolverSort) : KeepPaired gap (gap.fresh sort)
    (Command.declareConst (gap.names.next sort.tag).1 sort.display).line
    (Command.declareConst (gap.names'.next sort.tag).1 sort.display).line := by
  intro a b answers h
  rw [obey_declare rfl, obey_declare rfl, firstWord_next, firstWord_next]
  exact ⟨rfl, h.fresh sort⟩

theorem keepPaired_assert (term term' : Term) :
    KeepPaired gap gap (Command.assert term).line (Command.assert term').line := by
  intro a b answers h
  rw [obey_assert, obey_assert]
  exact ⟨rfl, h⟩

theorem keepsPaired_name (sort : SolverSort) (term : Term) : KeepsPaired gap (gap.name sort term)
    (Command.declareConst (gap.names.next sort.tag).1 sort.display).line := by
  intro a b answers h
  rw [obey_declare rfl, firstWord_next]
  exact ⟨rfl, h.name sort term⟩

theorem keepsPaired_assert (term : Term) : KeepsPaired gap gap (Command.assert term).line := by
  intro a b answers h
  rw [obey_assert]
  exact ⟨rfl, h⟩

end Scripted

namespace Session

variable {s t : Session Solver Script} {gap gap' : Gap}

theorem send_of_unfailing {w : Script} (hfail : w.failSend = []) (line : String) (a : Solver) :
    Transport.send line a w = (.ok (), (obey line a w.answers).1,
      { w with answers := (obey line a w.answers).2, sent := w.sent.push line }) := by
  have hline : line ∉ w.failSend := by
    rw [hfail]
    exact List.not_mem_nil
  exact if_neg hline

/-- If the script lets no line fail, every line is accepted. -/
theorem isObliging_of_unfailing {a : Solver} (hs : s.channel = some a)
    (hfail : s.world.failSend = []) : s.IsObliging := by
  refine ⟨a, hs, fun c w hleads => ?_⟩
  clear hs
  generalize s.world = w₀ at hfail hleads
  induction hleads with
  | refl c w =>
      intro line
      rw [send_of_unfailing hfail]
  | send line _ ih =>
      refine ih ?_
      rw [send_of_unfailing hfail]
      exact hfail
  | @receive c c' w w' _ ih =>
      refine ih ?_
      obtain ⟨output, scopes⟩ := c
      cases output with
      | nil => exact hfail
      | cons text rest => exact hfail

/-- The sessions go on alike: every line is accepted, the answers to come are the same, and the
solvers differ in fresh variables alone. -/
structure Paired (gap : Gap) (s t : Session Solver Script) : Prop where
  answers : s.world.answers = t.world.answers
  sendable : s.world.failSend = []
  sendable' : t.world.failSend = []
  solvers : ∃ a b, s.channel = some a ∧ t.channel = some b ∧ Scripted.Paired gap a b

/-- What is counted and noted does not matter. -/
theorem Paired.congr (h : Paired gap s t) {s' t' : Session Solver Script}
    (hs : s'.world = s.world ∧ s'.channel = s.channel)
    (ht : t'.world = t.world ∧ t'.channel = t.channel) : Paired gap s' t' := by
  obtain ⟨hsworld, hschannel⟩ := hs
  obtain ⟨htworld, htchannel⟩ := ht
  refine ⟨?_, ?_, ?_, ?_⟩
  · rw [hsworld, htworld, h.answers]
  · rw [hsworld, h.sendable]
  · rw [htworld, h.sendable']
  · rw [hschannel, htchannel]
    exact h.solvers

theorem write_of_unfailing {a : Solver} (hs : s.channel = some a) (hfail : s.world.failSend = [])
    (line : String) : ∃ s', write line s = (.ok (), s') ∧
      s'.channel = some (obey line a s.world.answers).1 ∧
      s'.world.answers = (obey line a s.world.answers).2 ∧ s'.world.failSend = [] := by
  rw [write_of_accepted hs (send_of_unfailing hfail line a)]
  exact ⟨_, rfl, rfl, rfl, hfail⟩

theorem Paired.write (h : Paired gap s t) {line line' : String}
    (hlines : KeepPaired gap gap' line line') :
    ∃ s' t', Session.write line s = (.ok (), s') ∧ Session.write line' t = (.ok (), t') ∧
      Paired gap' s' t' := by
  obtain ⟨a, b, ha, hb, hab⟩ := h.solvers
  obtain ⟨s', hwrite, hchannel, hanswers, hsendable⟩ := write_of_unfailing ha h.sendable line
  obtain ⟨t', hwrite', hchannel', hanswers', hsendable'⟩ := write_of_unfailing hb h.sendable' line'
  obtain ⟨hleft, hpaired⟩ := hlines a b s.world.answers hab
  rw [← h.answers] at hchannel' hanswers'
  refine ⟨s', t', hwrite, hwrite', ?_, hsendable, hsendable', _, _, hchannel, hchannel', hpaired⟩
  rw [hanswers, hanswers', hleft]

/-- A line that is sent in the first session alone. -/
theorem Paired.write_left (h : Paired gap s t) {line : String}
    (hline : KeepsPaired gap gap' line) :
    ∃ s', Session.write line s = (.ok (), s') ∧ Paired gap' s' t := by
  obtain ⟨a, b, ha, hb, hab⟩ := h.solvers
  obtain ⟨s', hwrite, hchannel, hanswers, hsendable⟩ := write_of_unfailing ha h.sendable line
  obtain ⟨hleft, hpaired⟩ := hline a b s.world.answers hab
  refine ⟨s', hwrite, ?_, hsendable, h.sendable', _, b, hchannel, hb, hpaired⟩
  rw [hanswers, hleft, h.answers]

theorem Paired.read (h : Paired gap s t) :
    (Session.read s).1 = (Session.read t).1 ∧
      Paired gap (Session.read s).2 (Session.read t).2 := by
  obtain ⟨⟨output, scopes⟩, ⟨output', scopes'⟩, hs, ht, ⟨⟨rfl, hscopes⟩, hissued, hissued'⟩⟩ :=
    h.solvers
  have hpaired : ∀ rest, Scripted.Paired gap ⟨rest, scopes⟩ ⟨rest, scopes'⟩ := fun rest =>
    ⟨⟨rfl, hscopes⟩, hissued, hissued'⟩
  cases output with
  | nil =>
      simp only [Session.read, hs, ht, Transport.receive, receive, true_and]
      exact ⟨h.answers, h.sendable, h.sendable', _, _, rfl, rfl, hpaired []⟩
  | cons line rest =>
      simp only [Session.read, hs, ht, Transport.receive, receive]
      split
      · exact ⟨rfl, h.answers, h.sendable, h.sendable', _, _, rfl, rfl, hpaired rest⟩
      · exact ⟨rfl, h.answers, h.sendable, h.sendable', _, _, rfl, rfl, hpaired rest⟩

/-- A check is answered alike. -/
theorem Paired.checkSat (h : Paired gap s t) :
    (Session.checkSat s).1 = (Session.checkSat t).1 ∧
      Paired gap (Session.checkSat s).2 (Session.checkSat t).2 := by
  obtain ⟨s₁, t₁, hwrite, hwrite', hpaired⟩ := h.write keepPaired_checkSat
  rw [Session.checkSat, bind_apply, bind_apply, hwrite, hwrite']
  exact hpaired.read

variable {α α' : Type} {d : Dialogue α} {d' : Dialogue α'}

/-- Carried out in sessions that go on alike, the dialogues get the same answers. -/
def HeardAlike (gap : Gap) (d : Dialogue α) (d' : Dialogue α') : Prop :=
  ∀ s t : Session Solver Script, Paired gap s t → heard d s = heard d' t

variable {next : Outcome Unit → Dialogue α} {next' : Outcome Unit → Dialogue α'}

theorem HeardAlike.write (h : HeardAlike gap' (next (.ok ())) (next' (.ok ())))
    {c c' : Command} (hlines : KeepPaired gap gap' c.line c'.line) :
    HeardAlike gap (.act (.write c) next) (.act (.write c') next') := by
  intro s t hst
  obtain ⟨s', t', hwrite, hwrite', hpaired⟩ := hst.write hlines
  have hperform : perform (.write c) s = (.ok (), s') := hwrite
  have hperform' : perform (.write c') t = (.ok (), t') := hwrite'
  rw [heard_act hperform, heard_act hperform']
  exact h s' t' hpaired

theorem HeardAlike.push (h : HeardAlike gap (next (.ok ())) (next' (.ok ()))) :
    HeardAlike gap (.act .push next) (.act .push next') := by
  intro s t hst
  obtain ⟨s', t', hwrite, hwrite', hpaired⟩ := hst.write keepPaired_push
  have hperform : perform .push s = (.ok (), { s' with depth := s'.depth + 1 }) := by
    rw [perform, Session.push, bind_apply, hwrite]
    rfl
  have hperform' : perform .push t = (.ok (), { t' with depth := t'.depth + 1 }) := by
    rw [perform, Session.push, bind_apply, hwrite']
    rfl
  rw [heard_act hperform, heard_act hperform']
  exact h _ _ (hpaired.congr ⟨rfl, rfl⟩ ⟨rfl, rfl⟩)

theorem HeardAlike.pop (h : HeardAlike gap (next (.ok ())) (next' (.ok ()))) :
    HeardAlike gap (.act .pop next) (.act .pop next') := by
  intro s t hst
  have hleft : Paired gap s.leaveScope t.leaveScope := hst.congr ⟨rfl, rfl⟩ ⟨rfl, rfl⟩
  obtain ⟨s', t', hwrite, hwrite', hpaired⟩ := hleft.write keepPaired_pop
  have hperform : perform .pop s = (.ok (), s') := hwrite
  have hperform' : perform .pop t = (.ok (), t') := hwrite'
  rw [heard_act hperform, heard_act hperform']
  exact h s' t' hpaired

end Session

open Session in
/-- Similar dialogues get the same answers if no let has the form of a fresh variable's name. -/
theorem Dialogue.Similar.heardAlike {α α' : Type} {lets : String → Prop}
    {post : α → α' → Gap → Prop} {gap : Gap} {d : Dialogue α} {d' : Dialogue α'}
    (h : d.Similar lets post gap d') (hlets : ∀ name, lets name → ¬ IsFresh (firstWord name)) :
    HeardAlike gap d d' := by
  induction h with
  | done => exact fun _ _ _ => rfl
  | note text _ ih =>
      intro s t hst
      exact ih (s.record .debug text) (t.record .debug text) (hst.congr ⟨rfl, rfl⟩ ⟨rfl, rfl⟩)
  | declare hname sort _ ih => exact ih.write (keepPaired_declare (hlets _ hname) sort)
  | fresh sort _ ih => exact ih.write (keepPaired_fresh sort)
  | assert _ _ ih => exact ih.write (keepPaired_assert _ _)
  | push _ ih => exact ih.push
  | pop _ ih => exact ih.pop
  | checkSat _ ih =>
      intro s t hst
      obtain ⟨houtcome, hpaired⟩ := hst.checkSat
      rw [heard_checkSat, heard_checkSat, ← houtcome]
      exact congrArg _ (ih _ _ _ hpaired)
  | @name gap _ sort term next next₁ d' hnext _ ih =>
      intro s t hst
      obtain ⟨s₁, hdeclare, hnamed⟩ := hst.write_left (keepsPaired_name sort term)
      obtain ⟨s₂, hassert, hpaired⟩ := hnamed.write_left
        (keepsPaired_assert (.eq (.symbol (gap.names.next sort.tag).1) term))
      have hperform : perform (.write _) s = (.ok (), s₁) := hdeclare
      have hperform' : perform (.write _) s₁ = (.ok (), s₂) := hassert
      rw [heard_act hperform, hnext, heard_act hperform']
      exact ih s₂ t hpaired

end ContractCheck
