import ContractCheck.Proofs.Settled

/-!
A session that was just launched beside one that was used before. The first has yet to make the
declarations that the second can skip. As long as no sort has the name of a global it makes them
without a dispute (`Session.catchingUp_declareGlobal`), and once it has caught up, the two solvers
differ in sorts alone (`Session.CatchingUp.alike`).
-/

namespace ContractCheck

open Scripted

namespace Env

/-- The names that a run of the expression may give to what it declares, sorts aside: those of
globals, of lets and of fresh variables. -/
def Declarable (env : Env) (e : Expr) (name : String) : Prop :=
  (∃ d ∈ signatureDeclarations env.entries, d.2.declared? = some name) ∨
    name ∈ env.letNames ∨ name ∈ e.letNames ∨ IsFresh name

/-- The solver takes no sort of these runs for anything else that a run of the expression
declares. -/
def SortsApart (env : Env) (es : List Expr) (e : Expr) : Prop :=
  ∀ sort name, env.Mentions es sort → env.Declarable e name → sort ≠ firstWord name

variable {env : Env} {es : List Expr} {e : Expr}

theorem SortsApart.not_mentions (h : env.SortsApart es e) {name : String}
    (hname : env.Declarable e name) : ¬ env.Mentions es (firstWord name) :=
  fun hsort => h _ _ hsort hname rfl

theorem SortsApart.global (h : env.SortsApart es e) {sort : String} (hsort : env.Mentions es sort)
    {d : String × Command} (hd : d ∈ signatureDeclarations env.entries) :
    declaredName? d.2.line ≠ some sort := by
  intro heq
  have hoffers : env.Offers [e] d := ⟨e, List.mem_singleton_self e, List.mem_append_right _ hd⟩
  obtain ⟨name, hname, hline⟩ := hoffers.word
  obtain rfl := Option.some.inj (hline.symm.trans heq)
  exact h.not_mentions (.inl ⟨d, hd, hname⟩) hsort

end Env

namespace Session

variable {env : Env} {es : List Expr} {e : Expr} {d : String × Command} {scope : List String}
  {before before' : List String} {s s' t : Session Solver Script}

/-- The session after a declaration was accepted. -/
structure Joined (env : Env) (es : List Expr) (d : String × Command)
    (s s' : Session Solver Script) : Prop where
  settled : ∃ scope, Settled env es scope s'
  answers : s'.world.answers = s.world.answers
  failLaunch : s'.world.failLaunch = s.world.failLaunch
  failSend : s'.world.failSend = s.world.failSend
  declared : ∀ key, s'.declared.contains key = (s.declared.contains key || d.1 == key)
  transcript : s'.transcript = s.transcript.push d.2.line

/-- A declaration is accepted if it can be sent and its word is not held. -/
theorem Settled.joined (h : Settled env es scope s) (hd : env.Offers es d)
    (hkey : s.declared.contains d.1 = false) (hline : d.2.line ∉ s.world.failSend)
    (hfresh : ∀ word ∈ scope, declaredName? d.2.line ≠ some word) :
    ∃ s', declareGlobal d.1 d.2.line s = (.ok (), s') ∧ Joined env es d s s' := by
  obtain ⟨name, -, hword⟩ := hd.word
  have hheld : firstWord name ∉ scope := fun hmem => hfresh _ hmem hword
  obtain ⟨sent, log, hsent⟩ := declareGlobal_of_sent h.channel hkey hline hword
  refine ⟨_, hsent, ⟨_, h.insert hd hline hword hheld ?_ rfl rfl⟩, rfl, rfl, rfl,
    fun key => NameMap.contains_insert _ _ _ _, rfl⟩
  rw [declare_of_not_mem hheld]

/-- A sort that is not in force is not held. -/
theorem Settled.sort_fresh (h : Settled env es scope s) (hapart : env.SortsApart es e)
    {sort : String} (hsort : env.Mentions es sort)
    (hkey : s.declared.contains ("sort " ++ sort) = false) :
    ∀ word ∈ scope, declaredName? (Command.declareSort sort).line ≠ some word := by
  intro word hword heq
  rw [declaredName?_line_declare rfl, hsort.firstWord_eq, Option.some.injEq] at heq
  subst heq
  obtain ⟨d, ⟨hd, hforce⟩, hline⟩ := (h.held sort).1 hword
  rcases hd.sort_or_global with ⟨other, hother, rfl⟩ | hglobal
  · rw [declaredName?_line_declare rfl, hother.firstWord_eq, Option.some.injEq] at hline
    subst hline
    exact absurd (hforce.symm.trans hkey) (by decide)
  · exact hapart.global hsort hglobal hline

/-- Nothing but declarations was sent after these lines. -/
def Opening (before : List String) (s : Session Solver Script) : Prop :=
  ∃ opening, Command.push.line ∉ opening ∧ s.transcript.toList = before ++ opening

theorem Opening.line (h : Opening before s) {line : String} (hline : IsFlat line)
    (hs' : s'.transcript = s.transcript.push line) : Opening before s' := by
  obtain ⟨opening, hopening, hlines⟩ := h
  refine ⟨opening ++ [line], ?_, ?_⟩
  · rw [List.mem_append, List.mem_singleton]
    exact not_or.2 ⟨hopening, hline.1.symm⟩
  · rw [hs', Array.toList_push, hlines, List.append_assoc]

theorem Opening.sameFromPush (h : Opening before s) (h' : Opening before' t) :
    SameFromPush before before' s t := by
  obtain ⟨opening, hopening, hlines⟩ := h
  obtain ⟨opening', hopening', hlines'⟩ := h'
  refine ⟨opening, opening', [], hopening, hopening', ?_, ?_⟩
  · rw [hlines, List.append_nil]
  · rw [hlines', List.append_nil]

/-- The second session has yet to make declarations that are in force in the first, which has all
globals in force. -/
structure CatchingUp (env : Env) (es : List Expr) (before before' : List String)
    (s t : Session Solver Script) : Prop where
  settled : ∃ scope, Settled env es scope s
  settled' : ∃ scope, Settled env es scope t
  fewer : ∀ key, t.declared.contains key = true → s.declared.contains key = true
  globals : ∀ d ∈ signatureDeclarations env.entries, s.declared.contains d.1 = true
  answers : s.world.answers = t.world.answers
  failLaunch : s.world.failLaunch = t.world.failLaunch
  failSend : s.world.failSend = t.world.failSend
  lines : Opening before s
  lines' : Opening before' t

theorem CatchingUp.isStarted (h : CatchingUp env es before before' s t) : s.isStarted = true :=
  h.settled.elim fun _ hs => hs.isStarted

theorem CatchingUp.isStarted_right (h : CatchingUp env es before before' s t) :
    t.isStarted = true :=
  h.settled'.elim fun _ ht => ht.isStarted

/-- What is not in force in the first session is not in force in the second. -/
theorem CatchingUp.absent (h : CatchingUp env es before before' s t) {key : String}
    (hkey : s.declared.contains key = false) : t.declared.contains key = false := by
  by_contra hforce
  rw [Bool.not_eq_false] at hforce
  exact absurd ((h.fewer _ hforce).symm.trans hkey) (by decide)

theorem CatchingUp.log (h : CatchingUp env es before before' s t) (log log' : Array LogRecord) :
    CatchingUp env es before before' { s with log } { t with log := log' } := by
  obtain ⟨scope, hs⟩ := h.settled
  obtain ⟨scope', ht⟩ := h.settled'
  exact ⟨⟨scope, hs.congr rfl rfl rfl⟩, ⟨scope', ht.congr rfl rfl rfl⟩, h.fewer, h.globals,
    h.answers, h.failLaunch, h.failSend, h.lines, h.lines'⟩

theorem isClosed_catchingUp : IsClosed
    (fun {α} (op : SessionM Solver Script α) => Lockstep (CatchingUp env es before before') op) :=
  isClosed_lockstep fun _ _ _ _ h => h.log _ _

/-- The second session makes a declaration that the first can skip. -/
theorem CatchingUp.skip (h : CatchingUp env es before before' s t) (hd : env.Offers es d)
    (hkey : s.declared.contains d.1 = true) (hkey' : t.declared.contains d.1 = false) :
    ∃ t', declareGlobal d.1 d.2.line t = (.ok (), t') ∧
      CatchingUp env es before before' s t' := by
  obtain ⟨scope, hs⟩ := h.settled
  obtain ⟨scope', ht⟩ := h.settled'
  have hline : d.2.line ∉ t.world.failSend := h.failSend ▸ hs.sendable d ⟨hd, hkey⟩
  have hfresh : ∀ word ∈ scope', declaredName? d.2.line ≠ some word := by
    intro word hword heq
    obtain ⟨d', ⟨hd', hforce⟩, heq'⟩ := (ht.held word).1 hword
    obtain rfl := hs.distinct d d' ⟨hd, hkey⟩ ⟨hd', h.fewer _ hforce⟩ (heq.trans heq'.symm)
    exact absurd (hforce.symm.trans hkey') (by decide)
  obtain ⟨t', heq, ht'⟩ := ht.joined hd hkey' hline hfresh
  refine ⟨t', heq, h.settled, ht'.settled, fun key hforce => ?_, h.globals,
    h.answers.trans ht'.answers.symm, h.failLaunch.trans ht'.failLaunch.symm,
    h.failSend.trans ht'.failSend.symm, h.lines, h.lines'.line hd.isPlain.isFlat ht'.transcript⟩
  rw [ht'.declared, Bool.or_eq_true, beq_iff_eq] at hforce
  rcases hforce with hforce | rfl
  · exact h.fewer key hforce
  · exact hkey

/-- Both sessions declare a sort. -/
theorem CatchingUp.both (h : CatchingUp env es before before' s t) (hapart : env.SortsApart es e)
    {sort : String} (hsort : env.Mentions es sort)
    (hd : env.Offers es ("sort " ++ sort, .declareSort sort))
    (hkey : s.declared.contains ("sort " ++ sort) = false)
    (hline : (Command.declareSort sort).line ∉ s.world.failSend) :
    ∃ s' t', declareGlobal ("sort " ++ sort) (Command.declareSort sort).line s = (.ok (), s') ∧
      declareGlobal ("sort " ++ sort) (Command.declareSort sort).line t = (.ok (), t') ∧
      CatchingUp env es before before' s' t' := by
  obtain ⟨scope, hs⟩ := h.settled
  obtain ⟨scope', ht⟩ := h.settled'
  have hkey' := h.absent hkey
  have hline' : (Command.declareSort sort).line ∉ t.world.failSend := h.failSend ▸ hline
  obtain ⟨s', heq, hs'⟩ := hs.joined hd hkey hline (hs.sort_fresh hapart hsort hkey)
  obtain ⟨t', heq', ht'⟩ := ht.joined hd hkey' hline' (ht.sort_fresh hapart hsort hkey')
  have hflat : IsFlat (Command.declareSort sort).line := hd.isPlain.isFlat
  refine ⟨s', t', heq, heq', hs'.settled, ht'.settled, fun key hforce => ?_, fun d hd => ?_, ?_, ?_,
    ?_, h.lines.line hflat hs'.transcript, h.lines'.line hflat ht'.transcript⟩
  · rw [ht'.declared, Bool.or_eq_true] at hforce
    rw [hs'.declared, Bool.or_eq_true]
    exact hforce.imp_left (h.fewer key)
  · rw [hs'.declared, h.globals d hd, Bool.true_or]
  · rw [hs'.answers, ht'.answers, h.answers]
  · rw [hs'.failLaunch, ht'.failLaunch, h.failLaunch]
  · rw [hs'.failSend, ht'.failSend, h.failSend]

theorem catchingUp_declareGlobal (hapart : env.SortsApart es e) (hd : env.Offers es d) :
    Lockstep (CatchingUp env es before before') (declareGlobal d.1 d.2.line) := by
  intro s t h
  by_cases hkey : s.declared.contains d.1 = true
  · rw [declareGlobal_of_declared hkey]
    by_cases hkey' : t.declared.contains d.1 = true
    · rw [declareGlobal_of_declared hkey']
      exact ⟨rfl, h⟩
    · rw [Bool.not_eq_true] at hkey'
      obtain ⟨t', heq, ht'⟩ := h.skip hd hkey hkey'
      rw [heq]
      exact ⟨rfl, ht'⟩
  · rcases hd.sort_or_global with ⟨sort, hsort, rfl⟩ | hglobal
    · rw [Bool.not_eq_true] at hkey
      by_cases hline : (Command.declareSort sort).line ∈ s.world.failSend
      · obtain ⟨scope, hs⟩ := h.settled
        obtain ⟨scope', ht⟩ := h.settled'
        obtain ⟨log, hlost⟩ := declareGlobal_of_lost hs.channel hkey hline
        obtain ⟨log', hlost'⟩ :=
          declareGlobal_of_lost ht.channel (h.absent hkey) (h.failSend ▸ hline)
        rw [hlost, hlost']
        exact ⟨rfl, h.log log log'⟩
      · obtain ⟨s', t', heq, heq', hsessions⟩ := h.both hapart hsort hd hkey hline
        rw [heq, heq']
        exact ⟨rfl, hsessions⟩
    · exact absurd (h.globals d hglobal) hkey

/-- Once the second session has all globals in force, the solvers differ in sorts alone. -/
theorem CatchingUp.alike (h : CatchingUp env es before before' s t)
    (hglobals : ∀ d ∈ signatureDeclarations env.entries, t.declared.contains d.1 = true) :
    Alike (env.Mentions es) before before' s t := by
  obtain ⟨scope, hs⟩ := h.settled
  obtain ⟨scope', ht⟩ := h.settled'
  have hnames : SameNames (env.Mentions es) scope scope' := by
    intro word hword
    rw [hs.held word, ht.held word]
    constructor
    · rintro ⟨d, ⟨hd, -⟩, hline⟩
      rcases hd.sort_or_global with ⟨sort, hsort, rfl⟩ | hglobal
      · rw [declaredName?_line_declare rfl, hsort.firstWord_eq, Option.some.injEq] at hline
        exact absurd (hline ▸ hsort) hword
      · exact ⟨d, ⟨hd, hglobals d hglobal⟩, hline⟩
    · rintro ⟨d, ⟨hd, hforce⟩, hline⟩
      exact ⟨d, ⟨hd, h.fewer _ hforce⟩, hline⟩
  refine ⟨h.answers, h.failLaunch, h.failSend, ?_, h.lines.sameFromPush h.lines'⟩
  rw [hs.channel, ht.channel]
  exact .some ⟨rfl, .cons hnames .nil⟩

end Session

end ContractCheck
