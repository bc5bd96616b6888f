import ContractCheck.Proofs.Consistency
import Mathlib.Data.List.Forall2

/-!
Two sessions side by side. Operations that are carried out in both keep them alike if they end in
the same in both, and leave sessions that are alike (`Session.Lockstep`). Sessions whose solvers
hold the same names, but for some that nothing declares, stay alike through a whole run
(`Session.lockstep_runChecker`): the checker is told the same in both, so it goes the same way.
-/

namespace ContractCheck

namespace Scripted

variable {except : String → Prop} {a b : Solver}

/-- The scopes hold the same names, but for those that are excepted. -/
def SameNames (except : String → Prop) (scope scope' : List String) : Prop :=
  ∀ name, ¬ except name → (name ∈ scope ↔ name ∈ scope')

/-- The solvers have the same output unread and as many scopes open, and these hold the same names
but for those that are excepted. -/
structure SameBut (except : String → Prop) (a b : Solver) : Prop where
  output : a.output = b.output
  scopes : List.Forall₂ (SameNames except) a.scopes b.scopes

theorem sameBut_launched : SameBut except {} {} :=
  ⟨rfl, .cons (fun _ _ => Iff.rfl) .nil⟩

theorem contains_of_sameNames {scope scope' : List String} {name : String}
    (h : SameNames except scope scope') (hname : ¬ except name) :
    scope.contains name = scope'.contains name := by
  rw [Bool.eq_iff_iff, List.contains_iff_mem, List.contains_iff_mem]
  exact h name hname

namespace SameBut

theorem holds (h : SameBut except a b) {name : String} (hname : ¬ except name) :
    a.holds name = b.holds name := by
  obtain ⟨output, scopes⟩ := a
  obtain ⟨output', scopes'⟩ := b
  obtain ⟨-, hscopes : List.Forall₂ _ scopes scopes'⟩ := h
  change scopes.any _ = scopes'.any _
  induction hscopes with
  | nil => rfl
  | cons hscope _ ih =>
      rw [List.any_cons, List.any_cons, contains_of_sameNames hscope hname, ih]

theorem say (h : SameBut except a b) (text : String) : SameBut except (a.say text) (b.say text) :=
  ⟨congrArg (· ++ [text]) h.output, h.scopes⟩

theorem push (h : SameBut except a b) : SameBut except a.push b.push :=
  ⟨h.output, .cons (fun _ _ => Iff.rfl) h.scopes⟩

theorem pop (h : SameBut except a b) : SameBut except a.pop b.pop := by
  obtain ⟨output, scopes⟩ := a
  obtain ⟨output', scopes'⟩ := b
  obtain ⟨rfl, hscopes⟩ := h
  cases hscopes with
  | nil => exact ⟨rfl, .nil⟩
  | cons hinner hrest =>
      cases hrest with
      | nil => exact ⟨rfl, .cons hinner .nil⟩
      | cons hscope hrest => exact ⟨rfl, .cons hscope hrest⟩

theorem declare (h : SameBut except a b) {name : String} (hname : ¬ except name) :
    SameBut except (a.declare name) (b.declare name) := by
  unfold Solver.declare
  rw [h.holds hname]
  split
  · exact h.say _
  · obtain ⟨output, scopes⟩ := a
    obtain ⟨output', scopes'⟩ := b
    obtain ⟨rfl, hscopes⟩ := h
    cases hscopes with
    | nil => exact ⟨rfl, .nil⟩
    | cons hscope hrest =>
        refine ⟨rfl, .cons (fun other hother => ?_) hrest⟩
        rw [List.mem_cons, List.mem_cons, hscope other hother]

theorem symm (h : SameBut except a b) : SameBut except b a where
  output := h.output.symm
  scopes := h.scopes.flip.imp fun _ _ hscope name hname => (hscope name hname).symm

/-- An excepted name may be declared in the one alone. -/
theorem declare_left (h : SameBut except a b) {word : String} (hword : except word)
    (hfresh : a.holds word = false) : SameBut except (a.declare word) b := by
  unfold Solver.declare
  rw [hfresh, if_neg Bool.false_ne_true]
  obtain ⟨output, scopes⟩ := a
  obtain ⟨output', scopes'⟩ := b
  obtain ⟨rfl, hscopes⟩ := h
  cases hscopes with
  | nil => exact ⟨rfl, .nil⟩
  | cons hscope hrest =>
      refine ⟨rfl, .cons (fun other hother => ?_) hrest⟩
      rw [List.mem_cons, ← hscope other hother]
      refine or_iff_right ?_
      rintro rfl
      exact hother hword

/-- A line that declares none of the excepted names does the same to both. -/
theorem obey (h : SameBut except a b) {line : String}
    (hline : ∀ name, declaredName? line = some name → ¬ except name) (answers : List String) :
    (obey line a answers).2 = (obey line b answers).2 ∧
      SameBut except (obey line a answers).1 (obey line b answers).1 := by
  unfold Scripted.obey
  split
  · cases answers with
    | nil => exact ⟨rfl, h⟩
    | cons answer rest => exact ⟨rfl, h.say answer⟩
  · split
    · exact ⟨rfl, h.push⟩
    · split
      · exact ⟨rfl, h.pop⟩
      · cases echoed? line with
        | some text => exact ⟨rfl, h.say text⟩
        | none =>
            cases hname : declaredName? line with
            | none => exact ⟨rfl, h⟩
            | some name => exact ⟨rfl, h.declare (hline name hname)⟩

end SameBut

theorem holds_declare_of_ne {word other : String} (h : a.holds other = false)
    (hne : other ≠ word) : (a.declare word).holds other = false := by
  unfold Solver.declare
  split
  · exact h
  · obtain ⟨output, scopes⟩ := a
    cases scopes with
    | nil => exact h
    | cons scope rest => simpa [Solver.holds, hne] using h

/-- A declaration adds one name at most. -/
theorem eq_or_holds_of_declare {word other : String} (h : (a.declare word).holds other = true) :
    other = word ∨ a.holds other = true := by
  by_cases hother : other = word
  · exact .inl hother
  · cases hheld : a.holds other with
    | true => exact .inr rfl
    | false =>
        rw [holds_declare_of_ne hheld hother] at h
        cases h

/-- The names that plain commands declare, as the solver reads them. -/
theorem declaredName?_line_of_isPlain {c : Command} (h : c.IsPlain) :
    declaredName? c.line = c.declared?.map firstWord := by
  cases c with
  | scopedDeclarations => decide +kernel
  | declareSort name => exact declaredName?_line_declare rfl
  | declareFun name domain range => exact declaredName?_line_declare rfl
  | declareConst name sort => exact declaredName?_line_declare rfl
  | assert term => exact declaredName?_line_assert term
  | _ => exact h.elim

end Scripted

namespace Session

section

variable {τ ω α β σ : Type} {R : Session τ ω → Session τ ω → Prop}

/-- Carried out in sessions that are so related, one in each, the operations end in the same, and
leave sessions that are so related. -/
def Abreast (R : Session τ ω → Session τ ω → Prop) (op op' : SessionM τ ω α) : Prop :=
  ∀ s t, R s t → (op s).1 = (op' t).1 ∧ R (op s).2 (op' t).2

theorem Abreast.bind {op op' : SessionM τ ω α} {f f' : α → SessionM τ ω β}
    (h : Abreast R op op') (hf : ∀ a, Abreast R (f a) (f' a)) :
    Abreast R (op >>= f) (op' >>= f') := by
  intro s t hst
  obtain ⟨houtcome, hsessions⟩ := h s t hst
  rw [bind_apply, bind_apply]
  rcases hs : op s with ⟨outcome, s₁⟩
  rcases ht : op' t with ⟨outcome', t₁⟩
  rw [hs, ht] at houtcome hsessions
  obtain rfl : outcome = outcome' := houtcome
  rcases outcome with failure | a
  · exact ⟨rfl, hsessions⟩
  · exact hf a s₁ t₁ hsessions

/-- Carried out in sessions that are so related, the operation ends in the same, and leaves sessions
that are so related. -/
def Lockstep (R : Session τ ω → Session τ ω → Prop) (op : SessionM τ ω α) : Prop :=
  ∀ s t, R s t → (op s).1 = (op t).1 ∧ R (op s).2 (op t).2

theorem isClosed_lockstep
    (hrecord : ∀ s t level text, R s t → R (s.record level text) (t.record level text)) :
    IsClosed (fun {α} (op : SessionM τ ω α) => Lockstep R op) where
  answer _ _ _ h := ⟨rfl, h⟩
  andThen h hf := Abreast.bind h hf
  record level text s t h := ⟨rfl, hrecord s t level text h⟩

theorem lockstep_modify {f : Session τ ω → Session τ ω} (h : ∀ s t, R s t → R (f s) (f t)) :
    Lockstep R (modify f : SessionM τ ω Unit) := fun s t hst => ⟨rfl, h s t hst⟩

variable [Transport τ ω]

/-- A dialogue that obeys a rule goes the same way in both sessions if all deeds do that the rule
allows. -/
theorem hold_lockstep {rule : Rule σ}
    (hrecord : ∀ s t level text, R s t → R (s.record level text) (t.record level text))
    (hdeed : ∀ st deed, rule.allows st deed → Lockstep R (perform deed))
    (hcheck : Lockstep R checkSat) {d : Dialogue α} {post : α → σ → Prop} {st : σ}
    (hd : d.Obeys rule post st) {s t : Session τ ω} (hst : R s t) :
    (hold d s).1 = (hold d t).1 ∧ R (hold d s).2 (hold d t).2 := by
  induction d generalizing st s t with
  | done a => exact ⟨rfl, hst⟩
  | note text next ih => exact ih hd (hrecord s t _ text hst)
  | act deed next ih =>
      have hdone := hdeed st deed hd.1 s t hst
      simp only [hold]
      rcases hs : perform deed s with ⟨outcome, s₁⟩
      rcases ht : perform deed t with ⟨outcome', t₁⟩
      rw [hs, ht] at hdone
      obtain ⟨houtcome, hsessions⟩ := hdone
      obtain rfl : outcome = outcome' := houtcome
      exact ih outcome (hd.2 _) hsessions
  | checkSat next ih =>
      have hdone := hcheck s t hst
      simp only [hold]
      rcases hs : checkSat s with ⟨outcome, s₁⟩
      rcases ht : checkSat t with ⟨outcome', t₁⟩
      rw [hs, ht] at hdone
      obtain ⟨houtcome, hsessions⟩ := hdone
      obtain rfl : outcome = outcome' := houtcome
      exact ih outcome (hd _) hsessions

end

section

variable {τ ω : Type}

/-- What the sessions sent after these lines is the same from the first line on that opens a
scope. -/
def SameFromPush (before before' : List String) (s t : Session τ ω) : Prop :=
  ∃ opening opening' rest, Command.push.line ∉ opening ∧ Command.push.line ∉ opening' ∧
    s.transcript.toList = before ++ (opening ++ rest) ∧
    t.transcript.toList = before' ++ (opening' ++ rest)

theorem SameFromPush.refl (s t : Session τ ω) :
    SameFromPush s.transcript.toList t.transcript.toList s t :=
  ⟨[], [], [], List.not_mem_nil, List.not_mem_nil, by simp, by simp⟩

theorem SameFromPush.congr {before before' : List String} {s t s' t' : Session τ ω}
    (h : SameFromPush before before' s t) (hs : s'.transcript = s.transcript)
    (ht : t'.transcript = t.transcript) : SameFromPush before before' s' t' := by
  unfold SameFromPush
  rwa [hs, ht]

theorem SameFromPush.line {before before' : List String} {s t s' t' : Session τ ω}
    (h : SameFromPush before before' s t) {line : String}
    (hs : s'.transcript = s.transcript.push line) (ht : t'.transcript = t.transcript.push line) :
    SameFromPush before before' s' t' := by
  obtain ⟨opening, opening', rest, hopening, hopening', hlines, hlines'⟩ := h
  refine ⟨opening, opening', rest ++ [line], hopening, hopening', ?_, ?_⟩
  · rw [hs, Array.toList_push, hlines, List.append_assoc, List.append_assoc]
  · rw [ht, Array.toList_push, hlines', List.append_assoc, List.append_assoc]

/-- What was sent from the first line on that opens a scope. -/
theorem SameFromPush.dropWhile {before before' : List String} {s t : Session τ ω}
    (h : SameFromPush before before' s t) :
    (s.transcript.toList.drop before.length).dropWhile (· != Command.push.line) =
      (t.transcript.toList.drop before'.length).dropWhile (· != Command.push.line) := by
  have hskip : ∀ {opening rest : List String}, Command.push.line ∉ opening →
      (opening ++ rest).dropWhile (· != Command.push.line) =
        rest.dropWhile (· != Command.push.line) := by
    intro opening rest hopening
    refine List.dropWhile_append_of_pos fun line hline => ?_
    rw [bne_iff_ne]
    rintro rfl
    exact hopening hline
  obtain ⟨opening, opening', rest, hopening, hopening', hlines, hlines'⟩ := h
  rw [hlines, hlines', List.drop_left, List.drop_left, hskip hopening, hskip hopening']

end

section

open Scripted

variable {except : String → Prop} {before before' : List String}

/-- The sessions go on alike: their scripts have the same answers left and the same failures to
come, and their solvers differ in the excepted names alone. -/
structure Alike (except : String → Prop) (before before' : List String)
    (s t : Session Solver Script) : Prop where
  answers : s.world.answers = t.world.answers
  failLaunch : s.world.failLaunch = t.world.failLaunch
  failSend : s.world.failSend = t.world.failSend
  channel : Option.Rel (SameBut except) s.channel t.channel
  lines : SameFromPush before before' s t

/-- What is counted and noted does not matter. -/
theorem Alike.congr {s t s' t' : Session Solver Script} (h : Alike except before before' s t)
    (hs : s' = { s with depth := s'.depth, declared := s'.declared, log := s'.log })
    (ht : t' = { t with depth := t'.depth, declared := t'.declared, log := t'.log }) :
    Alike except before before' s' t' := by
  rw [hs, ht]
  exact ⟨h.answers, h.failLaunch, h.failSend, h.channel, h.lines⟩

/-- Either both solvers run or none does. -/
theorem Alike.solvers {s t : Session Solver Script} (h : Alike except before before' s t) :
    (s.channel = none ∧ t.channel = none) ∨
      ∃ a b, s.channel = some a ∧ t.channel = some b ∧ SameBut except a b := by
  have hchannel := h.channel
  generalize s.channel = c, t.channel = c' at hchannel
  cases hchannel with
  | none => exact .inl ⟨rfl, rfl⟩
  | some hsame => exact .inr ⟨_, _, rfl, rfl, hsame⟩

theorem Alike.isStarted {s t : Session Solver Script} (h : Alike except before before' s t) :
    s.isStarted = t.isStarted := by
  unfold Session.isStarted
  rcases h.solvers with ⟨hs, ht⟩ | ⟨a, b, hs, ht, -⟩ <;> rw [hs, ht]
  rfl

theorem isClosed_alike : IsClosed
    (fun {α} (op : SessionM Solver Script α) => Lockstep (Alike except before before') op) :=
  isClosed_lockstep fun _ _ _ _ h => h.congr rfl rfl

theorem lockstep_write {line : String}
    (hline : ∀ name, declaredName? line = some name → ¬ except name) :
    Lockstep (Alike except before before') (write line) := by
  intro s t h
  rcases h.solvers with ⟨hs, ht⟩ | ⟨a, b, hs, ht, hsame⟩
  · rw [write_of_stopped hs, write_of_stopped ht]
    exact ⟨rfl, h⟩
  by_cases hfail : line ∈ s.world.failSend
  · have hsend : Transport.send line a s.world = (.error sendFailure, a, s.world) := if_pos hfail
    have hsend' : Transport.send line b t.world = (.error sendFailure, b, t.world) :=
      if_pos (h.failSend ▸ hfail)
    rw [write_of_refused hs hsend, write_of_refused ht hsend']
    exact ⟨rfl, h.answers, h.failLaunch, h.failSend, .some hsame, h.lines⟩
  · have hsend : Transport.send line a s.world = (.ok (), _, _) := if_neg hfail
    have hsend' : Transport.send line b t.world = (.ok (), _, _) := if_neg (h.failSend ▸ hfail)
    obtain ⟨hanswers, hsolvers⟩ := hsame.obey hline s.world.answers
    rw [write_of_accepted hs hsend, write_of_accepted ht hsend', ← h.answers]
    exact ⟨rfl, hanswers, h.failLaunch, h.failSend, .some hsolvers, h.lines.line rfl rfl⟩

theorem lockstep_read : Lockstep (Alike except before before') read := by
  intro s t h
  rcases h.solvers with ⟨hs, ht⟩ | ⟨a, b, hs, ht, hsame⟩
  · simp only [read, hs, ht, true_and]
    exact h
  obtain ⟨output, scopes⟩ := a
  obtain ⟨output', scopes'⟩ := b
  obtain ⟨rfl, hscopes⟩ := hsame
  cases output with
  | nil =>
      simp only [read, hs, ht, Transport.receive, receive, true_and]
      exact ⟨h.answers, h.failLaunch, h.failSend, .some ⟨rfl, hscopes⟩, h.lines⟩
  | cons line rest =>
      simp only [read, hs, ht, Transport.receive, receive]
      by_cases herror : isErrorLine line = true
      · simp only [if_pos herror, true_and]
        exact ⟨h.answers, h.failLaunch, h.failSend, .some ⟨rfl, hscopes⟩, h.lines⟩
      · simp only [if_neg herror, true_and]
        exact ⟨h.answers, h.failLaunch, h.failSend, .some ⟨rfl, hscopes⟩, h.lines⟩

/-- A line that declares nothing does the same in both sessions. -/
theorem lockstep_undeclaring {line : String} (hline : declaredName? line = none) :
    Lockstep (Alike except before before') (write line) :=
  lockstep_write fun _ hname => nomatch hline.symm.trans hname

theorem lockstep_checkSat : Lockstep (Alike except before before') checkSat :=
  isClosed_alike.checkSat (lockstep_undeclaring (by decide +kernel)) lockstep_read

theorem lockstep_sync : Lockstep (Alike except before before') sync :=
  isClosed_alike.sync (lockstep_undeclaring (by decide +kernel)) lockstep_read

theorem lockstep_push : Lockstep (Alike except before before') push :=
  isClosed_alike.andThen (lockstep_undeclaring (by decide +kernel)) fun _ =>
    lockstep_modify fun _ _ h => h.congr rfl rfl

theorem lockstep_pop : Lockstep (Alike except before before') pop :=
  isClosed_alike.andThen (lockstep_modify fun _ _ h => h.congr rfl rfl) fun _ =>
    lockstep_undeclaring (by decide +kernel)

/-- A command that is no declaration of an excepted name does the same in both sessions. -/
theorem lockstep_command {c : Command} (hplain : c.IsPlain)
    (hname : ∀ name, c.declared? = some name → ¬ except (firstWord name)) :
    Lockstep (Alike except before before') (write c.line) := by
  refine lockstep_write fun word hword => ?_
  rw [declaredName?_line_of_isPlain hplain, Option.map_eq_some_iff] at hword
  obtain ⟨name, hdeclared, rfl⟩ := hword
  exact hname name hdeclared

/-- The checker goes the same way in both sessions if its dialogue declares none of the excepted
names. -/
theorem lockstep_runChecker_of_tidy {env : Env} {e : Expr}
    {post : Outcome Unit × Progress → Nat → Prop} (h : (Checker.runDialogue env e).Obeys
      (Rule.tidy fun name => ¬ except (firstWord name)) post 0) :
    Lockstep (Alike except before before') (runChecker env e) := by
  intro s t hst
  have hdeed : ∀ height deed,
      (Rule.tidy fun name => ¬ except (firstWord name)).allows height deed →
        Lockstep (Alike except before before') (perform deed) := by
    intro height deed hallowed
    cases deed with
    | write command => exact lockstep_command hallowed.1 hallowed.2
    | push => exact lockstep_push
    | pop => exact lockstep_pop
  have hhold := hold_lockstep (fun _ _ _ _ h => h.congr rfl rfl) hdeed lockstep_checkSat h hst
  unfold runChecker
  rcases hs : hold (Checker.runDialogue env e) s with ⟨result, s₁⟩
  rcases ht : hold (Checker.runDialogue env e) t with ⟨result', t₁⟩
  rw [hs, ht] at hhold
  obtain ⟨hresult, hsessions⟩ := hhold
  obtain rfl : result = result' := hresult
  exact ⟨rfl, hsessions⟩

theorem lockstep_runChecker {env : Env} {e : Expr}
    (hfresh : ∀ name, IsFresh name → ¬ except (firstWord name))
    (henv : ∀ name ∈ env.letNames, ¬ except (firstWord name))
    (he : ∀ name ∈ e.letNames, ¬ except (firstWord name)) :
    Lockstep (Alike except before before') (runChecker env e) :=
  lockstep_runChecker_of_tidy (Checker.tidy_run hfresh henv he 0)

/-- The checker, and the marker after it. -/
def verdict (env : Env) (e : Expr) : SessionM Solver Script Summary := do
  let summary ← runChecker env e
  sync
  return summary

theorem lockstep_verdict {env : Env} {e : Expr}
    (hrun : Lockstep (Alike except before before') (runChecker env e)) :
    Lockstep (Alike except before before') (verdict env e) :=
  isClosed_alike.andThen hrun fun summary => isClosed_alike.andThen lockstep_sync fun _ =>
    isClosed_alike.answer (.ok summary)

/-- The sessions differ in what they have sent before, and in nothing that matters. -/
structure Twins (before before' : List String) (s t : Session Solver Script) : Prop
    extends Alike (fun _ => False) before before' s t where
  declared : ∀ key, s.declared.contains key = t.declared.contains key

theorem isClosed_twins : IsClosed
    (fun {α} (op : SessionM Solver Script α) => Lockstep (Twins before before') op) :=
  isClosed_lockstep fun _ _ _ _ h => ⟨h.congr rfl rfl, h.declared⟩

theorem twins_write (line : String) : Lockstep (Twins before before') (write line) := by
  intro s t h
  obtain ⟨houtcome, halike⟩ := lockstep_write (fun _ _ => id) s t h.toAlike
  refine ⟨houtcome, halike, fun key => ?_⟩
  rw [(said_of_write line s).declared, (said_of_write line t).declared, h.declared]

theorem twins_launch : Lockstep (Twins before before') launch := by
  intro s t h
  have hfail := h.failLaunch
  unfold launch
  simp only [Transport.announcement, Transport.launch, Scripted.launch]
  rw [hfail]
  cases t.world.failLaunch with
  | zero => exact ⟨rfl, ⟨h.answers, hfail, h.failSend, .some sameBut_launched, h.lines⟩, h.declared⟩
  | succ n => exact ⟨rfl, ⟨h.answers, rfl, h.failSend, h.channel, h.lines⟩, h.declared⟩

theorem twins_start : Lockstep (Twins before before') start := by
  intro s t h
  rw [start_apply, start_apply, h.isStarted]
  split
  · exact ⟨rfl, h⟩
  · exact isClosed_twins.andThen twins_launch (fun _ => twins_write _) s t h

theorem twins_declareGlobal (key line : String) :
    Lockstep (Twins before before') (declareGlobal key line) := by
  intro s t h
  rw [declareGlobal_apply, declareGlobal_apply, h.declared]
  split
  · exact ⟨rfl, h⟩
  refine isClosed_twins.andThen (twins_write line) (fun _ => ?_) s t h
  refine lockstep_modify fun s t h => ⟨h.congr rfl rfl, fun other => ?_⟩
  unfold withDeclared
  rw [NameMap.contains_insert, NameMap.contains_insert, h.declared]

end

end Session

end ContractCheck
