import ContractCheck.Proofs.SimilarSolvers
import ContractCheck.Proofs.Tally
import ContractCheck.Proofs.Untraced

/-!
The names of fresh variables. A supply gives the k-th request of a tag the name `_`, the tag and
k - 1, and no two requests the same name (`FreshNames.nodup_nextAll`). What a checker declares is
told apart by what it is declared for (`Checker.Declares`), so that this carries over to the
declarations that it gets accepted, over any number of checks and however they end
(`Checker.fresh_never_repeats`).
-/

namespace ContractCheck

namespace FreshNames

/-- What is given later was not given before. -/
theorem not_issued_of_mem_nextAll {names : FreshNames} {tags : List Char} {name : String}
    (h : name ∈ names.nextAll tags) : ¬ names.Issued name := by
  induction tags generalizing names with
  | nil => cases h
  | cons tag tags ih =>
      rcases List.mem_cons.1 h with rfl | h
      · exact not_issued_next names tag
      · exact fun hissued => ih h (hissued.next tag)

theorem nodup_nextAll (names : FreshNames) (tags : List Char) : (names.nextAll tags).Nodup := by
  induction tags generalizing names with
  | nil => exact List.nodup_nil
  | cons tag tags ih =>
      refine List.nodup_cons.2 ⟨fun h => ?_, ih _⟩
      exact not_issued_of_mem_nextAll h (issued_next names tag)

theorem issued_after (names : FreshNames) (tags : List Char) :
    (names.after tags).issued = tags.reverse ++ names.issued := by
  induction tags generalizing names with
  | nil => rfl
  | cons tag tags ih =>
      rw [List.reverse_cons, List.append_assoc]
      exact ih (names.next tag).2

/-- A request gets the number of requests of its tag before it. -/
theorem getElem?_nextAll (before later : List Char) (tag : Char) :
    (nextAll {} (before ++ tag :: later))[before.length]? =
      some (nameOf tag (before.count tag)) := by
  have hlength : (nextAll {} before).length = before.length := length_nextAll {} before
  have hcount : (after {} before).issued.count tag = before.count tag := by
    rw [issued_after, List.append_nil, List.count_reverse]
  rw [nextAll_append, List.getElem?_append_right (Nat.le_of_eq hlength), hlength, Nat.sub_self,
    ← hcount]
  rfl

end FreshNames

/-- A constant that a walk declares. -/
inductive Constant where
  /-- A fresh variable. -/
  | fresh (name : String) (sort : SolverSort)
  /-- The variable of a `let`. -/
  | bound (name sort : String)

namespace Constant

def line : Constant → String
  | fresh name sort => (Command.declareConst name sort.display).line
  | bound name sort => (Command.declareConst name sort).line

def freshName? : Constant → Option String
  | fresh name _ => some name
  | bound _ _ => none

end Constant

/-- The names of the fresh variables among the constants. -/
def freshNames (constants : List Constant) : List String := constants.filterMap Constant.freshName?

theorem freshNames_append (first second : List Constant) :
    freshNames (first ++ second) = freshNames first ++ freshNames second :=
  List.filterMap_append

/-- The line declares a constant. -/
def declaresConstant (line : String) : Bool := "(declare-const ".toList.isPrefixOf line.toList

theorem declaresConstant_declareConst (name sort : String) :
    declaresConstant (Command.declareConst name sort).line = true := by
  refine List.isPrefixOf_iff_prefix.2 ⟨name.toList ++ ' ' :: (sort.toList ++ [')']), ?_⟩
  simp [Command.line, Command.toSExpr, SExpr.apply, SExpr.render, SExpr.renderItems]

theorem declaresConstant_of_toList {line : String} {c : Char} {rest : List Char}
    (h : line.toList = '(' :: c :: rest) (hc : c ≠ 'd') : declaresConstant line = false := by
  have hne : ('d' == c) = false := beq_eq_false_iff_ne.2 (Ne.symm hc)
  unfold declaresConstant
  rw [h]
  simp [List.isPrefixOf, hne]

namespace Checker

variable {τ ω α β : Type} [Transport τ ω]

/-- A fresh variable takes a name from the supply, and counts once its declaration is accepted. -/
theorem perform_fresh {ty : Ty} {sort : SolverSort} (hsort : SolverSort.of ty = .ok sort)
    (c : Checker τ ω) : c.perform (fresh ty) =
      match Session.write (Command.declareConst (c.progress.names.next sort.tag).1
        sort.display).line c.session with
      | (.error failure, session) => (.error failure,
          ⟨session, { c.progress with names := (c.progress.names.next sort.tag).2 }⟩)
      | (.ok (), session) => (.ok (c.progress.names.next sort.tag).1,
          ⟨session, (c.progress.names.next sort.tag).2,
            { c.progress.summary with fresh := c.progress.summary.fresh + 1 }⟩) := by
  rcases hname : c.progress.names.next sort.tag with ⟨name, names⟩
  have hnext : c.perform (nextName sort.tag) =
      (.ok name, ⟨c.session, { c.progress with names }⟩) := by
    unfold perform nextName
    rw [hname]
    rfl
  have hwrite : ∀ (command : Command) (c₁ : Checker τ ω), c₁.perform (write command) =
      ((Session.write command.line c₁.session).1,
        ⟨(Session.write command.line c₁.session).2, c₁.progress⟩) := fun _ _ => rfl
  unfold fresh
  rw [hsort, perform_bind]
  change perform (nextName sort.tag >>= _) c = _
  rw [perform_bind, hnext]
  simp only
  rw [perform_bind, hwrite]
  rcases Session.write (Command.declareConst name sort.display).line c.session with
    ⟨failure | u, session⟩ <;> rfl

/-- These constants are declared while a checker carries out the part: the declarations were
accepted, in this order. -/
inductive Declares : {α : Type} → CheckM α → Checker τ ω → List Constant → Prop where
  | answer {α : Type} (outcome : Outcome α) (c : Checker τ ω) : Declares (ofOutcome outcome) c []
  | note (text : String) (c : Checker τ ω) : Declares (note text) c []
  | assert (term : Term) (c : Checker τ ω) : Declares (assert term) c []
  | refute (goal : Term) (obligation : String) (span : Option Span) (c : Checker τ ω) :
      Declares (refute goal obligation span) c []
  | fresh {ty : Ty} {sort : SolverSort} {name : String} {c c' : Checker τ ω}
      (hsort : SolverSort.of ty = .ok sort) (h : c.perform (fresh ty) = (.ok name, c')) :
      Declares (fresh ty) c [.fresh name sort]
  | freshRefused {ty : Ty} {failure : Failure} {c c' : Checker τ ω}
      (h : c.perform (fresh ty) = (.error failure, c')) : Declares (Checker.fresh ty) c []
  | bound {name sort : String} {c c' : Checker τ ω}
      (h : c.perform (write (.declareConst name sort)) = (.ok (), c')) :
      Declares (write (.declareConst name sort)) c [.bound name sort]
  | boundRefused {name sort : String} {failure : Failure} {c c' : Checker τ ω}
      (h : c.perform (write (.declareConst name sort)) = (.error failure, c')) :
      Declares (write (.declareConst name sort)) c []
  | andThen {α β : Type} {part : CheckM α} {f : α → CheckM β} {a : α} {c c' : Checker τ ω}
      {first second : List Constant} (hfirst : Declares part c first)
      (h : c.perform part = (.ok a, c')) (hsecond : Declares (f a) c' second) :
      Declares (part >>= f) c (first ++ second)
  | stopped {α β : Type} {part : CheckM α} {f : α → CheckM β} {failure : Failure}
      {c c' : Checker τ ω} {first : List Constant} (hfirst : Declares part c first)
      (h : c.perform part = (.error failure, c')) : Declares (part >>= f) c first
  | adapt {α : Type} {part : CheckM α} {c : Checker τ ω} {constants : List Constant}
      (h : Declares part c constants) (f : Failure → Failure) : Declares (part.adapt f) c constants
  | scope {α : Type} {part : CheckM α} {c c' : Checker τ ω} {constants : List Constant}
      (hpush : c.perform (act .push) = (.ok (), c')) (h : Declares part c' constants) :
      Declares (inSolverScope part) c constants
  | scopeRefused {α : Type} {part : CheckM α} {failure : Failure} {c c' : Checker τ ω}
      (hpush : c.perform (act .push) = (.error failure, c')) :
      Declares (inSolverScope part) c []

/-- Whatever happens, it can be told what a part of a walk declares. -/
theorem exists_declares {names : String → Prop} {part : CheckM α} (h : Part names part)
    (c : Checker τ ω) : ∃ constants, Declares part c constants := by
  induction h generalizing c with
  | answer outcome => exact ⟨[], .answer outcome c⟩
  | note text => exact ⟨[], .note text c⟩
  | assert term => exact ⟨[], .assert term c⟩
  | refute goal obligation span => exact ⟨[], .refute goal obligation span c⟩
  | fresh ty =>
      rcases hfresh : c.perform (Checker.fresh ty) with ⟨failure | name, c'⟩
      · exact ⟨[], .freshRefused hfresh⟩
      · cases hsort : SolverSort.of ty with
        | error failure =>
            have hrefused : c.perform (Checker.fresh ty) = (.error failure, c) := by
              unfold Checker.fresh
              rw [hsort, perform_bind]
              rfl
            cases hfresh.symm.trans hrefused
        | ok sort => exact ⟨_, .fresh hsort hfresh⟩
  | @declare name hname sort =>
      rcases hwrite : c.perform (write (.declareConst name sort)) with ⟨failure | u, c'⟩
      · exact ⟨[], .boundRefused hwrite⟩
      · exact ⟨_, .bound hwrite⟩
  | @andThen _ _ part f _ _ ih ihf =>
      obtain ⟨first, hfirst⟩ := ih c
      rcases hpart : c.perform part with ⟨failure | a, c'⟩
      · exact ⟨first, .stopped hfirst hpart⟩
      · obtain ⟨second, hsecond⟩ := ihf a c'
        exact ⟨_, .andThen hfirst hpart hsecond⟩
  | adapt _ f _ ih =>
      obtain ⟨constants, hconstants⟩ := ih c
      exact ⟨constants, hconstants.adapt f⟩
  | scope _ ih =>
      rcases hpush : c.perform (act .push) with ⟨failure | u, c'⟩
      · exact ⟨[], .scopeRefused hpush⟩
      · obtain ⟨constants, hconstants⟩ := ih c'
        exact ⟨constants, .scope hpush hconstants⟩

/-- Between the checkers these constants were declared, and no others: the fresh variables have
names that the supply has given in the meantime, each at most once, and all of them count. -/
structure Declared (c : Checker τ ω) (constants : List Constant) (c' : Checker τ ω) : Prop where
  lines : ∃ lines, c.session.Spoke lines c'.session ∧
    lines.filter declaresConstant = constants.map Constant.line
  names : ∃ tags, c'.progress.names = c.progress.names.after tags ∧
    List.Sublist (freshNames constants) (c.progress.names.nextAll tags)
  count : c'.progress.summary.fresh =
    c.progress.summary.fresh + (freshNames constants).length

namespace Declared

variable {c c' c'' : Checker τ ω} {constants more : List Constant}

/-- Lines that declare no constant. -/
theorem silent {lines : List String} (hspoke : c.session.Spoke lines c'.session)
    (hlines : ∀ line ∈ lines, declaresConstant line = false)
    (hnames : c'.progress.names = c.progress.names)
    (hcount : c'.progress.summary.fresh = c.progress.summary.fresh) : c.Declared [] c' where
  lines := ⟨lines, hspoke, List.filter_eq_nil_iff.2 fun line hline => by
    rw [hlines line hline]
    exact Bool.false_ne_true⟩
  names := ⟨[], hnames, .slnil⟩
  count := hcount

theorem trans (h : c.Declared constants c') (h' : c'.Declared more c'') :
    c.Declared (constants ++ more) c'' := by
  obtain ⟨lines, hlines, hfilter⟩ := h.lines
  obtain ⟨lines', hlines', hfilter'⟩ := h'.lines
  obtain ⟨tags, hnames, hsublist⟩ := h.names
  obtain ⟨tags', hnames', hsublist'⟩ := h'.names
  refine ⟨⟨_, hlines.trans hlines', ?_⟩, ⟨tags ++ tags', ?_, ?_⟩, ?_⟩
  · rw [List.filter_append, hfilter, hfilter', List.map_append]
  · rw [hnames', hnames]
    exact List.foldl_append.symm
  · rw [freshNames_append, FreshNames.nextAll_append, ← hnames]
    exact hsublist.append hsublist'
  · rw [h'.count, h.count, freshNames_append, List.length_append, Nat.add_assoc]

end Declared

theorem declared_bind {part : CheckM α} {f : α → CheckM β} {c : Checker τ ω}
    (h : c.Declared [] (c.perform part).2) (hf : ∀ a (c' : Checker τ ω),
      c'.Declared [] (c'.perform (f a)).2) : c.Declared [] (c.perform (part >>= f)).2 := by
  rw [perform_bind]
  rcases hpart : c.perform part with ⟨failure | a, c'⟩
  · rwa [hpart] at h
  · rw [hpart] at h
    exact h.trans (hf a c')

/-- Deeds that send a line of another kind declare nothing. -/
theorem declared_act (deed : Deed) {ch : Char} {rest : List Char}
    (hline : deed.command.line.toList = '(' :: ch :: rest) (hch : ch ≠ 'd') (c : Checker τ ω) :
    c.Declared [] (c.perform (act deed)).2 := by
  refine .silent (Session.spoke_perform deed c.session) (fun line hmem => ?_) rfl rfl
  rw [eq_of_mem_accepted hmem]
  exact declaresConstant_of_toList hline hch

theorem declared_checkSat (c : Checker τ ω) : c.Declared [] (c.perform checkSat).2 := by
  obtain ⟨outcome, hsaid⟩ := Session.said_of_checkSat c.session
  refine .silent hsaid.toSpoke (fun line hmem => ?_) rfl rfl
  rw [eq_of_mem_accepted hmem]
  decide +kernel

theorem declared_note (text : String) (c : Checker τ ω) :
    c.Declared [] (c.perform (note text)).2 := by
  have hspoke : c.session.Spoke [] (c.session.record .debug text) :=
    (Session.Spoke.refl c.session).of_eq rfl rfl rfl
  exact .silent hspoke (fun _ h => nomatch h) rfl rfl

theorem declared_ofOutcome (outcome : Outcome α) (c : Checker τ ω) :
    c.Declared [] (c.perform (ofOutcome outcome)).2 :=
  .silent (.refl c.session) (fun _ h => nomatch h) rfl rfl

theorem declared_refute (goal : Term) (obligation : String) (span : Option Span)
    (c : Checker τ ω) : c.Declared [] (c.perform (refute goal obligation span)).2 := by
  have hassert := declared_act (.write (.assert (.not goal)))
    (Scripted.toList_line_assert _) (by decide) c
  refine declared_bind hassert fun _ c₁ => declared_bind (declared_checkSat c₁) fun answer c₂ => ?_
  refine declared_bind (declared_note _ c₂) fun _ c₃ => ?_
  split
  · exact .silent (.refl c₃.session) (fun _ h => nomatch h) rfl rfl
  · exact declared_ofOutcome _ c₃

theorem declared_fresh {ty : Ty} {sort : SolverSort} (hsort : SolverSort.of ty = .ok sort)
    (c : Checker τ ω) :
    (∃ name c', c.perform (fresh ty) = (.ok name, c') ∧ c.Declared [.fresh name sort] c') ∨
      ∃ failure c', c.perform (fresh ty) = (.error failure, c') ∧ c.Declared [] c' := by
  have hperform := perform_fresh hsort c
  have hsaid := Session.said_of_write
    (Command.declareConst (c.progress.names.next sort.tag).1 sort.display).line c.session
  rcases hwrite : Session.write
    (Command.declareConst (c.progress.names.next sort.tag).1 sort.display).line c.session with
    ⟨failure | u, session⟩
  · rw [hwrite] at hperform hsaid
    exact .inr ⟨_, _, hperform, ⟨_, hsaid.toSpoke, rfl⟩, ⟨[sort.tag], rfl, List.nil_sublist _⟩, rfl⟩
  · rw [hwrite] at hperform hsaid
    have hline := declaresConstant_declareConst (c.progress.names.next sort.tag).1 sort.display
    refine .inl ⟨_, _, hperform, ⟨_, hsaid.toSpoke, ?_⟩, ⟨[sort.tag], rfl, .refl _⟩, rfl⟩
    exact List.filter_cons_of_pos hline

theorem Declares.declared {part : CheckM α} {c : Checker τ ω} {constants : List Constant}
    (h : Declares part c constants) : c.Declared constants (c.perform part).2 := by
  induction h with
  | answer outcome c => exact declared_ofOutcome outcome c
  | note text c => exact declared_note text c
  | assert term c =>
      have hline := Scripted.toList_line_assert term
      exact declared_act (.write (.assert term)) hline (by decide) c
  | refute goal obligation span c => exact declared_refute goal obligation span c
  | @fresh ty sort name c c' hsort h =>
      rcases declared_fresh hsort c with ⟨name', c'', h', hdeclared⟩ | ⟨failure, c'', h', -⟩
      · rw [h] at h'
        cases h'
        rwa [h]
      · rw [h] at h'
        cases h'
  | @freshRefused ty failure c c' h =>
      cases hsort : SolverSort.of ty with
      | error failure' =>
          have hrefused : c.perform (Checker.fresh ty) = (.error failure', c) := by
            unfold Checker.fresh
            rw [hsort, perform_bind]
            rfl
          rw [hrefused]
          exact declared_ofOutcome (Except.error failure' : Outcome Unit) c
      | ok sort =>
          rcases declared_fresh hsort c with ⟨name', c'', h', -⟩ | ⟨failure', c'', h', hdeclared⟩
          · rw [h] at h'
            cases h'
          · rwa [h']
  | @bound name sort c c' h =>
      have hsaid := Session.spoke_perform (.write (.declareConst name sort)) c.session
      have hwritten : (Session.perform (.write (.declareConst name sort)) c.session).1 = .ok () :=
        congrArg Prod.fst h
      rw [hwritten] at hsaid
      refine ⟨⟨_, hsaid, ?_⟩, ⟨[], rfl, .slnil⟩, rfl⟩
      exact List.filter_cons_of_pos (declaresConstant_declareConst name sort)
  | @boundRefused name sort failure c c' h =>
      have hsaid := Session.spoke_perform (.write (.declareConst name sort)) c.session
      have hrefused : (Session.perform (.write (.declareConst name sort)) c.session).1 =
        .error failure := congrArg Prod.fst h
      rw [hrefused] at hsaid
      exact .silent hsaid (fun _ h => nomatch h) rfl rfl
  | andThen _ h _ ih ihf =>
      rw [perform_bind, h]
      rw [h] at ih
      exact ih.trans ihf
  | stopped _ h ih =>
      rw [perform_bind, h]
      rwa [h] at ih
  | adapt _ f ih =>
      rw [perform_adapt]
      exact ih
  | @scope _ part c c' constants hpush _ ih =>
      have hentered := declared_act .push rfl (by decide) c
      have hleft := declared_act .pop rfl (by decide) (c'.perform part).2
      rw [perform_inSolverScope, hpush]
      rw [hpush] at hentered
      have hall := hentered.trans (ih.trans hleft)
      rwa [List.nil_append, List.append_nil] at hall
  | @scopeRefused _ part failure c c' hpush =>
      have hrefused := declared_act .push rfl (by decide) c
      rw [perform_inSolverScope, hpush]
      rwa [hpush] at hrefused

/-- What a checker is asked for. -/
inductive Task where
  | fresh (ty : Ty)
  | check (mode : Mode) (locals : Bindings) (e : Expr)

def Task.part (env : Env) : Task → CheckM Unit
  | fresh ty => do let _ ← Checker.fresh ty
  | check mode locals e => do let _ ← Checker.check env mode locals e

theorem Task.part_part (env : Env) (task : Task) : Part (fun _ => True) (task.part env) := by
  cases task with
  | fresh ty => exact (Part.fresh ty).andThen fun _ => part_pure ()
  | check mode locals e =>
      exact (part_checkWithin_trivial env _ mode locals e).andThen fun _ => part_pure ()

/-- The checker carries out one task after the other, whatever they end in. -/
def carryOut (env : Env) (tasks : List Task) (c : Checker τ ω) : Checker τ ω :=
  tasks.foldl (fun c task => (c.perform (task.part env)).2) c

/-- These constants are declared while the checker carries out the tasks. -/
inductive DeclaresAll (env : Env) : List Task → Checker τ ω → List Constant → Prop where
  | nil (c : Checker τ ω) : DeclaresAll env [] c []
  | cons {task : Task} {tasks : List Task} {c : Checker τ ω} {first rest : List Constant}
      (hfirst : Declares (task.part env) c first)
      (hrest : DeclaresAll env tasks (c.perform (task.part env)).2 rest) :
      DeclaresAll env (task :: tasks) c (first ++ rest)

theorem exists_declaresAll (env : Env) (tasks : List Task) (c : Checker τ ω) :
    ∃ constants, DeclaresAll env tasks c constants := by
  induction tasks generalizing c with
  | nil => exact ⟨[], .nil c⟩
  | cons task tasks ih =>
      obtain ⟨first, hfirst⟩ := exists_declares (task.part_part env) c
      obtain ⟨rest, hrest⟩ := ih (c.perform (task.part env)).2
      exact ⟨first ++ rest, .cons hfirst hrest⟩

theorem DeclaresAll.declared {env : Env} {tasks : List Task} {c : Checker τ ω}
    {constants : List Constant} (h : DeclaresAll env tasks c constants) :
    c.Declared constants (carryOut env tasks c) := by
  induction h with
  | nil c => exact .silent (.refl c.session) (fun _ h => nomatch h) rfl rfl
  | cons hfirst _ ih => exact hfirst.declared.trans ih

/-- Fresh names never repeat. The k-th request of a tag is given `_`, the tag and k - 1, and the
names of all requests are distinct. So are those of the fresh variables that one checker declares
for any tasks, however each of them ends: whichever accepted declarations of constants are for
fresh variables and not for lets, these have distinct names, and there are as many as the checker
has counted. -/
theorem fresh_never_repeats :
    (∀ tags : List Char, (FreshNames.nextAll {} tags).Nodup) ∧
    (∀ (before later : List Char) (tag : Char),
      (FreshNames.nextAll {} (before ++ tag :: later))[before.length]? =
        some (String.ofList ['_', tag] ++ toString (before.count tag))) ∧
    ∀ {τ ω : Type} [Transport τ ω] (env : Env) (tasks : List Task) (session : Session τ ω),
      (∃ constants, DeclaresAll env tasks { session } constants) ∧
      ∀ constants, DeclaresAll env tasks { session } constants →
        (freshNames constants).Nodup ∧
        (freshNames constants).length =
          (carryOut env tasks { session }).progress.summary.fresh ∧
        ∃ lines, (carryOut env tasks { session }).session.transcript.toList =
            session.transcript.toList ++ lines ∧
          lines.filter declaresConstant = constants.map Constant.line := by
  refine ⟨FreshNames.nodup_nextAll {}, FreshNames.getElem?_nextAll, fun env tasks session =>
    ⟨exists_declaresAll env tasks { session }, fun constants h => ?_⟩⟩
  have hdeclared := h.declared
  obtain ⟨tags, -, hsublist⟩ := hdeclared.names
  obtain ⟨lines, hspoke, hlines⟩ := hdeclared.lines
  refine ⟨hsublist.nodup (FreshNames.nodup_nextAll {} tags), ?_, lines, hspoke.transcript, hlines⟩
  exact (hdeclared.count.trans (Nat.zero_add _)).symm

/-- A task that checks the sample's call, whose depth is known. -/
theorem part_call : Task.part Sample.env (.check .full ∅ Sample.call) =
    checkWithin Sample.env 0x100003 .full ∅ Sample.call >>= fun _ => pure () := by
  rw [Task.part, check, Sample.depthLimit_call]

theorem carryOut_eq_foldl (env : Env) (tasks : List Task) (c : Checker τ ω) :
    carryOut env tasks c =
      (tasks.map (Task.part env)).foldl (fun c part => (c.perform part).2) c := by
  rw [carryOut, List.foldl_map]

theorem carryOut_calls (count : Nat) (c : Checker τ ω) :
    carryOut Sample.env (List.replicate count (.check .full ∅ Sample.call)) c =
      (List.replicate count (checkWithin Sample.env 0x100003 .full ∅ Sample.call >>=
        fun _ => (pure () : CheckM Unit))).foldl (fun c part => (c.perform part).2) c := by
  rw [carryOut_eq_foldl, List.map_replicate, part_call]

open Scripted in
/-- The first check is refuted, after its scope was left; the others each declare a variable. -/
theorem fresh_never_repeats_refuted :
    ∃ constants, DeclaresAll Sample.env (List.replicate 3 (.check .full ∅ Sample.call))
        ({ session := { world := { answers := ["sat", "unsat", "unsat"] }, channel := some {} } } :
          Checker Solver Script) constants ∧
      constants.map Constant.line = ["(declare-const _i0 Int)", "(declare-const _i1 Int)"] ∧
      (freshNames constants).Nodup ∧ (freshNames constants).length = 2 := by
  obtain ⟨⟨constants, hdeclares⟩, hnames⟩ := fresh_never_repeats.2.2 Sample.env
    (List.replicate 3 (.check .full ∅ Sample.call))
    ({ world := { answers := ["sat", "unsat", "unsat"] }, channel := some {} } :
      Session Solver Script)
  obtain ⟨hnodup, hcount, lines, htranscript, hlines⟩ := hnames constants hdeclares
  rw [carryOut_calls] at hcount htranscript
  refine ⟨constants, hdeclares, ?_, hnodup, hcount.trans (by decide +kernel)⟩
  rw [List.nil_append] at htranscript
  rw [← hlines, ← htranscript]
  decide +kernel

end Checker

end ContractCheck
