import ContractCheck.Proofs.Frames
import ContractCheck.Proofs.Preamble
import ContractCheck.Proofs.SingleText
import ContractCheck.Proofs.Vocabulary

/-!
Every line of a run is one command. If the names that are written as they stand are symbols, all
terms of a walk are single S-expressions, whatever its types are called, since only letters, digits
and `_` are left of those (`Checker.vocabulary_symbols`). So each line that a run sends opens a list
that its last parenthesis closes, and holds no character that ends a line (`Session.one_command`).
-/

namespace ContractCheck

mutual

/-- The names that a walk over the expression may write, those of variables and of lets, in
contracts of casts too. A callee is looked up before its name is written. -/
def Expr.names : Expr → List String
  | ⟨_, shape, _⟩ => shape.names

def Expr.namesAll : List Expr → List String
  | [] => []
  | e :: es => e.names ++ Expr.namesAll es

def Shape.names : Shape → List String
  | .var name => [name]
  | .bool _ | .int _ | .ite _ _ _ | .lambda _ _ => []
  | .call _ args => Expr.namesAll args
  | .letIn name value body => name :: (value.names ++ body.names)
  | .cast expr target => expr.names ++ target.names

def RefinedTy.names : RefinedTy → List String
  | .plain _ => []
  | .refined _ refinement => refinement.names

def Refinement.names : Refinement → List String
  | .bind _ => []
  | .holds _ pred => pred.names
  | .equals _ value => value.names

end

/-- All names that a walk over the expression may write are symbols. -/
def Expr.isSymbolic (e : Expr) : Bool := e.names.all isSymbol

/-- The names that the solver knows are symbols, and so are those in contracts. -/
def Env.isSymbolic (env : Env) : Bool :=
  env.entries.all fun entry =>
    (!(entry.2.origin == .value || entry.2.origin == .uninterpreted) || isSymbol entry.1) &&
      entry.2.clauses.all Expr.isSymbolic

theorem Expr.mem_namesAll {e : Expr} {es : List Expr} {name : String} (he : e ∈ es)
    (h : name ∈ e.names) : name ∈ Expr.namesAll es := by
  induction es with
  | nil => cases he
  | cons first rest ih =>
      rw [Expr.namesAll]
      rcases List.mem_cons.1 he with rfl | he
      · exact List.mem_append_left _ h
      · exact List.mem_append_right _ (ih he)

theorem RefinedTy.mem_names_of_clause {t : RefinedTy} {clause : Clause} {name : String}
    (hclause : t.clause? = some clause) (h : name ∈ clause.expr.names) : name ∈ t.names := by
  rcases t with ty | ⟨ty, r⟩
  · cases hclause
  · rw [RefinedTy.names]
    cases r with
    | bind binder => cases hclause
    | holds binder pred =>
        cases hclause
        rwa [Refinement.names]
    | equals binder value =>
        cases hclause
        rwa [Refinement.names]

theorem Expr.isSymbolic_iff {e : Expr} :
    e.isSymbolic = true ↔ ∀ name ∈ e.names, isSymbol name = true :=
  List.all_eq_true

theorem Env.isSymbol_of_isSymbolic {env : Env} (h : env.isSymbolic = true) {name : String}
    {sig : Signature} (hsig : env.get? name = some sig)
    (horigin : sig.origin = .value ∨ sig.origin = .uninterpreted) : isSymbol name = true := by
  have hentry := List.all_eq_true.1 h _ (NameMap.get?_eq_some_iff.1 hsig)
  rw [Bool.and_eq_true] at hentry
  rcases horigin with horigin | horigin <;>
    · rw [horigin] at hentry
      simpa using hentry.1

theorem Env.isSymbolic_clause {env : Env} (h : env.isSymbolic = true) {name : String}
    {sig : Signature} {params : List RefinedTy} {ret t : RefinedTy} {clause : Clause}
    (hsig : env.get? name = some sig) (harrow : sig.ty.ty.arrow? = some (params, ret))
    (ht : t ∈ params ++ [ret]) (hclause : t.clause? = some clause) :
    clause.expr.isSymbolic = true := by
  have hentry := List.all_eq_true.1 h _ (NameMap.get?_eq_some_iff.1 hsig)
  rw [Bool.and_eq_true, List.all_eq_true] at hentry
  refine hentry.2 _ ?_
  unfold Signature.clauses
  rw [harrow]
  exact List.mem_filterMap.2 ⟨t, ht, by rw [hclause]; rfl⟩

/-- A single S-expression in these characters. -/
structure IsSpelled (p : Char → Prop) (text : String) : Prop where
  single : isSingle text = true
  chars : ∀ c ∈ text.toList, p c

/-- A text in these characters that may stand in a list. -/
structure IsPart (p : Char → Prop) (text : String) : Prop where
  nested : IsNested text
  chars : ∀ c ∈ text.toList, p c

/-- A command that is a list of such texts. -/
def Command.IsSpelled (p : Char → Prop) (c : Command) : Prop :=
  ∃ items, c.toSExpr = .list items ∧ ∀ item ∈ items, IsPart p item.render

/-- The line is one list from its first character to its last, and no character in it ends a
line. -/
structure IsCommandLine (line : String) : Prop where
  opening : line.toList.head? = some '('
  single : isSingle line = true
  printable : ∀ c ∈ line.toList, isPrintable c = true

section

variable {p : Char → Prop}

theorem IsSpelled.part {text : String} (h : IsSpelled p text) : IsPart p text :=
  ⟨isNested_of_isSingle h.single, h.chars⟩

variable (hp : ∀ c, isPrintable c = true → p c)
include hp

theorem chars_renderItems {items : List SExpr}
    (h : ∀ item ∈ items, ∀ c ∈ item.render.toList, p c) :
    ∀ c ∈ (SExpr.renderItems items).toList, p c := by
  induction items with
  | nil => exact nofun
  | cons item rest ih =>
      obtain ⟨hitem, hrest⟩ := List.forall_mem_cons.1 h
      cases rest with
      | nil => exact hitem
      | cons next rest =>
          rw [SExpr.renderItems, String.toList_append, String.toList_append]
          refine List.forall_mem_append.2 ⟨List.forall_mem_append.2 ⟨hitem, ?_⟩, ih hrest⟩
          exact List.forall_mem_singleton.2 (hp ' ' rfl)

theorem isSpelled_list {items : List SExpr} (h : ∀ item ∈ items, IsPart p item.render) :
    IsSpelled p (SExpr.list items).render := by
  refine ⟨isSingle_list fun item hitem => (h item hitem).nested, ?_⟩
  rw [SExpr.render, String.toList_append, String.toList_append]
  have hitems := chars_renderItems hp fun item hitem => (h item hitem).chars
  exact List.forall_mem_append.2 ⟨List.forall_mem_append.2
    ⟨List.forall_mem_singleton.2 (hp '(' rfl), hitems⟩, List.forall_mem_singleton.2 (hp ')' rfl)⟩

theorem isPart_of_symbolChars {text : String} (h : ∀ c ∈ text.toList, isSymbolChar c = true) :
    IsPart p text :=
  ⟨isNested_of_symbolChars h, fun c hc => hp c (isPrintable_of_isSymbolChar (h c hc))⟩

theorem isSpelled_of_isSymbol {text : String} (h : isSymbol text = true) : IsSpelled p text := by
  refine ⟨isSingle_of_isSymbol h, fun c hc => hp c (isPrintable_of_isSymbolChar ?_)⟩
  rw [isSymbol, Bool.and_eq_true, List.all_eq_true] at h
  exact h.2 c hc

theorem isSpelled_apply {head : String} {args : List SExpr} (hhead : isSymbol head = true)
    (hargs : ∀ arg ∈ args, IsSpelled p arg.render) :
    IsSpelled p (SExpr.apply head args).render := by
  refine isSpelled_list hp (List.forall_mem_cons.2 ⟨?_, fun arg harg => (hargs arg harg).part⟩)
  rw [SExpr.render]
  exact (isSpelled_of_isSymbol hp hhead).part

/-- Only letters, digits and `_` are left of the name of a type. -/
theorem isPart_display {ty : Ty} {sort : SolverSort} (h : SolverSort.of? ty = some sort) :
    IsPart p sort.display := by
  refine isPart_of_symbolChars hp ?_
  cases sort with
  | int => exact List.all_eq_true.1 (by decide +kernel : "Int".toList.all isSymbolChar = true)
  | bool => exact List.all_eq_true.1 (by decide +kernel : "Bool".toList.all isSymbolChar = true)
  | named name =>
      obtain ⟨rfl, -⟩ := SolverSort.of?_eq_named h
      exact fun c hc => isSymbolChar_of_isPlainChar
        (isPlainChar_of_isSortChar (isSortChar_sortName hc))

theorem isSpelled_declareConst {name : String} {ty : Ty} {sort : SolverSort}
    (hname : isSymbol name = true) (hsort : SolverSort.of? ty = some sort) :
    (Command.declareConst name sort.display).IsSpelled p := by
  have hhead : isSymbol "declare-const" = true := by decide
  refine ⟨_, rfl, List.forall_mem_cons.2 ⟨?_, List.forall_mem_cons.2 ⟨?_,
    List.forall_mem_singleton.2 ?_⟩⟩⟩
  · exact (isSpelled_of_isSymbol hp hhead).part
  · rw [SExpr.render]
    exact (isSpelled_of_isSymbol hp hname).part
  · rw [SExpr.render]
    exact isPart_display hp hsort

omit hp in
theorem isSymbol_of_isPlainName {name : String} (h : isPlainName name = true) :
    isSymbol name = true := by
  unfold isPlainName at h
  cases hname : name.toList with
  | nil =>
      rw [hname] at h
      cases h
  | cons c cs =>
      simp only [hname, Bool.and_eq_true, List.all_eq_true] at h
      simp only [isSymbol, hname, Bool.and_eq_true, List.all_eq_true, Bool.not_eq_true']
      refine ⟨?_, fun d hd => isSymbolChar_of_isPlainChar (h.1.2 d hd)⟩
      rw [String.isEmpty_eq_false_iff, Ne, ← String.toList_eq_nil_iff, hname]
      exact List.cons_ne_nil c cs

omit hp in
theorem isSymbol_toString (n : Nat) : isSymbol (toString n) = true := by
  simp only [isSymbol, Bool.and_eq_true, List.all_eq_true, Bool.not_eq_true']
  refine ⟨?_, fun c hc => ?_⟩
  · rw [String.isEmpty_eq_false_iff, Ne, ← String.toList_eq_nil_iff, Nat.toString_eq_repr,
      Nat.toList_repr]
    exact Nat.toDigits_ne_nil
  · simp [isSymbolChar, Char.isAlphanum, isDigit_of_mem_toString hc]

theorem Term.isSpelled_int (n : Int64) : IsSpelled p (Term.int n).render := by
  have hdigits : IsSpelled p (SExpr.atom (toString n.toInt.natAbs)).render := by
    rw [SExpr.render]
    exact isSpelled_of_isSymbol hp (isSymbol_toString _)
  unfold Term.int
  split
  · exact isSpelled_apply hp (by decide) (List.forall_mem_singleton.2 hdigits)
  · exact hdigits

theorem Term.isSpelled_not {t : Term} (h : IsSpelled p t.render) :
    IsSpelled p (Term.not t).render :=
  isSpelled_apply hp (by decide) (List.forall_mem_singleton.2 h)

theorem Operator.isSpelled_of_apply {name : String} {terms : List Term} {applied : Term}
    (h : Operator.apply name terms = .ok applied) (hterms : ∀ t ∈ terms, IsSpelled p t.render) :
    IsSpelled p applied.render := by
  have hall : ∀ entry ∈ symbols, isSymbol entry.2 = true := by decide
  obtain ⟨symbol, hsymbol, happlied⟩ := apply_eq_ok h
  have happly : IsSpelled p (SExpr.apply symbol terms).render :=
    isSpelled_apply hp (hall (name, symbol) (NameMap.mem_of_lookup_eq_some hsymbol)) hterms
  rcases happlied with rfl | rfl
  · exact happly
  · exact Term.isSpelled_not hp happly

/-- Where the names are symbols, all terms are single and all commands are lists. -/
theorem Checker.vocabulary_symbols {env : Env} (henv : env.isSymbolic = true) :
    Vocabulary env (fun e => e.isSymbolic = true) (fun t => IsSpelled p t.render)
      (Command.IsSpelled p) where
  bool b := by
    refine isSpelled_of_isSymbol hp ?_
    cases b <;> decide
  int n := Term.isSpelled_int hp n
  not _ h := Term.isSpelled_not hp h
  eq _ _ ha hb := isSpelled_apply hp (by decide)
    (List.forall_mem_cons.2 ⟨ha, List.forall_mem_singleton.2 hb⟩)
  operator _ _ _ h hargs := Operator.isSpelled_of_apply hp h hargs
  application name sig args hsig horigin hargs := by
    have hname := Env.isSymbol_of_isSymbolic henv hsig (.inr horigin)
    unfold application
    split
    · exact isSpelled_of_isSymbol hp hname
    · exact isSpelled_apply hp hname hargs
  assert _ h := by
    have hhead : isSymbol "assert" = true := by decide
    exact ⟨_, rfl, List.forall_mem_cons.2
      ⟨(isSpelled_of_isSymbol hp hhead).part, List.forall_mem_singleton.2 h.part⟩⟩
  var ty name span he := isSpelled_of_isSymbol hp
    (Expr.isSymbolic_iff.1 he name (by simp [Expr.names, Shape.names]))
  call ty callee args span he arg harg := by
    refine Expr.isSymbolic_iff.2 fun name hname => Expr.isSymbolic_iff.1 he name ?_
    rw [Expr.names, Shape.names]
    exact Expr.mem_namesAll harg hname
  letIn ty name value body span he := by
    rw [Expr.isSymbolic_iff, Expr.names, Shape.names, List.forall_mem_cons,
      List.forall_mem_append] at he
    obtain ⟨hname, hvalue, hbody⟩ := he
    exact ⟨Expr.isSymbolic_iff.2 hvalue, Expr.isSymbolic_iff.2 hbody,
      isSpelled_of_isSymbol hp hname, fun sort hsort => isSpelled_declareConst hp hname hsort⟩
  cast ty e target span he := by
    rw [Expr.isSymbolic_iff, Expr.names, Shape.names, List.forall_mem_append] at he
    obtain ⟨hexpr, htarget⟩ := he
    refine ⟨Expr.isSymbolic_iff.2 hexpr, fun clause hclause => ?_⟩
    exact Expr.isSymbolic_iff.2 fun name hname =>
      htarget name (RefinedTy.mem_names_of_clause hclause hname)
  clause name sig params ret hsig harrow t ht clause hclause :=
    Env.isSymbolic_clause henv hsig harrow ht hclause
  result name sig params ret hsig harrow sort names hsort := by
    have hname := isSymbol_of_isPlainName (isPlainName_next names sort)
    exact ⟨isSpelled_declareConst hp hname hsort, isSpelled_of_isSymbol hp hname⟩

end

theorem Command.IsSpelled.isCommandLine {c : Command}
    (h : c.IsSpelled fun c => isPrintable c = true) : IsCommandLine c.line := by
  obtain ⟨items, hlist, hitems⟩ := h
  obtain ⟨hsingle, hchars⟩ := isSpelled_list (fun _ h => h) hitems
  unfold Command.line
  rw [hlist]
  refine ⟨?_, hsingle, hchars⟩
  rw [SExpr.render]
  simp

/-- A run declares what it mentions in lines of one command each. -/
theorem isCommandLine_of_mem_declarations {env : Env} {e : Expr} (henv : env.isSymbolic = true)
    {d : String × Command} (hd : d ∈ env.declarations e) : IsCommandLine d.2.line := by
  have hp : ∀ c, isPrintable c = true → isPrintable c = true := fun _ h => h
  have hword : ∀ {text : String}, isSymbol text = true →
      IsPart (fun c => isPrintable c = true) (SExpr.atom text).render :=
    fun h => (isSpelled_of_isSymbol hp h).part
  refine Command.IsSpelled.isCommandLine ?_
  rcases mem_declarations_iff.1 (List.mem_map_of_mem hd) with ⟨sort, hsort, hc⟩ |
    ⟨name, sig, key, hsig, hdeclare⟩
  · obtain ⟨ty, hty⟩ := namesSort_of_mem_sortsOfRun hsort
    rw [hc]
    exact ⟨_, rfl, List.forall_mem_cons.2 ⟨hword (by decide), List.forall_mem_cons.2
      ⟨isPart_display hp hty, List.forall_mem_singleton.2 (hword (by decide))⟩⟩⟩
  rcases Signature.globalDeclaration_declare hdeclare with ⟨sort, horigin, hof, -, hc⟩ |
    ⟨params, ret, domain, range, horigin, -, hdomain, hrange, -, hc⟩
  · rw [hc]
    exact isSpelled_declareConst hp (Env.isSymbol_of_isSymbolic henv hsig (.inl horigin)) hof
  · rw [hc]
    have hname := Env.isSymbol_of_isSymbolic henv hsig (.inr horigin)
    have hparams : ∀ item ∈ (domain.map SolverSort.display).map SExpr.atom,
        IsPart (fun c => isPrintable c = true) item.render := by
      intro item hitem
      obtain ⟨text, htext, rfl⟩ := List.mem_map.1 hitem
      obtain ⟨sort, hsort, rfl⟩ := List.mem_map.1 htext
      obtain ⟨param, -, hof⟩ := exists_of_forall₂
        (forall₂_of_mapM_eq_some (SolverSort.mapM_of_eq_ok_iff.1 hdomain)) hsort
      rw [SExpr.render]
      exact isPart_display hp hof
    exact ⟨_, rfl, List.forall_mem_cons.2 ⟨hword (by decide), List.forall_mem_cons.2
      ⟨hword hname, List.forall_mem_cons.2 ⟨(isSpelled_list hp hparams).part,
        List.forall_mem_singleton.2 (isPart_display hp (SolverSort.of_eq_ok_iff.1 hrange))⟩⟩⟩⟩

namespace Session

variable {τ ω : Type} [Transport τ ω]

/-- The transcript goes on from these lines with lines that fit. -/
def Adds (fits : String → Prop) (lines : List String) (s : Session τ ω) : Prop :=
  ∃ more, s.transcript.toList = lines ++ more ∧ ∀ line ∈ more, fits line

variable {fits : String → Prop} {lines : List String} {s s' : Session τ ω}

omit [Transport τ ω] in
theorem adds_self (s : Session τ ω) : s.Adds fits s.transcript.toList :=
  ⟨[], (List.append_nil _).symm, nofun⟩

theorem Adds.spoke (h : s.Adds fits lines) {said : List String} (hspoke : s.Spoke said s')
    (hsaid : ∀ line ∈ said, fits line) : s'.Adds fits lines := by
  obtain ⟨more, hmore, hfits⟩ := h
  refine ⟨more ++ said, ?_, List.forall_mem_append.2 ⟨hfits, hsaid⟩⟩
  rw [hspoke.transcript, hmore, List.append_assoc]

theorem Adds.accepted (h : s.Adds fits lines) {line : String} {outcome : Outcome Unit}
    (hspoke : s.Spoke (accepted line outcome) s') (hline : fits line) : s'.Adds fits lines :=
  h.spoke hspoke fun other hother => by rwa [eq_of_mem_accepted hother]

theorem adds_write {line : String} (hline : fits line) :
    Preserves (Adds fits lines) (write line : SessionM τ ω Unit) :=
  fun s h => h.accepted (said_of_write line s).toSpoke hline

omit [Transport τ ω] in
theorem isClosed_adds :
    IsClosed (fun {α} (op : SessionM τ ω α) => Preserves (Adds fits lines) op) :=
  isClosed_preserves fun _ _ _ h => h

theorem adds_start (hline : fits Command.scopedDeclarations.line) :
    Preserves (Adds fits lines) (start : SessionM τ ω Unit) := by
  intro s h
  rw [start_apply]
  split
  · exact h
  refine isClosed_adds.andThen (fun s h => ?_) (fun _ => adds_write hline) s h
  rcases launch_cases s with ⟨failure, world, log, -, hlaunch⟩ | ⟨c, world, log, -, hlaunch⟩
  · rw [hlaunch]
    exact h
  · rw [hlaunch]
    exact h

theorem adds_declareGlobal {key line : String} (hline : fits line) :
    Preserves (Adds fits lines) (declareGlobal key line : SessionM τ ω Unit) := by
  intro s h
  rw [declareGlobal_apply]
  split
  · exact h
  · exact isClosed_adds.andThen (adds_write hline) (fun _ _ h => h) s h

/-- A run sends lines of its declarations, of its walk, and five others. -/
theorem adds_prove {env : Env} {e : Expr} {allowed : Command → Prop}
    (hdeclarations : ∀ d ∈ env.declarations e, fits d.2.line)
    (hwalk : (Checker.runDialogue env e).Obeys (Rule.vetted allowed)
      (fun _ height => height = 0) 0)
    (hallowed : ∀ c, allowed c → fits c.line)
    (hfixed : ∀ c ∈ [Command.scopedDeclarations, .push, .pop, .checkSat, .sync], fits c.line) :
    Preserves (Adds fits lines) (prove env e : SessionM τ ω Summary) := by
  have hread : Preserves (Adds fits lines) (read : SessionM τ ω String) :=
    fun s h => h.spoke (said_of_read s).toSpoke nofun
  have hcheck : Preserves (Adds fits lines) (checkSat : SessionM τ ω String) :=
    isClosed_adds.checkSat (adds_write (hfixed _ (by simp))) hread
  refine isClosed_adds.prove (adds_start (hfixed _ (by simp)))
    (fun d hd => adds_declareGlobal (hdeclarations d hd)) (fun s h => ?_)
    (isClosed_adds.sync (adds_write (hfixed _ (by simp))) hread)
  have hdeed : ∀ (height : Nat) (s : Session τ ω) deed, s.Adds fits lines →
      (Rule.vetted allowed).allows height deed → (perform deed s).2.Adds fits lines := by
    intro height s deed h hdeed
    refine h.accepted (spoke_perform deed s) ?_
    cases deed with
    | write command => exact hallowed command (hdeed.2 command rfl)
    | push => exact hfixed .push (by simp)
    | pop => exact hfixed .pop (by simp)
  obtain ⟨height, hheld, -⟩ := hold_obeys (I := fun _ s => Adds fits lines s)
    (fun _ _ _ h => h) hdeed (fun _ s h => hcheck s h) hwalk h
  exact hheld

/-- Every line of a run is one command. Where the names of variables, of lets and of the globals
that the solver knows are symbols, whatever types are called and whatever the solver answers, each
line that a run sends is one list in printable characters. And each term that a walk answers where
names are bound to single S-expressions is a single S-expression. -/
theorem one_command {env : Env} {e : Expr} (henv : env.isSymbolic = true)
    (he : e.isSymbolic = true) (s : Session τ ω) :
    (∃ lines, (prove env e s).2.transcript.toList = s.transcript.toList ++ lines ∧
      ∀ line ∈ lines, IsCommandLine line) ∧
    ∀ (c c' : Checker τ ω) (mode : Mode) (locals : Bindings) (t : Term),
      locals.Within (fun t => isSingle t.render = true) →
      c.perform (Checker.check env mode locals e) = (.ok t, c') → isSingle t.render = true := by
  constructor
  · have hwalk := Checker.vetted_run (Checker.vocabulary_symbols (fun _ h => h) henv) he 0
    refine adds_prove (fun d hd => isCommandLine_of_mem_declarations henv hd) hwalk
      (fun c hc => hc.isCommandLine) ?_ s (adds_self s)
    have hfixed : ∀ c ∈ [Command.scopedDeclarations, .push, .pop, .checkSat, .sync],
        c.line.toList.head? = some '(' ∧ isSingle c.line = true ∧
          c.line.toList.all isPrintable = true := by decide +kernel
    exact fun c hc =>
      ⟨(hfixed c hc).1, (hfixed c hc).2.1, List.all_eq_true.1 (hfixed c hc).2.2⟩
  · intro c c' mode locals t hlocals hperform
    have hwalk := Checker.vetted_checkWithin
      (Checker.vocabulary_symbols (p := fun _ => True) (fun _ _ => trivial) henv)
      (Checker.depthLimit env e) mode locals e he
      fun name t hfound => ⟨hlocals name t hfound, fun _ _ => trivial⟩
    exact (Checker.vetted_perform hwalk hperform).single

/-- A type that is not called by a symbol, applied to types without sorts. -/
def oddTy : Ty := .app "größe (1)\n" [.arrow [] (.plain .int), .var 7]

def oddEnv : Env := .ofList [
  ("+", .function .builtin [.plain oddTy, .plain oddTy] (.plain oddTy)), ("x", .value oddTy)]

def oddSum : Expr :=
  .letIn "y" (.var "x" oddTy) (.call "+" [.var "y" oddTy, .var "y" oddTy] oddTy)

theorem depthLimit_oddSum : Checker.depthLimit oddEnv oddSum = 0x100003 := by
  have hfound : oddEnv.get? "+" =
      some (.function .builtin [.plain oddTy, .plain oddTy] (.plain oddTy)) := rfl
  have hreach : oddEnv.reachDepth oddSum.calls = 0 := by
    rw [show oddSum.calls = ["+"] from rfl, Env.reachDepth]
    split
    · rw [Env.reachDepth]
    · rename_i sig hsig
      rw [hfound] at hsig
      cases hsig
      rw [show Signature.clauseCalls _ ++ [] = [] from rfl, Env.reachDepth]
      rfl
  rw [Checker.depthLimit, hreach, show oddSum.walkDepth = 3 from rfl, Checker.circleDepth]

/-- The lines of a run, in which nothing of the type's name is left that does not belong there. -/
def oddLines : List String := [
  "(set-option :global-declarations false)", "(declare-sort gr__e__1___fun_t7 0)",
  "(declare-const x gr__e__1___fun_t7)", "(push 1)", "(declare-const y gr__e__1___fun_t7)",
  "(assert (= y x))", "(pop 1)", "(echo \"refine-sync\")"]

open Scripted in
theorem one_command_odd : (∀ line ∈ oddLines, IsCommandLine line) ∧
    isSingle "(+ (f |)|) (f |)|))" = true := by
  let s : Session Solver Script := { world := {} }
  have henv : oddEnv.isSymbolic = true := by decide +kernel
  have hsum : oddSum.isSymbolic = true := by decide +kernel
  obtain ⟨⟨lines, htranscript, hlines⟩, hterm⟩ := one_command henv hsum s
  constructor
  · have hsent : (prove oddEnv oddSum s).2.transcript.toList = oddLines := by
      simp only [prove_eq_proveWithin depthLimit_oddSum]
      decide +kernel
    rw [hsent] at htranscript
    rwa [htranscript]
  · let locals : Bindings := .ofList [("y", .apply "f" [.atom "|)|"])]
    have hlocals : locals.Within fun t => isSingle t.render = true := by
      refine Bindings.Within.empty.insert "y" ?_
      decide +kernel
    let c : Checker Solver Script := { session := (start s).2 }
    rcases hperform : c.perform (Checker.check oddEnv .full locals oddSum) with ⟨outcome, c'⟩
    have hrender : outcome.toOption.map SExpr.render = some "(+ (f |)|) (f |)|))" := by
      rw [show outcome = (c.perform (Checker.check oddEnv .full locals oddSum)).1 by rw [hperform],
        Checker.check, depthLimit_oddSum]
      decide +kernel
    rcases outcome with failure | t
    · cases hrender
    · have hsingle := hterm c c' .full locals t hlocals hperform
      rwa [Option.some.inj hrender] at hsingle

end Session

end ContractCheck
