import ContractCheck.Proofs.Level
import ContractCheck.Proofs.SmtModel

/-!
Scripts of commands. Each command changes a stack of scopes, and a model of the stack interprets
its declarations and makes its assertions true. A stack keeps a model when a new constant is
declared, whatever value it is given (`Model.satisfies_withConstant`), and when what is true in the
model is asserted. Commands that leave the scopes they open only add to the innermost scope
(`Stack.afterAll_of_level`).
-/

namespace ContractCheck

namespace Smt

/-- The sort that a word names. -/
def sortOf (text : String) : SolverSort :=
  if text = "Int" then .int else if text = "Bool" then .bool else .named text

/-- The sorts of a function's arguments and of its result. -/
structure Rank where
  domain : List SolverSort
  range : SolverSort
deriving DecidableEq, Repr

/-- What a scope holds. -/
inductive Entry where
  | sort (name : String)
  | symbol (name : String) (rank : Rank)
  | assertion (t : Term)

def Entry.name? : Entry → Option String
  | .sort name | .symbol name _ => some name
  | .assertion _ => none

/-- The open scopes, what came last first. The outermost one is never left. -/
structure Stack where
  scope : List Entry := []
  outer : List (List Entry) := []

end Smt

open Smt

/-- What a command adds to the innermost scope. -/
def Command.entry? : Command → Option Entry
  | .declareSort name => some (.sort name)
  | .declareFun name domain range => some (.symbol name ⟨domain.map sortOf, sortOf range⟩)
  | .declareConst name sort => some (.symbol name ⟨[], sortOf sort⟩)
  | .assert t => some (.assertion t)
  | _ => none

namespace Smt

namespace Stack

def add (st : Stack) (entry : Entry) : Stack := { st with scope := entry :: st.scope }

def push (st : Stack) : Stack := ⟨[], st.scope :: st.outer⟩

def pop (st : Stack) : Stack :=
  match st.outer with
  | [] => st
  | scope :: outer => ⟨scope, outer⟩

/-- The stack after a command. -/
def after (st : Stack) (c : Command) : Stack :=
  match c with
  | .push => st.push
  | .pop => st.pop
  | c => match c.entry? with
    | some entry => st.add entry
    | none => st

def afterAll (st : Stack) (commands : List Command) : Stack := commands.foldl after st

/-- All that is declared and asserted. -/
def entries (st : Stack) : List Entry := st.scope ++ st.outer.flatten

/-- The declared names, scope by scope. -/
def names (st : Stack) : List (List String) :=
  (st.scope :: st.outer).map (·.filterMap Entry.name?)

def Declares (st : Stack) (name : String) : Prop := ∃ scope ∈ st.names, name ∈ scope

@[simp] theorem afterAll_nil (st : Stack) : st.afterAll [] = st := rfl

@[simp] theorem afterAll_cons (st : Stack) (c : Command) (rest : List Command) :
    st.afterAll (c :: rest) = (st.after c).afterAll rest := rfl

@[simp] theorem afterAll_append (st : Stack) (first second : List Command) :
    st.afterAll (first ++ second) = (st.afterAll first).afterAll second := by
  simp [afterAll]

@[simp] theorem entries_add (st : Stack) (entry : Entry) :
    (st.add entry).entries = entry :: st.entries := rfl

@[simp] theorem entries_push (st : Stack) : st.push.entries = st.entries := rfl

theorem declares_iff {st : Stack} {name : String} :
    st.Declares name ↔ ∃ entry ∈ st.entries, entry.name? = some name := by
  have hflat : st.entries = (st.scope :: st.outer).flatten := rfl
  simp only [Declares, names, List.mem_map, hflat, List.mem_flatten]
  constructor
  · rintro ⟨_, ⟨scope, hscope, rfl⟩, hname⟩
    obtain ⟨entry, hentry, hname⟩ := List.mem_filterMap.1 hname
    exact ⟨entry, ⟨scope, hscope, hentry⟩, hname⟩
  · rintro ⟨entry, ⟨scope, hscope, hentry⟩, hname⟩
    exact ⟨_, ⟨scope, hscope, rfl⟩, List.mem_filterMap.2 ⟨entry, hentry, hname⟩⟩

theorem after_of_flat {c : Command} (hpush : c ≠ .push) (hpop : c ≠ .pop) (st : Stack) :
    st.after c = ⟨c.entry?.toList ++ st.scope, st.outer⟩ := by
  cases c with
  | push => exact absurd rfl hpush
  | pop => exact absurd rfl hpop
  | _ => rfl

/-- What is added by commands that leave the scopes they open stays in the innermost scope. -/
theorem afterAll_of_level {commands : List Command} (h : Level commands) :
    ∃ added, ∀ st : Stack, st.afterAll commands = ⟨added ++ st.scope, st.outer⟩ := by
  induction h with
  | nil => exact ⟨[], fun st => rfl⟩
  | @flat c rest hpush hpop _ ih =>
      obtain ⟨added, hadded⟩ := ih
      refine ⟨added ++ c.entry?.toList, fun st => ?_⟩
      rw [afterAll_cons, hadded, after_of_flat hpush hpop, List.append_assoc]
  | @scope inner rest _ _ ihinner ihrest =>
      obtain ⟨first, hfirst⟩ := ihinner
      obtain ⟨added, hadded⟩ := ihrest
      refine ⟨added, fun st => ?_⟩
      have hscope : (st.after .push).afterAll (inner ++ [.pop]) = st := by
        rw [afterAll_append, hfirst]
        rfl
      have hsplit : inner ++ Command.pop :: rest = (inner ++ [.pop]) ++ rest := by simp
      rw [afterAll_cons, hsplit, afterAll_append, hscope, hadded]

theorem afterAll_scope {inner : List Command} (h : Level inner) (st : Stack) :
    st.afterAll (.push :: (inner ++ [.pop])) = st := by
  obtain ⟨added, hadded⟩ := afterAll_of_level (.ofScope h)
  obtain ⟨first, hfirst⟩ := afterAll_of_level h
  rw [afterAll_cons, afterAll_append, hfirst]
  rfl

/-- Where all commands are plain, each of them adds its entry. -/
theorem mem_entries_afterAll {commands : List Command} (h : ∀ c ∈ commands, c.IsPlain)
    {st : Stack} {entry : Entry} : entry ∈ (st.afterAll commands).entries ↔
      (∃ c ∈ commands, c.entry? = some entry) ∨ entry ∈ st.entries := by
  induction commands generalizing st with
  | nil => simp
  | cons c rest ih =>
      obtain ⟨hc, hrest⟩ := List.forall_mem_cons.1 h
      have hafter : st.after c = ⟨c.entry?.toList ++ st.scope, st.outer⟩ :=
        after_of_flat (by rintro rfl; exact hc) (by rintro rfl; exact hc) st
      have hentries : (st.after c).entries = c.entry?.toList ++ st.entries := by
        rw [hafter]
        exact List.append_assoc _ _ _
      rw [afterAll_cons, ih hrest, hentries]
      simp only [List.mem_append, Option.mem_toList, List.mem_cons,
        exists_eq_or_imp, or_assoc, or_left_comm]

end Stack

/-- The model interprets what is declared, according to its rank, and nothing else, and makes all
assertions true. -/
structure Model.Satisfies {carrier : String → Type} (M : Model carrier) (entries : List Entry) :
    Prop where
  total : ∀ name rank, .symbol name rank ∈ entries → ∀ args : List (Value carrier),
    args.map Value.sort = rank.domain → ∃ v, M.symbol name args = some v
  typed : ∀ name args v, M.symbol name args = some v → ∃ rank, .symbol name rank ∈ entries ∧
    args.map Value.sort = rank.domain ∧ v.sort = rank.range
  holds : ∀ t, .assertion t ∈ entries → M.eval t = some (.bool true)

/-- Over some carriers, none of them empty, the stack has a model. -/
def Stack.HasModel (st : Stack) : Prop :=
  ∃ (carrier : String → Type) (_ : ∀ sort, Nonempty (carrier sort)) (M : Model carrier),
    M.Satisfies st.entries

/-- The lines are commands, and what is asserted in the scopes that they leave open has a model. -/
def Satisfiable (lines : List String) : Prop :=
  ∃ commands, lines.mapM Command.read? = some commands ∧
    (Stack.afterAll {} commands).HasModel

namespace Model

variable {carrier : String → Type} {M : Model carrier} {entries : List Entry}

theorem Satisfies.assert (h : M.Satisfies entries) {t : Term}
    (ht : M.eval t = some (.bool true)) : M.Satisfies (.assertion t :: entries) where
  total name rank hmem := h.total name rank (by simpa using hmem)
  typed name args v hv := by
    obtain ⟨rank, hrank, hsorts⟩ := h.typed name args v hv
    exact ⟨rank, List.mem_cons_of_mem _ hrank, hsorts⟩
  holds t' hmem := by
    rcases List.mem_cons.1 hmem with heq | hmem
    · cases heq
      exact ht
    · exact h.holds t' hmem

/-- The model in which a constant has a value besides. -/
def withConstant (M : Model carrier) (name : String) (v : Value carrier) : Model carrier where
  symbol other args :=
    if other = name then if args = [] then some v else none else M.symbol other args
  byZero := M.byZero

theorem withConstant_self (name : String) (v : Value carrier) :
    (M.withConstant name v).symbol name [] = some v := by
  simp [withConstant]

/-- A name that is not declared has no interpretation yet. -/
theorem Satisfies.extends_withConstant (h : M.Satisfies entries) {name : String}
    (hnew : ∀ entry ∈ entries, entry.name? ≠ some name) (v : Value carrier) :
    M.Extends (M.withConstant name v) := by
  refine ⟨fun other args w hw => ?_, rfl⟩
  have hother : other ≠ name := by
    rintro rfl
    obtain ⟨rank, hrank, -⟩ := h.typed other args w hw
    exact hnew _ hrank rfl
  simp only [withConstant, if_neg hother]
  exact hw

/-- A new constant may be given any value of its sort. -/
theorem satisfies_withConstant (h : M.Satisfies entries) {name : String}
    (hnew : ∀ entry ∈ entries, entry.name? ≠ some name) (v : Value carrier) :
    (M.withConstant name v).Satisfies (.symbol name ⟨[], v.sort⟩ :: entries) where
  total other rank hmem args hargs := by
    rcases List.mem_cons.1 hmem with heq | hmem
    · cases heq
      obtain rfl := List.map_eq_nil_iff.1 hargs
      exact ⟨v, withConstant_self name v⟩
    · obtain ⟨w, hw⟩ := h.total other rank hmem args hargs
      exact ⟨w, (h.extends_withConstant hnew v).symbol other args w hw⟩
  typed other args w hw := by
    by_cases hother : other = name
    · subst hother
      by_cases hargs : args = []
      · subst hargs
        rw [withConstant_self] at hw
        obtain rfl := Option.some.inj hw
        exact ⟨⟨[], v.sort⟩, List.mem_cons_self, rfl, rfl⟩
      · simp [withConstant, hargs] at hw
    · simp only [withConstant, if_neg hother] at hw
      obtain ⟨rank, hrank, hsorts⟩ := h.typed other args w hw
      exact ⟨rank, List.mem_cons_of_mem _ hrank, hsorts⟩
  holds t hmem := by
    have hold := h.holds t (by simpa using hmem)
    exact eval_of_extends (h.extends_withConstant hnew v) hold

end Model

/-- The command declares nothing that is declared already, and if it is a check, what is asserted
has no model. -/
def TrustedAt (st : Stack) (c : Command) : Prop :=
  (∀ name, c.declared? = some name → ¬ st.Declares name) ∧ (c = .checkSat → ¬ st.HasModel)

/-- Every command can be trusted where it is sent. -/
def Trusted : Stack → List Command → Prop
  | _, [] => True
  | st, c :: rest => TrustedAt st c ∧ Trusted (st.after c) rest

@[simp] theorem trusted_append {st : Stack} {first second : List Command} :
    Trusted st (first ++ second) ↔ Trusted st first ∧ Trusted (st.afterAll first) second := by
  induction first generalizing st with
  | nil => simp [Trusted]
  | cons c rest ih => simp [Trusted, ih, and_assoc]

end Smt

end ContractCheck
