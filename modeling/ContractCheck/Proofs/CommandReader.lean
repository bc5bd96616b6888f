import ContractCheck.Smt.Command

/-!
Lines read back as commands. A reader takes the characters of a line one at a time and keeps the
lists that are open; it knows nothing of how lines are written. A command whose words are legible
is what its line reads as (`Command.read?_line`), so that what a line means to a solver can be
said of the command that it was written from.
-/

namespace ContractCheck

namespace SExpr

/-- A reader in the middle of a text. -/
structure Reader where
  /-- The characters of the current word, the last first. -/
  word : List Char := []
  /-- What the innermost open list holds, the last first. -/
  items : List SExpr := []
  /-- What the lists around it hold. -/
  outer : List (List SExpr) := []

namespace Reader

def add (r : Reader) (s : SExpr) : Reader := { r with items := s :: r.items }

/-- The current word ends, if there is one. -/
def flush (r : Reader) : Reader :=
  match r.word with
  | [] => r
  | c :: cs => { r with word := [], items := .atom (String.ofList (c :: cs).reverse) :: r.items }

def openList (r : Reader) : Reader := { items := [], outer := r.items :: r.outer }

/-- There may be no list to close. -/
def closeList (r : Reader) : Option Reader :=
  match r.outer with
  | [] => none
  | items :: outer => some { items := .list r.items.reverse :: items, outer }

def step (r : Reader) (c : Char) : Option Reader :=
  if c = ' ' then some r.flush
  else if c = '(' then some r.flush.openList
  else if c = ')' then r.flush.closeList
  else some { r with word := c :: r.word }

def run (r : Reader) (text : List Char) : Option Reader := text.foldlM step r

end Reader

/-- The one S-expression that a text spells. -/
def read? (text : String) : Option SExpr :=
  match (Reader.run {} text.toList).map Reader.flush with
  | some ⟨_, [s], []⟩ => some s
  | _ => none

/-- A word is told from its surroundings. -/
def IsWord (text : String) : Prop :=
  text.toList ≠ [] ∧ ∀ c ∈ text.toList, c ≠ ' ' ∧ c ≠ '(' ∧ c ≠ ')'

instance (text : String) : Decidable (IsWord text) :=
  decidable_of_iff (text.toList ≠ [] ∧
    text.toList.all fun c => c != ' ' && c != '(' && c != ')') (by simp [IsWord, and_assoc])

/-- All atoms are words. -/
inductive Legible : SExpr → Prop where
  | atom {text : String} (h : IsWord text) : Legible (.atom text)
  | list {items : List SExpr} (h : ∀ item ∈ items, Legible item) : Legible (.list items)

theorem Legible.apply {head : String} {args : List SExpr} (hhead : IsWord head)
    (hargs : ∀ arg ∈ args, Legible arg) : Legible (.apply head args) :=
  .list (List.forall_mem_cons.2 ⟨.atom hhead, hargs⟩)

namespace Reader

/-- Between words, the text makes the first reader the second once the last word has ended. -/
def Reads (r : Reader) (text : List Char) (r' : Reader) : Prop :=
  ∃ q, r.run text = some q ∧ q.flush = r'

theorem run_append (r : Reader) (text rest : List Char) :
    r.run (text ++ rest) = (r.run text).bind fun q => q.run rest := by
  simp [run, List.foldlM_append]

theorem run_word {text : List Char} (h : ∀ c ∈ text, c ≠ ' ' ∧ c ≠ '(' ∧ c ≠ ')') (r : Reader) :
    r.run text = some { r with word := text.reverse ++ r.word } := by
  induction text generalizing r with
  | nil => rfl
  | cons c rest ih =>
      obtain ⟨hspace, hopen, hclose⟩ := h c List.mem_cons_self
      have hstep : r.step c = some { r with word := c :: r.word } := by
        rw [step, if_neg hspace, if_neg hopen, if_neg hclose]
      have hrest := ih (fun d hd => h d (List.mem_cons_of_mem _ hd)) { r with word := c :: r.word }
      have hcons : r.run (c :: rest) = (r.step c).bind fun q => q.run rest := rfl
      rw [hcons, hstep, Option.bind_some, hrest]
      simp

theorem reads_atom {text : String} (h : IsWord text) {r : Reader} (hr : r.word = []) :
    r.Reads text.toList (r.add (.atom text)) := by
  obtain ⟨hne, hword⟩ := h
  refine ⟨_, run_word hword r, ?_⟩
  rw [hr, List.append_nil]
  cases hreverse : text.toList.reverse with
  | nil => exact absurd (List.reverse_eq_nil_iff.1 hreverse) hne
  | cons c cs =>
      have htext : (c :: cs).reverse = text.toList := by rw [← hreverse, List.reverse_reverse]
      simp only [flush, add, htext, String.ofList_toList, hr]

/-- A space after a text ends its last word. -/
theorem run_space {r r' : Reader} {text : List Char} (h : r.Reads text r') (rest : List Char) :
    r.run (text ++ ' ' :: rest) = r'.run rest := by
  obtain ⟨q, hrun, hflush⟩ := h
  have hstep : q.run (' ' :: rest) = q.flush.run rest := rfl
  rw [run_append, hrun, Option.bind_some, hstep, hflush]

theorem run_open {r : Reader} (hr : r.word = []) (rest : List Char) :
    r.run ('(' :: rest) = r.openList.run rest := by
  have hflush : r.flush = r := by rw [flush, hr]
  have hstep : r.run ('(' :: rest) = r.flush.openList.run rest := rfl
  rw [hstep, hflush]

/-- A closing parenthesis after a text ends its last word too. -/
theorem run_close {r r' q : Reader} {text : List Char} (h : r.Reads text r')
    (hclose : r'.closeList = some q) : r.run (text ++ [')']) = some q := by
  obtain ⟨p, hrun, hflush⟩ := h
  have hstep : p.run [')'] = p.flush.closeList.bind fun q => q.run [] := rfl
  rw [run_append, hrun, Option.bind_some, hstep, hflush, hclose]
  rfl

def addAll (r : Reader) (items : List SExpr) : Reader :=
  { r with items := items.reverse ++ r.items }

mutual

theorem reads_render : ∀ {s : SExpr}, s.Legible → ∀ {r : Reader}, r.word = [] →
    r.Reads s.render.toList (r.add s)
  | .atom text, .atom h, r, hr => by
      rw [render]
      exact reads_atom h hr
  | .list items, .list h, r, hr => by
      have hitems : r.openList.Reads (renderItems items).toList (r.openList.addAll items) :=
        reads_renderItems h rfl
      have hclose : (r.openList.addAll items).closeList = some (r.add (.list items)) := by
        simp [closeList, openList, addAll, add, hr]
      refine ⟨r.add (.list items), ?_, ?_⟩
      · have htext : (render (.list items)).toList =
            '(' :: ((renderItems items).toList ++ [')']) := by
          rw [render]
          simp
        rw [htext, run_open hr]
        exact run_close hitems hclose
      · simp [flush, add, hr]

theorem reads_renderItems : ∀ {items : List SExpr}, (∀ item ∈ items, item.Legible) →
    ∀ {r : Reader}, r.word = [] → r.Reads (renderItems items).toList (r.addAll items)
  | [], _, r, hr => by
      have hflush : r.flush = r.addAll [] := by
        obtain ⟨word, items, outer⟩ := r
        obtain rfl : word = [] := hr
        rfl
      refine ⟨r, ?_, hflush⟩
      rw [renderItems]
      rfl
  | [item], h, r, hr => by
      rw [renderItems]
      exact reads_render (h item List.mem_cons_self) hr
  | item :: next :: rest, h, r, hr => by
      have hitem := reads_render (h item List.mem_cons_self) hr
      have hrest := reads_renderItems (fun s hs => h s (List.mem_cons_of_mem _ hs))
        (r := r.add item) hr
      obtain ⟨q, hrun, hflush⟩ := hrest
      refine ⟨q, ?_, ?_⟩
      · have htext : (renderItems (item :: next :: rest)).toList =
            item.render.toList ++ ' ' :: (renderItems (next :: rest)).toList := by
          rw [renderItems]
          simp
        rw [htext, run_space hitem, hrun]
      · rw [hflush]
        simp [addAll, add]

end

end Reader

theorem read?_render {s : SExpr} (h : s.Legible) : read? s.render = some s := by
  obtain ⟨q, hrun, hflush⟩ := Reader.reads_render h (r := {}) rfl
  rw [read?, hrun, Option.map_some, hflush]
  rfl

/-- The text of an atom. -/
def text? : SExpr → Option String
  | .atom text => some text
  | .list _ => none

end SExpr

namespace Command

/-- The command that an S-expression stands for, among those that are sent. -/
def ofSExpr? : SExpr → Option Command
  | .list [.atom "set-option", .atom ":global-declarations", .atom "false"] =>
    some .scopedDeclarations
  | .list [.atom "push", .atom "1"] => some .push
  | .list [.atom "pop", .atom "1"] => some .pop
  | .list [.atom "check-sat"] => some .checkSat
  | .list [.atom "echo", .atom "\"refine-sync\""] => some .sync
  | .list [.atom "exit"] => some .exit
  | .list [.atom "declare-sort", .atom name, .atom "0"] => some (.declareSort name)
  | .list [.atom "declare-fun", .atom name, .list domain, .atom range] =>
    (domain.mapM SExpr.text?).map fun domain => .declareFun name domain range
  | .list [.atom "declare-const", .atom name, .atom sort] => some (.declareConst name sort)
  | .list [.atom "assert", term] => some (.assert term)
  | _ => none

/-- The command that a line spells. -/
def read? (line : String) : Option Command := (SExpr.read? line).bind ofSExpr?

/-- The names, sorts and terms of the command can be read back. -/
def IsLegible : Command → Prop
  | declareSort name => SExpr.IsWord name
  | declareFun name domain range =>
    SExpr.IsWord name ∧ (∀ sort ∈ domain, SExpr.IsWord sort) ∧ SExpr.IsWord range
  | declareConst name sort => SExpr.IsWord name ∧ SExpr.IsWord sort
  | assert term => term.Legible
  | _ => True

theorem mapM_text? (texts : List String) :
    (texts.map SExpr.atom).mapM SExpr.text? = some texts := by
  induction texts with
  | nil => rfl
  | cons text rest ih =>
      rw [List.map_cons, List.mapM_cons, ih]
      rfl

theorem ofSExpr?_toSExpr (c : Command) : ofSExpr? c.toSExpr = some c := by
  cases c with
  | declareFun name domain range =>
      have hdomain := mapM_text? domain
      simp [toSExpr, SExpr.apply, ofSExpr?, hdomain]
  | _ => rfl

theorem legible_toSExpr {c : Command} (h : c.IsLegible) : c.toSExpr.Legible := by
  have hword : ∀ {text : String}, SExpr.IsWord text → ∀ s ∈ [SExpr.atom text], s.Legible := by
    intro text htext s hs
    rw [List.mem_singleton.1 hs]
    exact .atom htext
  cases c with
  | scopedDeclarations =>
      have hoption : SExpr.Legible (.atom ":global-declarations") := .atom (by decide)
      exact .apply (by decide)
        (List.forall_mem_cons.2 ⟨hoption, hword (by decide)⟩)
  | push => exact .apply (by decide) (hword (by decide))
  | pop => exact .apply (by decide) (hword (by decide))
  | checkSat => exact .apply (by decide) (fun _ h => nomatch h)
  | sync => exact .apply (by decide) (hword (by decide))
  | exit => exact .apply (by decide) (fun _ h => nomatch h)
  | declareSort name =>
      exact .apply (by decide) (List.forall_mem_cons.2 ⟨.atom h, hword (by decide)⟩)
  | declareFun name domain range =>
      obtain ⟨hname, hdomain, hrange⟩ := h
      have hlist : (SExpr.list (domain.map .atom)).Legible := by
        refine .list fun s hs => ?_
        obtain ⟨sort, hsort, rfl⟩ := List.mem_map.1 hs
        exact .atom (hdomain sort hsort)
      exact .apply (by decide)
        (List.forall_mem_cons.2 ⟨.atom hname, List.forall_mem_cons.2 ⟨hlist, hword hrange⟩⟩)
  | declareConst name sort =>
      obtain ⟨hname, hsort⟩ := h
      exact .apply (by decide) (List.forall_mem_cons.2 ⟨.atom hname, hword hsort⟩)
  | assert term =>
      refine .apply (by decide) fun s hs => ?_
      rw [List.mem_singleton.1 hs]
      exact h

/-- A legible command is what its line reads as. -/
theorem read?_line {c : Command} (h : c.IsLegible) : read? c.line = some c := by
  rw [read?, line, SExpr.read?_render (legible_toSExpr h), Option.bind_some, ofSExpr?_toSExpr]

end Command

end ContractCheck
