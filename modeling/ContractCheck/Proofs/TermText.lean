import ContractCheck.Proofs.SingleText

/-!
Texts read as S-expressions. A reader goes through a text as `Scan` does and keeps what it has read.
It reads the texts that are single, and no others (`SExpr.exists_parse?_iff`). In a list a text is
read as it is on its own, so that the text of a list is read item by item (`SExpr.parse?_list`).
-/

namespace ContractCheck

namespace SExpr

/-- A reader in the middle of a text, with what it has read. -/
structure Parse where
  /-- What is complete and what is begun, the last first. A list that is open is `none`, and what
  it holds comes before it. -/
  stack : List (Option SExpr) := []
  lexeme : Lexeme := .blank
  /-- The characters of the lexeme, the last first. -/
  text : List Char := []

namespace Parse

/-- What is read if the lexeme ends here. -/
def done (r : Parse) : List (Option SExpr) :=
  match r.lexeme with
  | .word | .unquoted => some (.atom (String.ofList r.text.reverse)) :: r.stack
  | _ => r.stack

/-- The list that was opened last ends, of which these items were taken. There may be none. -/
def close : List SExpr → List (Option SExpr) → Option (List (Option SExpr))
  | _, [] => none
  | items, none :: rest => some (some (.list items) :: rest)
  | items, some item :: rest => close (item :: items) rest

/-- Takes a character that is neither quoted nor in a comment. -/
def take (r : Parse) (c : Char) : Option Parse :=
  if Scan.isBlank c then some { stack := r.done }
  else if c = '(' then some { stack := none :: r.done }
  else if c = ')' then (close [] r.done).map fun stack => { stack }
  else if c = '"' then some { stack := r.done, lexeme := .quoted, text := [c] }
  else if c = '|' then some { stack := r.done, lexeme := .barred, text := [c] }
  else if c = ';' then some { stack := r.done, lexeme := .comment }
  else if r.lexeme = .word then some { r with text := c :: r.text }
  else some { stack := r.done, lexeme := .word, text := [c] }

def step (r : Parse) (c : Char) : Option Parse :=
  match r.lexeme with
  | .quoted =>
    some { r with text := c :: r.text, lexeme := if c = '"' then .unquoted else .quoted }
  | .barred =>
    if c = '|' then some { stack := some (.atom (String.ofList (c :: r.text).reverse)) :: r.stack }
    else some { r with text := c :: r.text }
  | .comment => some { r with lexeme := if c = '\n' ∨ c = '\r' then .blank else .comment }
  | .unquoted =>
    if c = '"' then some { r with lexeme := .quoted, text := c :: r.text } else r.take c
  | .blank | .word => r.take c

def run (r : Parse) (text : List Char) : Option Parse := text.foldlM step r

theorem run_append (r : Parse) (text rest : List Char) :
    r.run (text ++ rest) = (r.run text).bind fun q => q.run rest := by
  simp [run, List.foldlM_append]

theorem run_cons (r : Parse) (c : Char) (rest : List Char) :
    r.run (c :: rest) = (r.step c).bind fun q => q.run rest := rfl

end Parse

/-- The one S-expression that a text is, blanks around it aside. -/
def parse? (text : String) : Option SExpr :=
  match Parse.run {} text.toList with
  | none => none
  | some r =>
    match r.lexeme.isComplete, r.done with
    | true, [some s] => some s
    | _, _ => none

theorem parse?_eq_some_iff {text : String} {s : SExpr} : parse? text = some s ↔
    ∃ r, Parse.run {} text.toList = some r ∧ r.lexeme.isComplete = true ∧ r.done = [some s] := by
  unfold parse?
  cases Parse.run {} text.toList with
  | none => simp
  | some r =>
      dsimp only
      split
      · rename_i hcomplete hdone
        simp [hcomplete, hdone]
      · rename_i hother
        simp only [Option.some.injEq, exists_eq_left', reduceCtorEq, false_iff, not_and]
        exact fun hcomplete hdone => hother s hcomplete hdone

namespace Parse

/-- How many lists are open. -/
def depth (stack : List (Option SExpr)) : Nat := stack.countP Option.isNone

/-- How many S-expressions were begun outside of all lists. -/
def begun : List (Option SExpr) → Nat
  | [] => 0
  | _ :: rest => if depth rest = 0 then begun rest + 1 else begun rest

@[simp] theorem depth_none (stack : List (Option SExpr)) :
    depth (none :: stack) = depth stack + 1 :=
  List.countP_cons_of_pos rfl

@[simp] theorem depth_some (s : SExpr) (stack : List (Option SExpr)) :
    depth (some s :: stack) = depth stack := List.countP_cons_of_neg (by simp)

/-- A reader that keeps nothing of what it reads. -/
def scan (r : Parse) : Scan where
  depth := depth r.stack
  begun :=
    match r.lexeme with
    | .blank | .comment => begun r.stack
    | _ => begun (some default :: r.stack)
  lexeme := r.lexeme

@[simp] theorem depth_done (r : Parse) : depth r.done = depth r.stack := by
  unfold done
  cases r.lexeme <;> simp

theorem begun_done {r : Parse} (hr : r.lexeme.isComplete = true) : begun r.done = r.scan.begun := by
  obtain ⟨stack, lexeme, text⟩ := r
  cases lexeme with
  | blank | word | unquoted => rfl
  | quoted | barred | comment => cases hr

/-- A list can be closed if one is open. -/
theorem close_spec (items : List SExpr) (stack : List (Option SExpr)) :
    (close items stack = none ∧ depth stack = 0) ∨
    ∃ rest, close items stack = some rest ∧ depth stack = depth rest + 1 ∧
      begun stack = begun rest := by
  induction stack generalizing items with
  | nil => exact .inl ⟨rfl, rfl⟩
  | cons entry stack ih =>
      cases entry with
      | none => exact .inr ⟨_, rfl, by rw [depth_none, depth_some], rfl⟩
      | some item =>
          rcases ih (item :: items) with ⟨hclose, hdepth⟩ | ⟨rest, hclose, hdepth, hbegun⟩
          · exact .inl ⟨hclose, by rw [depth_some, hdepth]⟩
          · refine .inr ⟨rest, hclose, by rw [depth_some, hdepth], ?_⟩
            rw [begun, if_neg (by omega), hbegun]

theorem depth_scan (r : Parse) : r.scan.depth = depth r.done := (depth_done r).symm

theorem begin_scan {r : Parse} (hr : r.lexeme.isComplete = true) (lexeme : Lexeme)
    (entry : Option SExpr) :
    r.scan.begin lexeme = ⟨depth r.done, begun (entry :: r.done), lexeme⟩ := by
  rw [Scan.begin, begun, begun_done hr, depth_done]
  rfl

theorem scan_take {r : Parse} (hr : r.lexeme.isComplete = true) (c : Char) :
    (r.take c).map scan = r.scan.take c := by
  have hbegin := begin_scan hr
  have hended : ∀ lexeme, ({ r.scan with lexeme } : Scan) = ⟨depth r.done, begun r.done, lexeme⟩ :=
    fun lexeme => by rw [depth_done, begun_done hr]; rfl
  unfold take Scan.take
  rw [hended, hended, depth_scan]
  split_ifs with hblank hopen hclose hquote hbar hcomment hword
  · rfl
  · rw [hbegin .blank none, ← depth_none]
    rfl
  · rcases close_spec [] r.done with ⟨hnone, hdepth⟩ | ⟨rest, hrest, hdepth, hbegun⟩
    · rw [hnone, hdepth]
      rfl
    · rw [hrest, hdepth, show r.scan.begun = begun rest from (begun_done hr).symm.trans hbegun]
      rfl
  · rw [hbegin .quoted (some default)]
    rfl
  · rw [hbegin .barred (some default)]
    rfl
  · rfl
  · rfl
  · contradiction
  · contradiction
  · rw [hbegin .word (some default)]
    rfl

/-- The readers go through a text in the same way. -/
theorem scan_step (r : Parse) (c : Char) : (r.step c).map scan = r.scan.step c := by
  obtain ⟨stack, lexeme, text⟩ := r
  cases lexeme with
  | blank | word => exact scan_take rfl c
  | unquoted =>
      change (if c = '"' then _ else _ : Option Parse).map scan = if c = '"' then _ else _
      split
      · rfl
      · exact scan_take rfl c
  | quoted =>
      change some (scan _) = some _
      by_cases hquote : c = '"' <;> simp [scan, hquote]
  | barred =>
      change (if c = '|' then _ else _ : Option Parse).map scan = some _
      by_cases hbar : c = '|' <;> simp [scan, hbar, begun]
  | comment =>
      change some (scan _) = some _
      by_cases hend : c = '\n' ∨ c = '\r' <;> simp [scan, hend]

theorem scan_run (r : Parse) (text : List Char) : (r.run text).map scan = r.scan.run text := by
  induction text generalizing r with
  | nil => rfl
  | cons c rest ih =>
      rw [run_cons, Scan.run_cons, ← scan_step]
      cases r.step c with
      | none => rfl
      | some q => exact ih q

theorem begun_of_depth {stack : List (Option SExpr)} (h : depth stack = 0) :
    begun stack = stack.length := by
  induction stack with
  | nil => rfl
  | cons entry rest ih =>
      cases entry with
      | none => cases (depth_none rest).symm.trans h
      | some s =>
          rw [depth_some] at h
          rw [begun, if_pos h, ih h, List.length_cons]

/-- One S-expression was begun and no list is open. -/
theorem exists_eq_singleton_iff {stack : List (Option SExpr)} :
    (∃ s, stack = [some s]) ↔ depth stack = 0 ∧ begun stack = 1 := by
  constructor
  · rintro ⟨s, rfl⟩
    exact ⟨rfl, rfl⟩
  · rintro ⟨hdepth, hbegun⟩
    rw [begun_of_depth hdepth, List.length_eq_one_iff] at hbegun
    obtain ⟨entry, rfl⟩ := hbegun
    cases entry with
    | none => cases hdepth
    | some s => exact ⟨s, rfl⟩

end Parse

/-- The texts that are read are those that are single. -/
theorem exists_parse?_iff {text : String} : (∃ s, parse? text = some s) ↔ isSingle text = true := by
  have hscan : (Parse.run {} text.toList).map Parse.scan = Scan.run {} text.toList :=
    Parse.scan_run {} _
  rw [isSingle_iff, ← hscan]
  simp only [parse?_eq_some_iff, Option.map_eq_some_iff]
  constructor
  · rintro ⟨s, r, hrun, hcomplete, hdone⟩
    obtain ⟨hdepth, hbegun⟩ := Parse.exists_eq_singleton_iff.1 ⟨s, hdone⟩
    refine ⟨r.lexeme, ⟨r, hrun, ?_⟩, hcomplete⟩
    rw [Parse.depth_done] at hdepth
    rw [Parse.begun_done hcomplete] at hbegun
    rw [← hdepth, ← hbegun]
    rfl
  · rintro ⟨lexeme, ⟨r, hrun, hr⟩, hcomplete⟩
    have hlexeme : r.lexeme = lexeme := congrArg Scan.lexeme hr
    have hdepth : Parse.depth r.done = 0 := (Parse.depth_scan r).symm.trans (congrArg Scan.depth hr)
    have hbegun : Parse.begun r.done = 1 :=
      (Parse.begun_done (hlexeme ▸ hcomplete)).trans (congrArg Scan.begun hr)
    obtain ⟨s, hs⟩ := Parse.exists_eq_singleton_iff.2 ⟨hdepth, hbegun⟩
    exact ⟨s, r, hrun, hlexeme ▸ hcomplete, hs⟩

namespace Parse

/-- The reader, if all that it reads comes after this. -/
def within (r : Parse) (before : List (Option SExpr)) : Parse :=
  { r with stack := r.stack ++ before }

theorem done_within (r : Parse) (before : List (Option SExpr)) :
    (r.within before).done = r.done ++ before := by
  obtain ⟨stack, lexeme, text⟩ := r
  cases lexeme <;> rfl

theorem close_append {items : List SExpr} {stack rest : List (Option SExpr)}
    (h : close items stack = some rest) (before : List (Option SExpr)) :
    close items (stack ++ before) = some (rest ++ before) := by
  induction stack generalizing items with
  | nil => cases h
  | cons entry stack ih =>
      cases entry with
      | none =>
          cases h
          rfl
      | some item => exact ih h

theorem take_within {r q : Parse} {c : Char} (h : r.take c = some q)
    (before : List (Option SExpr)) : (r.within before).take c = some (q.within before) := by
  unfold take at h ⊢
  rw [done_within, show (r.within before).lexeme = r.lexeme from rfl]
  split_ifs at h ⊢ with hblank hopen hclose
  · cases h
    rfl
  · cases h
    rfl
  · obtain ⟨rest, hrest, rfl⟩ := Option.map_eq_some_iff.1 h
    rw [close_append hrest]
    rfl
  all_goals
    cases h
    rfl

theorem step_within {r q : Parse} {c : Char} (h : r.step c = some q)
    (before : List (Option SExpr)) : (r.within before).step c = some (q.within before) := by
  have htake : r.take c = some q → (r.within before).take c = some (q.within before) :=
    fun h => take_within h before
  obtain ⟨stack, lexeme, text⟩ := r
  cases lexeme with
  | blank => exact htake h
  | word => exact htake h
  | unquoted =>
      change (if c = '"' then _ else _) = _ at h
      change (if c = '"' then _ else _) = _
      split at h
      · rename_i hquote
        cases h
        rw [if_pos hquote]
        rfl
      · rename_i hother
        rw [if_neg hother]
        exact htake h
  | barred =>
      change (if c = '|' then _ else _) = _ at h
      change (if c = '|' then _ else _) = _
      split_ifs at h ⊢ <;>
        · cases h
          rfl
  | quoted | comment =>
      cases h
      rfl

theorem run_within {r q : Parse} {text : List Char} (h : r.run text = some q)
    (before : List (Option SExpr)) : (r.within before).run text = some (q.within before) := by
  induction text generalizing r with
  | nil =>
      cases h
      rfl
  | cons c rest ih =>
      rw [run_cons, Option.bind_eq_some_iff] at h
      obtain ⟨p, hstep, hrun⟩ := h
      rw [run_cons, step_within hstep, Option.bind_some]
      exact ih hrun

/-- In a list, and after whatever stands there, the text is read as these S-expressions. -/
def Reads (text : List Char) (items : List SExpr) : Prop :=
  ∀ before, ∃ r, run { stack := before } text = some r ∧ r.lexeme.isComplete = true ∧
    r.done = items.reverse.map some ++ before

theorem reads_of_parse? {text : String} {s : SExpr} (h : parse? text = some s) :
    Reads text.toList [s] := by
  obtain ⟨r, hrun, hcomplete, hdone⟩ := parse?_eq_some_iff.1 h
  refine fun before => ⟨r.within before, run_within hrun before, hcomplete, ?_⟩
  rw [done_within, hdone]
  rfl

theorem step_blank {r : Parse} (hr : r.lexeme.isComplete = true) :
    r.step ' ' = some { stack := r.done } := by
  obtain ⟨stack, lexeme, text⟩ := r
  cases lexeme with
  | blank | word | unquoted => rfl
  | quoted | barred | comment => cases hr

theorem step_close {r : Parse} (hr : r.lexeme.isComplete = true) :
    r.step ')' = (close [] r.done).map fun stack => { stack } := by
  obtain ⟨stack, lexeme, text⟩ := r
  cases lexeme with
  | blank | word | unquoted => rfl
  | quoted | barred | comment => cases hr

theorem Reads.append {text rest : List Char} {items more : List SExpr} (h : Reads text items)
    (hrest : Reads rest more) : Reads (text ++ ' ' :: rest) (items ++ more) := by
  intro before
  obtain ⟨r, hrun, hcomplete, hdone⟩ := h before
  obtain ⟨q, hrunRest, hcompleteRest, hdoneRest⟩ := hrest r.done
  refine ⟨q, ?_, hcompleteRest, ?_⟩
  · rw [run_append, hrun, Option.bind_some, run_cons, step_blank hcomplete, Option.bind_some,
      hrunRest]
  · rw [hdoneRest, hdone, List.reverse_append, List.map_append, List.append_assoc]

theorem close_items (items after : List SExpr) (before : List (Option SExpr)) :
    close after (items.map some ++ none :: before) =
      some (some (.list (items.reverse ++ after)) :: before) := by
  induction items generalizing after with
  | nil => rfl
  | cons item items ih =>
      rw [List.reverse_cons, List.append_assoc]
      exact ih (item :: after)

theorem Reads.list {text : List Char} {items : List SExpr} (h : Reads text items) :
    Reads ('(' :: (text ++ [')'])) [.list items] := by
  intro before
  obtain ⟨r, hrun, hcomplete, hdone⟩ := h (none :: before)
  refine ⟨{ stack := some (.list items) :: before }, ?_, rfl, rfl⟩
  have hopen : step { stack := before } '(' = some { stack := none :: before } := rfl
  rw [run_cons, hopen, Option.bind_some, run_append, hrun, Option.bind_some, run_cons,
    step_close hcomplete, hdone, close_items, List.reverse_reverse, List.append_nil]
  rfl

theorem reads_renderItems {texts : List SExpr} {items : List SExpr}
    (h : List.Forall₂ (fun t s => parse? t.render = some s) texts items) :
    Reads (renderItems texts).toList items := by
  induction h with
  | nil => exact fun before => ⟨_, rfl, rfl, rfl⟩
  | @cons t s texts items ht hrest ih =>
      cases hrest with
      | nil =>
          rw [renderItems]
          exact reads_of_parse? ht
      | @cons next s' rest items' hnext hrest =>
          have htext : (renderItems (t :: next :: rest)).toList =
              t.render.toList ++ ' ' :: (renderItems (next :: rest)).toList := by
            rw [renderItems]
            simp
          rw [htext]
          exact (reads_of_parse? ht).append ih

end Parse

/-- A list is read item by item. -/
theorem parse?_list {texts items : List SExpr}
    (h : List.Forall₂ (fun t s => parse? t.render = some s) texts items) :
    parse? (SExpr.list texts).render = some (.list items) := by
  have htext : (SExpr.list texts).render.toList = '(' :: ((renderItems texts).toList ++ [')']) := by
    rw [render]
    simp
  obtain ⟨r, hrun, hcomplete, hdone⟩ := (Parse.reads_renderItems h).list []
  refine parse?_eq_some_iff.2 ⟨r, ?_, hcomplete, hdone⟩
  rw [htext]
  exact hrun

namespace Parse

theorem take_of_isSymbolChar {c : Char} (h : isSymbolChar c = true) (r : Parse) :
    r.take c = some (if r.lexeme = .word then { r with text := c :: r.text }
      else { stack := r.done, lexeme := .word, text := [c] }) := by
  have hne := ne_of_isSymbolChar h
  unfold take
  rw [isBlank_of_isSymbolChar h, if_neg Bool.false_ne_true, if_neg (hne '(' rfl),
    if_neg (hne ')' rfl), if_neg (hne '"' rfl), if_neg (hne '|' rfl), if_neg (hne ';' rfl)]
  split <;> rfl

theorem run_symbol {text : List Char} (h : ∀ c ∈ text, isSymbolChar c = true)
    (stack : List (Option SExpr)) (begun : List Char) :
    run { stack, lexeme := .word, text := begun } text =
      some { stack, lexeme := .word, text := text.reverse ++ begun } := by
  induction text generalizing begun with
  | nil => rfl
  | cons c rest ih =>
      obtain ⟨hc, hrest⟩ := List.forall_mem_cons.1 h
      have hstep : step { stack, lexeme := .word, text := begun } c =
          some { stack, lexeme := .word, text := c :: begun } := take_of_isSymbolChar hc _
      rw [run_cons, hstep, Option.bind_some, ih hrest, List.reverse_cons, List.append_assoc]
      rfl

end Parse

theorem parse?_symbol {name : String} (h : isSymbol name = true) :
    parse? name = some (.atom name) := by
  simp only [isSymbol, Bool.and_eq_true, List.all_eq_true, Bool.not_eq_true'] at h
  obtain ⟨hne, hchars⟩ := h
  cases hname : name.toList with
  | nil =>
      rw [String.toList_eq_nil_iff.1 hname] at hne
      cases hne
  | cons c rest =>
      rw [hname] at hchars
      obtain ⟨hc, hrest⟩ := List.forall_mem_cons.1 hchars
      have hstep : Parse.step {} c = some { lexeme := .word, text := [c] } :=
        Parse.take_of_isSymbolChar hc {}
      refine parse?_eq_some_iff.2 ⟨{ lexeme := .word, text := rest.reverse ++ [c] }, ?_, rfl, ?_⟩
      · rw [hname, Parse.run_cons, hstep, Option.bind_some]
        exact Parse.run_symbol hrest _ _
      · have htext : (rest.reverse ++ [c]).reverse = name.toList := by simp [hname]
        simp only [Parse.done, htext, String.ofList_toList]

theorem parse?_apply {head : String} {texts args : List SExpr} (hhead : isSymbol head = true)
    (h : List.Forall₂ (fun t s => parse? t.render = some s) texts args) :
    parse? (SExpr.apply head texts).render = some (.apply head args) := by
  refine parse?_list (.cons ?_ h)
  rw [render]
  exact parse?_symbol hhead

end SExpr

end ContractCheck
