import ContractCheck.Proofs.Level
import ContractCheck.Proofs.Undisputed

/-!
The declaration of a global that is in force. A run declares a global unless one of its kind and
name is in force, so that a run which succeeds finds each of its globals declared once: by its own
line, or else by that of an earlier run, which may give the global another type. As long as the
solver disputes nothing, this declaration stands from the first scope of the run to its end
(`Chronicle.globals_in_force`).
-/

namespace ContractCheck

open Scripted

/-- A course through two lists that ends early ends in the first or in the second. -/
theorem prefix_append_iff {α : Type} {during first second : List α} :
    during <+: first ++ second ↔
      during <+: first ∨ ∃ rest, during = first ++ rest ∧ rest <+: second := by
  constructor
  · intro h
    cases List.prefix_or_prefix_of_prefix h (List.prefix_append first second) with
    | inl hshort => exact .inl hshort
    | inr hlong =>
        obtain ⟨rest, rfl⟩ := hlong
        exact .inr ⟨rest, rfl, (List.prefix_append_right_inj first).1 h⟩
  · rintro (h | ⟨rest, rfl, h⟩)
    · exact h.trans (List.prefix_append first second)
    · exact (List.prefix_append_right_inj first).2 h

theorem Command.isFlat_line {c : Command} (hpush : c ≠ .push) (hpop : c ≠ .pop) :
    IsFlat c.line := by
  cases c with
  | push => exact absurd rfl hpush
  | pop => exact absurd rfl hpop
  | checkSat => exact isFlat_checkSat
  | sync => exact isFlat_sync
  | exit => exact isFlat_of_toList rfl (by decide)
  | scopedDeclarations | declareSort _ | declareFun _ _ _ | declareConst _ _ | assert _ =>
      exact Command.IsPlain.isFlat trivial

/-- In a scope of their own lines open one scope more. -/
theorem Spans.inScope {height : Nat} {lines : List String} (h : Spans height lines) :
    Spans (height + 1) (Command.push.line :: lines) := by
  intro S act hact scope rest
  obtain ⟨top, hpush⟩ := hact.push (scope :: rest)
  obtain ⟨inner, top', hlength, hlines⟩ := h hact top (scope :: rest)
  refine ⟨inner ++ [top'], scope, by simp [hlength], ?_⟩
  rw [List.foldl_cons, hpush, hlines, List.append_assoc, List.singleton_append]

/-- A course that leaves what it opens has left no other scope wherever it is. -/
theorem Level.exists_spans {commands : List Command} (h : Level commands) :
    Spans 0 (commands.map Command.line) ∧
      ∀ during, during <+: commands.map Command.line → ∃ height, Spans height during := by
  induction h with
  | nil =>
      refine ⟨spans_nil, fun during hduring => ⟨0, ?_⟩⟩
      rw [List.prefix_nil.1 hduring]
      exact spans_nil
  | @flat command rest hpush hpop _ ih =>
      have hline : Spans 0 [command.line] := spans_nil.flat (Command.isFlat_line hpush hpop)
      refine ⟨hline.append ih.1, fun during hduring => ?_⟩
      rcases List.prefix_cons_iff.1 hduring with rfl | ⟨t, rfl, ht⟩
      · exact ⟨0, spans_nil⟩
      · obtain ⟨height, hspans⟩ := ih.2 t ht
        exact ⟨height, hline.append hspans⟩
  | @scope inner rest _ _ ihinner ihrest =>
      have hscope : Spans 0 (Command.push.line :: (inner.map Command.line ++ [Command.pop.line])) :=
        Neutral.spans (Spans.neutral ihinner.1)
      have hlines : (Command.push :: (inner ++ .pop :: rest)).map Command.line =
          (Command.push.line :: (inner.map Command.line ++ [Command.pop.line])) ++
            rest.map Command.line := by simp
      rw [hlines]
      refine ⟨hscope.append ihrest.1, fun during hduring => ?_⟩
      rcases prefix_append_iff.1 hduring with hduring | ⟨t, rfl, ht⟩
      · rcases List.prefix_cons_iff.1 hduring with rfl | ⟨t, rfl, ht⟩
        · exact ⟨0, spans_nil⟩
        · rcases prefix_append_iff.1 ht with ht | ⟨last, rfl, hlast⟩
          · obtain ⟨height, hspans⟩ := ihinner.2 t ht
            exact ⟨height + 1, hspans.inScope⟩
          · rcases List.prefix_cons_iff.1 hlast with rfl | ⟨_, rfl, hnil⟩
            · rw [List.append_nil]
              exact ⟨1, Spans.inScope ihinner.1⟩
            · rw [List.prefix_nil.1 hnil]
              exact ⟨0, hscope⟩
      · obtain ⟨height, hspans⟩ := ihrest.2 t ht
        exact ⟨height, hscope.append hspans⟩

/-- The lines of a run from its first scope on. -/
def linesOfWalk (commands : List Command) : List String :=
  Command.push.line :: (commands.map Command.line ++ [Command.pop.line, Command.sync.line])

/-- In the end a walk has left all scopes as they were. -/
theorem Level.foldl_linesOfWalk {commands : List Command} (h : Level commands)
    {st : List (List String)} (hst : st ≠ []) : (linesOfWalk commands).foldl standing st = st := by
  have hsplit : linesOfWalk commands =
      (Command.push.line :: (commands.map Command.line ++ [Command.pop.line])) ++
        [Command.sync.line] := by simp [linesOfWalk]
  have hneutral :
      Neutral (Command.push.line :: (commands.map Command.line ++ [Command.pop.line])) :=
    Spans.neutral h.exists_spans.1
  rw [hsplit, List.foldl_append, hneutral isScoping_standing st hst, List.foldl_cons,
    List.foldl_nil, standing_of_idle isFlat_sync (by decide +kernel) (by decide +kernel)]

/-- Wherever a run is after its declarations, what stood there stands. -/
theorem Level.suffix_standing {commands : List Command} (h : Level commands)
    {st : List (List String)} (hst : st ≠ []) {during : List String}
    (hduring : during <+: linesOfWalk commands) : st <:+ during.foldl standing st := by
  obtain ⟨scope, rest, rfl⟩ := List.exists_cons_of_ne_nil hst
  obtain ⟨hspans, hall⟩ := h.exists_spans
  have hpush : standing (scope :: rest) Command.push.line = [] :: scope :: rest := if_pos rfl
  have hinner : ∀ {height : Nat} {t : List String}, Spans height t →
      scope :: rest <:+ (Command.push.line :: t).foldl standing (scope :: rest) := by
    intro height t ht
    obtain ⟨inner, top, -, hlines⟩ := ht isScoping_standing [] (scope :: rest)
    rw [List.foldl_cons, hpush, hlines]
    exact (List.suffix_cons top _).trans (List.suffix_append inner _)
  rcases List.prefix_cons_iff.1 hduring with rfl | ⟨t, rfl, ht⟩
  · exact List.suffix_rfl
  rcases prefix_append_iff.1 ht with ht | ⟨last, rfl, hlast⟩
  · obtain ⟨height, hspans⟩ := hall t ht
    exact hinner hspans
  rcases List.prefix_cons_iff.1 hlast with rfl | ⟨marker, rfl, hmarker⟩
  · rw [List.append_nil]
    exact hinner hspans
  rcases List.prefix_cons_iff.1 hmarker with rfl | ⟨_, rfl, hnil⟩
  · have hneutral := Spans.neutral hspans isScoping_standing (scope :: rest) hst
    exact ⟨[], hneutral.symm⟩
  · rw [List.prefix_nil.1 hnil]
    exact ⟨[], (h.foldl_linesOfWalk hst).symm⟩

namespace Session

variable {env : Env} {e : Expr} {summary : Summary}

/-- What a run declares is in force once it has succeeded. -/
theorem contains_of_prove {s s' : Session Solver Script} (hs : s.Consistent)
    (h : prove env e s = (.ok summary, s')) :
    ∀ d ∈ env.declarations e, s'.declared.contains d.1 = true := by
  intro d hd
  obtain ⟨_, s₁, hstart, h⟩ := bind_eq_ok_iff.1 h
  obtain ⟨_, s₂, hdeclare, h⟩ := bind_eq_ok_iff.1 h
  obtain ⟨found, s₃, hrun, h⟩ := bind_eq_ok_iff.1 h
  obtain ⟨_, s₄, hsync, h⟩ := bind_eq_ok_iff.1 h
  cases h
  have hbounded : s₂.Bounded := by
    have hstarted := consistent_start hs
    rw [hstart] at hstarted
    have hdeclared : (declareGlobals env e s₁).2.Consistent :=
      isClosed_consistent.declareGlobals
        (fun d _ s h => consistent_declareGlobal d.1 d.2.line h) s₁ hstarted
    rw [hdeclare] at hdeclared
    exact hdeclared.bounded
  have hdeclares := declares_of_declareGlobals (isStarted_of_start hstart) hdeclare
  have hrestored := restored_runChecker env e hbounded
  have hkeeps := sync_keeps s₃
  rw [hrun] at hrestored
  rw [hsync] at hkeeps
  rw [hkeeps.1, hrestored.declared, hdeclares.declared, Bool.or_eq_true]
  exact .inr (List.any_eq_true.2 ⟨d, hd, beq_self_eq_true d.1⟩)

/-- A run that succeeds where nothing was disputed sends its declarations and then its walk, and
nothing of these is disputed. -/
theorem accords_of_prove {lost : List String} {s s' : Session Solver Script} (hs : s.Quiet lost)
    (haccords : s.Accords Undisputed) (h : prove env e s = (.ok summary, s')) :
    ∃ opening commands, (∀ line ∈ opening, IsFlat line) ∧ Level commands ∧
      s'.transcript.toList = s.transcript.toList ++ opening ++ linesOfWalk commands ∧
      s'.Accords Undisputed ∧ Command.pop.line ∉ lost := by
  obtain ⟨s₁, s₂, commands, t, p, hstart, hcheck, -, hsends, hsynced⟩ := prove_eq_ok h
  have hs₁ := hs.start
  rw [hstart] at hs₁
  -- A launch adds a line that declares nothing.
  obtain ⟨launching, hlaunching, htranscript₁⟩ : ∃ launching : List Command,
      (launching = [] ∨ launching = [.scopedDeclarations]) ∧
        s₁.transcript.toList = s.transcript.toList ++ launching.map Command.line := by
    rcases start_eq_ok hstart with ⟨-, rfl⟩ | ⟨-, s₀, hlaunch, hsends₀, -⟩
    · exact ⟨[], .inl rfl, by simp⟩
    · obtain ⟨-, -, -, -, htranscript₀, -⟩ := launch_eq_ok hlaunch
      refine ⟨[.scopedDeclarations], .inr rfl, ?_⟩
      rw [hsends₀.transcript, htranscript₀]
  have haccords₁ : s₁.Accords Undisputed := by
    unfold Accords
    rw [htranscript₁, along_append]
    refine ⟨haccords, ?_⟩
    rcases hlaunching with rfl | rfl
    · trivial
    · exact ⟨undisputed_of_nameless (by decide +kernel), trivial⟩
  obtain ⟨c, c', hc, hc', hconverses⟩ := hsends.converses
  obtain ⟨a, b, ha, -, -, hfair⟩ := synced_scopes hsynced
  obtain rfl : c' = a := Option.some.inj (hc'.symm.trans ha)
  have hrun := along_of_converses hconverses s₁.stands_ne_nil (hs₁.attends haccords₁ c hc) hfair
  refine ⟨(launching ++ s₁.missing env e).map Command.line, commands, ?_,
    Checker.level_check hcheck, ?_, ?_, ?_⟩
  · intro line hline
    obtain ⟨c, hc, rfl⟩ := List.mem_map.1 hline
    rcases List.mem_append.1 hc with hc | hc
    · rcases hlaunching with rfl | rfl
      · cases hc
      · rw [List.mem_singleton.1 hc]
        exact isFlat_scopedDeclarations
    · exact (isPlain_of_mem_missing hc).isFlat
  · rw [hsynced.transcript, hsends.transcript, htranscript₁]
    simp [linesOfWalk]
  · unfold Accords
    rw [hsynced.transcript, hsends.transcript, along_append, along_append]
    exact ⟨⟨haccords₁, hrun⟩, undisputed_of_nameless (by decide +kernel), trivial⟩
  · have hsendable := sendable_of_converses hconverses .pop (by simp)
    rwa [hs₁.failSend] at hsendable

/-- Runs declare the name: it stands for a function, or for a value whose type has a sort. -/
def IsDeclared (sig : Signature) : Prop :=
  sig.origin = .uninterpreted ∨ sig.origin = .value ∧ (SolverSort.of? sig.ty.ty).isSome = true

/-- Wherever the lines of `course` end that come after those of `before`, the one declaration of the
name that stands is this line. -/
def RemainsDeclared (before course : List String) (name line : String) : Prop :=
  ∀ during, during <+: course →
    declarationsOf ((before ++ during).foldl standing [[]]) name = [line]

/-- A declaration that stands at the end of a run stood when the run opened its first scope, and
wherever it was since. -/
theorem remainsDeclared_of_stands {s' : Session Solver Script} {before : List String}
    {commands : List Command} (hlevel : Level commands)
    (htranscript : s'.transcript.toList = before ++ linesOfWalk commands)
    (haccords : s'.Accords Undisputed) {name line : String} (hname : declaredName? line = some name)
    (hstands : line ∈ s'.stands.flatten) :
    RemainsDeclared before (linesOfWalk commands) name line := by
  intro during hduring
  have hne := foldl_standing_ne_nil (List.cons_ne_nil [] []) before
  have hbefore : s'.stands = before.foldl standing [[]] := by
    unfold stands
    rw [htranscript, List.foldl_append, hlevel.foldl_linesOfWalk hne]
  have halong : Along Undisputed [[]] (before ++ during) := by
    obtain ⟨rest, hrest⟩ := hduring
    unfold Accords at haccords
    rw [htranscript, ← hrest, ← List.append_assoc, along_append] at haccords
    exact haccords.1
  refine declarationsOf_eq_singleton hname (nodup_foldl_standing halong List.nodup_nil) ?_
  obtain ⟨inner, hinner⟩ := hlevel.suffix_standing hne hduring
  rw [List.foldl_append, ← hinner, List.flatten_append, ← hbefore]
  exact List.mem_append_right _ hstands

/-- From the first scope of the run to its end, the environment's globals have each one declaration
in force, which fits the key and the command that the environment gives. -/
def FindsGlobals (env : Env) (fits : String → Command → String → Prop)
    (s s' : Session Solver Script) : Prop :=
  ∃ opening walk, (∀ line ∈ opening, line ≠ Command.push.line) ∧
    s'.transcript.toList = s.transcript.toList ++ opening ++ Command.push.line :: walk ∧
    ∀ name sig, env.get? name = some sig → IsDeclared sig → ∃ key command line,
      sig.globalDeclaration name = .ok (.declare key command) ∧
      RemainsDeclared (s.transcript.toList ++ opening) (Command.push.line :: walk)
        (firstWord name) line ∧
      fits key command line

/-- A run that succeeds has a declaration for each global. -/
theorem exists_declare_of_prove {s s' : Session Solver Script}
    (h : prove env e s = (.ok summary, s')) {name : String} {sig : Signature}
    (hsig : env.get? name = some sig) (hglobal : IsDeclared sig) :
    ∃ key c, sig.globalDeclaration name = .ok (.declare key c) := by
  rcases hglobal with horigin | ⟨horigin, hsort⟩
  · obtain ⟨_, s₁, -, h⟩ := bind_eq_ok_iff.1 h
    obtain ⟨_, s₂, hdeclare, -⟩ := bind_eq_ok_iff.1 h
    obtain ⟨_, s₃, -, hsignatures⟩ := bind_eq_ok_iff.1 hdeclare
    obtain ⟨declaration, hdeclaration⟩ := globalDeclaration_of_declareSignatures hsignatures
      (name, sig) (NameMap.get?_eq_some_iff.1 hsig)
    obtain ⟨key, c, rfl⟩ := exists_declare_of_uninterpreted horigin hdeclaration
    exact ⟨key, c, hdeclaration⟩
  · obtain ⟨sort, hsort⟩ := Option.isSome_iff_exists.1 hsort
    exact ⟨"const " ++ name, .declareConst name sort.display, by
      simp [Signature.globalDeclaration, horigin, hsort]⟩

/-- A declaration that remains in force was in force before the run, if it declared nothing. -/
theorem FindsGlobals.declarationsOf {fits : String → Command → String → Prop}
    {s s' : Session Solver Script} (h : FindsGlobals env fits s s') {walk : List String}
    (hwalk : s'.transcript.toList = s.transcript.toList ++ Command.push.line :: walk)
    {name : String} {sig : Signature} (hsig : env.get? name = some sig)
    (hdeclared : IsDeclared sig) : ∃ key command line,
      sig.globalDeclaration name = .ok (.declare key command) ∧
      ContractCheck.declarationsOf s.stands (firstWord name) = [line] ∧
      fits key command line := by
  obtain ⟨opening, walk', hopening, htranscript, hglobals⟩ := h
  obtain ⟨key, command, line, hdeclare, hremains, hfits⟩ := hglobals name sig hsig hdeclared
  have hnil : opening = [] := by
    rw [hwalk, List.append_assoc, List.append_cancel_left_eq] at htranscript
    cases opening with
    | nil => rfl
    | cons first rest =>
        rw [List.cons_append, List.cons.injEq] at htranscript
        exact absurd htranscript.1.symm (hopening first List.mem_cons_self)
  have hnow := hremains [] List.nil_prefix
  rw [hnil, List.append_nil, List.append_nil] at hnow
  exact ⟨key, command, line, hdeclare, hnow, hfits⟩

/-- What the step may declare, by key and line. -/
def Step.Offers (offered : String → String → Prop) : Step → Prop
  | .prove env e => ∀ d ∈ env.declarations e, offered d.1 d.2.line
  | .declareGlobal key line => offered key line
  | _ => True

mutual

theorem Step.All.mono {fits fits' : Step → Prop} (h : ∀ s, fits s → fits' s) :
    ∀ s : Step, s.All fits → s.All fits'
  | .pushPop body _, hs => Step.AllIn.mono h body hs
  | .start, hs | .stop, hs | .push, hs | .pop, hs | .sync, hs | .read, hs | .checkSat, hs
  | .write _, hs | .declareGlobal _ _, hs | .prove _ _, hs => h _ hs

theorem Step.AllIn.mono {fits fits' : Step → Prop} (h : ∀ s, fits s → fits' s) :
    ∀ ss : List Step, Step.AllIn fits ss → Step.AllIn fits' ss
  | [], _ => trivial
  | s :: rest, hss => ⟨Step.All.mono h s hss.1, Step.AllIn.mono h rest hss.2⟩

end

/-- A line that has the key of a global declares the global's name. -/
def NamesGlobal (key line : String) : Prop :=
  ∀ name, key = "const " ++ name ∨ key = "fun " ++ name →
    declaredName? line = some (firstWord name)

theorem namesGlobal_of_mem_declarations {env : Env} {e : Expr} {d : String × Command}
    (hd : d ∈ env.declarations e) : NamesGlobal d.1 d.2.line := by
  intro name hname
  rcases List.mem_append.1 hd with hd | hd
  · obtain ⟨sort, -, rfl⟩ := List.mem_map.1 hd
    rcases hname with hname | hname
    · exact absurd hname (sort_append_ne_const_append _ _)
    · exact absurd hname (sort_append_ne_fun_append _ _)
  · obtain ⟨⟨other, sig⟩, -, hd⟩ := List.mem_flatMap.1 hd
    have hkey := key_of_mem_declarations hd
    obtain rfl : name = other := by
      rcases hname with hname | hname <;> rcases hkey with hkey | hkey <;> rw [hname] at hkey
      · exact (String.append_right_inj _).1 hkey
      · exact absurd hkey (const_append_ne_fun_append _ _)
      · exact absurd hkey.symm (const_append_ne_fun_append _ _)
      · exact (String.append_right_inj _).1 hkey
    unfold Signature.declarations at hd
    split at hd
    · rename_i key c hdeclare
      rw [List.mem_singleton.1 hd]
      exact declaredName?_line_declare (Signature.declared?_of_globalDeclaration hdeclare)
    · cases hd

theorem Step.IsRoutine.offers : ∀ s : Step, s.IsRoutine → s.Offers NamesGlobal
  | .prove _ _, _ => fun _ hd => namesGlobal_of_mem_declarations hd
  | .start, _ | .push, _ | .pop, _ | .sync, _ | .read, _ | .checkSat, _ | .pushPop _ _, _ => trivial

end Session

namespace Chronicle

open Session

/-- A key is known for a line that a step offered for it. -/
theorem offered_of_lines {τ ω : Type} [Transport τ ω] {offered : String → String → Prop}
    {ss : List Step} (hss : Step.AllIn (Step.Offers offered) ss) {world : ω} {key line : String}
    (h : (steps ss (.new world : Chronicle τ ω)).lines key = some line) : offered key line := by
  have hkept : IsKept (Step.Offers offered) (fun c : Chronicle τ ω =>
      ∀ key line, c.lines key = some line → offered key line) := by
    refine ⟨fun s c hsimple hs hc key line hline => ?_, trivial, trivial⟩
    cases s with
    | start | stop | push | pop | sync | read | checkSat | write text => exact hc key line hline
    | declareGlobal declared text =>
        change (if _ then _ else if key = declared then some text else none) = _ at hline
        split at hline
        · exact hc key line hline
        · split at hline
          · rename_i hsame
            cases hline
            exact hsame ▸ hs
          · cases hline
    | prove env e =>
        change (if _ then _ else _) = _ at hline
        split at hline
        · exact hc key line hline
        · obtain ⟨c, hfound, rfl⟩ := Option.map_eq_some_iff.1 hline
          exact hs (key, c) (NameMap.mem_of_lookup_eq_some hfound)
    | pushPop body failure => exact hsimple.elim
  exact hkept.steps ss (.new world) hss nofun key line h

/-- After a run that succeeds a line stands for each key that it declares. This is the environment's
own line, or the line that was last given if the key was in force. -/
theorem exists_line_of_prove {c : Chronicle Solver Script}
    (hupholds : c.session.Upholds (fun script => Command.pop.line ∉ script.failSend) c.lines)
    {env : Env} {e : Expr} {summary : Summary} {s' : Session Solver Script}
    (hprove : prove env e c.session = (.ok summary, s')) {key : String} {command : Command}
    (hmem : (key, command) ∈ env.declarations e) :
    ∃ line, line ∈ s'.stands.flatten ∧
      (c.session.declared.contains key = false → line = command.line) ∧
      (c.session.declared.contains key = true → c.lines key = some line) := by
  have hsession : (c.step (.prove env e)).session = s' := congrArg Prod.snd hprove
  have hafter : (c.step (.prove env e)).session.Upholds _ (c.step (.prove env e)).lines :=
    upholds_step isReliable trivial trivial hupholds
  have hkey : (c.step (.prove env e)).session.declared.contains key = true := by
    rw [hsession]
    exact contains_of_prove hupholds.consistent hprove _ hmem
  obtain ⟨line, hknown, hstands⟩ := hafter.line_stands hkey
  rw [hsession] at hstands
  change (if _ then _ else _) = _ at hknown
  refine ⟨line, hstands, fun hkey => ?_, fun hkey => ?_⟩
  · rw [hkey, if_neg Bool.false_ne_true, Env.lookup_declarations hmem] at hknown
    exact (Option.some.inj hknown).symm
  · rwa [if_pos hkey] at hknown

/-- The declaration of a global that is in force. In a session that is launched once, as long as
the solver has disputed no line, a run that succeeds finds each of its globals declared once, from
its first scope to its end. If no declaration of the global's kind and name was in force, this is
the line that the run's environment gives, and otherwise the line that was last given for this kind
and name before; so it is the environment's own line if all runs before give the same. -/
theorem globals_in_force {script : Script} {ss : List Step}
    (hss : Step.AllIn Step.IsRoutine ss) {c : Chronicle Solver Script}
    (hc : c = steps ss (.new script)) (haccords : c.session.Accords Undisputed) {env : Env}
    {e : Expr} {summary : Summary} {s' : Session Solver Script}
    (hprove : prove env e c.session = (.ok summary, s')) :
    (Host.steps ss { session := { world := script } }).2.session = c.session ∧
    FindsGlobals env (fun key command line =>
      (c.session.declared.contains key = false → line = command.line) ∧
      (c.session.declared.contains key = true → c.lines key = some line) ∧
      (Step.AllIn (Step.Offers fun other text => other = key → text = command.line) ss →
        line = command.line)) c.session s' := by
  have hquiet : c.session.Quiet script.failSend := hc ▸ quiet_steps hss script
  obtain ⟨opening, commands, hopening, hlevel, htranscript, haccords', hpop⟩ :=
    accords_of_prove hquiet haccords hprove
  refine ⟨hc ▸ session_steps ss _ _ rfl, opening, _, fun line hline => (hopening line hline).1,
    htranscript, fun name sig hsig hglobal => ?_⟩
  obtain ⟨key, command, hdeclare⟩ := exists_declare_of_prove hprove hsig hglobal
  have hmem : (key, command) ∈ env.declarations e := by
    refine List.mem_append_right _ (List.mem_flatMap.2
      ⟨(name, sig), NameMap.get?_eq_some_iff.1 hsig, ?_⟩)
    simp [Signature.declarations, hdeclare]
  obtain ⟨line, hstands, hnew, hold⟩ :=
    exists_line_of_prove (upholds_steps isReliable hss hpop hc) hprove hmem
  -- The line is the environment's or an earlier one, and all that are offered are like this.
  have hoffered : ∀ {offered : String → String → Prop},
      Step.AllIn (Step.Offers offered) ss → offered key command.line → offered key line := by
    intro offered hoffers hown
    cases hkey : c.session.declared.contains key with
    | false => exact hnew hkey ▸ hown
    | true => exact offered_of_lines hoffers (hc ▸ hold hkey)
  have hname : declaredName? line = some (firstWord name) :=
    hoffered (Step.AllIn.mono Step.IsRoutine.offers ss hss) (namesGlobal_of_mem_declarations hmem)
      name (key_of_globalDeclaration hdeclare)
  exact ⟨key, command, line, hdeclare,
    remainsDeclared_of_stands hlevel htranscript haccords' hname hstands, hnew, hold,
    fun hsame => hoffered hsame (fun _ => rfl) rfl⟩

/-- A value of this type, which no expression has to mention. -/
def typedEnv (ty : Ty) : Env := .ofList [("x", .value ty)]

/-- The same name for a function. -/
def appliedEnv : Env := .ofList [("x", .function .uninterpreted [.plain .int] (.plain .int))]

theorem get?_typedEnv (ty : Ty) : (typedEnv ty).get? "x" = some (.value ty) := rfl

theorem eq_of_mem_typedEnv {ty : Ty} {name : String} {sig : Signature}
    (h : (typedEnv ty).get? name = some sig) : name = "x" ∧ sig = .value ty := by
  have hmem := NameMap.get?_eq_some_iff.1 h
  rw [show (typedEnv ty).entries = [("x", .value ty)] from rfl, List.mem_singleton] at hmem
  exact Prod.mk.inj hmem

theorem depthLimit_one (env : Env) : Checker.depthLimit env (.int 1) = 0x100001 := by
  rw [Checker.depthLimit, show (Expr.int 1).calls = [] from rfl, Env.reachDepth,
    show (Expr.int 1).walkDepth = 1 from rfl, Checker.circleDepth]

/-- The value has another type in a run in a scope that is left again. -/
def retypedSteps : List Step := [.start, .push, .prove (typedEnv .int) (.int 1), .pop]

def retypedLines : List String := [
  "(set-option :global-declarations false)", "(push 1)", "(declare-const x Int)", "(push 1)",
  "(pop 1)", "(echo \"refine-sync\")", "(pop 1)"]

theorem globals_in_force_retyped : ∃ s' : Session Solver Script,
    prove (typedEnv .bool) (.int 1) (steps retypedSteps (.new {})).session = (.ok ⟨0, 0⟩, s') ∧
    FindsGlobals (typedEnv .bool) (fun _ _ line => line = "(declare-const x Bool)")
      (steps retypedSteps (.new {})).session s' := by
  have hroutine : Step.AllIn Step.IsRoutine retypedSteps :=
    ⟨trivial, trivial, trivial, trivial, trivial⟩
  obtain ⟨c, hc⟩ : ∃ c : Chronicle Solver Script, c = steps retypedSteps (.new {}) := ⟨_, rfl⟩
  have htranscript : c.session.transcript.toList = retypedLines := by
    simp only [hc, retypedSteps, steps, step, go, declare, new,
      prove_eq_proveWithin (depthLimit_one _)]
    decide +kernel
  have haccords : c.session.Accords Undisputed := by
    unfold Accords
    rw [htranscript]
    decide +kernel
  have hfresh : c.session.declared.contains "const x" = false := by
    simp only [hc, retypedSteps, steps, step, go, declare, new,
      prove_eq_proveWithin (depthLimit_one _)]
    decide +kernel
  have houtcome : (prove (typedEnv .bool) (.int 1) c.session).1 = .ok ⟨0, 0⟩ := by
    simp only [hc, retypedSteps, steps, step, go, declare, new,
      prove_eq_proveWithin (depthLimit_one _)]
    decide +kernel
  rw [← hc]
  rcases hprove : prove (typedEnv .bool) (.int 1) c.session with ⟨outcome, s'⟩
  rw [hprove] at houtcome
  obtain rfl : outcome = .ok ⟨0, 0⟩ := houtcome
  obtain ⟨-, opening, walk, hopening, hwalk, hglobals⟩ :=
    globals_in_force hroutine hc haccords hprove
  refine ⟨s', rfl, opening, walk, hopening, hwalk, fun name sig hsig hdeclared => ?_⟩
  obtain ⟨key, command, line, hdeclare, hremains, hnew, -⟩ := hglobals name sig hsig hdeclared
  refine ⟨key, command, line, hdeclare, hremains, ?_⟩
  obtain ⟨rfl, rfl⟩ := eq_of_mem_typedEnv hsig
  cases hdeclare
  exact hnew hfresh

/-- A run that declares nothing finds the value as it was declared before. -/
theorem not_findsGlobals {ty : Ty} {fits : String → Command → String → Prop}
    {s : Session Solver Script} (hdeclared : IsDeclared (.value ty))
    (hrun : (prove (typedEnv ty) (.int 1) s).1 = .ok ⟨0, 0⟩ ∧
      (prove (typedEnv ty) (.int 1) s).2.transcript.toList =
        s.transcript.toList ++ ["(push 1)", "(pop 1)", "(echo \"refine-sync\")"])
    (hstands : ∀ key command line,
      (Signature.value ty).globalDeclaration "x" = .ok (.declare key command) →
      declarationsOf s.stands "x" = [line] → ¬ fits key command line) :
    ∃ s', prove (typedEnv ty) (.int 1) s = (.ok ⟨0, 0⟩, s') ∧
      ¬ FindsGlobals (typedEnv ty) fits s s' := by
  refine ⟨_, Prod.ext hrun.1 rfl, fun hfinds => ?_⟩
  obtain ⟨key, command, line, hdeclare, hline, hfits⟩ :=
    hfinds.declarationsOf hrun.2 (get?_typedEnv ty) hdeclared
  rw [show firstWord "x" = "x" from by decide] at hline
  exact hstands key command line hdeclare hline hfits

/-- A run finds the value declared with the type of a run before. If the name was declared for a
function, a run that is refused leaves it on record as a value, and its marker unread, so that the
next run succeeds though no line declares the value that was accepted. -/
theorem globals_retyped :
    (∃ s' : Session Solver Script,
      prove (typedEnv .bool) (.int 1)
        (steps [.prove (typedEnv .int) (.int 1)] (.new {})).session = (.ok ⟨0, 0⟩, s') ∧
      ¬ FindsGlobals (typedEnv .bool) (fun _ command line => line = command.line)
        (steps [.prove (typedEnv .int) (.int 1)] (.new {})).session s') ∧
    ∃ s' : Session Solver Script,
      prove (typedEnv .int) (.int 1)
        (steps [.prove appliedEnv (.int 1), .prove (typedEnv .int) (.int 1)] (.new {})).session =
          (.ok ⟨0, 0⟩, s') ∧
      ¬ FindsGlobals (typedEnv .int) (fun _ _ _ => True)
        (steps [.prove appliedEnv (.int 1), .prove (typedEnv .int) (.int 1)] (.new {})).session
        s' := by
  constructor
  · obtain ⟨c, hc⟩ : ∃ c : Chronicle Solver Script,
        c = steps [.prove (typedEnv .int) (.int 1)] (.new {}) := ⟨_, rfl⟩
    have hstands : declarationsOf c.session.stands "x" = ["(declare-const x Int)"] := by
      simp only [hc, steps, step, declare, new, prove_eq_proveWithin (depthLimit_one _)]
      decide +kernel
    rw [← hc]
    refine not_findsGlobals (.inr ⟨rfl, rfl⟩) ?_ fun key command line hdeclare hline hfits => ?_
    · simp only [hc, steps, step, declare, new, prove_eq_proveWithin (depthLimit_one _)]
      decide +kernel
    · cases hdeclare
      rw [hstands, List.singleton_inj] at hline
      exact absurd (hline.trans hfits) (by decide +kernel)
  · obtain ⟨c, hc⟩ : ∃ c : Chronicle Solver Script,
        c = steps [.prove appliedEnv (.int 1), .prove (typedEnv .int) (.int 1)] (.new {}) :=
      ⟨_, rfl⟩
    have hstands : declarationsOf c.session.stands "x" =
        ["(declare-const x Int)", "(declare-fun x (Int) Int)"] := by
      simp only [hc, steps, step, declare, new, prove_eq_proveWithin (depthLimit_one _)]
      decide +kernel
    rw [← hc]
    refine not_findsGlobals (.inr ⟨rfl, rfl⟩) ?_ fun key command line _ hline => ?_
    · simp only [hc, steps, step, declare, new, prove_eq_proveWithin (depthLimit_one _)]
      decide +kernel
    · rw [hstands] at hline
      cases hline

end Chronicle

end ContractCheck
