import ContractCheck.Proofs.Walk
import ContractCheck.Solver.Scripted

/-!
What a run has done once it succeeds: the global declarations that were missing, the favourable
course of the checker in a scope of its own, and one exchange of the marker (`prove_eq_ok`).
-/

namespace ContractCheck

/-- The key and the command of each declaration that a signature asks for. -/
def Signature.declarations (name : String) (sig : Signature) : List (String × Command) :=
  match sig.globalDeclaration name with
  | .ok (.declare key command) => [(key, command)]
  | _ => []

/-- The key and the command of each sort that is declared for a run. -/
def sortDeclarations (names : List String) : List (String × Command) :=
  names.map fun name => ("sort " ++ name, .declareSort name)

def signatureDeclarations (entries : List (String × Signature)) : List (String × Command) :=
  entries.flatMap fun entry => entry.2.declarations entry.1

/-- The keys and the commands of the global declarations of a run, in their order. -/
def Env.declarations (env : Env) (e : Expr) : List (String × Command) :=
  sortDeclarations (sortsOfRun env e).toList ++ signatureDeclarations env.entries

theorem Signature.globalDeclaration_declare {name key : String} {sig : Signature}
    {command : Command} (h : sig.globalDeclaration name = .ok (.declare key command)) :
    (∃ sort, sig.origin = .value ∧ SolverSort.of? sig.ty.ty = some sort ∧
      key = "const " ++ name ∧ command = .declareConst name sort.display) ∨
    ∃ params ret domain range, sig.origin = .uninterpreted ∧
      sig.ty.ty.arrow? = some (params, ret) ∧
      params.mapM (fun p => SolverSort.of p.ty) = .ok domain ∧ SolverSort.of ret.ty = .ok range ∧
      key = "fun " ++ name ∧
      command = .declareFun name (domain.map SolverSort.display) range.display := by
  unfold globalDeclaration at h
  cases horigin : sig.origin with
  | builtin =>
      rw [horigin] at h
      cases h
  | primitive =>
      rw [horigin] at h
      cases h
  | value =>
      simp only [horigin] at h
      cases hsort : SolverSort.of? sig.ty.ty with
      | none =>
          rw [hsort] at h
          cases h
      | some sort =>
          rw [hsort] at h
          cases h
          exact .inl ⟨sort, rfl, rfl, rfl, rfl⟩
  | uninterpreted =>
      simp only [horigin] at h
      cases harrow : sig.ty.ty.arrow? with
      | none =>
          rw [harrow] at h
          cases h
      | some arrow =>
          obtain ⟨params, ret⟩ := arrow
          simp only [harrow] at h
          cases hdomain : params.mapM fun p => SolverSort.of p.ty with
          | error failure =>
              simp only [hdomain] at h
              cases h
          | ok domain =>
              cases hrange : SolverSort.of ret.ty with
              | error failure =>
                  simp only [hdomain, hrange] at h
                  cases h
              | ok range =>
                  simp only [hdomain, hrange] at h
                  cases h
                  exact .inr ⟨params, ret, domain, range, rfl, rfl, hdomain, hrange, rfl, rfl⟩

theorem isPlain_of_mem_sortDeclarations {names : List String} {d : String × Command}
    (h : d ∈ sortDeclarations names) : d.2.IsPlain := by
  obtain ⟨name, -, rfl⟩ := List.mem_map.1 h
  trivial

theorem isPlain_of_mem_declarations {name : String} {sig : Signature} {d : String × Command}
    (h : d ∈ sig.declarations name) : d.2.IsPlain := by
  unfold Signature.declarations at h
  split at h
  · rename_i key command hdeclare
    obtain rfl := List.mem_singleton.1 h
    rcases Signature.globalDeclaration_declare hdeclare with ⟨_, -, -, -, rfl⟩ |
      ⟨_, _, _, _, -, -, -, -, -, rfl⟩
    · trivial
    · trivial
  · cases h

theorem Env.isPlain_of_mem_declarations {env : Env} {e : Expr} {d : String × Command}
    (h : d ∈ env.declarations e) : d.2.IsPlain := by
  rcases List.mem_append.1 h with hsort | hsignature
  · exact isPlain_of_mem_sortDeclarations hsort
  · obtain ⟨entry, -, hdeclaration⟩ := List.mem_flatMap.1 hsignature
    exact ContractCheck.isPlain_of_mem_declarations hdeclaration

theorem nodup_sortsOfRun (env : Env) (e : Expr) : (sortsOfRun env e).toList.Nodup := by
  refine List.Pairwise.imp ?_ (List.pairwise_map.2 (sortsOfRun env e).sorted)
  rintro a b hlt rfl
  exact String.lt_irrefl _ hlt

theorem NameMap.contains_insert {α : Type} (m : NameMap α) (key other : String) (value : α) :
    (m.insert key value).contains other = (m.contains other || key == other) := by
  unfold NameMap.contains
  rw [NameMap.get?_insert]
  by_cases h : other = key
  · simp [h]
  · simp [h, Ne.symm h]

namespace Session

variable {τ ω : Type} [Transport τ ω]

theorem launch_eq_ok {s s' : Session τ ω} (h : launch s = (.ok (), s')) :
    ∃ c, Transport.launch s.world = (.ok c, s'.world) ∧ s'.channel = some c ∧ s'.depth = 0 ∧
      s'.transcript = s.transcript ∧ s'.declared = s.declared := by
  unfold launch at h
  cases hnote : @Transport.announcement τ ω _ s.world <;>
    simp only [hnote] at h <;>
    rcases hlaunch : (Transport.launch s.world : Outcome τ × ω) with ⟨failure | c, w⟩ <;>
    simp only [record, hlaunch] at h <;>
    cases h
  · exact ⟨c, rfl, rfl, rfl, rfl, rfl⟩
  · exact ⟨c, rfl, rfl, rfl, rfl, rfl⟩

/-- A session that was started either had been running or was launched, and then told once that
declarations go with their scope. -/
theorem start_eq_ok {s s' : Session τ ω} (h : start s = (.ok (), s')) :
    (s.isStarted ∧ s' = s) ∨ (s.isStarted = false ∧ ∃ s₀, launch s = (.ok (), s₀) ∧
      s₀.Sends [.scopedDeclarations] s' ∧ s'.declared = s₀.declared) := by
  obtain ⟨_, _, hget, h⟩ := bind_eq_ok_iff.1 h
  cases hget
  cases hs : s.isStarted with
  | true =>
      simp only [hs] at h
      cases h
      exact .inl ⟨rfl, rfl⟩
  | false =>
      simp only [hs] at h
      obtain ⟨_, s₀, hlaunch, hwrite⟩ := bind_eq_ok_iff.1 h
      have hsends : s₀.Sends [.scopedDeclarations] s' := sends_of_write trivial hwrite
      obtain ⟨_, _, -, -, hs'⟩ := write_eq_ok hwrite
      exact .inr ⟨rfl, s₀, hlaunch, hsends, by rw [hs']; rfl⟩

/-- A new session has no declarations in force when it has started. -/
theorem start_new_eq_ok {world : ω} {s' : Session τ ω} (h : start { world } = (.ok (), s')) :
    ∃ (s₀ : Session τ ω) (c : τ), Transport.launch world = (.ok c, s₀.world) ∧
      s₀.channel = some c ∧ s₀.depth = 0 ∧ s₀.transcript = #[] ∧
      s₀.Sends [.scopedDeclarations] s' ∧ s'.declared = ∅ := by
  rcases start_eq_ok h with ⟨hs, -⟩ | ⟨-, s₀, hlaunch, hsends, hdeclared⟩
  · cases hs
  · obtain ⟨c, hlaunch, hchannel, hdepth, htranscript, hnone⟩ := launch_eq_ok hlaunch
    exact ⟨s₀, c, hlaunch, hchannel, hdepth, htranscript, hsends, hdeclared.trans hnone⟩

/-- The marker was sent, and the next line read was the marker. -/
structure Synced (s : Session τ ω) (s' : Session τ ω) : Prop where
  exchange : ∃ c c₁ c' w₁ line, s.channel = some c ∧
    Transport.send Command.sync.line c s.world = (.ok (), c₁, w₁) ∧
    Transport.receive c₁ w₁ = (.ok line, c', s'.world) ∧ isErrorLine line = false ∧
    trimQuotes line = Command.syncMarker ∧ s'.channel = some c'
  transcript : s'.transcript.toList = s.transcript.toList ++ [Command.sync.line]
  depth : s'.depth = s.depth

theorem synced_of_sync {s s' : Session τ ω} (h : sync s = (.ok (), s')) : s.Synced s' := by
  obtain ⟨_, s₁, hwrite, h⟩ := bind_eq_ok_iff.1 h
  obtain ⟨line, s₂, hread, h⟩ := bind_eq_ok_iff.1 h
  obtain ⟨c, c₁, hc, hsend, hs₁⟩ := write_eq_ok hwrite
  obtain ⟨c₁', c', hc₁', hreceive, herror, hs₂⟩ := read_eq_ok hread
  obtain rfl : c₁ = c₁' := by
    rw [hs₁] at hc₁'
    exact Option.some.inj hc₁'
  cases hmarker : trimQuotes line == Command.syncMarker with
  | false =>
      simp only [hmarker] at h
      cases h
  | true =>
      simp only [hmarker] at h
      cases h
      refine ⟨⟨c, c₁, c', s₁.world, line, hc, hsend, hreceive, herror, eq_of_beq hmarker, ?_⟩,
        ?_, ?_⟩
      · rw [hs₂]
        rfl
      · rw [hs₂, hs₁]
        simp [record]
      · rw [hs₂, hs₁]
        rfl

/-- The second session comes from the first by sending those of the declarations that were not in
force. -/
structure Declares (s : Session τ ω) (declarations : List (String × Command))
    (s' : Session τ ω) : Prop where
  sends : s.Sends
    ((declarations.filter fun d => !s.declared.contains d.1).map (·.2)) s'
  declared : ∀ key,
    s'.declared.contains key = (s.declared.contains key || declarations.any (·.1 == key))

theorem Declares.append {s s₁ s₂ : Session τ ω} {first second : List (String × Command)}
    (hnew : ∀ d ∈ first, ∀ d' ∈ second, d.1 ≠ d'.1) (h : s.Declares first s₁)
    (h' : s₁.Declares second s₂) : s.Declares (first ++ second) s₂ := by
  have hsame : (second.filter fun d => !s₁.declared.contains d.1) =
      second.filter fun d => !s.declared.contains d.1 := by
    refine List.filter_congr fun d hd => ?_
    have hfirst : first.any (·.1 == d.1) = false := by
      simpa using fun d' c' hd' => hnew (d', c') hd' d hd
    rw [h.declared, hfirst, Bool.or_false]
  refine ⟨?_, fun key => ?_⟩
  · rw [List.filter_append, List.map_append, ← hsame]
    exact h.sends.append h'.sends
  · rw [h'.declared, h.declared, List.any_append, Bool.or_assoc]

theorem declares_nil {s : Session τ ω} (hs : s.isStarted) : s.Declares [] s :=
  ⟨.refl hs, by simp⟩

theorem declares_nil_record {s : Session τ ω} (hs : s.isStarted) (level : LogLevel)
    (text : String) : s.Declares [] (s.record level text) := by
  have h := declares_nil hs
  exact ⟨⟨h.sends.converses, h.sends.transcript, h.sends.depth⟩, h.declared⟩

theorem declares_of_declareGlobal {key : String} {command : Command} {s s' : Session τ ω}
    (hplain : command.IsPlain) (hs : s.isStarted)
    (h : declareGlobal key command.line s = (.ok (), s')) : s.Declares [(key, command)] s' := by
  obtain ⟨_, _, hget, h⟩ := bind_eq_ok_iff.1 h
  cases hget
  cases hkey : s.declared.contains key with
  | true =>
      simp only [hkey] at h
      cases h
      refine ⟨by simpa [hkey] using Sends.refl hs, fun other => ?_⟩
      by_cases hother : key = other
      · simp [← hother, hkey]
      · simp [hother]
  | false =>
      simp only [hkey] at h
      obtain ⟨_, s₁, hwrite, hmodify⟩ := bind_eq_ok_iff.1 h
      cases hmodify
      have hsends := sends_of_write hplain hwrite
      obtain ⟨_, _, -, -, hs₁⟩ := write_eq_ok hwrite
      refine ⟨?_, fun other => ?_⟩
      · have hmissing : ([(key, command)].filter fun d => !s.declared.contains d.1).map (·.2) =
            [command] := by simp [hkey]
        rw [hmissing]
        exact ⟨hsends.converses, hsends.transcript, hsends.depth⟩
      · change (s₁.declared.insert key s₁.depth).contains other = _
        rw [NameMap.contains_insert, hs₁]
        simp [record]

theorem declares_of_declareSorts {names : List String} (hnames : names.Nodup)
    {s s' : Session τ ω} (hs : s.isStarted) (h : declareSorts names s = (.ok (), s')) :
    s.Declares (sortDeclarations names) s' := by
  induction names generalizing s with
  | nil =>
      cases h
      exact declares_nil hs
  | cons name rest ih =>
      obtain ⟨hname, hrest⟩ := List.nodup_cons.1 hnames
      obtain ⟨_, s₁, hfirst, h⟩ := bind_eq_ok_iff.1 h
      have hdeclares : s.Declares [("sort " ++ name, .declareSort name)] s₁ :=
        declares_of_declareGlobal trivial hs hfirst
      refine Declares.append ?_ hdeclares (ih hrest hdeclares.sends.isStarted h)
      intro d hd d' hd' heq
      obtain rfl := List.mem_singleton.1 hd
      obtain ⟨other, hother, rfl⟩ := List.mem_map.1 hd'
      obtain rfl := String.append_right_inj _ |>.1 heq
      exact hname hother

/-- The key of a signature's declaration shows its name. -/
theorem key_of_globalDeclaration {name key : String} {sig : Signature} {c : Command}
    (h : sig.globalDeclaration name = .ok (.declare key c)) :
    key = "const " ++ name ∨ key = "fun " ++ name := by
  rcases Signature.globalDeclaration_declare h with ⟨_, -, -, rfl, -⟩ |
    ⟨_, _, _, _, -, -, -, -, rfl, -⟩
  · exact .inl rfl
  · exact .inr rfl

theorem key_of_mem_declarations {name : String} {sig : Signature} {d : String × Command}
    (h : d ∈ sig.declarations name) : d.1 = "const " ++ name ∨ d.1 = "fun " ++ name := by
  unfold Signature.declarations at h
  split at h
  · rename_i key command hdeclare
    obtain rfl := List.mem_singleton.1 h
    exact key_of_globalDeclaration hdeclare
  · cases h

theorem const_append_ne_fun_append (a b : String) : "const " ++ a ≠ "fun " ++ b := by
  intro h
  simpa using congrArg (fun s => s.toList.head?) h

theorem sort_append_ne_const_append (a b : String) : "sort " ++ a ≠ "const " ++ b := by
  intro h
  simpa using congrArg (fun s => s.toList.head?) h

theorem sort_append_ne_fun_append (a b : String) : "sort " ++ a ≠ "fun " ++ b := by
  intro h
  simpa using congrArg (fun s => s.toList.head?) h

/-- No sort has the key of a signature. -/
theorem sort_append_ne_key {sort name : String} {sig : Signature} {d : String × Command}
    (h : d ∈ sig.declarations name) : "sort " ++ sort ≠ d.1 := by
  rcases key_of_mem_declarations h with hkey | hkey <;> rw [hkey]
  · exact sort_append_ne_const_append _ _
  · exact sort_append_ne_fun_append _ _

theorem eq_of_key_eq {name name' : String} {sig sig' : Signature} {d d' : String × Command}
    (h : d ∈ sig.declarations name) (h' : d' ∈ sig'.declarations name') (heq : d.1 = d'.1) :
    name = name' := by
  rcases key_of_mem_declarations h with hkey | hkey <;>
    rcases key_of_mem_declarations h' with hkey' | hkey' <;> rw [hkey, hkey'] at heq
  · exact String.append_right_inj _ |>.1 heq
  · exact absurd heq (const_append_ne_fun_append _ _)
  · exact absurd heq.symm (const_append_ne_fun_append _ _)
  · exact String.append_right_inj _ |>.1 heq

omit [Transport τ ω] in
theorem liftExcept_eq_ok {α : Type} {outcome : Outcome α} {s s' : Session τ ω} {a : α}
    (h : (liftExcept outcome : SessionM τ ω α) s = (.ok a, s')) : outcome = .ok a ∧ s' = s := by
  cases outcome with
  | error failure => cases h
  | ok b =>
      cases h
      exact ⟨rfl, rfl⟩

theorem declares_of_declareSignatures {entries : List (String × Signature)}
    (hsorted : entries.Pairwise (·.1 < ·.1)) {s s' : Session τ ω} (hs : s.isStarted)
    (h : declareSignatures entries s = (.ok (), s')) :
    s.Declares (signatureDeclarations entries) s' := by
  induction entries generalizing s with
  | nil =>
      cases h
      exact declares_nil hs
  | cons entry rest ih =>
      obtain ⟨name, sig⟩ := entry
      obtain ⟨hname, hrest⟩ := List.pairwise_cons.1 hsorted
      obtain ⟨declaration, s₁, hlift, h⟩ := bind_eq_ok_iff.1 h
      obtain ⟨hdeclaration, hs₁⟩ := liftExcept_eq_ok hlift
      subst hs₁
      have hfresh : ∀ d ∈ sig.declarations name, ∀ d' ∈ signatureDeclarations rest,
          d.1 ≠ d'.1 := by
        intro d hd d' hd' heq
        obtain ⟨entry, hentry, hd'⟩ := List.mem_flatMap.1 hd'
        exact absurd (hname entry hentry) (eq_of_key_eq hd hd' heq ▸ String.lt_irrefl _)
      have hdeclares : ∃ s₂, s₁.Declares (sig.declarations name) s₂ ∧
          declareSignatures rest s₂ = (.ok (), s') := by
        unfold Signature.declarations
        rw [hdeclaration]
        rcases declaration with ⟨key, command⟩ | unsorted | _
        · obtain ⟨_, s₂, hfirst, hrest⟩ := bind_eq_ok_iff.1 h
          have hmem : (key, command) ∈ sig.declarations name := by
            simp [Signature.declarations, hdeclaration]
          have hplain := isPlain_of_mem_declarations hmem
          exact ⟨s₂, declares_of_declareGlobal hplain hs hfirst, hrest⟩
        · obtain ⟨_, s₂, hfirst, hrest⟩ := bind_eq_ok_iff.1 h
          cases hfirst
          exact ⟨_, declares_nil_record hs _ _, hrest⟩
        · exact ⟨s₁, declares_nil hs, h⟩
      obtain ⟨s₂, hfirst, h⟩ := hdeclares
      exact .append hfresh hfirst (ih hrest hfirst.sends.isStarted h)

/-- The declarations of a run are those not in force yet, sorts before signatures. -/
theorem declares_of_declareGlobals {env : Env} {e : Expr} {s s' : Session τ ω}
    (hs : s.isStarted) (h : declareGlobals env e s = (.ok (), s')) :
    s.Declares (env.declarations e) s' := by
  obtain ⟨_, s₁, hsorts, hsignatures⟩ := bind_eq_ok_iff.1 h
  have hfirst := declares_of_declareSorts (nodup_sortsOfRun env e) hs hsorts
  refine .append ?_ hfirst
    (declares_of_declareSignatures env.sorted hfirst.sends.isStarted hsignatures)
  intro d hd d' hd' heq
  obtain ⟨name, -, rfl⟩ := List.mem_map.1 hd
  obtain ⟨entry, -, hd'⟩ := List.mem_flatMap.1 hd'
  exact sort_append_ne_key hd' heq

/-- The declarations of a run that a session still has to make. -/
def missing (s : Session τ ω) (env : Env) (e : Expr) : List Command :=
  ((env.declarations e).filter fun d => !s.declared.contains d.1).map (·.2)

omit [Transport τ ω] in
theorem isPlain_of_mem_missing {s : Session τ ω} {env : Env} {e : Expr} {c : Command}
    (h : c ∈ s.missing env e) : c.IsPlain := by
  obtain ⟨d, hd, rfl⟩ := List.mem_map.1 h
  exact Env.isPlain_of_mem_declarations (List.mem_filter.1 hd).1

omit [Transport τ ω] in
theorem missing_of_declared_eq_empty {s : Session τ ω} (h : s.declared = ∅) (env : Env)
    (e : Expr) : s.missing env e = (env.declarations e).map (·.2) := by
  unfold missing
  rw [h]
  exact congrArg _ (List.filter_eq_self.2 fun _ _ => rfl)

theorem runChecker_eq_ok {env : Env} {e : Expr} {summary : Summary} {s s' : Session τ ω}
    (hs : s.isStarted) (h : runChecker env e s = (.ok summary, s')) :
    ∃ commands t p, Checker.Accepts (Checker.check env .full ∅ e) {} commands t p ∧
      summary = p.summary ∧ s.Sends (.push :: (commands ++ [.pop])) s' := by
  unfold runChecker at h
  rcases hhold : s.hold (Checker.runDialogue env e) with ⟨⟨failure | u, p⟩, s₁⟩
  · rw [hhold] at h
    cases h
  · rw [hhold] at h
    cases h
    obtain ⟨hresult, hsends⟩ := hold_of_strict (Checker.strict_runDialogue env e) hs hhold
    rcases hcourse : (Checker.runDialogue env e).favourable with ⟨course, result⟩
    rw [hcourse] at hresult hsends
    obtain rfl : result = (.ok u, p) := hresult
    have haccepts : Checker.Accepts (Checker.inSolverScope do
        let _ ← Checker.check env .full ∅ e) {} course u p := hcourse
    obtain ⟨inner, hinner, hcommands⟩ := Checker.accepts_inSolverScope_iff.1 haccepts
    obtain ⟨commands, t, p₁, _, hcheck, hpure, rfl⟩ := Checker.accepts_bind_iff.1 hinner
    obtain ⟨rfl, -, rfl⟩ := Checker.accepts_pure_iff.1 hpure
    rw [List.append_nil] at hcommands
    exact ⟨commands, t, p, hcheck, rfl, hcommands ▸ hsends⟩

/-- A run that succeeds has started the session, sent the missing declarations and the favourable
course of the checker, and seen the marker. -/
theorem prove_eq_ok {env : Env} {e : Expr} {summary : Summary} {s s' : Session τ ω}
    (h : prove env e s = (.ok summary, s')) :
    ∃ s₁ s₂ commands t p, start s = (.ok (), s₁) ∧
      Checker.Accepts (Checker.check env .full ∅ e) {} commands t p ∧ summary = p.summary ∧
      s₁.Sends (s₁.missing env e ++ .push :: (commands ++ [.pop])) s₂ ∧ s₂.Synced s' := by
  obtain ⟨_, s₁, hstart, h⟩ := bind_eq_ok_iff.1 h
  obtain ⟨_, s₂, hdeclare, h⟩ := bind_eq_ok_iff.1 h
  obtain ⟨found, s₃, hrun, h⟩ := bind_eq_ok_iff.1 h
  obtain ⟨_, s₄, hsync, h⟩ := bind_eq_ok_iff.1 h
  cases h
  have hs₁ : s₁.isStarted := by
    rcases start_eq_ok hstart with ⟨hs, rfl⟩ | ⟨-, s₀, -, hsends, -⟩
    · exact hs
    · exact hsends.isStarted
  have hdeclares := declares_of_declareGlobals hs₁ hdeclare
  obtain ⟨commands, t, p, hcheck, rfl, hsends⟩ := runChecker_eq_ok hdeclares.sends.isStarted hrun
  exact ⟨s₁, s₃, commands, t, p, hstart, hcheck, rfl, hdeclares.sends.append hsends,
    synced_of_sync hsync⟩

/-- A run whose walk goes at most so deep. -/
def proveWithin (depth : Nat) (env : Env) (e : Expr) : SessionM τ ω Summary := do
  start
  declareGlobals env e
  let summary ← (fun s =>
    let ((outcome, progress), s) := s.hold ((Checker.inSolverScope do
      let _ ← Checker.checkWithin env depth .full ∅ e) {})
    (outcome.map fun () => progress.summary, s) : SessionM τ ω Summary)
  sync
  return summary

theorem prove_eq_proveWithin {depth : Nat} {env : Env} {e : Expr}
    (h : Checker.depthLimit env e = depth) :
    (prove env e : SessionM τ ω Summary) = proveWithin depth env e := by
  subst h
  rfl

end Session

namespace Sample

/-- A function that takes nothing but three. -/
def env : Env := .ofList
  [("f", .function .primitive [.refined .int (.equals "x" (.int 3))] (.plain .int))]

def call : Expr := .call "f" [.int 3] .int

theorem get?_env : env.get? "f" =
    some (.function .primitive [.refined .int (.equals "x" (.int 3))] (.plain .int)) := rfl

theorem depthLimit_call : Checker.depthLimit env call = 0x100003 := by
  have hreach : env.reachDepth call.calls = 1 := by
    rw [show call.calls = ["f"] from rfl, Env.reachDepth]
    split
    · rename_i hnone
      rw [get?_env] at hnone
      cases hnone
    · rename_i sig hsig
      rw [get?_env] at hsig
      cases hsig
      rw [show Signature.clauseCalls _ ++ [] = [] from rfl, Env.reachDepth]
      rfl
  rw [Checker.depthLimit, hreach, show call.walkDepth = 2 from rfl, Checker.circleDepth]

open Scripted in
theorem prove_call : ∃ s', Session.prove env call
    ({ world := { answers := ["unsat"] } } : Session Solver Script) = (.ok ⟨1, 1⟩, s') := by
  rcases hrun : Session.prove env call
    ({ world := { answers := ["unsat"] } } : Session Solver Script) with ⟨outcome, s'⟩
  obtain rfl : outcome = .ok ⟨1, 1⟩ := by
    rw [Session.prove_eq_proveWithin depthLimit_call] at hrun
    exact (congrArg Prod.fst hrun).symm.trans rfl
  exact ⟨s', rfl⟩

end Sample

end ContractCheck
