import ContractCheck.Proofs.Consistency
import Mathlib.Data.List.DropRight
import Mathlib.Data.List.Nodup

/-!
What a session counts is a shadow of the solver's scopes. As long as the command that leaves a scope
can be sent, a scripted solver holds one scope more than the session counts, and for every key in
force it still holds the name that was declared with it, in one of the scopes that were open then
(`Chronicle.declared_in_scope`). A declaration that is skipped is therefore really in scope.
-/

namespace ContractCheck

theorem nodup_keys_declarations (name : String) (sig : Signature) :
    ((sig.declarations name).map (·.1)).Nodup := by
  unfold Signature.declarations
  split
  · exact List.nodup_singleton _
  · exact List.nodup_nil

theorem nodup_keys_signatureDeclarations {entries : List (String × Signature)}
    (hsorted : entries.Pairwise (·.1 < ·.1)) :
    ((signatureDeclarations entries).map (·.1)).Nodup := by
  induction entries with
  | nil => exact List.nodup_nil
  | cons entry rest ih =>
      obtain ⟨hentry, hrest⟩ := List.pairwise_cons.1 hsorted
      rw [signatureDeclarations, List.flatMap_cons, List.map_append]
      refine List.nodup_append.2 ⟨nodup_keys_declarations _ _, ih hrest, ?_⟩
      rintro key hkey key' hkey' rfl
      obtain ⟨d, hd, rfl⟩ := List.mem_map.1 hkey
      obtain ⟨d', hd', heq⟩ := List.mem_map.1 hkey'
      obtain ⟨other, hother, hd'⟩ := List.mem_flatMap.1 hd'
      have hname := Session.eq_of_key_eq hd hd' heq.symm
      exact absurd (hentry other hother) (hname ▸ String.lt_irrefl _)

/-- The declarations of a run have keys of their own. -/
theorem Env.nodup_keys (env : Env) (e : Expr) : ((env.declarations e).map (·.1)).Nodup := by
  rw [Env.declarations, List.map_append]
  refine List.nodup_append.2 ⟨?_, nodup_keys_signatureDeclarations env.sorted, ?_⟩
  · rw [sortDeclarations, List.map_map]
    exact (nodup_sortsOfRun env e).map fun a b heq => (String.append_right_inj _).1 heq
  · rintro key hkey key' hkey' rfl
    obtain ⟨d, hd, rfl⟩ := List.mem_map.1 hkey
    obtain ⟨d', hd', heq⟩ := List.mem_map.1 hkey'
    obtain ⟨name, -, rfl⟩ := List.mem_map.1 hd
    obtain ⟨entry, -, hd'⟩ := List.mem_flatMap.1 hd'
    exact Session.sort_append_ne_key hd' heq.symm

theorem Env.lookup_declarations {env : Env} {e : Expr} {d : String × Command}
    (hd : d ∈ env.declarations e) : (env.declarations e).lookup d.1 = some d.2 := by
  have hnodup := env.nodup_keys e
  obtain ⟨before, after, hsplit⟩ := List.append_of_mem hd
  rw [hsplit, List.map_append, List.map_cons] at hnodup
  rw [hsplit, List.lookup_eq_some_iff]
  refine ⟨before, after, rfl, fun other hother => ?_⟩
  rw [bne_iff_ne]
  intro heq
  have hmem : d.1 ∈ before.map (·.1) := heq ▸ List.mem_map_of_mem hother
  exact (List.nodup_append.1 hnodup).2.2 _ hmem _ List.mem_cons_self rfl

theorem rtake_cons_of_le {α : Type} {n : Nat} (a : α) {l : List α} (h : n ≤ l.length) :
    (a :: l).rtake n = l.rtake n := by
  unfold List.rtake
  rw [List.length_cons, Nat.succ_sub h, List.drop_succ_cons]

theorem rtake_of_length_le {α : Type} {n : Nat} {l : List α} (h : l.length ≤ n) :
    l.rtake n = l := by
  unfold List.rtake
  rw [Nat.sub_eq_zero_of_le h, List.drop_zero]

namespace Scripted

variable {scopes scopes' : List (List String)} {line name : String}

/-- A name that one of the outermost scopes holds is held by one of them still. -/
theorem mem_rtake_of_grown (h : Grown scopes scopes') {n : Nat}
    (hname : name ∈ (scopes.rtake n).flatten) : name ∈ (scopes'.rtake n).flatten := by
  obtain ⟨scope, scope', rest, rfl, rfl, hsubset⟩ := h
  by_cases hn : n ≤ rest.length
  · rw [rtake_cons_of_le _ hn] at hname ⊢
    exact hname
  · have hle : rest.length + 1 ≤ n := Nat.lt_of_not_le hn
    rw [rtake_of_length_le hle] at hname ⊢
    rw [List.flatten_cons, List.mem_append] at hname ⊢
    exact hname.imp_left fun h => hsubset h

theorem grown_scopesAfter (hline : IsFlat line) (scopes : List (List String)) (h : scopes ≠ []) :
    Grown scopes (scopesAfter scopes line) := by
  obtain ⟨scope, rest, rfl⟩ := List.exists_cons_of_ne_nil h
  obtain ⟨scope', hscopes, hsubset⟩ := scopesAfter_of_isFlat hline scope rest
  exact ⟨scope, scope', rest, rfl, hscopes, hsubset⟩

/-- After a declaration some scope holds the name, also if it was refused. -/
theorem mem_scopesAfter (hname : declaredName? line = some name) (h : scopes ≠ []) :
    name ∈ (scopesAfter scopes line).flatten := by
  unfold scopesAfter
  rw [obey_of_declaredName? hname]
  unfold Solver.declare
  split
  · rename_i hheld
    simp only [Solver.holds, List.any_eq_true, List.contains_iff_mem] at hheld
    exact List.mem_flatten.2 hheld
  · obtain ⟨scope, rest, rfl⟩ := List.exists_cons_of_ne_nil h
    exact List.mem_flatten.2 ⟨name :: scope, List.mem_cons_self, List.mem_cons_self⟩

end Scripted

/-- There is one scope more than is counted, and what the outermost scopes held they hold still. -/
structure Sustains (depth : Nat) (st st' : List (List String)) : Prop where
  length : st'.length = depth + 1
  kept : ∀ n ≤ depth + 1, ∀ text ∈ (st.rtake n).flatten, text ∈ (st'.rtake n).flatten

section

variable {depth : Nat} {st st' : List (List String)}

theorem Grown.sustains (h : Grown st st') (hlength : st.length = depth + 1) :
    Sustains depth st st' :=
  ⟨h.length.trans hlength, fun _ _ _ htext => Scripted.mem_rtake_of_grown h htext⟩

theorem sustains_push (hlength : st.length = depth + 1) : Sustains (depth + 1) st ([] :: st) := by
  refine ⟨congrArg (· + 1) hlength, fun n _ text htext => ?_⟩
  by_cases hle : n ≤ st.length
  · rwa [rtake_cons_of_le _ hle]
  · have hlt : st.length < n := Nat.lt_of_not_le hle
    rw [rtake_of_length_le (Nat.le_of_lt hlt)] at htext
    rwa [rtake_of_length_le (l := [] :: st) hlt]

/-- The command that leaves a scope does nothing to the outermost. -/
theorem sustains_pop {act : List (List String) → String → List (List String)}
    (hact : IsScoping act) (houtermost : ∀ scope, act [scope] Command.pop.line = [scope])
    (hlength : st.length = depth + 1) : Sustains (depth - 1) st (act st Command.pop.line) := by
  rcases st with _ | ⟨inner, _ | ⟨scope, rest⟩⟩
  · cases hlength
  · obtain rfl : depth = 0 := (Nat.succ.inj hlength).symm
    rw [houtermost]
    exact ⟨rfl, fun _ _ _ htext => htext⟩
  · obtain rfl : depth = rest.length + 1 := (Nat.succ.inj hlength).symm
    rw [hact.pop]
    refine ⟨rfl, fun n hn text htext => ?_⟩
    rwa [rtake_cons_of_le _ hn] at htext

end

namespace Session

open Scripted

theorem failSend_of_launch {script script' : Script} {outcome : Outcome Solver}
    (h : Transport.launch script = (outcome, script')) : script'.failSend = script.failSend := by
  change Scripted.launch script = _ at h
  unfold Scripted.launch at h
  split at h <;> cases h <;> rfl

/-- What is not changed by what is sent or read is not changed by a stop. -/
theorem fine_stop {fine : Script → Prop} (hfine : IsStable Solver fine)
    {s : Session Solver Script} (hs : fine s.world) : fine (stop s).2.world := by
  have hshutdown : ∀ script : Script, (Scripted.shutdown script).2 = script := by
    intro script
    unfold Scripted.shutdown
    split
    · rfl
    · split <;> rfl
  cases hc : s.channel with
  | none =>
      simp only [stop, hc]
      exact hs
  | some c =>
      obtain ⟨log, hstop⟩ := stop_of_started hc rfl rfl
      rw [hstop]
      change fine (Scripted.shutdown (Scripted.send Command.exit.line c s.world).2.2).2
      rw [hshutdown]
      exact hfine.send Command.exit.line c s.world hs

variable {α : Type} {lines lines' : String → Option String} {s s' : Session Solver Script}

/-- The solver holds one scope more than the session counts. For each key in force a line was sent,
and if that declares a name, one of the scopes holds it that were open then. -/
structure Mirrors (s : Session Solver Script) (lines : String → Option String) : Prop where
  consistent : s.Consistent
  sendable : Command.pop.line ∉ s.world.failSend
  scopes : ∀ solver, s.channel = some solver → solver.scopes.length = s.depth + 1
  sent : ∀ key d, s.declared.get? key = some d →
    ∃ line, lines key = some line ∧ line ∈ s.transcript.toList
  held : ∀ solver key d line name, s.channel = some solver → s.declared.get? key = some d →
    lines key = some line → declaredName? line = some name →
    name ∈ (solver.scopes.rtake (d + 1)).flatten

/-- Only the lines of keys in force count. -/
theorem Mirrors.congr (h : s.Mirrors lines)
    (heq : ∀ key, s.declared.contains key = true → lines' key = lines key) :
    s.Mirrors lines' := by
  have hlines : ∀ key d, s.declared.get? key = some d → lines' key = lines key :=
    fun key d hfound => heq key (Option.isSome_iff_exists.2 ⟨d, hfound⟩)
  refine ⟨h.consistent, h.sendable, h.scopes, fun key d hfound => ?_,
    fun solver key d line name hc hfound hline => ?_⟩
  · rw [hlines key d hfound]
    exact h.sent key d hfound
  · rw [hlines key d hfound] at hline
    exact h.held solver key d line name hc hfound hline

/-- Nothing is declared meanwhile, the depth follows the scopes, and the scopes that stay open hold
what they held. -/
theorem Mirrors.spoke (h : s.Mirrors lines) {said : List String} (hspoke : s.Spoke said s')
    (hconsistent : s'.Consistent)
    (hdeclared : ∀ key d, s'.declared.get? key = some d → s.declared.get? key = some d)
    (hscopes : ∀ scopes, scopes.length = s.depth + 1 →
      Sustains s'.depth scopes (said.foldl scopesAfter scopes)) :
    s'.Mirrors lines := by
  have hsolver : ∀ solver', s'.channel = some solver' → ∃ solver, s.channel = some solver ∧
      solver'.scopes = said.foldl scopesAfter solver.scopes := by
    intro solver' hsolver'
    have hview := hspoke.view isView_scopes
    rw [hsolver', Option.map_some, eq_comm, Option.map_eq_some_iff] at hview
    obtain ⟨solver, hsolver, hscopes⟩ := hview
    exact ⟨solver, hsolver, hscopes.symm⟩
  refine ⟨hconsistent, hspoke.fine isUnfailing.toIsStable h.sendable, fun solver' hsolver' => ?_,
    fun key d hfound => ?_, fun solver' key d line name hsolver' hfound hline hname => ?_⟩
  · obtain ⟨solver, hc, hsolver⟩ := hsolver solver' hsolver'
    rw [hsolver]
    exact (hscopes _ (h.scopes solver hc)).length
  · obtain ⟨line, hline, hmem⟩ := h.sent key d (hdeclared key d hfound)
    refine ⟨line, hline, ?_⟩
    rw [hspoke.transcript]
    exact List.mem_append_left _ hmem
  · obtain ⟨solver, hc, hsolver⟩ := hsolver solver' hsolver'
    rw [hsolver]
    refine (hscopes _ (h.scopes solver hc)).kept _ ?_ name
      (h.held solver key d line name hc (hdeclared key d hfound) hline hname)
    exact Nat.succ_le_succ (hconsistent.bounded key d hfound)

/-- What is sent but does not concern scopes only adds names. -/
theorem Mirrors.said (h : s.Mirrors lines) {said : List String} (hsaid : s.Said said s')
    (hflat : ∀ line ∈ said, IsFlat line) : s'.Mirrors lines := by
  refine h.spoke hsaid.toSpoke (hsaid.consistent h.consistent) (fun key d hfound => ?_)
    fun scopes hlength => ?_
  · rwa [hsaid.declared] at hfound
  · have hne : scopes ≠ [] := by
      rw [← List.length_pos_iff, hlength]
      exact Nat.succ_pos _
    rw [hsaid.depth]
    exact (grown_foldl (fun _ => grown_scopesAfter) hflat hne).sustains hlength

theorem Mirrors.write (h : s.Mirrors lines) {line : String} (hline : IsFlat line) :
    (write line s).2.Mirrors lines := by
  refine h.said (said_of_write line s) fun other hother => ?_
  rwa [eq_of_mem_accepted hother]

theorem Mirrors.read (h : s.Mirrors lines) : (read s).2.Mirrors lines :=
  h.said (said_of_read s) fun _ h => nomatch h

/-- Nothing is in force that was declared, so nothing has to be held. -/
theorem mirrors_of_declared_eq_empty (hconsistent : s.Consistent)
    (hsendable : Command.pop.line ∉ s.world.failSend) (hdeclared : s.declared = ∅)
    (hscopes : ∀ solver, s.channel = some solver → solver.scopes.length = s.depth + 1) :
    s.Mirrors lines := by
  refine ⟨hconsistent, hsendable, hscopes, fun key d hfound => ?_,
    fun solver key d line name _ hfound => ?_⟩
  · rw [hdeclared] at hfound
    cases hfound
  · rw [hdeclared] at hfound
    cases hfound

theorem Mirrors.start (h : s.Mirrors lines) : (start s).2.Mirrors lines := by
  rw [start_apply]
  split
  · exact h
  rename_i hstopped
  rw [Bool.not_eq_true] at hstopped
  have hdepth := h.consistent.depth hstopped
  have hdeclared := h.consistent.declared hstopped
  rw [bind_apply]
  rcases launch_cases s with ⟨failure, world, log, hc, hlaunch⟩ | ⟨c, world, log, hc, hlaunch⟩
  · have hsendable : Command.pop.line ∉ world.failSend := by
      rw [failSend_of_launch hc]
      exact h.sendable
    rw [hlaunch]
    refine mirrors_of_declared_eq_empty (consistent_stopped hdepth hdeclared) hsendable hdeclared ?_
    intro solver hsolver
    have hstarted : s.isStarted = true := Option.isSome_iff_exists.2 ⟨solver, hsolver⟩
    exact absurd (hstarted.symm.trans hstopped) (by decide)
  · have hsendable : Command.pop.line ∉ world.failSend := by
      rw [failSend_of_launch hc]
      exact h.sendable
    rw [hlaunch]
    refine Mirrors.write ?_ isFlat_scopedDeclarations
    refine mirrors_of_declared_eq_empty (consistent_stopped rfl hdeclared) hsendable hdeclared ?_
    rintro solver ⟨⟩
    rw [solver_of_launch hc]
    rfl

theorem Mirrors.stop (h : s.Mirrors lines) : (stop s).2.Mirrors lines := by
  have hsendable : Command.pop.line ∉ (Session.stop s).2.world.failSend :=
    fine_stop isUnfailing.toIsStable h.sendable
  cases hc : s.channel with
  | none =>
      simp only [Session.stop, hc]
      exact h
  | some c =>
      obtain ⟨log, hstop⟩ := stop_of_started hc rfl rfl
      rw [hstop] at hsendable ⊢
      exact mirrors_of_declared_eq_empty (consistent_stopped rfl rfl) hsendable rfl
        fun _ hsolver => absurd hsolver (Option.some_ne_none _).symm

theorem Mirrors.push (h : s.Mirrors lines) : (push s).2.Mirrors lines := by
  have hconsistent := consistent_push h.consistent
  rcases hpush : Session.push s with ⟨failure | u, s₁⟩
  · exact h.said (said_of_push_error hpush) nofun
  rw [hpush] at hconsistent
  obtain ⟨hspoke, -, hdepth, hdeclared⟩ := entered_of_push hpush
  refine h.spoke hspoke hconsistent (fun key d hfound => ?_) fun scopes hlength => ?_
  · rwa [← hdeclared]
  · rw [hdepth]
    exact sustains_push hlength

theorem Mirrors.pop (h : s.Mirrors lines) : (pop s).2.Mirrors lines := by
  have hconsistent := consistent_pop h.consistent
  have hdeclared : ∀ key d, (Session.pop s).2.declared.get? key = some d →
      s.declared.get? key = some d := by
    intro key d hfound
    rw [declared_pop, leaveScope, NameMap.get?_filter_eq_some_iff] at hfound
    exact hfound.1
  have hdepth : (Session.pop s).2.depth = s.depth - 1 := depth_pop s
  cases hc : s.channel with
  | none =>
      have hstopped : s.isStarted = false := by simp [isStarted, hc]
      have hspoke := spoke_perform .pop s
      have hstopped' : (Session.pop s).2.isStarted = false := hspoke.started.trans hstopped
      have hsendable := hspoke.fine isUnfailing.toIsStable h.sendable
      refine mirrors_of_declared_eq_empty hconsistent hsendable (hconsistent.declared hstopped')
        fun solver hsolver => ?_
      have hstarted : (Session.pop s).2.isStarted = true :=
        Option.isSome_iff_exists.2 ⟨solver, hsolver⟩
      exact absurd (hstarted.symm.trans hstopped') (by decide)
  | some c =>
      have hstarted : s.isStarted = true := Option.isSome_iff_exists.2 ⟨c, hc⟩
      obtain ⟨more, hspoke, hmore⟩ := (Spoke.refl s).pop hstarted
      rw [hmore isUnfailing h.sendable, List.nil_append] at hspoke
      refine h.spoke hspoke hconsistent hdeclared fun scopes hlength => ?_
      rw [hdepth]
      exact sustains_pop isScoping_scopesAfter (fun _ => rfl) hlength

/-- Once a line was sent, some scope of the solver holds the name that it declares, if any. -/
theorem Mirrors.sent_of_write (h : s.Mirrors lines) {line : String} {s₁ : Session Solver Script}
    (hs₁ : Session.write line s = (.ok (), s₁)) : line ∈ s₁.transcript.toList ∧
      ∀ solver name, s₁.channel = some solver → declaredName? line = some name →
        name ∈ solver.scopes.flatten := by
  have hsaid : s.Said [line] s₁ := by
    have hsaid := said_of_write line s
    rwa [hs₁] at hsaid
  refine ⟨?_, fun solver₁ name hsolver₁ hname => ?_⟩
  · rw [hsaid.transcript]
    exact List.mem_append_right _ (List.mem_singleton_self line)
  · have hview := hsaid.view isView_scopes
    rw [hsolver₁, Option.map_some, eq_comm, Option.map_eq_some_iff] at hview
    obtain ⟨solver, hsolver, hscopes⟩ := hview
    have hne : solver.scopes ≠ [] := by
      rw [← List.length_pos_iff, h.scopes solver hsolver]
      exact Nat.succ_pos _
    rw [← hscopes]
    exact mem_scopesAfter hname hne

theorem Mirrors.withDeclared (h : s.Mirrors lines) {key line : String}
    (hconsistent : (s.withDeclared key).Consistent) (hline : lines key = some line)
    (hsent : line ∈ s.transcript.toList)
    (hheld : ∀ solver name, s.channel = some solver → declaredName? line = some name →
      name ∈ solver.scopes.flatten) : (s.withDeclared key).Mirrors lines := by
  have hfound : ∀ other d, (s.withDeclared key).declared.get? other = some d →
      (other = key ∧ d = s.depth) ∨ s.declared.get? other = some d := by
    intro other d hfound
    rw [Session.withDeclared, NameMap.get?_insert] at hfound
    split at hfound
    · rename_i hother
      exact .inl ⟨hother, (Option.some.inj hfound).symm⟩
    · exact .inr hfound
  refine ⟨hconsistent, h.sendable, h.scopes, fun other d hother => ?_,
    fun solver other d text name hsolver hother htext hname => ?_⟩
  · rcases hfound other d hother with ⟨rfl, -⟩ | hother
    · exact ⟨line, hline, hsent⟩
    · exact h.sent other d hother
  · rcases hfound other d hother with ⟨rfl, rfl⟩ | hother
    · obtain rfl : line = text := Option.some.inj (hline.symm.trans htext)
      rw [rtake_of_length_le (Nat.le_of_eq (h.scopes solver hsolver))]
      exact hheld solver name hsolver hname
    · exact h.held solver other d text name hsolver hother htext hname

/-- A key is declared with the line that is known for it, unless it is in force. -/
theorem Mirrors.declareGlobal (h : s.Mirrors lines) {key line : String} (hflat : IsFlat line)
    (hline : s.declared.contains key = false → lines key = some line) :
    (declareGlobal key line s).2.Mirrors lines := by
  have hconsistent := consistent_declareGlobal key line h.consistent
  rw [declareGlobal_apply] at hconsistent ⊢
  by_cases hkey : s.declared.contains key = true
  · rwa [if_pos hkey]
  rw [if_neg hkey] at hconsistent ⊢
  rw [Bool.not_eq_true] at hkey
  have hwrite := h.write hflat
  rw [bind_apply] at hconsistent ⊢
  rcases hs₁ : Session.write line s with ⟨failure | u, s₁⟩
  · rwa [hs₁] at hwrite
  · rw [hs₁] at hwrite hconsistent
    obtain ⟨hsent, hheld⟩ := h.sent_of_write hs₁
    exact hwrite.withDeclared hconsistent (hline hkey) hsent hheld

theorem isClosed_mirrors (lines : String → Option String) : IsClosed
    (fun {α} (op : SessionM Solver Script α) => Preserves (Mirrors · lines) op) :=
  isClosed_preserves fun _ _ _ h => ⟨h.consistent.of_eq rfl rfl rfl, h.sendable, h.scopes, h.sent,
    h.held⟩

theorem Mirrors.sync (h : s.Mirrors lines) : (sync s).2.Mirrors lines :=
  (isClosed_mirrors lines).sync (fun _ h => h.write isFlat_sync) (fun _ h => h.read) s h

theorem Mirrors.checkSat (h : s.Mirrors lines) : (checkSat s).2.Mirrors lines :=
  (isClosed_mirrors lines).checkSat (fun _ h => h.write isFlat_checkSat) (fun _ h => h.read) s h

theorem Mirrors.runChecker (h : s.Mirrors lines) (env : Env) (e : Expr) :
    (runChecker env e s).2.Mirrors lines := by
  have htidy : (Checker.runDialogue env e).Obeys (Rule.tidy fun _ => True)
      (fun _ height => height = 0) 0 :=
    Checker.tidy_run (fun _ _ => trivial) (fun _ _ => trivial) (fun _ _ => trivial) 0
  have hdeed : ∀ (height : Nat) (s : Session Solver Script) deed, s.Mirrors lines →
      (Rule.tidy fun _ => True).allows height deed → (perform deed s).2.Mirrors lines := by
    intro height s deed h hallowed
    cases deed with
    | write command => exact h.write hallowed.1.isFlat
    | push => exact h.push
    | pop => exact h.pop
  obtain ⟨height, hmirrors, -⟩ := hold_obeys (I := fun _ s => s.Mirrors lines)
    (fun _ _ _ h => ⟨h.consistent.of_eq rfl rfl rfl, h.sendable, h.scopes, h.sent, h.held⟩)
    hdeed (fun _ _ h => h.checkSat) htidy h
  exact hmirrors

/-- What a run declares it declares with the lines of its declarations. -/
theorem Mirrors.prove (h : s.Mirrors lines) {env : Env} {e : Expr}
    (hlines : ∀ key, s.declared.contains key = false →
      lines key = ((env.declarations e).lookup key).map Command.line) :
    (prove env e s).2.Mirrors lines := by
  have hstart : Preserves (Mirrors · lines) Session.start := fun _ h₁ => h₁.start
  have hrun : Preserves (Mirrors · lines) (Session.runChecker env e) :=
    fun _ h₁ => h₁.runChecker env e
  refine preserved_by_prove (fun _ h₁ => h₁.consistent)
    (fun _ _ _ h₁ => ⟨h₁.consistent.of_eq rfl rfl rfl, h₁.sendable, h₁.scopes, h₁.sent, h₁.held⟩)
    hstart (fun d hd s₁ h₁ hkey => ?_) hrun (fun _ h₁ => h₁.write isFlat_sync)
    (fun _ h₁ => h₁.read) h
  refine h₁.declareGlobal (Env.isPlain_of_mem_declarations hd).isFlat fun hfresh => ?_
  rw [hlines _ (hkey hfresh), Env.lookup_declarations hd]
  rfl

end Session

/-- Whatever the step sends as it is does not concern scopes. -/
def Session.Step.IsFlat : Session.Step → Prop
  | .write line | .declareGlobal _ line => ContractCheck.IsFlat line
  | _ => True

namespace Chronicle

open Scripted
open Session (Step)

theorem mirrors_step {s : Step} {c : Chronicle Solver Script} (hsimple : s.IsSimple)
    (hs : s.IsFlat) (hc : c.session.Mirrors c.lines) :
    (step s c).session.Mirrors (step s c).lines := by
  cases s with
  | start => exact hc.start
  | stop => exact hc.stop
  | push => exact hc.push
  | pop => exact hc.pop
  | sync => exact hc.sync
  | read => exact hc.read
  | checkSat => exact hc.checkSat
  | write line => exact hc.write hs
  | declareGlobal key line =>
      refine (hc.congr fun other hother => if_pos hother).declareGlobal hs fun hkey => ?_
      change (if _ then _ else _) = _
      rw [hkey]
      exact if_pos rfl
  | prove env e =>
      refine (hc.congr fun other hother => if_pos hother).prove fun key hkey => ?_
      change (if _ then _ else _) = _
      rw [hkey]
      rfl
  | pushPop body failure => exact hsimple.elim

/-- A skipped declaration is in scope. Whatever a host does with a session, as long as it leaves the
commands for scopes to the session and the one that leaves a scope can be sent, a running solver
holds one scope more than the session counts. Each key in force was declared no deeper than the
session is, and if its line declares a name, one of the scopes holds it that were open then. -/
theorem declared_in_scope {script : Script} (hpop : Command.pop.line ∉ script.failSend)
    {ss : List Step} (hss : Step.AllIn Step.IsFlat ss) :
    let c : Chronicle Solver Script := steps ss (.new script)
    (Host.steps ss { session := { world := script } }).2.session = c.session ∧
    ∀ solver, c.session.channel = some solver →
      solver.scopes.length = c.session.depth + 1 ∧
      ∀ key d, c.session.declared.get? key = some d → d ≤ c.session.depth ∧
        ∃ line, c.lines key = some line ∧ line ∈ c.session.transcript.toList ∧
          ∀ name, declaredName? line = some name →
            name ∈ (solver.scopes.rtake (d + 1)).flatten := by
  have hnew : (Chronicle.new script : Chronicle Solver Script).session.Mirrors fun _ => none :=
    Session.mirrors_of_declared_eq_empty (Session.consistent_stopped rfl rfl) hpop rfl nofun
  have hkept : IsKept Step.IsFlat (fun c : Chronicle Solver Script => c.session.Mirrors c.lines) :=
    ⟨fun s c hsimple hs hc => mirrors_step hsimple hs hc, trivial, trivial⟩
  have hmirrors := hkept.steps ss _ hss hnew
  refine ⟨session_steps ss _ _ rfl, fun solver hsolver => ⟨hmirrors.scopes solver hsolver, ?_⟩⟩
  intro key d hfound
  obtain ⟨line, hline, hsent⟩ := hmirrors.sent key d hfound
  exact ⟨hmirrors.consistent.bounded key d hfound, line, hline, hsent,
    fun name hname => hmirrors.held solver key d line name hsolver hfound hline hname⟩

/-- A constant is declared in the outermost scope and another in one that is left again. -/
def scopedSteps : List Step := [
  .start, .declareGlobal "const x" "(declare-const x Int)", .push,
  .declareGlobal "const y" "(declare-const y Int)", .pop, .pop,
  .declareGlobal "const x" "(declare-const x Int)"]

theorem declared_in_scope_sample : ∃ solver : Solver,
    (steps scopedSteps (.new {})).session.channel = some solver ∧ solver.scopes.length = 1 ∧
    (steps scopedSteps (.new {} : Chronicle Solver Script)).session.declared.contains "const y" =
      false ∧
    "x" ∈ (solver.scopes.rtake 1).flatten := by
  have hstarted : (steps scopedSteps (.new {} : Chronicle Solver Script)).session.channel.isSome =
      true := by decide +kernel
  have hdepth : (steps scopedSteps (.new {} : Chronicle Solver Script)).session.depth = 0 := by
    decide +kernel
  have hx : (steps scopedSteps (.new {} : Chronicle Solver Script)).session.declared.get?
      "const x" = some 0 := by decide +kernel
  have hline : (steps scopedSteps (.new {} : Chronicle Solver Script)).lines "const x" =
      some "(declare-const x Int)" := by decide +kernel
  have hflat : Step.AllIn Step.IsFlat scopedSteps := by
    have hx : declaredName? "(declare-const x Int)" = some "x" := by decide +kernel
    have hy : declaredName? "(declare-const y Int)" = some "y" := by decide +kernel
    exact ⟨trivial, isFlat_of_declaredName? hx, trivial, isFlat_of_declaredName? hy, trivial,
      trivial, isFlat_of_declaredName? hx, trivial⟩
  obtain ⟨solver, hsolver⟩ := Option.isSome_iff_exists.1 hstarted
  have hpop : Command.pop.line ∉ ({} : Script).failSend := List.not_mem_nil
  obtain ⟨-, hscopes⟩ := declared_in_scope hpop hflat
  obtain ⟨hlength, hdeclared⟩ := hscopes solver hsolver
  rw [hdepth] at hlength
  obtain ⟨-, line, hsent, -, hname⟩ := hdeclared "const x" 0 hx
  rw [hline] at hsent
  cases hsent
  exact ⟨solver, hsolver, hlength, by decide +kernel, hname "x" (by decide +kernel)⟩

end Chronicle

end ContractCheck
