import ContractCheck.Proofs.Grounded
import ContractCheck.Proofs.Shadow

/-!
What a session counts, as its transcript tells it. As long as a host leaves the sending of lines to
the session and the command that leaves a scope can be sent, the lines that were sent leave one
scope more open than the session counts, and for every key in force the line stands that it was
declared with, in one of the scopes that were open then (`Session.Upholds`). So what a run takes for
declared is declared where the run sends its lines.
-/

namespace ContractCheck

/-- Each line fits what stands where it is sent. -/
def Along (fits : List (List String) → String → Prop) : List (List String) → List String → Prop
  | _, [] => True
  | st, line :: rest => fits st line ∧ Along fits (standing st line) rest

instance Along.decidable (fits : List (List String) → String → Prop)
    [∀ st line, Decidable (fits st line)] :
    ∀ st lines, Decidable (Along fits st lines)
  | _, [] => inferInstanceAs (Decidable True)
  | st, line :: rest =>
    have := Along.decidable fits (standing st line) rest
    inferInstanceAs (Decidable (_ ∧ _))

section

variable {fits : List (List String) → String → Prop} {st : List (List String)}
  {lines more : List String}

theorem along_append : Along fits st (lines ++ more) ↔
    Along fits st lines ∧ Along fits (lines.foldl standing st) more := by
  induction lines generalizing st with
  | nil => exact ⟨fun h => ⟨trivial, h⟩, fun h => h.2⟩
  | cons line rest ih =>
      rw [List.cons_append, Along, ih, Along, List.foldl_cons, and_assoc]

theorem Along.of_split (h : Along fits st lines) {before after : List String} {line : String}
    (hsplit : lines = before ++ line :: after) : fits (before.foldl standing st) line := by
  rw [hsplit, along_append] at h
  exact h.2.1

end

variable {τ ω : Type} [Transport τ ω]

/-- The command that leaves a scope can be sent in these worlds, which a launch does not leave
either. -/
structure IsReliable (τ : Type) [Transport τ ω] (fine : ω → Prop) : Prop
    extends IsUnfailing τ fine where
  launch : ∀ w, fine w → fine (Transport.launch w : Outcome τ × ω).2

theorem Scripted.isReliable :
    IsReliable Solver fun script => Command.pop.line ∉ script.failSend where
  toIsUnfailing := isUnfailing
  launch script h := by
    have hsame : (Transport.launch script : Outcome Solver × Script).2.failSend = script.failSend :=
      Session.failSend_of_launch rfl
    rwa [hsame]

namespace Session

/-- Each line of the transcript fits what stands where it was sent. -/
def Accords (fits : List (List String) → String → Prop) (s : Session τ ω) : Prop :=
  Along fits [[]] s.transcript.toList

theorem Spoke.accords {fits : List (List String) → String → Prop} {s s' : Session τ ω}
    {lines : List String} (h : s.Spoke lines s') :
    s'.Accords fits ↔ s.Accords fits ∧ Along fits s.stands lines := by
  unfold Accords
  rw [h.transcript, along_append]
  rfl

/-- One line more fits what stood before it, or it was refused. -/
theorem Accords.said {fits : List (List String) → String → Prop} {s s' : Session τ ω}
    {line : String} {outcome : Outcome Unit} (hs : s.Accords fits)
    (h : s.Spoke (accepted line outcome) s') (hline : fits s.stands line) : s'.Accords fits := by
  refine h.accords.2 ⟨hs, ?_⟩
  rcases outcome with failure | u
  · trivial
  · exact ⟨hline, trivial⟩

/-- There is one scope more than the session counts. For each key in force the line that is known
for it stands in one of the scopes that were open when the key was declared. -/
structure Upholds (fine : ω → Prop) (lines : String → Option String) (s : Session τ ω) : Prop where
  consistent : s.Consistent
  world : fine s.world
  scopes : s.stands.length = s.depth + 1
  held : ∀ key d, s.declared.get? key = some d →
    ∃ line, lines key = some line ∧ line ∈ (s.stands.rtake (d + 1)).flatten

variable {fine : ω → Prop} {lines lines' : String → Option String} {s s' : Session τ ω}

omit [Transport τ ω] in
theorem upholds_new {world : ω} (h : fine world) : Upholds fine lines ({ world } : Session τ ω) :=
  ⟨consistent_stopped rfl rfl, h, rfl, nofun⟩

omit [Transport τ ω] in
/-- Only the lines of keys in force count. -/
theorem Upholds.congr (h : s.Upholds fine lines)
    (heq : ∀ key, s.declared.contains key = true → lines' key = lines key) :
    s.Upholds fine lines' := by
  refine ⟨h.consistent, h.world, h.scopes, fun key d hfound => ?_⟩
  rw [heq key (Option.isSome_iff_exists.2 ⟨d, hfound⟩)]
  exact h.held key d hfound

omit [Transport τ ω] in
/-- The line of a key in force stands. -/
theorem Upholds.line_stands (h : s.Upholds fine lines) {key : String}
    (hkey : s.declared.contains key = true) :
    ∃ line, lines key = some line ∧ line ∈ s.stands.flatten := by
  obtain ⟨d, hfound⟩ := Option.isSome_iff_exists.1 hkey
  obtain ⟨line, hline, hmem⟩ := h.held key d hfound
  refine ⟨line, hline, ?_⟩
  obtain ⟨scope, hscope, hin⟩ := List.mem_flatten.1 hmem
  exact List.mem_flatten.2 ⟨scope, List.mem_of_mem_drop hscope, hin⟩

omit [Transport τ ω] in
theorem Upholds.record (h : s.Upholds fine lines) (level : LogLevel) (text : String) :
    (s.record level text).Upholds fine lines :=
  ⟨h.consistent.of_eq rfl rfl rfl, h.world, h.scopes, h.held⟩

variable (hfine : IsReliable τ fine)
include hfine

/-- Nothing is declared meanwhile, the depth follows the scopes, and in those that stay open stands
what stood there. -/
theorem Upholds.spoke (h : s.Upholds fine lines) {said : List String} (hspoke : s.Spoke said s')
    (hconsistent : s'.Consistent)
    (hdeclared : ∀ key d, s'.declared.get? key = some d → s.declared.get? key = some d)
    (hstands : Sustains s'.depth s.stands (said.foldl standing s.stands)) :
    s'.Upholds fine lines := by
  refine ⟨hconsistent, hspoke.fine hfine.toIsStable h.world, ?_, fun key d hfound => ?_⟩
  · rw [hspoke.stands]
    exact hstands.length
  · obtain ⟨line, hline, hmem⟩ := h.held key d (hdeclared key d hfound)
    refine ⟨line, hline, ?_⟩
    rw [hspoke.stands]
    exact hstands.kept _ (Nat.succ_le_succ (hconsistent.bounded key d hfound)) line hmem

theorem Upholds.said (h : s.Upholds fine lines) {said : List String} (hsaid : s.Said said s')
    (hflat : ∀ line ∈ said, IsFlat line) : s'.Upholds fine lines := by
  have hne : s.stands ≠ [] := by
    rw [← List.length_pos_iff, h.scopes]
    exact Nat.succ_pos _
  refine h.spoke hfine hsaid.toSpoke (hsaid.consistent h.consistent) (fun key d hfound => ?_) ?_
  · rwa [hsaid.declared] at hfound
  · rw [hsaid.depth]
    exact (grown_foldl (fun _ => grown_standing) hflat hne).sustains h.scopes

theorem Upholds.write (h : s.Upholds fine lines) {line : String} (hline : IsFlat line) :
    (write line s).2.Upholds fine lines := by
  refine h.said hfine (said_of_write line s) fun other hother => ?_
  rwa [eq_of_mem_accepted hother]

theorem Upholds.read (h : s.Upholds fine lines) : (read s).2.Upholds fine lines :=
  h.said hfine (said_of_read s) nofun

theorem Upholds.checkSat (h : s.Upholds fine lines) : (checkSat s).2.Upholds fine lines := by
  obtain ⟨outcome, hsaid⟩ := said_of_checkSat s
  refine h.said hfine hsaid fun line hline => ?_
  rw [eq_of_mem_accepted hline]
  exact isFlat_checkSat

theorem Upholds.sync (h : s.Upholds fine lines) : (sync s).2.Upholds fine lines := by
  have hclosed : IsClosed
      (fun {α} (op : SessionM τ ω α) => Preserves (Upholds fine lines) op) :=
    isClosed_preserves fun _ _ _ h => h.record _ _
  exact hclosed.sync (fun _ h => h.write hfine isFlat_sync) (fun _ h => h.read hfine) s h

theorem Upholds.start (h : s.Upholds fine lines) : (start s).2.Upholds fine lines := by
  rw [start_apply]
  split
  · exact h
  rename_i hstopped
  rw [Bool.not_eq_true] at hstopped
  have hdepth := h.consistent.depth hstopped
  have hdeclared := h.consistent.declared hstopped
  have hworld := hfine.launch s.world h.world
  have hscopes : s.stands.length = 1 := by rw [h.scopes, hdepth]
  -- No key is in force in a session that was just launched.
  have hlaunched : ∀ s₁ : Session τ ω, s₁.depth = 0 → s₁.declared = ∅ → fine s₁.world →
      s₁.transcript = s.transcript → s₁.Upholds fine lines := by
    intro s₁ hdepth₁ hdeclared₁ hworld₁ htranscript
    refine ⟨consistent_stopped hdepth₁ hdeclared₁, hworld₁, ?_, fun key d hfound => ?_⟩
    · rw [hdepth₁, stands, htranscript]
      exact hscopes
    · rw [hdeclared₁] at hfound
      cases hfound
  rw [bind_apply]
  rcases launch_cases s with ⟨failure, world, log, hc, hlaunch⟩ | ⟨c, world, log, hc, hlaunch⟩
  · rw [hc] at hworld
    rw [hlaunch]
    exact hlaunched _ hdepth hdeclared hworld rfl
  · rw [hc] at hworld
    rw [hlaunch]
    have hupholds := hlaunched { s with world, channel := some c, depth := 0, log } rfl hdeclared
      hworld rfl
    exact hupholds.write hfine isFlat_scopedDeclarations

theorem Upholds.push (h : s.Upholds fine lines) : (push s).2.Upholds fine lines := by
  have hconsistent := consistent_push h.consistent
  rcases hpush : Session.push s with ⟨failure | u, s₁⟩
  · exact h.said hfine (said_of_push_error hpush) nofun
  rw [hpush] at hconsistent
  obtain ⟨hspoke, -, hdepth, hdeclared⟩ := entered_of_push hpush
  refine h.spoke hfine hspoke hconsistent (fun key d hfound => ?_) ?_
  · rwa [← hdeclared]
  · have hstanding : standing s.stands Command.push.line = [] :: s.stands := if_pos rfl
    rw [hdepth, List.foldl_cons, hstanding]
    exact sustains_push h.scopes

omit hfine [Transport τ ω] in
theorem standing_pop_outermost (scope : List String) :
    standing [scope] Command.pop.line = [scope] := by
  unfold standing
  rw [if_neg (by decide), if_pos rfl]

theorem Upholds.pop (h : s.Upholds fine lines) : (pop s).2.Upholds fine lines := by
  have hconsistent := consistent_pop h.consistent
  have hdepth : (Session.pop s).2.depth = s.depth - 1 := depth_pop s
  have hdeclared : ∀ key d, (Session.pop s).2.declared.get? key = some d →
      s.declared.get? key = some d := by
    intro key d hfound
    rw [declared_pop, leaveScope, NameMap.get?_filter_eq_some_iff] at hfound
    exact hfound.1
  by_cases hstarted : s.isStarted = true
  · obtain ⟨more, hspoke, hmore⟩ := (Spoke.refl s).pop hstarted
    rw [hmore hfine.toIsUnfailing h.world, List.nil_append] at hspoke
    refine h.spoke hfine hspoke hconsistent hdeclared ?_
    rw [hdepth]
    exact sustains_pop isScoping_standing standing_pop_outermost h.scopes
  · rw [Bool.not_eq_true] at hstarted
    have hc : s.leaveScope.channel = none := by simpa [isStarted, leaveScope] using hstarted
    have hpop : (Session.pop s).2 = s.leaveScope :=
      congrArg Prod.snd (write_of_stopped hc Command.pop.line)
    have hspoke : s.Spoke [] (Session.pop s).2 := by
      rw [hpop]
      exact (Spoke.refl s).of_eq rfl rfl rfl
    refine h.spoke hfine hspoke hconsistent hdeclared ⟨?_, fun _ _ _ hmem => hmem⟩
    rw [hdepth, h.consistent.depth hstarted]
    exact h.scopes.trans (by rw [h.consistent.depth hstarted])

/-- A key is declared with the line that is known for it, unless it is in force. -/
theorem Upholds.declareGlobal (h : s.Upholds fine lines) {key line : String} {name : String}
    (hname : Scripted.declaredName? line = some name)
    (hline : s.declared.contains key = false → lines key = some line) :
    (declareGlobal key line s).2.Upholds fine lines := by
  have hconsistent := consistent_declareGlobal key line h.consistent
  rw [declareGlobal_apply] at hconsistent ⊢
  by_cases hkey : s.declared.contains key = true
  · rwa [if_pos hkey]
  rw [if_neg hkey] at hconsistent ⊢
  rw [Bool.not_eq_true] at hkey
  have hflat := isFlat_of_declaredName? hname
  have hwrite := h.write hfine hflat
  have hsaid := said_of_write line s
  rw [bind_apply] at hconsistent ⊢
  rcases hs₁ : Session.write line s with ⟨failure | u, s₁⟩
  · rwa [hs₁] at hwrite
  rw [hs₁] at hwrite hconsistent hsaid
  -- The line stands in the innermost scope.
  have hstands : line ∈ s₁.stands.flatten := by
    obtain ⟨scope, rest, hst⟩ := List.exists_cons_of_length_eq_add_one h.scopes
    rw [hsaid.stands, hst]
    change line ∈ (standing (scope :: rest) line).flatten
    rw [standing_of_isFlat hflat, hname, if_pos (.inl rfl)]
    exact List.mem_flatten.2 ⟨_, List.mem_cons_self, List.mem_cons_self⟩
  refine ⟨hconsistent, hwrite.world, hwrite.scopes, fun other d hfound => ?_⟩
  change (s₁.declared.insert key s₁.depth).get? other = some d at hfound
  rw [NameMap.get?_insert] at hfound
  split at hfound
  · rename_i hother
    obtain rfl : s₁.depth = d := Option.some.inj hfound
    refine ⟨line, hother ▸ hline hkey, ?_⟩
    change line ∈ (s₁.stands.rtake (s₁.depth + 1)).flatten
    rwa [rtake_of_length_le (Nat.le_of_eq hwrite.scopes)]
  · exact hwrite.held other d hfound

theorem Upholds.perform (h : s.Upholds fine lines) {names : String → Prop} {height : Nat}
    {deed : Deed} (hallowed : (Rule.tidy names).allows height deed) :
    (perform deed s).2.Upholds fine lines := by
  cases deed with
  | write command => exact h.write hfine hallowed.1.isFlat
  | push => exact h.push hfine
  | pop => exact h.pop hfine

theorem Upholds.runChecker (h : s.Upholds fine lines) (env : Env) (e : Expr) :
    (runChecker env e s).2.Upholds fine lines := by
  have htidy : (Checker.runDialogue env e).Obeys (Rule.tidy fun _ => True)
      (fun _ height => height = 0) 0 :=
    Checker.tidy_run (fun _ _ => trivial) (fun _ _ => trivial) (fun _ _ => trivial) 0
  obtain ⟨height, hupholds, -⟩ := hold_obeys (I := fun _ s => s.Upholds fine lines)
    (fun _ _ _ h => h.record _ _) (fun _ _ _ h hallowed => h.perform hfine hallowed)
    (fun _ _ h => h.checkSat hfine) htidy h
  exact hupholds

omit hfine [Transport τ ω] in
theorem exists_declaredName?_of_mem_declarations {env : Env} {e : Expr} {d : String × Command}
    (hd : d ∈ env.declarations e) : ∃ name, Scripted.declaredName? d.2.line = some name := by
  rcases mem_declarations_iff.1 (List.mem_map_of_mem hd) with ⟨sort, -, hsort⟩ |
    ⟨name, sig, key, -, hdeclare⟩
  · rw [hsort]
    exact ⟨_, Scripted.declaredName?_line_declare rfl⟩
  · exact ⟨_, Scripted.declaredName?_line_declare
      (Signature.declared?_of_globalDeclaration hdeclare)⟩

/-- What a run declares it declares with the lines of its declarations. -/
theorem Upholds.prove (h : s.Upholds fine lines) {env : Env} {e : Expr}
    (hlines : ∀ key, s.declared.contains key = false →
      lines key = ((env.declarations e).lookup key).map Command.line) :
    (prove env e s).2.Upholds fine lines := by
  have hstart : Preserves (Upholds fine lines) (Session.start : SessionM τ ω Unit) :=
    fun _ h₁ => h₁.start hfine
  have hrun : Preserves (Upholds fine lines) (Session.runChecker env e : SessionM τ ω Summary) :=
    fun _ h₁ => h₁.runChecker hfine env e
  refine preserved_by_prove (fun _ h₁ => h₁.consistent) (fun _ _ _ h₁ => h₁.record _ _) hstart
    (fun d hd s₁ h₁ hkey => ?_) hrun (fun _ h₁ => h₁.write hfine isFlat_sync)
    (fun _ h₁ => h₁.read hfine) h
  obtain ⟨name, hname⟩ := exists_declaredName?_of_mem_declarations hd
  refine h₁.declareGlobal hfine hname fun hfresh => ?_
  rw [hlines _ (hkey hfresh), Env.lookup_declarations hd]
  rfl

/-- The step neither stops the solver nor sends a line of the host's own. -/
def Step.IsRoutine : Step → Prop
  | .stop | .write _ | .declareGlobal _ _ => False
  | _ => True

end Session

open Session in
theorem Chronicle.upholds_step {fine : ω → Prop} (hfine : IsReliable τ fine) {step : Step}
    {c : Chronicle τ ω} (hsimple : step.IsSimple) (hroutine : step.IsRoutine)
    (hc : c.session.Upholds fine c.lines) :
    (c.step step).session.Upholds fine (c.step step).lines := by
  cases step with
  | start => exact hc.start hfine
  | push => exact hc.push hfine
  | pop => exact hc.pop hfine
  | sync => exact hc.sync hfine
  | read => exact hc.read hfine
  | checkSat => exact hc.checkSat hfine
  | prove env e =>
      refine (hc.congr fun other hother => if_pos hother).prove hfine fun key hkey => ?_
      change (if _ then _ else _) = _
      rw [hkey]
      rfl
  | stop | write line | declareGlobal key line => exact hroutine.elim
  | pushPop body failure => exact hsimple.elim

theorem Chronicle.upholds_steps {fine : ω → Prop} (hfine : IsReliable τ fine)
    {ss : List Session.Step} (hss : Session.Step.AllIn Session.Step.IsRoutine ss) {world : ω}
    (hworld : fine world) {c : Chronicle τ ω} (hc : c = steps ss (.new world)) :
    c.session.Upholds fine c.lines := by
  have hkept : IsKept Session.Step.IsRoutine (fun c : Chronicle τ ω =>
      c.session.Upholds fine c.lines) :=
    ⟨fun _ _ hsimple hroutine hc => upholds_step hfine hsimple hroutine hc, trivial, trivial⟩
  exact hc ▸ hkept.steps ss (.new world) hss (Session.upholds_new hworld)

end ContractCheck
