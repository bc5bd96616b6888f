import ContractCheck.Proofs.Courses
import ContractCheck.Proofs.Operations
import ContractCheck.Proofs.Scopes

/-!
What the operations of a running session keep. Whatever fails on the way, an operation that leaves
the scopes that it opens ends at the depth at which it began, all declarations that were in force
are in force, and the others were made at this depth (`Session.Kept`). In a scope of its own it
changes neither the depth nor the declarations (`Session.restored_pushPop`).
-/

namespace ContractCheck

theorem NameMap.get?_filter_eq_some_iff {α : Type} {p : String → α → Bool} {m : NameMap α}
    {name : String} {value : α} :
    (m.filter p).get? name = some value ↔ m.get? name = some value ∧ p name value = true := by
  rw [get?_eq_some_iff, get?_eq_some_iff]
  exact List.mem_filter

variable {τ ω : Type} [Transport τ ω]

/-- What a solver keeps in its scopes, the innermost first. Each line that it accepts acts on them,
and nothing else does. -/
structure IsView {S : Type} (scopes : τ → List S) (act : List S → String → List S) : Prop where
  accepted : ∀ line (c c' : τ) (w w' : ω),
    Transport.send line c w = (.ok (), c', w') → scopes c' = act (scopes c) line
  refused : ∀ line failure (c c' : τ) (w w' : ω),
    Transport.send line c w = (.error failure, c', w') → scopes c' = scopes c
  received : ∀ (c : τ) (w : ω), scopes (Transport.receive c w).2.1 = scopes c

/-- Whatever is sent or read, these worlds are not left. -/
structure IsStable (τ : Type) [Transport τ ω] (fine : ω → Prop) : Prop where
  send : ∀ line (c : τ) w, fine w → fine (Transport.send line c w).2.2
  receive : ∀ (c : τ) w, fine w → fine (Transport.receive c w).2.2

/-- In these worlds, which are not left, the command that leaves a scope can be sent. -/
structure IsUnfailing (τ : Type) [Transport τ ω] (fine : ω → Prop) : Prop
    extends IsStable τ fine where
  pop : ∀ (c : τ) w, fine w → (Transport.send Command.pop.line c w).1 = .ok ()

/-- What a transcript gains if the line had this outcome. -/
def accepted (line : String) : Outcome Unit → List String
  | .ok () => [line]
  | .error _ => []

omit [Transport τ ω] in
theorem eq_of_mem_accepted {line other : String} {outcome : Outcome Unit}
    (h : other ∈ accepted line outcome) : other = line := by
  rcases outcome with failure | u
  · cases h
  · exact List.mem_singleton.1 h

omit [Transport τ ω] in
theorem Spans.accepted {height : Nat} {lines : List String} {line : String}
    (h : Spans height lines) (hline : IsFlat line) (outcome : Outcome Unit) :
    Spans height (lines ++ accepted line outcome) := by
  rcases outcome with failure | u
  · rwa [ContractCheck.accepted, List.append_nil]
  · exact h.flat hline

namespace Session

variable {α β : Type}

/-- The second session comes from the first by sending these lines, and by reading. -/
structure Spoke (s : Session τ ω) (lines : List String) (s' : Session τ ω) : Prop where
  started : s'.isStarted = s.isStarted
  transcript : s'.transcript.toList = s.transcript.toList ++ lines
  view : ∀ {S : Type} {scopes : τ → List S} {act : List S → String → List S}, IsView scopes act →
    s'.channel.map scopes = s.channel.map fun c => lines.foldl act (scopes c)
  fine : ∀ {fine : ω → Prop}, IsStable τ fine → fine s.world → fine s'.world

theorem Spoke.refl (s : Session τ ω) : s.Spoke [] s where
  started := rfl
  transcript := (List.append_nil _).symm
  view _ := rfl
  fine _ h := h

/-- Only what passes through the channel counts. -/
theorem Spoke.of_eq {s s' s'' : Session τ ω} {lines : List String} (h : s.Spoke lines s')
    (hchannel : s''.channel = s'.channel) (htranscript : s''.transcript = s'.transcript)
    (hworld : s''.world = s'.world) : s.Spoke lines s'' where
  started := by
    unfold isStarted
    rw [hchannel]
    exact h.started
  transcript := by rw [htranscript, h.transcript]
  view hview := by rw [hchannel, h.view hview]
  fine hfine hs := by
    rw [hworld]
    exact h.fine hfine hs

theorem Spoke.trans {s s₁ s₂ : Session τ ω} {lines more : List String} (h : s.Spoke lines s₁)
    (h' : s₁.Spoke more s₂) : s.Spoke (lines ++ more) s₂ where
  started := h'.started.trans h.started
  transcript := by rw [h'.transcript, h.transcript, List.append_assoc]
  view {S scopes act} hview := by
    have hfirst := h.view hview
    have hsecond := h'.view hview
    cases hs : s.channel with
    | none =>
        rw [hs, Option.map_none, Option.map_eq_none_iff] at hfirst
        rw [hsecond, hfirst]
        rfl
    | some c =>
        rw [hs, Option.map_some, Option.map_eq_some_iff] at hfirst
        obtain ⟨c₁, hc₁, hscopes⟩ := hfirst
        rw [hsecond, hc₁, Option.map_some, hscopes, Option.map_some, List.foldl_append]
  fine hfine hs := h'.fine hfine (h.fine hfine hs)

/-- And it counts scopes and declarations as the first did. -/
structure Said (s : Session τ ω) (lines : List String) (s' : Session τ ω) : Prop
    extends Spoke s lines s' where
  depth : s'.depth = s.depth
  declared : s'.declared = s.declared

theorem Said.refl (s : Session τ ω) : s.Said [] s := ⟨.refl s, rfl, rfl⟩

theorem said_of_write (line : String) (s : Session τ ω) :
    s.Said (accepted line (write line s).1) (write line s).2 := by
  cases hc : s.channel with
  | none =>
      rw [write_of_stopped hc]
      exact .refl s
  | some c =>
      have hstarted : s.isStarted = true := by simp [isStarted, hc]
      have hfine := fun {fine : ω → Prop} (h : IsStable τ fine) => h.send line c s.world
      rcases hsend : Transport.send line c s.world with ⟨failure | u, c', w'⟩
      · rw [hsend] at hfine
        rw [write_of_refused hc hsend]
        refine ⟨⟨hstarted.symm, (List.append_nil _).symm, fun hview => ?_, hfine⟩, rfl, rfl⟩
        rw [hc]
        exact congrArg some (hview.refused _ _ _ _ _ _ hsend)
      · rw [hsend] at hfine
        rw [write_of_accepted hc hsend]
        refine ⟨⟨hstarted.symm, Array.toList_push, fun hview => ?_, hfine⟩, rfl, rfl⟩
        rw [hc]
        exact congrArg some (hview.accepted _ _ _ _ _ hsend)

theorem said_of_read (s : Session τ ω) : s.Said [] (read s).2 := by
  cases hc : s.channel with
  | none =>
      simp only [read, hc]
      exact .refl s
  | some c =>
      obtain ⟨log, hread⟩ := read_of_channel hc
      rw [hread]
      refine ⟨⟨?_, (List.append_nil _).symm, fun hview => ?_, fun hfine => ?_⟩, rfl, rfl⟩
      · simp [isStarted, hc]
      · rw [hc]
        exact congrArg some (hview.received c s.world)
      · exact hfine.receive c s.world

theorem said_of_checkSat (s : Session τ ω) :
    ∃ outcome, s.Said (accepted Command.checkSat.line outcome) (checkSat s).2 := by
  have hwrite := said_of_write Command.checkSat.line s
  refine ⟨(write Command.checkSat.line s).1, ?_⟩
  unfold checkSat
  rw [bind_apply]
  rcases hs₁ : write Command.checkSat.line s with ⟨failure | u, s₁⟩
  · rwa [hs₁] at hwrite
  · rw [hs₁] at hwrite
    have hread := said_of_read s₁
    refine ⟨?_, hread.depth.trans hwrite.depth, hread.declared.trans hwrite.declared⟩
    exact hwrite.toSpoke.trans hread.toSpoke

/-- No declaration was made deeper than where the session is. -/
def Bounded (s : Session τ ω) : Prop :=
  ∀ key depth, s.declared.get? key = some depth → depth ≤ s.depth

omit [Transport τ ω] in
/-- Leaving a scope forgets what was declared in it or deeper, and nothing else. -/
theorem declared_leaveScope {s : Session τ ω} {declared : NameMap Nat} {depth : Nat}
    (hdepth : depth ≤ s.depth - 1) (hbounded : ∀ key d, declared.get? key = some d → d ≤ depth)
    (hold : ∀ key d, declared.get? key = some d → s.declared.get? key = some d)
    (hnew : ∀ key d, s.declared.get? key = some d →
      declared.get? key = some d ∨ s.depth - 1 < d) : (s.leaveScope).declared = declared := by
  refine NameMap.ext_get? fun key => Option.ext fun d => ?_
  rw [leaveScope, NameMap.get?_filter_eq_some_iff, decide_eq_true_eq]
  constructor
  · rintro ⟨hfound, hle⟩
    refine (hnew key d hfound).resolve_right ?_
    omega
  · intro hfound
    have hle := hbounded key d hfound
    exact ⟨hold key d hfound, by omega⟩

/-- The operation ends where it began: at the same depth, with all declarations in force that were,
and others only at this depth. -/
structure Kept (s s' : Session τ ω) : Prop where
  depth : s'.depth = s.depth
  declared : ∀ key d, s.declared.get? key = some d → s'.declared.get? key = some d
  added : ∀ key d, s'.declared.get? key = some d → s.declared.get? key = some d ∨ d = s.depth
  spoke : ∃ lines, s.Spoke lines s' ∧
    ∀ {fine : ω → Prop}, IsUnfailing τ fine → fine s.world → Spans 0 lines

theorem Said.kept {s s' : Session τ ω} {lines : List String} (h : s.Said lines s')
    (hlines : Spans 0 lines) : s.Kept s' where
  depth := h.depth
  declared key d hfound := by rwa [h.declared]
  added key d hfound := .inl (by rwa [← h.declared])
  spoke := ⟨lines, h.toSpoke, fun _ _ => hlines⟩

theorem Kept.refl (s : Session τ ω) : s.Kept s := (Said.refl s).kept spans_nil

theorem Kept.trans {s s₁ s₂ : Session τ ω} (h : s.Kept s₁) (h' : s₁.Kept s₂) : s.Kept s₂ where
  depth := h'.depth.trans h.depth
  declared key d hfound := h'.declared key d (h.declared key d hfound)
  added key d hfound := by
    rcases h'.added key d hfound with hfound | rfl
    · exact h.added key d hfound
    · exact .inr h.depth
  spoke := by
    obtain ⟨lines, hlines, hspans⟩ := h.spoke
    obtain ⟨more, hmore, hspans'⟩ := h'.spoke
    refine ⟨lines ++ more, hlines.trans hmore, fun hfine hs => ?_⟩
    exact Spans.append (hspans hfine hs) (hspans' hfine (hlines.fine hfine.toIsStable hs))

theorem Kept.isStarted {s s' : Session τ ω} (h : s.Kept s') : s'.isStarted = s.isStarted := by
  obtain ⟨lines, hlines, -⟩ := h.spoke
  exact hlines.started

theorem Kept.bounded {s s' : Session τ ω} (h : s.Kept s') (hs : s.Bounded) : s'.Bounded := by
  intro key d hfound
  rw [h.depth]
  rcases h.added key d hfound with hfound | rfl
  · exact hs key d hfound
  · exact Nat.le_refl _

/-- Whatever happens, the operation of a running session ends where it began. -/
def Keeps (op : SessionM τ ω α) : Prop :=
  ∀ s : Session τ ω, s.isStarted = true → s.Bounded → s.Kept (op s).2

theorem keeps_bind {op : SessionM τ ω α} {f : α → SessionM τ ω β} (h : Keeps op)
    (hf : ∀ a, Keeps (f a)) : Keeps (op >>= f) := by
  intro s hs hbounded
  have hop := h s hs hbounded
  rw [bind_apply]
  rcases hs₁ : op s with ⟨failure | a, s₁⟩
  · rw [hs₁] at hop
    exact hop
  · rw [hs₁] at hop
    exact hop.trans (hf a s₁ (hop.isStarted.trans hs) (hop.bounded hbounded))

theorem keeps_answer (outcome : Outcome α) :
    Keeps (fun s => (outcome, s) : SessionM τ ω α) := fun s _ _ => .refl s

theorem keeps_write {line : String} (hline : IsFlat line) :
    Keeps (write line : SessionM τ ω Unit) :=
  fun s _ _ => (said_of_write line s).kept (spans_nil.accepted hline _)

theorem keeps_read : Keeps (read : SessionM τ ω String) :=
  fun s _ _ => (said_of_read s).kept spans_nil

theorem keeps_checkSat : Keeps (checkSat : SessionM τ ω String) :=
  keeps_bind (keeps_write isFlat_checkSat) fun _ => keeps_read

theorem keeps_sync : Keeps (sync : SessionM τ ω Unit) := by
  refine keeps_bind (keeps_write isFlat_sync) fun _ => keeps_bind keeps_read fun line => ?_
  cases trimQuotes line == Command.syncMarker <;> exact fun s _ _ => .refl s

theorem keeps_start : Keeps (start : SessionM τ ω Unit) := by
  intro s hs _
  rw [start_of_started hs]
  exact .refl s

theorem Kept.withDeclared {s s' : Session τ ω} (h : s.Kept s') {key : String}
    (hkey : s.declared.contains key = false) : s.Kept (s'.withDeclared key) where
  depth := h.depth
  declared other d hfound := by
    have hother : other ≠ key := by
      rintro rfl
      simp [NameMap.contains, hfound] at hkey
    rw [Session.withDeclared, NameMap.get?_insert, if_neg hother]
    exact h.declared other d hfound
  added other d hfound := by
    rw [Session.withDeclared, NameMap.get?_insert] at hfound
    split at hfound
    · exact .inr ((Option.some.inj hfound).symm.trans h.depth)
    · exact h.added other d hfound
  spoke := by
    obtain ⟨lines, hlines, hspans⟩ := h.spoke
    exact ⟨lines, hlines.of_eq rfl rfl rfl, hspans⟩

theorem keeps_declareGlobal (key : String) {line : String} (hline : IsFlat line) :
    Keeps (declareGlobal key line : SessionM τ ω Unit) := by
  intro s hs hbounded
  have hwrite := keeps_write hline s hs hbounded
  rw [declareGlobal_apply]
  split
  · exact .refl s
  · rename_i hkey
    rw [Bool.not_eq_true] at hkey
    rw [bind_apply]
    rcases hs₁ : write line s with ⟨failure | u, s₁⟩
    · rw [hs₁] at hwrite
      exact hwrite
    · rw [hs₁] at hwrite
      exact hwrite.withDeclared hkey

theorem isClosed_keeps : IsClosed (fun {α} (op : SessionM τ ω α) => Keeps op) where
  answer outcome := keeps_answer outcome
  andThen h hf := keeps_bind h hf
  record level text s _ _ := by
    have hsaid : s.Said [] (s.record level text) :=
      ⟨(Spoke.refl s).of_eq rfl rfl rfl, rfl, rfl⟩
    exact hsaid.kept spans_nil

/-- So many scopes were opened in the meantime, and nothing was declared. -/
structure Opened (s : Session τ ω) (height : Nat) (s' : Session τ ω) : Prop where
  depth : s'.depth = s.depth + height
  declared : s'.declared = s.declared
  started : 0 < height → s'.isStarted = true
  spoke : ∃ lines, s.Spoke lines s' ∧
    ∀ {fine : ω → Prop}, IsUnfailing τ fine → fine s.world → Spans height lines

theorem Opened.refl (s : Session τ ω) : s.Opened 0 s :=
  ⟨rfl, rfl, fun h => absurd h (Nat.lt_irrefl 0), [], .refl s, fun _ _ => spans_nil⟩

theorem Opened.said {s s' s'' : Session τ ω} {height : Nat} (h : s.Opened height s')
    {line : String} (hline : IsFlat line) {outcome : Outcome Unit}
    (h' : s'.Said (accepted line outcome) s'') : s.Opened height s'' where
  depth := h'.depth.trans h.depth
  declared := h'.declared.trans h.declared
  started hheight := h'.started.trans (h.started hheight)
  spoke := by
    obtain ⟨lines, hlines, hspans⟩ := h.spoke
    exact ⟨_, hlines.trans h'.toSpoke, fun hfine hs =>
      Spans.accepted (hspans hfine hs) hline outcome⟩

/-- The command that leaves a scope is accepted in a running session whose world is fine. -/
theorem write_pop_of_fine {fine : ω → Prop} (hfine : IsUnfailing τ fine) {s : Session τ ω}
    (hs : fine s.world) (hstarted : s.isStarted = true) :
    (write Command.pop.line s).1 = .ok () := by
  obtain ⟨c, hc⟩ := Option.isSome_iff_exists.1 hstarted
  have hpop := hfine.pop c s.world hs
  rcases hsend : Transport.send Command.pop.line c s.world with ⟨outcome, c', w'⟩
  rw [hsend] at hpop
  obtain rfl : outcome = .ok () := hpop
  rw [write_of_accepted hc hsend]

/-- The session after a scope was opened. -/
theorem entered_of_push {s s₁ : Session τ ω} (h : push s = (.ok (), s₁)) :
    s.Spoke [Command.push.line] s₁ ∧ s₁.isStarted = true ∧ s₁.depth = s.depth + 1 ∧
      s₁.declared = s.declared := by
  obtain ⟨s₂, hwrite, rfl⟩ := push_eq_ok h
  have hsaid := said_of_write Command.push.line s
  have hstarted := isStarted_of_write hwrite
  rw [hwrite] at hsaid
  exact ⟨hsaid.toSpoke.of_eq rfl rfl rfl, hstarted, congrArg (· + 1) hsaid.depth, hsaid.declared⟩

/-- If the scope cannot be opened, nothing has happened. -/
theorem said_of_push_error {s s₁ : Session τ ω} {failure : Failure}
    (h : push s = (.error failure, s₁)) : s.Said [] s₁ := by
  have hsaid := said_of_write Command.push.line s
  rwa [push_eq_error h] at hsaid

theorem Opened.push {s s' s₁ : Session τ ω} {height : Nat} (h : s.Opened height s')
    (hpush : Session.push s' = (.ok (), s₁)) : s.Opened (height + 1) s₁ := by
  obtain ⟨hspoke, hstarted, hdepth, hdeclared⟩ := entered_of_push hpush
  obtain ⟨lines, hlines, hspans⟩ := h.spoke
  refine ⟨?_, hdeclared.trans h.declared, fun _ => hstarted, _, hlines.trans hspoke, ?_⟩
  · rw [hdepth, h.depth, Nat.add_assoc]
  · exact fun hfine hs => Spans.push (hspans hfine hs)

theorem Opened.push_refused {s s' s₁ : Session τ ω} {height : Nat} {failure : Failure}
    (h : s.Opened height s') (hpush : Session.push s' = (.error failure, s₁)) :
    s.Opened height s₁ := by
  have hsaid := said_of_push_error hpush
  obtain ⟨lines, hlines, hspans⟩ := h.spoke
  refine ⟨hsaid.depth.trans h.depth, hsaid.declared.trans h.declared,
    fun hheight => hsaid.started.trans (h.started hheight), _, hlines.trans hsaid.toSpoke, ?_⟩
  rw [List.append_nil]
  exact hspans

theorem depth_pop (s : Session τ ω) : (pop s).2.depth = s.depth - 1 :=
  (said_of_write Command.pop.line s.leaveScope).depth

theorem declared_pop (s : Session τ ω) : (pop s).2.declared = s.leaveScope.declared :=
  (said_of_write Command.pop.line s.leaveScope).declared

/-- The command that leaves a scope is sent, if it can be. -/
theorem Spoke.pop {s s' : Session τ ω} {lines : List String} (h : s.Spoke lines s')
    (hstarted : s'.isStarted = true) : ∃ more, s.Spoke (lines ++ more) (Session.pop s').2 ∧
      ∀ {fine : ω → Prop}, IsUnfailing τ fine → fine s.world → more = [Command.pop.line] := by
  have hleft : s.Spoke lines s'.leaveScope := h.of_eq rfl rfl rfl
  refine ⟨_, hleft.trans (said_of_write Command.pop.line s'.leaveScope).toSpoke, ?_⟩
  intro fine hfine hs
  rw [write_pop_of_fine hfine (hleft.fine hfine.toIsStable hs) hstarted]
  rfl

/-- A scope counts as left whether or not the command can be sent. -/
theorem Opened.pop {s s' : Session τ ω} {height : Nat} (h : s.Opened (height + 1) s')
    (hbounded : s.Bounded) : s.Opened height (Session.pop s').2 := by
  have hstarted := h.started (Nat.succ_pos height)
  obtain ⟨lines, hlines, hspans⟩ := h.spoke
  obtain ⟨more, hmore, hpop⟩ := hlines.pop hstarted
  have hdepth : s'.depth - 1 = s.depth + height := by
    rw [h.depth]
    omega
  refine ⟨(depth_pop s').trans hdepth, (declared_pop s').trans ?_, fun _ => ?_, _, hmore, ?_⟩
  · refine declared_leaveScope (by omega) hbounded (fun key d hfound => ?_) fun key d hfound => ?_
    · rwa [h.declared]
    · exact .inl (by rwa [← h.declared])
  · exact hmore.started.trans (hlines.started.symm.trans hstarted)
  · intro fine hfine hs
    rw [hpop hfine hs]
    exact Spans.pop (hspans hfine hs)

/-- The outcome of a deed tells whether its line was sent. -/
theorem spoke_perform (deed : Deed) (s : Session τ ω) :
    s.Spoke (accepted deed.command.line (perform deed s).1) (perform deed s).2 := by
  cases deed with
  | write command => exact (said_of_write command.line s).toSpoke
  | push =>
      change s.Spoke (accepted Command.push.line (push s).1) (push s).2
      rcases hpush : push s with ⟨failure | u, s₁⟩
      · exact (said_of_push_error hpush).toSpoke
      · exact (entered_of_push hpush).1
  | pop =>
      have hleft : s.Spoke [] s.leaveScope := (Spoke.refl s).of_eq rfl rfl rfl
      exact hleft.trans (said_of_write Command.pop.line s.leaveScope).toSpoke

theorem spoke_hold (d : Dialogue α) (s : Session τ ω) : ∃ lines, s.Spoke lines (hold d s).2 := by
  induction d generalizing s with
  | done a => exact ⟨[], .refl s⟩
  | note text next ih =>
      obtain ⟨lines, hlines⟩ := ih (s.record .debug text)
      have hnote : s.Spoke [] (s.record .debug text) := (Spoke.refl s).of_eq rfl rfl rfl
      exact ⟨_, hnote.trans hlines⟩
  | act deed next ih =>
      obtain ⟨more, hmore⟩ := ih (perform deed s).1 (perform deed s).2
      exact ⟨_, (spoke_perform deed s).trans hmore⟩
  | checkSat next ih =>
      obtain ⟨outcome, hsaid⟩ := said_of_checkSat s
      obtain ⟨more, hmore⟩ := ih (checkSat s).1 (checkSat s).2
      exact ⟨_, hsaid.toSpoke.trans hmore⟩

theorem Opened.record {s s' : Session τ ω} {height : Nat} (h : s.Opened height s')
    (level : LogLevel) (text : String) : s.Opened height (s'.record level text) := by
  obtain ⟨lines, hlines, hspans⟩ := h.spoke
  exact ⟨h.depth, h.declared, h.started, lines, hlines.of_eq rfl rfl rfl, hspans⟩

theorem Opened.checkSat {s s' : Session τ ω} {height : Nat} (h : s.Opened height s') :
    s.Opened height (checkSat s').2 := by
  obtain ⟨outcome, hsaid⟩ := said_of_checkSat s'
  exact h.said isFlat_checkSat hsaid

/-- The scopes are counted as a tidy dialogue counts them. -/
theorem Opened.perform {names : String → Prop} {s s' : Session τ ω} {height : Nat}
    (h : s.Opened height s') (hbounded : s.Bounded) {deed : Deed}
    (hallowed : (Rule.tidy names).allows height deed) :
    s.Opened ((Rule.tidy names).after height deed (perform deed s').1) (perform deed s').2 := by
  cases deed with
  | write command => exact h.said hallowed.1.isFlat (said_of_write command.line s')
  | push =>
      change s.Opened ((Rule.tidy names).after height .push (Session.push s').1) (Session.push s').2
      rcases hpush : Session.push s' with ⟨failure | u, s₁⟩
      · exact h.push_refused hpush
      · exact h.push hpush
  | pop =>
      obtain ⟨below, rfl⟩ := Nat.exists_eq_add_one.2 hallowed
      exact h.pop hbounded

theorem opened_hold {names : String → Prop} {d : Dialogue α} {height : Nat}
    {post : α → Nat → Prop} (hd : d.Obeys (Rule.tidy names) post height)
    {s s' : Session τ ω} (hbounded : s.Bounded) (hs : s.Opened height s') :
    ∃ height', s.Opened height' (hold d s').2 ∧ post (hold d s').1 height' :=
  hold_obeys (fun _ _ text h => h.record .debug text)
    (fun _ _ _ h hallowed => h.perform hbounded hallowed) (fun _ _ h => h.checkSat) hd hs

/-- A tidy dialogue changes neither the depth nor the declarations. -/
theorem opened_runChecker (env : Env) (e : Expr) {s : Session τ ω} (hbounded : s.Bounded) :
    s.Opened 0 (runChecker env e s).2 := by
  have htidy : (Checker.runDialogue env e).Obeys (Rule.tidy fun _ => True)
      (fun _ height => height = 0) 0 :=
    Checker.tidy_run (fun _ _ => trivial) (fun _ _ => trivial) (fun _ _ => trivial) 0
  obtain ⟨height, hopened, rfl⟩ := opened_hold htidy hbounded (.refl s)
  exact hopened

theorem Opened.kept {s s' : Session τ ω} (h : s.Opened 0 s') : s.Kept s' where
  depth := h.depth
  declared key d hfound := by rwa [h.declared]
  added key d hfound := .inl (by rwa [← h.declared])
  spoke := h.spoke

theorem keeps_declareGlobals (env : Env) (e : Expr) :
    Keeps (declareGlobals env e : SessionM τ ω Unit) :=
  isClosed_keeps.declareGlobals fun d hd =>
    keeps_declareGlobal d.1 (Env.isPlain_of_mem_declarations hd).isFlat

theorem keeps_prove (env : Env) (e : Expr) : Keeps (prove env e : SessionM τ ω Summary) :=
  isClosed_keeps.prove keeps_start
    (fun d hd => keeps_declareGlobal d.1 (Env.isPlain_of_mem_declarations hd).isFlat)
    (fun _ _ hbounded => (opened_runChecker env e hbounded).kept) keeps_sync

/-- Neither the depth nor the declarations are changed, and if the command that leaves a scope can
be sent, all scopes are as before. -/
structure Restored (s s' : Session τ ω) : Prop where
  depth : s'.depth = s.depth
  declared : s'.declared = s.declared
  spoke : ∃ lines, s.Spoke lines s' ∧
    ∀ {fine : ω → Prop}, IsUnfailing τ fine → fine s.world → Neutral lines

theorem Restored.kept {s s' : Session τ ω} (h : s.Restored s') : s.Kept s' where
  depth := h.depth
  declared key d hfound := by rwa [h.declared]
  added key d hfound := .inl (by rwa [← h.declared])
  spoke := by
    obtain ⟨lines, hlines, hneutral⟩ := h.spoke
    exact ⟨lines, hlines, fun hfine hs => Neutral.spans (hneutral hfine hs)⟩

/-- Whatever an operation does that ends where it began, in a scope of its own nothing of it
remains. -/
theorem restored_pushPop {body : SessionM τ ω α} (hbody : Keeps body) {s : Session τ ω}
    (hbounded : s.Bounded) : s.Restored (pushPop body s).2 := by
  rw [pushPop_apply]
  rcases hpush : push s with ⟨failure | u, s₁⟩
  · have hsaid := said_of_push_error hpush
    exact ⟨hsaid.depth, hsaid.declared, [], hsaid.toSpoke, fun _ _ => neutral_nil⟩
  obtain ⟨hopening, hstarted, hdepth, hdeclared⟩ := entered_of_push hpush
  have hbounded₁ : s₁.Bounded := by
    intro key d hfound
    rw [hdeclared] at hfound
    rw [hdepth]
    exact Nat.le_succ_of_le (hbounded key d hfound)
  have hkept := hbody s₁ hstarted hbounded₁
  refine ⟨?_, ?_, ?_⟩
  · show (pop (body s₁).2).2.depth = s.depth
    rw [depth_pop, hkept.depth, hdepth, Nat.add_sub_cancel]
  · show (pop (body s₁).2).2.declared = s.declared
    have hinner : (body s₁).2.depth = s.depth + 1 := hkept.depth.trans hdepth
    rw [declared_pop]
    refine declared_leaveScope (by omega) hbounded (fun key d hfound => ?_) fun key d hfound => ?_
    · exact hkept.declared key d (by rwa [hdeclared])
    · rcases hkept.added key d hfound with hfound | rfl
      · exact .inl (by rwa [← hdeclared])
      · exact .inr (by omega)
  · obtain ⟨inner, hinner, hspans⟩ := hkept.spoke
    obtain ⟨closing, hclosing, hpop⟩ :=
      (hopening.trans hinner).pop (hkept.isStarted.trans hstarted)
    refine ⟨_, hclosing, fun hfine hs => ?_⟩
    rw [hpop hfine hs]
    exact Spans.neutral (hspans hfine (hopening.fine hfine.toIsStable hs))

theorem keeps_pushPop {body : SessionM τ ω α} (hbody : Keeps body) : Keeps (pushPop body) :=
  fun _ _ hbounded => (restored_pushPop hbody hbounded).kept

end Session

end ContractCheck
