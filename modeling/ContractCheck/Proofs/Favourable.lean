import ContractCheck.Dialogue

/-!
The favourable course of a dialogue: every deed succeeds and every check is answered `unsat`. A
strict dialogue ends in failure on any other course, so whoever sees it succeed knows which
commands the solver accepted, and in which order, whatever the solver is (`hold_of_strict`).
-/

namespace ContractCheck

/-- The command has no answer. -/
def Command.IsMute : Command → Prop
  | .checkSat | .sync | .exit => False
  | _ => True

/-- The command has no answer, and neither opens nor leaves a scope. -/
def Command.IsPlain : Command → Prop
  | .push | .pop | .checkSat | .sync | .exit => False
  | _ => True

/-- The number of open scopes after a command. -/
def Command.depthAfter (depth : Nat) : Command → Nat
  | .push => depth + 1
  | .pop => depth - 1
  | _ => depth

theorem Command.IsPlain.depthAfter {c : Command} (h : c.IsPlain) (depth : Nat) :
    Command.depthAfter depth c = depth := by
  cases c <;> first | rfl | exact h.elim

theorem Command.IsPlain.isMute {c : Command} (h : c.IsPlain) : c.IsMute := by
  cases c <;> first | exact trivial | exact h.elim

def Deed.command : Deed → Command
  | .write command => command
  | .push => .push
  | .pop => .pop

/-- Scopes are opened and left by the deeds that are there for it. -/
def Deed.IsProper : Deed → Prop
  | .write command => command.IsPlain
  | .push | .pop => True

namespace Dialogue

variable {α β σ : Type}

/-- The commands of the favourable course, and what it ends in. -/
def favourable : Dialogue α → List Command × α
  | .done a => ([], a)
  | .note _ next => next.favourable
  | .act deed next => (deed.command :: (next (.ok ())).favourable.1, (next (.ok ())).favourable.2)
  | .checkSat next =>
    (.checkSat :: (next (.ok "unsat")).favourable.1, (next (.ok "unsat")).favourable.2)

theorem bind_eq (d : Dialogue α) (f : α → Dialogue β) : d.bind f = d >>= f := rfl

theorem favourable_bind (d : Dialogue α) (f : α → Dialogue β) :
    (d >>= f).favourable =
      (d.favourable.1 ++ (f d.favourable.2).favourable.1, (f d.favourable.2).favourable.2) := by
  induction d with
  | done a => rfl
  | note text next ih => exact ih
  | act deed next ih =>
      have hnext := ih (.ok ())
      simp only [act_bind, favourable, hnext, List.cons_append]
  | checkSat next ih =>
      have hnext := ih (.ok "unsat")
      simp only [checkSat_bind, favourable, hnext, List.cons_append]

/-- Every course ends in failure. -/
def Doomed : Dialogue (Outcome α × σ) → Prop
  | .done r => ∀ a, r.1 ≠ .ok a
  | .note _ next => next.Doomed
  | .act _ next => ∀ outcome, (next outcome).Doomed
  | .checkSat next => ∀ outcome, (next outcome).Doomed

/-- Every course other than the favourable one ends in failure. -/
def Strict : Dialogue (Outcome α × σ) → Prop
  | .done _ => True
  | .note _ next => next.Strict
  | .act deed next =>
    deed.IsProper ∧ (next (.ok ())).Strict ∧ ∀ f, (next (.error f)).Doomed
  | .checkSat next => (next (.ok "unsat")).Strict ∧ ∀ o, o ≠ .ok "unsat" → (next o).Doomed

theorem Doomed.bind {d : Dialogue (Outcome α × σ)} (h : d.Doomed)
    {f : Outcome α × σ → Dialogue (Outcome β × σ)}
    (hf : ∀ r : Outcome α × σ, (∀ a, r.1 ≠ .ok a) → (f r).Doomed) : (d >>= f).Doomed := by
  induction d with
  | done r => exact hf r h
  | note text next ih => exact ih h
  | act deed next ih => exact fun outcome => ih outcome (h outcome)
  | checkSat next ih => exact fun outcome => ih outcome (h outcome)

theorem Strict.bind {d : Dialogue (Outcome α × σ)} (h : d.Strict)
    {f : Outcome α × σ → Dialogue (Outcome β × σ)} (hf : ∀ r, (f r).Strict)
    (hfail : ∀ r : Outcome α × σ, (∀ a, r.1 ≠ .ok a) → (f r).Doomed) : (d >>= f).Strict := by
  induction d with
  | done r => exact hf r
  | note text next ih => exact ih h
  | act deed next ih =>
      exact ⟨h.1, ih _ h.2.1, fun failure => (h.2.2 failure).bind hfail⟩
  | checkSat next ih =>
      exact ⟨ih _ h.1, fun outcome hne => (h.2 outcome hne).bind hfail⟩

end Dialogue

/-- The channel accepts the commands in turn, and answers each check at once with `unsat`. -/
inductive Converses {τ ω : Type} [Transport τ ω] : τ → ω → List Command → τ → ω → Prop where
  | nil (c : τ) (w : ω) : Converses c w [] c w
  | send {c c₁ c' : τ} {w w₁ w' : ω} {command : Command} {rest : List Command}
      (hmute : command.IsMute)
      (hsend : Transport.send command.line c w = (.ok (), c₁, w₁))
      (hrest : Converses c₁ w₁ rest c' w') : Converses c w (command :: rest) c' w'
  | check {c c₁ c₂ c' : τ} {w w₁ w₂ w' : ω} {rest : List Command}
      (hsend : Transport.send Command.checkSat.line c w = (.ok (), c₁, w₁))
      (hreceive : Transport.receive c₁ w₁ = (.ok "unsat", c₂, w₂))
      (hrest : Converses c₂ w₂ rest c' w') : Converses c w (.checkSat :: rest) c' w'

theorem Converses.append {τ ω : Type} [Transport τ ω] {c c₁ c₂ : τ} {w w₁ w₂ : ω}
    {first second : List Command} (h : Converses c w first c₁ w₁)
    (h' : Converses c₁ w₁ second c₂ w₂) : Converses c w (first ++ second) c₂ w₂ := by
  induction h with
  | nil => exact h'
  | send hmute hsend _ ih => exact .send hmute hsend (ih h')
  | check hsend hreceive _ ih => exact .check hsend hreceive (ih h')

namespace Session

variable {τ ω α σ : Type} [Transport τ ω]

/-- The second session comes from the first by sending the commands, each of which is accepted. -/
structure Sends (s : Session τ ω) (commands : List Command) (s' : Session τ ω) : Prop where
  converses : ∃ c c', s.channel = some c ∧ s'.channel = some c' ∧
    Converses c s.world commands c' s'.world
  transcript : s'.transcript.toList = s.transcript.toList ++ commands.map Command.line
  depth : s'.depth = commands.foldl Command.depthAfter s.depth

theorem Sends.append {s s₁ s₂ : Session τ ω} {first second : List Command}
    (h : s.Sends first s₁) (h' : s₁.Sends second s₂) : s.Sends (first ++ second) s₂ := by
  obtain ⟨c, c₁, hc, hc₁, hfirst⟩ := h.converses
  obtain ⟨c₁', c₂, hc₁', hc₂, hsecond⟩ := h'.converses
  obtain rfl : c₁ = c₁' := Option.some.inj (hc₁.symm.trans hc₁')
  refine ⟨⟨c, c₂, hc, hc₂, hfirst.append hsecond⟩, ?_, ?_⟩
  · rw [h'.transcript, h.transcript, List.map_append, List.append_assoc]
  · rw [h'.depth, h.depth, List.foldl_append]

theorem Sends.refl {s : Session τ ω} (hs : s.isStarted) : s.Sends [] s := by
  obtain ⟨c, hc⟩ := Option.isSome_iff_exists.1 hs
  exact ⟨⟨c, c, hc, hc, .nil c s.world⟩, by simp, rfl⟩

theorem Sends.isStarted {s s' : Session τ ω} {commands : List Command}
    (h : s.Sends commands s') : s'.isStarted := by
  obtain ⟨-, c', -, hc', -⟩ := h.converses
  simp [Session.isStarted, hc']

omit [Transport τ ω] in
theorem bind_apply {β : Type} (op : SessionM τ ω α) (f : α → SessionM τ ω β) (s : Session τ ω) :
    (op >>= f) s = match op s with
      | (.ok a, s₁) => f a s₁
      | (.error failure, s₁) => (.error failure, s₁) := by
  change (ExceptT.bind op f) s = _
  simp only [ExceptT.bind, ExceptT.mk, ExceptT.bindCont, bind, StateT.bind]
  rcases op s with ⟨_ | a, s₁⟩ <;> rfl

omit [Transport τ ω] in
/-- An action succeeds after another one if both do. -/
theorem bind_eq_ok_iff {β : Type} {op : SessionM τ ω α} {f : α → SessionM τ ω β}
    {s s' : Session τ ω} {b : β} :
    (op >>= f) s = (.ok b, s') ↔ ∃ a s₁, op s = (.ok a, s₁) ∧ f a s₁ = (.ok b, s') := by
  rw [bind_apply]
  rcases hop : op s with ⟨failure | a, s₁⟩
  · constructor
    · intro h
      cases h
    · rintro ⟨_, _, hop', -⟩
      cases hop'
  · refine ⟨fun h => ⟨a, s₁, rfl, h⟩, ?_⟩
    rintro ⟨_, _, hop', h⟩
    cases hop'
    exact h

theorem write_eq_ok {line : String} {s s' : Session τ ω} (h : write line s = (.ok (), s')) :
    ∃ c c', s.channel = some c ∧ Transport.send line c s.world = (.ok (), c', s'.world) ∧
      s' = { s.record .trace ("> " ++ line) with
        channel := some c', world := s'.world, transcript := s.transcript.push line } := by
  unfold write at h
  cases hc : s.channel with
  | none =>
      rw [hc] at h
      cases h
  | some c =>
      simp only [hc] at h
      rcases hsend : Transport.send line c (s.record .trace ("> " ++ line)).world with
        ⟨failure | u, c', w'⟩
      · rw [hsend] at h
        cases h
      · rw [hsend] at h
        obtain ⟨-, rfl⟩ := Prod.mk.inj h
        exact ⟨c, c', rfl, hsend, rfl⟩

theorem read_eq_ok {line : String} {s s' : Session τ ω} (h : read s = (.ok line, s')) :
    ∃ c c', s.channel = some c ∧ Transport.receive c s.world = (.ok line, c', s'.world) ∧
      isErrorLine line = false ∧
      s' = { s with channel := some c', world := s'.world }.record .trace ("< " ++ line) := by
  unfold read at h
  cases hc : s.channel with
  | none =>
      rw [hc] at h
      cases h
  | some c =>
      simp only [hc] at h
      rcases hreceive : Transport.receive c s.world with ⟨failure | text, c', w'⟩
      · rw [hreceive] at h
        cases h
      · simp only [hreceive] at h
        by_cases herr : isErrorLine text = true
        · rw [if_pos herr] at h
          cases h
        · rw [if_neg herr] at h
          obtain ⟨hline, rfl⟩ := Prod.mk.inj h
          cases hline
          exact ⟨c, c', rfl, hreceive, by simpa using herr, rfl⟩

theorem sends_of_write {command : Command} {s s' : Session τ ω} (hplain : command.IsPlain)
    (h : write command.line s = (.ok (), s')) : s.Sends [command] s' := by
  obtain ⟨c, c', hc, hsend, hs'⟩ := write_eq_ok h
  have hconverses := Converses.send hplain.isMute hsend (.nil c' s'.world)
  rw [hs']
  exact ⟨⟨c, c', hc, rfl, hconverses⟩, by simp, (hplain.depthAfter s.depth).symm⟩

theorem sends_of_push {s s' : Session τ ω} (h : push s = (.ok (), s')) : s.Sends [.push] s' := by
  obtain ⟨u, s₁, hwrite, hmodify⟩ := bind_eq_ok_iff.1 h
  cases hmodify
  obtain ⟨c, c', hc, hsend, hs₁⟩ := write_eq_ok hwrite
  have hconverses : Converses c s.world [.push] c' s₁.world :=
    .send trivial hsend (.nil c' s₁.world)
  rw [hs₁]
  exact ⟨⟨c, c', hc, rfl, hconverses⟩, by simp, rfl⟩

theorem sends_of_pop {s s' : Session τ ω} (h : pop s = (.ok (), s')) : s.Sends [.pop] s' := by
  obtain ⟨u, s₁, hmodify, hwrite⟩ := bind_eq_ok_iff.1 h
  cases hmodify
  obtain ⟨c, c', hc, hsend, hs'⟩ := write_eq_ok hwrite
  have hconverses : Converses c s.world [.pop] c' s'.world :=
    .send trivial hsend (.nil c' s'.world)
  rw [hs']
  exact ⟨⟨c, c', hc, rfl, hconverses⟩, by simp [leaveScope], rfl⟩

theorem sends_of_checkSat {s s' : Session τ ω} (h : checkSat s = (.ok "unsat", s')) :
    s.Sends [.checkSat] s' := by
  obtain ⟨u, s₁, hwrite, hread⟩ := bind_eq_ok_iff.1 h
  obtain ⟨c, c₁, hc, hsend, hs₁⟩ := write_eq_ok hwrite
  obtain ⟨c₁', c', hc₁', hreceive, -, hs'⟩ := read_eq_ok hread
  obtain rfl : c₁ = c₁' := by
    rw [hs₁] at hc₁'
    exact Option.some.inj hc₁'
  have hconverses := Converses.check hsend hreceive (.nil c' s'.world)
  rw [hs', hs₁]
  exact ⟨⟨c, c', hc, rfl, hconverses⟩, by simp [record], rfl⟩

theorem sends_of_perform {deed : Deed} {s s' : Session τ ω} (hproper : deed.IsProper)
    (h : perform deed s = (.ok (), s')) : s.Sends [deed.command] s' := by
  cases deed with
  | write command => exact sends_of_write hproper h
  | push => exact sends_of_push h
  | pop => exact sends_of_pop h

theorem hold_of_doomed {d : Dialogue (Outcome α × σ)} (hd : d.Doomed) (s : Session τ ω) (a : α) :
    (hold d s).1.1 ≠ .ok a := by
  induction d generalizing s with
  | done r => exact hd a
  | note text next ih => exact ih hd _
  | act deed next ih => exact ih _ (hd _) _
  | checkSat next ih => exact ih _ (hd _) _

/-- A strict dialogue that succeeded took its favourable course. -/
theorem hold_of_strict {d : Dialogue (Outcome α × σ)} (hd : d.Strict) {s s' : Session τ ω}
    (hs : s.isStarted) {a : α} {r : σ} (h : hold d s = ((.ok a, r), s')) :
    d.favourable.2 = (.ok a, r) ∧ s.Sends d.favourable.1 s' := by
  induction d generalizing s with
  | done result =>
      obtain ⟨rfl, rfl⟩ := Prod.mk.inj h
      exact ⟨rfl, .refl hs⟩
  | note text next ih =>
      obtain ⟨hresult, hsend⟩ := ih hd (s := s.record .debug text) hs h
      exact ⟨hresult, hsend.converses, hsend.transcript, hsend.depth⟩
  | act deed next ih =>
      obtain ⟨hproper, hnext, hfail⟩ := hd
      simp only [hold] at h
      rcases hdeed : perform deed s with ⟨failure | u, s₁⟩
      · rw [hdeed] at h
        exact absurd (congrArg (·.1.1) h) (hold_of_doomed (hfail failure) s₁ a)
      · rw [hdeed] at h
        have hsend := sends_of_perform hproper hdeed
        obtain ⟨hresult, hrest⟩ := ih _ hnext hsend.isStarted h
        exact ⟨hresult, hsend.append hrest⟩
  | checkSat next ih =>
      obtain ⟨hnext, hfail⟩ := hd
      simp only [hold] at h
      rcases hcheck : checkSat s with ⟨outcome, s₁⟩
      rw [hcheck] at h
      by_cases hunsat : outcome = .ok "unsat"
      · subst hunsat
        have hsend := sends_of_checkSat hcheck
        obtain ⟨hresult, hrest⟩ := ih _ hnext hsend.isStarted h
        exact ⟨hresult, hsend.append hrest⟩
      · exact absurd (congrArg (·.1.1) h) (hold_of_doomed (hfail _ hunsat) s₁ a)

end Session

end ContractCheck
