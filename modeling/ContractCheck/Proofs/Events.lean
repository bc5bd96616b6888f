import ContractCheck.Proofs.Favourable
import ContractCheck.Run

/-!
What happens while a dialogue is carried out, event by event (`Session.events`). The events are a
course of the dialogue, one of the ways in which it can go whatever the solver does
(`Session.course_events`). If a strict dialogue succeeds, every command was accepted and every check
was answered `unsat`, in any session (`Session.events_of_strict`); one that was not started has then
been asked for nothing.
-/

namespace ContractCheck

/-- A deed and its outcome, or what was read for a check. -/
inductive Event where
  | did (deed : Deed) (outcome : Outcome Unit)
  | answered (outcome : Outcome String)

/-- The solver goes along with a command. -/
def Event.favourable : Command → Event
  | .checkSat => .answered (.ok "unsat")
  | .push => .did .push (.ok ())
  | .pop => .did .pop (.ok ())
  | command => .did (.write command) (.ok ())

theorem Event.favourable_command {deed : Deed} (h : deed.IsProper) :
    favourable deed.command = .did deed (.ok ()) := by
  cases deed with
  | write command => cases command <;> first | rfl | exact h.elim
  | push => rfl
  | pop => rfl

namespace Dialogue

variable {α β : Type}

/-- The dialogue can go through these events and end in this result. -/
inductive Course : Dialogue α → List Event → α → Prop where
  | done (a : α) : Course (.done a) [] a
  | note (text : String) {next : Dialogue α} {events : List Event} {a : α}
      (h : Course next events a) : Course (.note text next) events a
  | act (deed : Deed) (outcome : Outcome Unit) {next : Outcome Unit → Dialogue α}
      {events : List Event} {a : α} (h : Course (next outcome) events a) :
      Course (.act deed next) (.did deed outcome :: events) a
  | checkSat (outcome : Outcome String) {next : Outcome String → Dialogue α}
      {events : List Event} {a : α} (h : Course (next outcome) events a) :
      Course (.checkSat next) (.answered outcome :: events) a

/-- A course of two dialogues in a row is a course of the first and then one of the second. -/
theorem course_bind_iff {d : Dialogue α} {f : α → Dialogue β} {events : List Event} {b : β} :
    Course (d.bind f) events b ↔ ∃ first a second,
      Course d first a ∧ Course (f a) second b ∧ events = first ++ second := by
  constructor
  · intro h
    induction d generalizing events with
    | done a => exact ⟨[], a, events, .done a, h, rfl⟩
    | note text next ih =>
        cases h with
        | note _ h =>
            obtain ⟨first, a, second, hfirst, hsecond, rfl⟩ := ih h
            exact ⟨first, a, second, .note text hfirst, hsecond, rfl⟩
    | act deed next ih =>
        cases h with
        | act _ outcome h =>
            obtain ⟨first, a, second, hfirst, hsecond, rfl⟩ := ih outcome h
            exact ⟨_, a, second, .act deed outcome hfirst, hsecond, rfl⟩
    | checkSat next ih =>
        cases h with
        | checkSat outcome h =>
            obtain ⟨first, a, second, hfirst, hsecond, rfl⟩ := ih outcome h
            exact ⟨_, a, second, .checkSat outcome hfirst, hsecond, rfl⟩
  · rintro ⟨first, a, second, hfirst, hsecond, rfl⟩
    induction hfirst with
    | done => exact hsecond
    | note text _ ih => exact .note text (ih hsecond)
    | act deed outcome _ ih => exact .act deed outcome (ih hsecond)
    | checkSat outcome _ ih => exact .checkSat outcome (ih hsecond)

variable {σ : Type}

theorem Doomed.of_course {d : Dialogue (Outcome α × σ)} (hd : d.Doomed) {events : List Event}
    {r : Outcome α × σ} (h : d.Course events r) (a : α) : r.1 ≠ .ok a := by
  induction h with
  | done r => exact hd a
  | note text _ ih => exact ih hd
  | act deed outcome _ ih => exact ih (hd outcome)
  | checkSat outcome _ ih => exact ih (hd outcome)

/-- The one course of a strict dialogue that ends in success is the favourable one. -/
theorem Strict.of_course {d : Dialogue (Outcome α × σ)} (hd : d.Strict) {events : List Event}
    {a : α} {r : σ} (h : d.Course events (.ok a, r)) :
    d.favourable.2 = (.ok a, r) ∧ events = d.favourable.1.map Event.favourable := by
  generalize hresult : (Except.ok a, r) = result at h
  induction h with
  | done result => exact ⟨rfl, rfl⟩
  | note text _ ih => exact ih hd hresult
  | @act deed outcome next events result h ih =>
      obtain ⟨hproper, hnext, hfail⟩ := hd
      cases outcome with
      | error failure => exact absurd (congrArg (·.1) hresult.symm) ((hfail failure).of_course h a)
      | ok u =>
          obtain ⟨hend, hevents⟩ := ih hnext hresult
          refine ⟨hend, ?_⟩
          rw [hevents, favourable, List.map_cons, Event.favourable_command hproper]
  | @checkSat outcome next events result h ih =>
      obtain ⟨hnext, hfail⟩ := hd
      by_cases hunsat : outcome = .ok "unsat"
      · subst hunsat
        obtain ⟨hend, hevents⟩ := ih hnext hresult
        refine ⟨hend, ?_⟩
        rw [hevents, favourable, List.map_cons, Event.favourable]
      · exact absurd (congrArg (·.1) hresult.symm) ((hfail outcome hunsat).of_course h a)

end Dialogue

namespace Session

variable {τ ω α σ : Type} [Transport τ ω]

/-- What happens while the dialogue is carried out. -/
def events : Dialogue α → Session τ ω → List Event
  | .done _, _ => []
  | .note text next, s => events next (s.record .debug text)
  | .act deed next, s =>
    match perform deed s with
    | (outcome, s) => .did deed outcome :: events (next outcome) s
  | .checkSat next, s =>
    match checkSat s with
    | (outcome, s) => .answered outcome :: events (next outcome) s

/-- What happens is a course of the dialogue. -/
theorem course_events (d : Dialogue α) (s : Session τ ω) :
    d.Course (events d s) (hold d s).1 := by
  induction d generalizing s with
  | done a => exact .done a
  | note text next ih => exact .note text (ih _)
  | act deed next ih => exact .act deed _ (ih _ _)
  | checkSat next ih => exact .checkSat _ (ih _ _)

/-- A strict dialogue that succeeded went through its favourable course. -/
theorem events_of_strict {d : Dialogue (Outcome α × σ)} (hd : d.Strict) {s s' : Session τ ω}
    {a : α} {r : σ} (h : hold d s = ((.ok a, r), s')) :
    d.favourable.2 = (.ok a, r) ∧ events d s = d.favourable.1.map Event.favourable := by
  have hcourse := course_events d s
  rw [h] at hcourse
  exact hd.of_course hcourse

/-! ### Sessions that were not started -/

theorem write_of_unstarted {s : Session τ ω} (hs : s.channel = none) (line : String) :
    ∃ failure, write line s = (.error failure, s) := by
  unfold write
  rw [hs]
  exact ⟨_, rfl⟩

theorem perform_of_unstarted {s : Session τ ω} (hs : s.channel = none) (deed : Deed) :
    ∃ failure s', perform deed s = (.error failure, s') := by
  cases deed with
  | write command =>
      obtain ⟨failure, h⟩ := write_of_unstarted hs command.line
      exact ⟨failure, s, h⟩
  | push =>
      obtain ⟨failure, h⟩ := write_of_unstarted hs Command.push.line
      refine ⟨failure, s, ?_⟩
      rw [perform, push, bind_apply, h]
  | pop =>
      obtain ⟨failure, h⟩ := write_of_unstarted (s := s.leaveScope) hs Command.pop.line
      exact ⟨failure, s.leaveScope, h⟩

theorem checkSat_of_unstarted {s : Session τ ω} (hs : s.channel = none) :
    ∃ failure, checkSat s = (.error failure, s) := by
  obtain ⟨failure, h⟩ := write_of_unstarted hs Command.checkSat.line
  refine ⟨failure, ?_⟩
  rw [checkSat, bind_apply, h]

/-- A strict dialogue that succeeds before the start asks for nothing. -/
theorem favourable_of_unstarted {d : Dialogue (Outcome α × σ)} (hd : d.Strict)
    {s s' : Session τ ω} (hs : s.channel = none) {a : α} {r : σ}
    (h : hold d s = ((.ok a, r), s')) : d.favourable = ([], .ok a, r) := by
  induction d generalizing s with
  | done result =>
      obtain ⟨rfl, -⟩ := Prod.mk.inj h
      rfl
  | note text next ih => exact ih hd (s := s.record .debug text) hs h
  | act deed next ih =>
      obtain ⟨failure, s₁, hdeed⟩ := perform_of_unstarted hs deed
      simp only [hold, hdeed] at h
      exact absurd (congrArg (·.1.1) h) (hold_of_doomed (hd.2.2 failure) s₁ a)
  | checkSat next ih =>
      obtain ⟨failure, hcheck⟩ := checkSat_of_unstarted hs
      simp only [hold, hcheck] at h
      have hrefused : (Except.error failure : Outcome String) ≠ .ok "unsat" := by
        intro hok
        cases hok
      exact absurd (congrArg (·.1.1) h) (hold_of_doomed (hd.2 (.error failure) hrefused) s a)

/-- A strict dialogue that succeeded without a line accepted asks for nothing. -/
theorem favourable_of_unsent {d : Dialogue (Outcome α × σ)} (hd : d.Strict) {s s' : Session τ ω}
    {a : α} {r : σ} (h : hold d s = ((.ok a, r), s')) (hunsent : s'.transcript = s.transcript) :
    d.favourable = ([], .ok a, r) := by
  cases hs : s.channel with
  | none => exact favourable_of_unstarted hd hs h
  | some channel =>
      have hstarted : s.isStarted = true := by rw [isStarted, hs, Option.isSome_some]
      obtain ⟨hresult, hsends⟩ := hold_of_strict hd hstarted h
      have hlines := hsends.transcript
      rw [hunsent, List.self_eq_append_right, List.map_eq_nil_iff] at hlines
      exact Prod.ext hlines hresult

end Session

/-- To carry out a part of a walk is to hold its dialogue. -/
theorem Checker.hold_of_perform {τ ω α : Type} [Transport τ ω] {part : CheckM α}
    {c c' : Checker τ ω} {outcome : Outcome α} (h : c.perform part = (outcome, c')) :
    c.session.hold (part c.progress) = ((outcome, c'.progress), c'.session) := by
  simp only [perform, Prod.mk.injEq] at h
  obtain ⟨rfl, rfl⟩ := h
  rfl

end ContractCheck
