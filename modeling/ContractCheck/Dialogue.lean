import ContractCheck.Session

/-!
Dialogues with a solver, as trees: what is done next, and how it goes on for each outcome. A
dialogue is independent of the solver, so what holds of it holds of every solver; `Session.hold`
carries it out in a session.
-/

namespace ContractCheck

/-- What a dialogue does that has no answer. -/
inductive Deed where
  | write (command : Command)
  | push
  | pop

inductive Dialogue (α : Type) where
  | done (result : α)
  /-- Leaves a note in the log. -/
  | note (text : String) (next : Dialogue α)
  | act (deed : Deed) (next : Outcome Unit → Dialogue α)
  | checkSat (next : Outcome String → Dialogue α)

namespace Dialogue

variable {α β γ : Type}

def bind : Dialogue α → (α → Dialogue β) → Dialogue β
  | .done a, f => f a
  | .note text next, f => .note text (next.bind f)
  | .act deed next, f => .act deed fun outcome => (next outcome).bind f
  | .checkSat next, f => .checkSat fun outcome => (next outcome).bind f

theorem bind_done (d : Dialogue α) : d.bind .done = d := by
  induction d with
  | done => rfl
  | note text next ih => rw [bind, ih]
  | act deed next ih => simp only [bind, ih]
  | checkSat next ih => simp only [bind, ih]

theorem bind_assoc (d : Dialogue α) (f : α → Dialogue β) (g : β → Dialogue γ) :
    (d.bind f).bind g = d.bind fun a => (f a).bind g := by
  induction d with
  | done => rfl
  | note text next ih => simp only [bind, ih]
  | act deed next ih => simp only [bind, ih]
  | checkSat next ih => simp only [bind, ih]

instance : Monad Dialogue where
  pure := .done
  bind := bind

instance : LawfulMonad Dialogue := LawfulMonad.mk' _ bind_done (fun _ _ => rfl) bind_assoc

@[simp] theorem pure_eq_done (a : α) : (pure a : Dialogue α) = .done a := rfl

@[simp] theorem done_bind (a : α) (f : α → Dialogue β) : Dialogue.done a >>= f = f a := rfl

@[simp] theorem note_bind (text : String) (next : Dialogue α) (f : α → Dialogue β) :
    Dialogue.note text next >>= f = .note text (next >>= f) := rfl

@[simp] theorem act_bind (deed : Deed) (next : Outcome Unit → Dialogue α) (f : α → Dialogue β) :
    Dialogue.act deed next >>= f = .act deed fun outcome => next outcome >>= f := rfl

@[simp] theorem checkSat_bind (next : Outcome String → Dialogue α) (f : α → Dialogue β) :
    Dialogue.checkSat next >>= f = .checkSat fun outcome => next outcome >>= f := rfl

end Dialogue

namespace Session

variable {τ ω α β : Type} [Transport τ ω]

def perform : Deed → SessionM τ ω Unit
  | .write command => write command.line
  | .push => push
  | .pop => pop

/-- Carries a dialogue out. -/
def hold : Dialogue α → Session τ ω → α × Session τ ω
  | .done a, s => (a, s)
  | .note text next, s => hold next (s.record .debug text)
  | .act deed next, s =>
    match perform deed s with
    | (outcome, s) => hold (next outcome) s
  | .checkSat next, s =>
    match checkSat s with
    | (outcome, s) => hold (next outcome) s

theorem hold_bind (d : Dialogue α) (f : α → Dialogue β) (s : Session τ ω) :
    hold (d >>= f) s = hold (f (hold d s).1) (hold d s).2 := by
  induction d generalizing s with
  | done => rfl
  | note text next ih => exact ih _
  | act deed next ih => exact ih _ _
  | checkSat next ih => exact ih _ _

end Session

end ContractCheck
