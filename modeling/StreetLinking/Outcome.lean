import StreetLinking.Fault
/-!
# Outcomes

An operation on a state answers or fails, and a failing one may leave a changed state behind. So an
outcome is a pair, and a chain of operations stops at the first fault with the state that it found.
-/
namespace StreetLinking

/-- What an operation on a state answers, and the state that it leaves behind, even if it fails. -/
structure Outcome (σ β : Type) where
  answer : Except Fault β
  state : σ

namespace Outcome

variable {σ β γ : Type}

def ok (value : β) (state : σ) : Outcome σ β := ⟨.ok value, state⟩

def fail (fault : Fault) (state : σ) : Outcome σ β := ⟨.error fault, state⟩

def andThen (first : Outcome σ β) (next : β → σ → Outcome σ γ) : Outcome σ γ :=
  match first with
  | ⟨.ok value, state⟩ => next value state
  | ⟨.error fault, state⟩ => ⟨.error fault, state⟩

@[simp] theorem andThen_ok (value : β) (state : σ) (next : β → σ → Outcome σ γ) :
    (ok value state).andThen next = next value state := rfl

@[simp] theorem andThen_fail (fault : Fault) (state : σ) (next : β → σ → Outcome σ γ) :
    (fail fault state : Outcome σ β).andThen next = fail fault state := rfl

theorem andThen_ok_state (first : Outcome σ β) (value : γ) :
    (first.andThen fun _ state => ok value state).state = first.state := by
  rcases first with ⟨_ | _, state⟩ <;> rfl

theorem andThen_answer_eq_ok_iff {first : Outcome σ β} {next : β → σ → Outcome σ γ} {value : γ} :
    (first.andThen next).answer = .ok value ↔
      ∃ middle, first.answer = .ok middle ∧ (next middle first.state).answer = .ok value := by
  rcases first with ⟨_ | middle, state⟩ <;> simp [andThen]

theorem andThen_answer_eq_error_iff {first : Outcome σ β} {next : β → σ → Outcome σ γ}
    {fault : Fault} :
    (first.andThen next).answer = .error fault ↔
      first.answer = .error fault ∨
        ∃ middle, first.answer = .ok middle ∧ (next middle first.state).answer = .error fault := by
  rcases first with ⟨_ | middle, state⟩ <;> simp [andThen]

end Outcome

end StreetLinking
