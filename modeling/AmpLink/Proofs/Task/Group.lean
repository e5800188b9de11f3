import AmpLink.Proofs.Task.Tokens
import AmpLink.Task.Group

/-!
# The end of a task of a group
-/

namespace AmpLink.TaskGroup

variable {g : TaskGroup}

theorem finish_ok (h : task ∈ g.unfinished) (tokens : TokenForest) :
    g.finish tokens task (.ok ()) = ({ g with unfinished := g.unfinished.erase task }, tokens) := by
  simp [finish, h]

theorem tokens_finish_ok (g : TaskGroup) (tokens : TokenForest) (task : Nat) :
    (g.finish tokens task (.ok ())).2 = tokens := by
  rw [finish]
  split <;> rfl

theorem finish_error (h : task ∈ g.unfinished) (hf : g.firstError = none) (tokens : TokenForest)
    (e : RunError) : g.finish tokens task (.error e) =
      ({ g with unfinished := g.unfinished.erase task, firstError := some e },
        tokens.cancel g.token) := by
  simp [finish, h, hf]

/-- The end of a task leaves the token of the group and cancels it at most. -/
theorem token_finish (g : TaskGroup) (tokens : TokenForest) (task : Nat) (o : Outcome) :
    (g.finish tokens task o).1.token = g.token ∧
      ((g.finish tokens task o).2 = tokens ∨ (g.finish tokens task o).2 = tokens.cancel g.token) := by
  rw [finish]
  split
  · split
    · exact ⟨rfl, .inr rfl⟩
    · exact ⟨rfl, .inl rfl⟩
  · exact ⟨rfl, .inl rfl⟩

theorem cancelsWithin_finish (g : TaskGroup) (tokens : TokenForest) (task : Nat) (o : Outcome) :
    tokens.CancelsWithin g.token (g.finish tokens task o).2 := by
  rcases (g.token_finish tokens task o).2 with h | h
  · rw [h]
    exact .refl ..
  · rw [h]
    exact .cancel ..

theorem result?_of_mem (h : task ∈ g.unfinished) : g.result? = none := by
  cases hu : g.unfinished with
  | nil =>
    rw [hu] at h
    contradiction
  | cons k ks => simp [result?, hu]

theorem result?_eq_some : g.result? = some o ↔ g.unfinished = [] ∧
    ((g.firstError = none ∧ o = .ok ()) ∨ ∃ e, g.firstError = some e ∧ o = .error e) := by
  rw [result?]
  cases g.unfinished with
  | nil => cases g.firstError <;> simp [eq_comm]
  | cons k ks => simp

end AmpLink.TaskGroup
