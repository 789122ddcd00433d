/-!
# Bounded iteration
-/

namespace Downlevel

/-- Runs a step until it is done, at most `n` times, and `stalled` after that. -/
def iterate {m : Type → Type} [Monad m] {σ : Type} (stalled : m σ)
    (step : σ → m (ForInStep σ)) : Nat → σ → m σ
  | 0, _ => stalled
  | n + 1, s => do
      match ← step s with
      | .done s' => return s'
      | .yield s' => iterate stalled step n s'

end Downlevel
