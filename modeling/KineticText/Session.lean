import KineticText.Fault

/-!
# Sessions

In a session calls are made one after another with one state.  Each call starts
from the state that the one before has left, with a result or without.

In the program these are calls of `compile_text` with one generator, or of `layout`
on one `LayoutEngine`.
-/

namespace KineticText

namespace Session

variable {ι σ α : Type} (call : ι → EStateM Failure σ α)

/-- The answer of a call, and the state behind it. -/
def answer (i : ι) (s : σ) : Except Failure α × σ :=
  match (call i).run s with
  | .ok a s => (.ok a, s)
  | .error f s => (.error f, s)

/-- The answers of calls in order, and the state behind the last one. -/
def answers : List ι → σ → List (Except Failure α) × σ
  | [], s => ([], s)
  | i :: rest, s =>
    let (first, s) := answer call i s
    let (others, s) := answers rest s
    (first :: others, s)

end Session

end KineticText
