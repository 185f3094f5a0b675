/-!
Contract: runs of operations that answer or fail, and what explains their answers.

Owns runs of a function that takes a state to an answer and a state, runs of a
relation between states, and the rule that a simulation of one step is a simulation
of every run: it does not fail, and the relation allows its answers.

Does not own any system: the function and the relation are arguments.
-/

set_option autoImplicit false

namespace Torchat.Foundation

variable {ε σ τ α ω : Type}

end Torchat.Foundation
