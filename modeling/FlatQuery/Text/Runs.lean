set_option autoImplicit false

/-! # Sets of code points as runs

A set of code points is written as an ascending list of boundaries `[a₀, b₀, a₁, b₁, …]`: it holds
the code points `n` with `aᵢ ≤ n < bᵢ` for some `i`. -/

namespace FlatQuery.Text

/-- Whether `n` lies in one of the runs `[a₀, b₀, a₁, b₁, …]`. -/
def inRuns : List Nat → Nat → Bool
  | a :: b :: rest, n => (a ≤ n && n < b) || inRuns rest n
  | _, _ => false

theorem inRuns_cons_cons (a b n : Nat) (rest : List Nat) :
    inRuns (a :: b :: rest) n = ((a ≤ n && n < b) || inRuns rest n) := rfl

end FlatQuery.Text
