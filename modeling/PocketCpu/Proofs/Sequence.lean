/-!
# Sequences that may fail

A sequence of two parts fails if its first part does, or else if what is
behind it does, and succeeds if both do.
-/

namespace PocketCpu

variable {Result Last Reason : Type}
variable {first : Except Reason Result} {next : Result → Except Reason Last}

/-- A sequence fails in its first part or behind it. -/
theorem bind_eq_error_iff
    {reason : Reason} :
    first >>= next = .error reason ↔
      first = .error reason ∨
        ∃ result, first = .ok result ∧ next result = .error reason := by
  cases first <;> simp [bind, Except.bind]

/-- A sequence succeeds if its first part and what is behind it do. -/
theorem bind_eq_ok_iff
    {last : Last} :
    first >>= next = .ok last ↔
      ∃ result, first = .ok result ∧ next result = .ok last := by
  cases first <;> simp [bind, Except.bind]

end PocketCpu
