import Remap.Digest.Sha256
import Remap.Plan.Compile

/-!
# Plan caches

A cache keeps plans by the digest of their rules. Libraries are no part of the key, so a cache is
for one source. Only rules that compile are kept. Clients may take the steps of a request, looking
up, compiling and keeping, in turns.
-/

namespace Remap

/-- Plans by the digest of their rules. -/
structure Cache where
  plans : Entries Plan

namespace Cache

def empty : Cache := ⟨[]⟩

def key (text : String) : String := Digest.Sha256.ofText text

def get? (c : Cache) (digest : String) : Option Plan := c.plans.get? digest

def keep (c : Cache) (text : String) (plan : Plan) : Cache := ⟨c.plans.put (key text) plan⟩

def size (c : Cache) : Nat := c.plans.length

/-- The plan of a text, kept or compiled, and the cache after that. -/
def compile (c : Cache) (source : Fragment.Source) (text : String) :
    Except (List Diagnostic) Plan × Cache :=
  match c.get? (key text) with
  | some plan => (.ok plan, c)
  | none =>
    match Plan.compileText source text with
    | .ok plan => (.ok plan, c.keep text plan)
    | .error errors => (.error errors, c)

end Cache

end Remap
