import Remap.Rule.Basic
import Remap.Version

/-!
# The history of rules

Every construct that rules may use came in with some version of the schema. Some are deprecated or
gone since, and some mean something else.
-/

namespace Remap.Compatibility

/-- A class of constructs. -/
inductive Category where
  | nodeKind
  | mergePolicy
  | conditionOp
  | transform
deriving DecidableEq, Repr

/-- The name of a class in messages. -/
def Category.label : Category → String
  | nodeKind => "node kind"
  | mergePolicy => "merge policy"
  | conditionOp => "condition operator"
  | transform => "transform"

/-- A construct that rules may use. -/
structure Construct where
  category : Category
  name : String
deriving DecidableEq, Repr

def Construct.text (c : Construct) : String := c.category.label ++ " '" ++ c.name ++ "'"

/-- The history of a construct. -/
structure Feature where
  construct : Construct
  introduced : Version
  deprecated : Option Version
  removed : Option Version
  /-- The version in which a construct came to mean something else, and what. -/
  changed : Option (Version × String)

namespace Feature

def since (category : Category) (name : String) (version : Version) : Feature :=
  ⟨⟨category, name⟩, version, none, none, none⟩

def deprecatedIn (f : Feature) (version : Version) : Feature := { f with deprecated := version }

def removedIn (f : Feature) (version : Version) : Feature := { f with removed := version }

/-- A feature that means something else in a version. -/
def changedIn (f : Feature) (version : Version) (what : String) : Feature :=
  { f with changed := (version, what) }

/-- The version 1.0. -/
def v1_0 : Version := ⟨1, 0⟩

/-- The version 1.1. -/
def v1_1 : Version := ⟨1, 1⟩

/-- The version 1.2. -/
def v1_2 : Version := ⟨1, 2⟩

def all : List Feature :=
  [since .nodeKind "field" v1_0,
    since .nodeKind "condition" v1_0,
    since .nodeKind "merge" v1_0,
    since .nodeKind "sequence" v1_0,
    since .nodeKind "split" v1_1,
    since .nodeKind "fragment" v1_1,
    since .mergePolicy "lastWins" v1_0,
    (since .mergePolicy "firstWins" v1_0).deprecatedIn v1_2,
    since .mergePolicy "error" v1_1,
    since .mergePolicy "appendArray" v1_2,
    since .conditionOp "equals" v1_0,
    since .conditionOp "exists" v1_0,
    since .conditionOp "and" v1_0,
    since .conditionOp "or" v1_0,
    since .conditionOp "not" v1_0,
    since .conditionOp "matches" v1_1,
    since .conditionOp "literal" v1_1,
    since .conditionOp "greaterThan" v1_2,
    since .conditionOp "lessThan" v1_2,
    since .transform "trim" v1_0,
    since .transform "uppercase" v1_0,
    since .transform "lowercase" v1_0,
    since .transform "toNumber" v1_0,
    (since .transform "toString" v1_0).changedIn v1_1 "numbers render in shortest round-trip form",
    since .transform "default" v1_0,
    ((since .transform "capitalize" v1_0).deprecatedIn v1_1).removedIn v1_2,
    since .transform "toBool" v1_1,
    (since .transform "round" v1_1).changedIn v1_2
      "halves round away from zero on the written decimal digits",
    since .transform "template" v1_1,
    since .transform "dateFormat" v1_2,
    since .transform "split" v1_2,
    since .transform "join" v1_2,
    since .transform "replace" v1_2]

def of? (c : Construct) : Option Feature := all.find? fun f => f.construct = c

end Feature

end Remap.Compatibility
