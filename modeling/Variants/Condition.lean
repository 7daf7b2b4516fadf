import Variants.NestedSet
import Variants.Register

/-!
# Conditions

A condition asks what is selected in one register of one dimension: a value of
one of its domains.  As a predicate on a context it is a nested set with the
levels dimension, register and domain.
-/

namespace Variants

structure Condition where
  dimension : String
  register : Register
  domains : Domains
  deriving DecidableEq

namespace Condition

def same (a b : Condition) : Bool :=
  a.dimension == b.dimension && a.register == b.register && a.domains.sameEntries b.domains

def toSet (condition : Condition) : List (String × NestedSet) :=
  [(condition.dimension, .map [(condition.register.text, condition.domains.toSet)])]

def holdsIn (mode : Containment) (context : List (String × NestedSet))
    (condition : Condition) : Bool :=
  NestedSet.contains mode condition.toSet context

def merge (conditions more : List Condition) : List Condition :=
  more.foldl
    (fun merged condition =>
      if merged.any condition.same then merged else merged ++ [condition])
    conditions

end Condition

/-! ## Condition lists -/

def allHold (mode : Containment) (context : List (String × NestedSet))
    (conditions : List Condition) : Bool :=
  conditions.all (Condition.holdsIn mode context)

end Variants
