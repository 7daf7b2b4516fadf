import Variants.Dimension

/-!
# Filtering a dimension

Filters on a dimension keep the values they allow.  After that every condition
is narrowed to what its dimension still offers, and an item with a condition
that nothing satisfies any more is dropped.
-/

namespace Variants

def Item.restrict? (filter : Condition) (item : Item) : Option Item :=
  if item.register = filter.register then
    match (Domains.intersect (.single item.domain item.values) filter.domains).get? item.domain with
    | some values => some { item with values }
    | none => none
  else some item

def Condition.narrow? (available : OrderedMap String MergedValues) (condition : Condition) :
    Option Condition :=
  match (available.get? condition.dimension).bind (·.get? condition.register) with
  | none => none
  | some current =>
      let domains := Domains.intersect current condition.domains
      if domains.isEmpty then none else some { condition with domains }

def Item.narrow? (available : OrderedMap String MergedValues) (item : Item) : Option Item :=
  (item.conditions.mapM (Condition.narrow? available)).map fun conditions =>
    { item with conditions }

namespace Dimension

def restrict (d : Dimension) (filter : Condition) : Dimension :=
  if filter.dimension = d.name then
    { d with items := d.items.filterMap (Item.restrict? filter) }
  else d

def narrow (available : OrderedMap String MergedValues) (d : Dimension) : Dimension :=
  { d with items := d.items.filterMap (Item.narrow? available) }

/-- `available` holds what is left of each dimension that this one depends on. -/
def filter (filters : List Condition) (available : OrderedMap String MergedValues)
    (d : Dimension) : Dimension :=
  (filters.foldl restrict d).narrow available

end Dimension

end Variants
