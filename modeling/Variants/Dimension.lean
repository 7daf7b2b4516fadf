import Variants.Brackets
import Variants.Condition

/-!
# Dimensions

A dimension is a named axis of variation with items, each of which offers the
values of one domain in one register, possibly under conditions on other
dimensions.  This module holds the data and its views: registers, domains and
values in the order of their first appearance.
-/

namespace Variants

structure Item where
  register : Register
  domain : String
  values : List String
  conditions : List Condition
  deriving DecidableEq

structure Selection where
  domain : String
  value : String
  deriving DecidableEq, Repr, Inhabited

abbrev Fragment := OrderedMap Register Selection

abbrev MergedValues := OrderedMap Register Domains

structure Dimension where
  name : String
  brackets : Brackets
  items : List Item
  /-- The dimensions that conditions of declared items refer to. -/
  depends : List String
  deriving DecidableEq

namespace Dimension

def ofItems (name : String) (brackets : Brackets) (items : List Item) : Dimension where
  name := name
  brackets := brackets
  items := items
  depends := (items.flatMap fun item => item.conditions.map (·.dimension)).eraseDups

variable (d : Dimension)

/-! ## Views -/

def itemsOf (register : Register) : List Item :=
  d.items.filter (·.register == register)

def itemsAt (register : Register) (domain : String) : List Item :=
  (d.itemsOf register).filter (·.domain == domain)

def registers : List Register := (d.items.map (·.register)).eraseDups

def hasRegister (register : Register) : Bool := d.items.any (·.register == register)

def domains (register : Register) : List String :=
  ((d.itemsOf register).map (·.domain)).eraseDups

def hasDomain (register : Register) (domain : String) : Bool :=
  (d.itemsOf register).any (·.domain == domain)

def values (register : Register) (domain : String) : List String :=
  ((d.itemsAt register domain).flatMap (·.values)).eraseDups

def hasValue (register : Register) (domain value : String) : Bool :=
  (d.itemsAt register domain).any (·.values.contains value)

/-! ## Groupings in one pass -/

def mergeValues (values more : List String) : List String :=
  more.foldl (fun merged value => if merged.contains value then merged else merged ++ [value])
    values

def mergedValues : MergedValues :=
  d.items.foldl
    (fun merged item =>
      merged.alter item.register fun domains =>
        (domains.getD OrderedMap.empty).alter item.domain fun values =>
          mergeValues (values.getD []) item.values)
    OrderedMap.empty

structure Offer where
  values : List String
  conditions : List Condition
  deriving DecidableEq

def offers : OrderedMap Register (OrderedMap String (List Offer)) :=
  d.items.foldl
    (fun grouped item =>
      grouped.alter item.register fun domains =>
        (domains.getD OrderedMap.empty).alter item.domain fun offers =>
          offers.getD [] ++ [⟨item.values, item.conditions⟩])
    OrderedMap.empty

end Dimension

end Variants
