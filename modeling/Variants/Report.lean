import Variants.Tuple
import Variants.Value

/-!
# Reports

Conditions, dimensions, tuples and products as values, which is how they are
written in either format.  Registers are written with their letter.
-/

namespace Variants

/-! ## Dimensions -/

def Condition.toValue (condition : Condition) : Value :=
  .object [
    ("dimension", .string condition.dimension),
    ("register", .string condition.register.text),
    ("domains", .object (condition.domains.entries.map fun (domain, values) =>
      (domain, .ofStrings values)))]

namespace Dimension

def Offer.toValue (offer : Offer) : Value :=
  .object [
    ("values", .ofStrings offer.values),
    ("conditions", .array (offer.conditions.map Condition.toValue))]

def info (d : Dimension) : Value :=
  .object (d.offers.entries.map fun (register, domains) =>
    (register.text, .object (domains.entries.map fun (domain, offers) =>
      (domain, .array (offers.map Offer.toValue)))))

end Dimension

/-! ## Products -/

def Fragment.toValue (fragment : Fragment) : Value :=
  .object (fragment.entries.map fun (register, selection) =>
    (register.text,
      .object [("domain", .string selection.domain), ("value", .string selection.value)]))

def Tuple.toValue (tuple : Tuple) : Value :=
  .object (tuple.entries.map fun (name, fragment) => (name, Fragment.toValue fragment))

structure Product where
  variant : Tuple
  tree : Value

def Product.toValue (product : Product) : Value :=
  .object [("variant", Tuple.toValue product.variant), ("tree", product.tree)]

def report (products : List Product) : Value := .array (products.map Product.toValue)

end Variants
