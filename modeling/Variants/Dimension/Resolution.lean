import Variants.Dimension
import Variants.Text.Cut

/-!
# Resolving a name

A segment of an expression names a `domain.value`, a domain, or a value.  It is
resolved to the one domain it is about and the values it allows.
-/

namespace Variants.Dimension

/--
With a point, the domain before it has to offer the value after it.  Without
one, a domain of that name stands for all its values; failing that, the first
domain that offers the value is meant.
-/
def resolve? (d : Dimension) (register : Register) (name : List Char) : Option Domains :=
  match Text.splitOnce '.' name with
  | some (before, after) =>
      let domain := String.ofList before
      let value := String.ofList after
      if d.hasValue register domain value then some (.single domain [value]) else none
  | none =>
      let name := String.ofList name
      if d.hasDomain register name then some (.single name (d.values register name))
      else
        ((d.domains register).find? fun domain => d.hasValue register domain name).map
          fun domain => .single domain [name]

def resolve (d : Dimension) (register : Register) (name : List Char) : Except Error Domains :=
  if d.hasRegister register then
    match d.resolve? register name with
    | some domains => .ok domains
    | none => .error (.unresolved d.name register (String.ofList name))
  else .error (.unknownRegister d.name register)

end Variants.Dimension
