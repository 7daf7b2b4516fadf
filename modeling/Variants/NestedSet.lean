import Variants.OrderedMap

/-!
# Nested sets

The common shape of conditions, filters and selections: one name, a list of
names, or a map from names to nested sets.  A condition is a map from dimension
to register to domain with lists of values below; a selection has the same
levels with a single value below.

`contains` tests a selection against a predicate, `intersect` keeps what two
sets have in common.
-/

namespace Variants

inductive NestedSet where
  | scalar (member : String)
  | list (members : List String)
  | map (entries : List (String × NestedSet))
  deriving Inhabited

inductive Containment where
  /-- The first key that is decided decides for the whole map. -/
  | firstKey
  /-- Every key that is decided must match. -/
  | allKeys
  deriving DecidableEq, Repr, Inhabited

namespace NestedSet

def entries? : NestedSet → Option (List (String × NestedSet))
  | .map entries => some entries
  | _ => none

theorem sizeOf_lt_of_mem {entry : String × NestedSet} {entries : List (String × NestedSet)}
    (h : entry ∈ entries) : sizeOf entry.2 < sizeOf (NestedSet.map entries) := by
  have hlt := List.sizeOf_lt_of_mem h
  cases entry
  simp only [Prod.mk.sizeOf_spec, NestedSet.map.sizeOf_spec] at hlt ⊢
  omega

@[elab_as_elim, induction_eliminator]
theorem induction {motive : NestedSet → Prop} (scalar : ∀ member, motive (.scalar member))
    (list : ∀ members, motive (.list members))
    (map : ∀ entries, (∀ entry ∈ entries, motive entry.2) → motive (.map entries)) :
    ∀ set, motive set
  | .scalar member => scalar member
  | .list members => list members
  | .map entries => map entries fun entry _ => induction scalar list map entry.2
  termination_by set => sizeOf set
  decreasing_by exact sizeOf_lt_of_mem ‹entry ∈ entries›

mutual

def UniqueKeys : NestedSet → Prop
  | .map entries => (Entries.keys entries).Nodup ∧ UniqueKeysOfEntries entries
  | _ => True

def UniqueKeysOfEntries : List (String × NestedSet) → Prop
  | [] => True
  | (_, set) :: rest => UniqueKeys set ∧ UniqueKeysOfEntries rest

end

theorem uniqueKeysOfEntries_iff {entries : List (String × NestedSet)} :
    UniqueKeysOfEntries entries ↔ ∀ entry ∈ entries, UniqueKeys entry.2 := by
  induction entries with
  | nil => simp [UniqueKeysOfEntries]
  | cons entry rest ih => simp [UniqueKeysOfEntries, ih]

/-! ## Containment -/

mutual

/--
What one key of a predicate decides about its counterpart.  A scalar says
nothing about a container, every other difference of shape fails.
-/
def decide? (mode : Containment) : NestedSet → NestedSet → Option Bool
  | .map expected, .map actual => some (contains mode expected actual)
  | .map _, _ => some false
  | .list expected, .list actual => some (expected.any actual.contains)
  | .list expected, .scalar actual => some (expected.contains actual)
  | .list _, .map _ => some false
  | .scalar expected, .scalar actual => some (expected == actual)
  | .scalar _, _ => none

/-- The context satisfies the predicate.  A key that the context lacks fails at once. -/
def contains (mode : Containment) :
    List (String × NestedSet) → List (String × NestedSet) → Bool
  | [], _ => true
  | (key, expected) :: rest, context =>
      match Entries.get? key context with
      | none => false
      | some actual =>
          match decide? mode expected actual, mode with
          | none, _ => contains mode rest context
          | some matched, .firstKey => matched
          | some matched, .allKeys => matched && contains mode rest context

end

/-! ## Intersection -/

mutual

/-- What both sets have in common, in the order of the first; nothing in common is `none`. -/
def intersect : NestedSet → NestedSet → Option NestedSet
  | .map left, .map right =>
      match intersectEntries left right with
      | [] => none
      | entry :: rest => some (.map (entry :: rest))
  | .list left, .list right =>
      match left.filter right.contains with
      | [] => none
      | member :: rest => some (.list (member :: rest))
  | .scalar left, .scalar right => if left = right then some (.scalar left) else none
  | _, _ => none

def intersectEntries :
    List (String × NestedSet) → List (String × NestedSet) → List (String × NestedSet)
  | [], _ => []
  | (key, value) :: rest, right =>
      match (Entries.get? key right).bind (intersect value) with
      | none => intersectEntries rest right
      | some common => (key, common) :: intersectEntries rest right

end

end NestedSet

/-! ## Domains -/

abbrev Domains := OrderedMap String (List String)

namespace Domains

def intersect (left right : Domains) : Domains :=
  left.filterMap fun domain values =>
    match right.get? domain with
    | none => none
    | some others =>
        match values.filter others.contains with
        | [] => none
        | value :: rest => some (value :: rest)

def toSet (domains : Domains) : NestedSet :=
  .map (domains.entries.map fun entry => (entry.1, .list entry.2))

end Domains

end Variants
