import Variants.Proofs.OrderedMap

/-!
# The containment test

One key of a predicate is either passed over or decided, and which of the two
happens does not depend on the mode.  The test is read off key by key; then the
modes are compared on predicates and contexts of any shape.  The last part is
about the level at which conditions list values and tuples have a single one.
-/

namespace Variants

namespace NestedSet

variable {key : String} {expected actual : NestedSet}
  {predicate context : List (String × NestedSet)}

/-! ## Keys of a predicate -/

/-- What one key and the keys behind it come to; a key that is passed over leaves it to those. -/
def outcome : Containment → Option Bool → Bool → Bool
  | _, none, rest => rest
  | .firstKey, some matched, _ => matched
  | .allKeys, some matched, rest => matched && rest

theorem contains_cons (mode : Containment) :
    contains mode ((key, expected) :: predicate) context =
      (Entries.get? key context).any fun actual =>
        outcome mode (decide? mode expected actual) (contains mode predicate context) := by
  rw [contains]
  cases Entries.get? key context with
  | none => rfl
  | some actual =>
      cases hdecide : decide? mode expected actual <;> cases mode <;> simp [outcome, hdecide]

theorem contains_singleton (mode : Containment) :
    contains mode [(key, expected)] context =
      (Entries.get? key context).any fun actual => (decide? mode expected actual).getD true := by
  rw [contains_cons]
  congr 1
  funext actual
  cases decide? mode expected actual <;> cases mode <;> simp [outcome, contains]

theorem contains_firstKey_cons :
    contains .firstKey ((key, expected) :: predicate) context = true ↔
      ∃ actual, Entries.get? key context = some actual ∧
        (decide? .firstKey expected actual = some true ∨
          decide? .firstKey expected actual = none ∧
            contains .firstKey predicate context = true) := by
  rw [contains_cons, Option.any_eq_true]
  refine exists_congr fun actual => and_congr_right fun _ => ?_
  cases decide? .firstKey expected actual <;> simp [outcome]

theorem contains_allKeys_iff :
    contains .allKeys predicate context = true ↔
      ∀ entry ∈ predicate, ∃ actual, Entries.get? entry.1 context = some actual ∧
        decide? .allKeys entry.2 actual ≠ some false := by
  induction predicate with
  | nil => simp [contains]
  | cons entry rest ih =>
      rw [contains_cons, Option.any_eq_true, List.forall_mem_cons, ← ih, ← exists_and_right]
      refine exists_congr fun actual => ?_
      rw [and_assoc]
      refine and_congr_right fun _ => ?_
      cases decide? .allKeys entry.2 actual <;> simp [outcome]

theorem decide?_eq_none_iff {mode : Containment} :
    decide? mode expected actual = none ↔
      (∃ member, expected = .scalar member) ∧ ∀ member, actual ≠ .scalar member := by
  cases expected <;> cases actual <;> simp [decide?]

/-! ## From one mode to the other -/

theorem contains_firstKey_of_forall
    (hmatch : ∀ entry ∈ predicate, ∀ actual, decide? .allKeys entry.2 actual = some true →
      decide? .firstKey entry.2 actual = some true)
    (h : contains .allKeys predicate context = true) :
    contains .firstKey predicate context = true := by
  induction predicate with
  | nil => simp [contains]
  | cons entry rest ih =>
      obtain ⟨hfirst, hothers⟩ := List.forall_mem_cons.mp hmatch
      rw [contains_allKeys_iff, List.forall_mem_cons, ← contains_allKeys_iff] at h
      obtain ⟨⟨actual, hactual, hpasses⟩, hrest⟩ := h
      refine contains_firstKey_cons.mpr ⟨actual, hactual, ?_⟩
      cases hdecide : decide? .allKeys entry.2 actual with
      | none =>
          have hundecided : decide? .firstKey entry.2 actual = none :=
            decide?_eq_none_iff.mpr (decide?_eq_none_iff.mp hdecide)
          exact .inr ⟨hundecided, ih hothers hrest⟩
      | some matched =>
          cases matched with
          | false => exact absurd hdecide hpasses
          | true => exact .inl (hfirst actual hdecide)

theorem decide?_firstKey_of_allKeys (h : decide? .allKeys expected actual = some true) :
    decide? .firstKey expected actual = some true := by
  induction expected generalizing actual with
  | scalar member => cases actual <;> exact h
  | list members => cases actual <;> exact h
  | map entries ih =>
      cases actual with
      | scalar member => exact h
      | list members => exact h
      | map context =>
          simp only [decide?, Option.some.injEq] at h ⊢
          exact contains_firstKey_of_forall (fun entry hentry actual => ih entry hentry) h

inductive SingleKeyed : NestedSet → Prop where
  | scalar (member : String) : SingleKeyed (.scalar member)
  | list (members : List String) : SingleKeyed (.list members)
  | map {entries : List (String × NestedSet)} (hlength : entries.length ≤ 1)
      (hentries : ∀ entry ∈ entries, SingleKeyed entry.2) : SingleKeyed (.map entries)

@[simp] theorem singleKeyed_list (members : List String) : (NestedSet.list members).SingleKeyed :=
  .list members

@[simp] theorem singleKeyed_map_iff {entries : List (String × NestedSet)} :
    (NestedSet.map entries).SingleKeyed ↔
      entries.length ≤ 1 ∧ ∀ entry ∈ entries, entry.2.SingleKeyed :=
  ⟨fun | .map hlength hentries => ⟨hlength, hentries⟩, fun h => .map h.1 h.2⟩

theorem contains_congr_of_length_le_one {mode other : Containment}
    (hlength : predicate.length ≤ 1)
    (hsame : ∀ entry ∈ predicate, ∀ actual,
      decide? mode entry.2 actual = decide? other entry.2 actual) :
    contains mode predicate context = contains other predicate context := by
  match predicate with
  | [] => simp [contains]
  | [(key, expected)] =>
      have hsame := hsame (key, expected) List.mem_cons_self
      simp only [contains_singleton, hsame]

theorem SingleKeyed.decide?_mode (h : expected.SingleKeyed) (mode other : Containment) :
    decide? mode expected actual = decide? other expected actual := by
  induction h generalizing actual with
  | scalar member => cases actual <;> rfl
  | list members => cases actual <;> rfl
  | map hlength hentries ih =>
      cases actual with
      | scalar member => rfl
      | list members => rfl
      | map context =>
          refine congrArg some (contains_congr_of_length_le_one hlength ?_)
          exact fun entry hentry actual => ih entry hentry

/--
Whatever holds with all keys holds by the first decided key, and where no map of
the predicate has a second key the modes agree.
-/
theorem contains_modes (predicate context : List (String × NestedSet)) :
    (contains .allKeys predicate context = true →
        contains .firstKey predicate context = true) ∧
      ((NestedSet.map predicate).SingleKeyed →
        contains .allKeys predicate context = contains .firstKey predicate context) := by
  constructor
  · exact contains_firstKey_of_forall fun entry hentry actual => decide?_firstKey_of_allKeys
  · intro hsingle
    obtain ⟨hlength, hentries⟩ := singleKeyed_map_iff.mp hsingle
    exact contains_congr_of_length_le_one hlength fun entry hentry actual =>
      (hentries entry hentry).decide?_mode .allKeys .firstKey

def slotPredicate : List (String × NestedSet) :=
  [("env", .map [("R0", .map [("dev", .list ["d1", "d2"])]), ("R1", .scalar "a")])]

def slotContext : List (String × NestedSet) :=
  [("env", .map [("R1", .scalar "a"), ("R0", .map [("dev", .scalar "d2")])])]

theorem contains_modes_slots :
    contains .allKeys slotPredicate slotContext = true ∧
      contains .firstKey slotPredicate slotContext = true ∧
      (NestedSet.map [("env", .map [("R0", .list ["d1", "d2"])])]).SingleKeyed ∧
      contains .allKeys [("env", .map [("R0", .list ["d1", "d2"])])] slotContext =
        contains .firstKey [("env", .map [("R0", .list ["d1", "d2"])])] slotContext := by
  have hall : contains .allKeys slotPredicate slotContext = true := by decide
  have hsingle : (NestedSet.map [("env", .map [("R0", .list ["d1", "d2"])])]).SingleKeyed := by
    simp
  exact ⟨hall, (contains_modes _ _).1 hall, hsingle, (contains_modes _ _).2 hsingle⟩

example :
    contains .firstKey [("a", .scalar "1"), ("b", .scalar "2")]
        [("a", .scalar "1"), ("b", .scalar "3")] = true ∧
      contains .allKeys [("a", .scalar "1"), ("b", .scalar "2")]
        [("a", .scalar "1"), ("b", .scalar "3")] = false := by
  decide

/-! ## Lists of values and one selected value -/

theorem decide?_list_scalar (mode : Containment) (members : List String) (member : String) :
    decide? mode (.list members) (.scalar member) = some (members.contains member) := rfl

variable {domains : List (String × List String)} {domain value : String}

theorem contains_firstKey_lists :
    contains .firstKey (domains.map fun entry => (entry.1, .list entry.2))
        [(domain, .scalar value)] = true ↔
      domains = [] ∨ ∃ values, domains.head? = some (domain, values) ∧ value ∈ values := by
  cases domains with
  | nil => simp [contains]
  | cons entry rest =>
      rw [List.map_cons, contains_firstKey_cons]
      by_cases hdomain : domain = entry.1
      · simp [Entries.get?, decide?_list_scalar, hdomain, Prod.ext_iff]
      · simp [Entries.get?, hdomain, Prod.ext_iff, Ne.symm hdomain]

theorem contains_allKeys_lists :
    contains .allKeys (domains.map fun entry => (entry.1, .list entry.2))
        [(domain, .scalar value)] = true ↔
      ∀ entry ∈ domains, entry.1 = domain ∧ value ∈ entry.2 := by
  rw [contains_allKeys_iff, List.forall_mem_map]
  refine forall₂_congr fun entry _ => ?_
  by_cases hdomain : domain = entry.1
  · simp [Entries.get?, decide?_list_scalar, hdomain]
  · simp [Entries.get?, hdomain, Ne.symm hdomain]

end NestedSet

end Variants
