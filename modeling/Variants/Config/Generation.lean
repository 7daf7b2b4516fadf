import Variants.Config

/-!
# Tuples of a configuration

Dimensions are set one after another, each after those it depends on, and each
under the conditions that hold for what is set so far.
-/

namespace Variants.Config

/-! ## Order of generation -/

def isReady (done : List Dimension) (dimension : Dimension) : Bool :=
  dimension.depends.all fun name => done.any (·.name == name)

def takeReady (done : List Dimension) : List Dimension → Option (Dimension × List Dimension)
  | [] => none
  | dimension :: rest =>
      if isReady done dimension then some (dimension, rest)
      else (takeReady done rest).map fun (next, others) => (next, dimension :: others)

theorem length_of_takeReady {done pending others : List Dimension} {next : Dimension}
    (h : takeReady done pending = some (next, others)) : others.length < pending.length := by
  induction pending generalizing next others with
  | nil => simp [takeReady] at h
  | cons dimension rest ih =>
      simp only [takeReady] at h
      split at h
      · cases h
        simp
      · simp only [Option.map_eq_some_iff] at h
        obtain ⟨⟨first, remaining⟩, hfound, heq⟩ := h
        simp only [Prod.mk.injEq] at heq
        rw [← heq.2]
        exact Nat.succ_lt_succ (ih hfound)

/-- Without a ready dimension the first pending one is next. -/
def orderAfter (done : List Dimension) : List Dimension → List Dimension
  | [] => done
  | dimension :: rest =>
      match h : takeReady done (dimension :: rest) with
      | none => orderAfter (done ++ [dimension]) rest
      | some (next, others) =>
          have : others.length ≤ rest.length := Nat.le_of_lt_succ (length_of_takeReady h)
          orderAfter (done ++ [next]) others
  termination_by pending => pending.length

def generationOrder (config : Config) : List Dimension := orderAfter [] config.dimensions

/-! ## Tuples -/

def extend (mode : Containment) : List Dimension → Tuple → List Tuple
  | [], tuple => [tuple]
  | dimension :: rest, tuple =>
      (dimension.fragments mode (Tuple.toContext tuple)).flatMap fun fragment =>
        extend mode rest (tuple.insert dimension.name fragment)

def generate (config : Config) : List Tuple :=
  extend config.containment config.generationOrder OrderedMap.empty

end Variants.Config
