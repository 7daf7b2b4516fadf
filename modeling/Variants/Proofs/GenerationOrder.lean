import Mathlib.Data.List.Perm.Basic
import Variants.Config.Generation
import Variants.Proofs.Reachable

/-!
# Order of generation

Taking the first ready dimension again and again lists each dimension once and
after all that it depends on.  There always is a ready one: of the dimensions
still pending, the one declared first depends on none of the others.
-/

namespace Variants.Config

def ReadyOrder : List Dimension → List Dimension → Prop
  | _, [] => True
  | done, d :: rest => isReady done d = true ∧ ReadyOrder (done ++ [d]) rest

theorem isReady_iff {done : List Dimension} {d : Dimension} :
    isReady done d = true ↔ ∀ name ∈ d.depends, ∃ other ∈ done, other.name = name := by
  simp [isReady]

theorem readyOrder_concat {done order : List Dimension} {d : Dimension} :
    ReadyOrder done (order ++ [d]) ↔
      ReadyOrder done order ∧ isReady (done ++ order) d = true := by
  induction order generalizing done with
  | nil => simp [ReadyOrder]
  | cons first rest ih => simp [ReadyOrder, ih, and_assoc]

/-! ## Choosing the next dimension -/

theorem takeReady_eq_none {done pending : List Dimension} (h : takeReady done pending = none) :
    ∀ d ∈ pending, isReady done d = false := by
  induction pending with
  | nil => simp
  | cons first rest ih =>
      unfold takeReady at h
      split at h
      · cases h
      · next hready =>
          intro d hd
          rcases List.mem_cons.mp hd with rfl | hd
          · simpa using hready
          · exact ih (Option.map_eq_none_iff.mp h) d hd

theorem takeReady_eq_some {done pending others : List Dimension} {next : Dimension}
    (h : takeReady done pending = some (next, others)) :
    isReady done next = true ∧ (next :: others).Perm pending := by
  induction pending generalizing next others with
  | nil => cases h
  | cons first rest ih =>
      unfold takeReady at h
      split at h
      · next hready =>
          cases h
          exact ⟨hready, List.Perm.refl _⟩
      · obtain ⟨⟨found, remaining⟩, hfound, heq⟩ := Option.map_eq_some_iff.mp h
        cases heq
        obtain ⟨hready, hperm⟩ := ih hfound
        exact ⟨hready, (List.Perm.swap _ _ _).trans (hperm.cons first)⟩

theorem orderAfter_of_takeReady {done pending others : List Dimension} {next : Dimension}
    (h : takeReady done pending = some (next, others)) :
    orderAfter done pending = orderAfter (done ++ [next]) others := by
  cases pending with
  | nil => cases h
  | cons first rest =>
      rw [orderAfter]
      split
      · next hnone =>
          rw [hnone] at h
          cases h
      · next found remaining hsome =>
          rw [h] at hsome
          cases hsome
          rfl

/-- The dependencies of pending dimensions are known, and of lower rank. -/
def Ranked (rank : String → Nat) (done pending : List Dimension) : Prop :=
  ∀ d ∈ pending, ∀ name ∈ d.depends,
    rank name < rank d.name ∧ ∃ other ∈ done ++ pending, other.name = name

theorem exists_isReady {rank : String → Nat} {done pending : List Dimension}
    (h : Ranked rank done pending) {d : Dimension} (hd : d ∈ pending) :
    ∃ ready ∈ pending, isReady done ready = true := by
  -- A pending dimension that is not ready waits for a pending one of lower rank.
  induction hrank : rank d.name using Nat.strongRecOn generalizing d with
  | ind bound ih =>
      by_cases hready : isReady done d = true
      · exact ⟨d, hd, hready⟩
      · rw [isReady_iff] at hready
        push Not at hready
        obtain ⟨name, hname, hmissing⟩ := hready
        obtain ⟨hlt, other, hother, heq⟩ := h d hd name hname
        have hpending : other ∈ pending :=
          (List.mem_append.mp hother).resolve_left fun hdone => hmissing other hdone heq
        exact ih (rank other.name) (by rw [heq]; omega) hpending rfl

/-! ## States of the loop -/

/-- What is placed and what is pending each time the next dimension is chosen. -/
inductive Placing (dimensions : List Dimension) : List Dimension → List Dimension → Prop where
  | start : Placing dimensions [] dimensions
  | ready {done pending others : List Dimension} {next : Dimension}
      (h : Placing dimensions done pending)
      (hnext : takeReady done pending = some (next, others)) :
      Placing dimensions (done ++ [next]) others
  | fallback {done rest : List Dimension} {first : Dimension}
      (h : Placing dimensions done (first :: rest))
      (hnone : takeReady done (first :: rest) = none) :
      Placing dimensions (done ++ [first]) rest

namespace Placing

variable {dimensions done pending : List Dimension}

theorem finish (h : Placing dimensions done pending) :
    Placing dimensions (orderAfter done pending) [] := by
  fun_induction orderAfter done pending with
  | case1 done => exact h
  | case2 done first rest hnone ih => exact ih (.fallback h hnone)
  | case3 done first rest next others hsome hle ih => exact ih (.ready h hsome)

/-- Every state of the loop leads to what the first one leads to. -/
theorem orderAfter_eq (h : Placing dimensions done pending) :
    orderAfter done pending = orderAfter [] dimensions := by
  induction h with
  | start => rfl
  | ready _ hnext ih => rw [← ih, orderAfter_of_takeReady hnext]
  | @fallback done rest first _ hnone ih =>
      rw [← ih, orderAfter]
      split
      · rfl
      · next next others hsome =>
          rw [hnone] at hsome
          cases hsome

theorem perm (h : Placing dimensions done pending) :
    (done ++ pending).Perm dimensions := by
  induction h with
  | start => exact List.Perm.refl _
  | @ready done pending others next _ hnext ih =>
      have hpending := (takeReady_eq_some hnext).2.append_left done
      rw [List.append_assoc]
      exact hpending.trans ih
  | fallback _ _ ih =>
      rw [List.append_assoc]
      exact ih

theorem exists_takeReady {rank : String → Nat} (hrank : Ranked rank [] dimensions)
    (h : Placing dimensions done pending) (hpending : pending ≠ []) :
    ∃ next others, takeReady done pending = some (next, others) := by
  have hranked : Ranked rank done pending := by
    intro d hd name hname
    obtain ⟨hlt, other, hother, heq⟩ :=
      hrank d (h.perm.mem_iff.mp (List.mem_append_right done hd)) name hname
    exact ⟨hlt, other, h.perm.mem_iff.mpr hother, heq⟩
  obtain ⟨first, hfirst⟩ := List.exists_mem_of_ne_nil pending hpending
  obtain ⟨ready, hmem, hready⟩ := exists_isReady hranked hfirst
  cases hnext : takeReady done pending with
  | none => exact absurd hready (by simp [takeReady_eq_none hnext ready hmem])
  | some choice => exact ⟨choice.1, choice.2, rfl⟩

theorem readyOrder {rank : String → Nat} (hrank : Ranked rank [] dimensions)
    (h : Placing dimensions done pending) : ReadyOrder [] done := by
  induction h with
  | start => trivial
  | ready _ hnext ih =>
      exact readyOrder_concat.mpr ⟨ih, (takeReady_eq_some hnext).1⟩
  | fallback hplacing hnone _ =>
      obtain ⟨next, others, hnext⟩ := hplacing.exists_takeReady hrank (List.cons_ne_nil _ _)
      rw [hnone] at hnext
      cases hnext

end Placing

/-! ## Well-declared dimensions -/

theorem ranked_of_wellDeclared {dimensions : List Dimension} {declared : List String}
    (h : WellDeclared dimensions declared) :
    Ranked declared.idxOf [] dimensions := by
  intro d hd name hname
  exact ⟨h.depends_earlier d hd name hname, h.exists_of_mem_depends hd hname⟩

theorem generationOrder_spec {config : Config}
    (h : WellDeclared config.dimensions config.declared) :
    config.generationOrder.Perm config.dimensions ∧ ReadyOrder [] config.generationOrder := by
  have hplaced : Placing config.dimensions config.generationOrder [] := Placing.start.finish
  have hperm := hplaced.perm
  rw [List.append_nil] at hperm
  exact ⟨hperm, hplaced.readyOrder (ranked_of_wellDeclared h)⟩

end Variants.Config
