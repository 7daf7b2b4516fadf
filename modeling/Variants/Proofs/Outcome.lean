import Mathlib.Data.List.Forall2

/-!
# Runs that succeed

What a successful run of a sequence of steps says about the steps: each of them
succeeded, and what every step preserves holds at the end.
-/

namespace Variants

variable {ε α β : Type}

theorem bind_eq_ok_iff {x : Except ε α} {f : α → Except ε β} {b : β} :
    (x >>= f) = .ok b ↔ ∃ a, x = .ok a ∧ f a = .ok b := by
  cases x <;> simp [bind, Except.bind]

theorem map_eq_ok_iff {x : Except ε α} {f : α → β} {b : β} :
    x.map f = .ok b ↔ ∃ a, x = .ok a ∧ f a = b := by
  cases x <;> simp [Except.map]

theorem map_eq_error_iff {x : Except ε α} {f : α → β} {error : ε} :
    x.map f = .error error ↔ x = .error error := by
  cases x <;> simp [Except.map]

theorem mapError_eq_ok_iff {ε' : Type} {x : Except ε α} {f : ε → ε'} {a : α} :
    x.mapError f = .ok a ↔ x = .ok a := by
  cases x <;> simp [Except.mapError]

theorem mapError_eq_error_iff {ε' : Type} {x : Except ε α} {f : ε → ε'} {error : ε'} :
    x.mapError f = .error error ↔ ∃ cause, x = .error cause ∧ f cause = error := by
  cases x <;> simp [Except.mapError]

theorem toOption_eq_some_iff {x : Except ε α} {a : α} : x.toOption = some a ↔ x = .ok a := by
  cases x <;> simp [Except.toOption]

theorem any_toOption_iff {x : Except ε α} {p : α → Bool} :
    x.toOption.any p = true ↔ ∃ a, x = .ok a ∧ p a = true := by
  cases x <;> simp [Except.toOption]

theorem mapM_eq_ok_iff {f : α → Except ε β} {xs : List α} {ys : List β} :
    xs.mapM f = .ok ys ↔ List.Forall₂ (fun x y => f x = .ok y) xs ys := by
  induction xs generalizing ys with
  | nil => cases ys <;> simp [pure, Except.pure]
  | cons x xs ih =>
      simp only [List.mapM_cons, bind_eq_ok_iff, ih, List.forall₂_cons_left_iff]
      constructor
      · rintro ⟨y, hy, rest, hrest, heq⟩
        exact ⟨y, rest, hy, hrest, (Except.ok.inj heq).symm⟩
      · rintro ⟨y, rest, hy, hrest, rfl⟩
        exact ⟨y, hy, rest, hrest, rfl⟩

theorem mapM_eq_some_iff {f : α → Option β} {xs : List α} {ys : List β} :
    xs.mapM f = some ys ↔ List.Forall₂ (fun x y => f x = some y) xs ys := by
  induction xs generalizing ys with
  | nil => cases ys <;> simp
  | cons x xs ih =>
      simp only [List.mapM_cons, Option.bind_eq_bind, Option.bind_eq_some_iff, ih,
        List.forall₂_cons_left_iff]
      constructor
      · rintro ⟨y, hy, rest, hrest, heq⟩
        exact ⟨y, rest, hy, hrest, (Option.some.inj heq).symm⟩
      · rintro ⟨y, rest, hy, hrest, rfl⟩
        exact ⟨y, hy, rest, hrest, rfl⟩

theorem exists_mem_of_forall₂ {r : α → β → Prop} {xs : List α} {ys : List β}
    (h : List.Forall₂ r xs ys) {y : β} (hy : y ∈ ys) : ∃ x ∈ xs, r x y := by
  induction h with
  | nil => cases hy
  | cons hr _ ih =>
      rcases List.mem_cons.mp hy with rfl | hy
      · exact ⟨_, List.mem_cons_self, hr⟩
      · obtain ⟨x, hx, hr⟩ := ih hy
        exact ⟨x, List.mem_cons_of_mem _ hx, hr⟩

theorem exists_forall₂ {γ : Type} {p : α → β → Prop} {q : α → γ → Prop} {r : γ → β → Prop}
    {xs : List α} {ys : List β} (h : List.Forall₂ p xs ys)
    (hstep : ∀ x ∈ xs, ∀ y, p x y → ∃ z, q x z ∧ r z y) :
    ∃ zs, List.Forall₂ q xs zs ∧ List.Forall₂ r zs ys := by
  induction h with
  | nil => exact ⟨[], .nil, .nil⟩
  | @cons x y xs ys hxy _ ih =>
      obtain ⟨hx, hxs⟩ := List.forall_mem_cons.mp hstep
      obtain ⟨z, hz, hzy⟩ := hx y hxy
      obtain ⟨zs, hzs, hrest⟩ := ih hxs
      exact ⟨z :: zs, .cons hz hzs, .cons hzy hrest⟩

theorem exists_forall₂_of_forall {r : α → β → Prop} {xs : List α} (h : ∀ x ∈ xs, ∃ y, r x y) :
    ∃ ys, List.Forall₂ r xs ys := by
  obtain ⟨ys, hys, -⟩ := exists_forall₂ (p := Eq) (q := r) (r := fun _ _ => True)
    (List.forall₂_same.mpr fun x _ => rfl) fun x hx x' _ => by
      obtain ⟨y, hy⟩ := h x hx
      exact ⟨y, hy, trivial⟩
  exact ⟨ys, hys⟩

theorem map_eq_of_forall₂ {γ : Type} {r : α → β → Prop} {xs : List α} {ys : List β}
    (h : List.Forall₂ r xs ys) {f : α → γ} {g : β → γ} (hfg : ∀ x y, r x y → f x = g y) :
    xs.map f = ys.map g := by
  induction h with
  | nil => rfl
  | cons hr _ ih => rw [List.map_cons, List.map_cons, hfg _ _ hr, ih]

theorem mapM_eq_ok_iff_map {f : α → Except ε β} {p : α → Prop} {g : α → β}
    (h : ∀ x y, f x = .ok y ↔ p x ∧ g x = y) {xs : List α} {ys : List β} :
    xs.mapM f = .ok ys ↔ (∀ x ∈ xs, p x) ∧ xs.map g = ys := by
  induction xs generalizing ys with
  | nil => simp [pure, Except.pure]
  | cons x xs ih =>
      simp only [List.mapM_cons, bind_eq_ok_iff, h, ih, List.forall_mem_cons, List.map_cons]
      constructor
      · rintro ⟨y, ⟨hx, rfl⟩, rest, ⟨hxs, rfl⟩, heq⟩
        exact ⟨⟨hx, hxs⟩, Except.ok.inj heq⟩
      · rintro ⟨⟨hx, hxs⟩, rfl⟩
        exact ⟨g x, ⟨hx, rfl⟩, xs.map g, ⟨hxs, rfl⟩, rfl⟩

theorem exists_mem_of_mapM {f : α → Except ε β} {xs : List α} {ys : List β}
    (h : xs.mapM f = .ok ys) {y : β} (hy : y ∈ ys) : ∃ x ∈ xs, f x = .ok y :=
  exists_mem_of_forall₂ (mapM_eq_ok_iff.mp h) hy

theorem mapM_eq_error_iff {f : α → Except ε β} {xs : List α} {error : ε} :
    xs.mapM f = .error error ↔ ∃ before x after, xs = before ++ x :: after ∧
      (∀ earlier ∈ before, ∃ y, f earlier = .ok y) ∧ f x = .error error := by
  constructor
  · intro h
    induction xs with
    | nil => cases h
    | cons x xs ih =>
        rw [List.mapM_cons] at h
        cases hx : f x with
        | error other =>
            rw [hx] at h
            cases h
            exact ⟨[], x, xs, rfl, by simp, hx⟩
        | ok y =>
            cases hxs : xs.mapM f with
            | error other =>
                rw [hx, hxs] at h
                cases h
                obtain ⟨before, failing, after, rfl, hbefore, herror⟩ := ih hxs
                exact ⟨x :: before, failing, after, rfl,
                  List.forall_mem_cons.mpr ⟨⟨y, hx⟩, hbefore⟩, herror⟩
            | ok ys =>
                rw [hx, hxs] at h
                cases h
  · rintro ⟨before, x, after, rfl, hbefore, hx⟩
    induction before with
    | nil =>
        rw [List.nil_append, List.mapM_cons, hx]
        rfl
    | cons first before ih =>
        obtain ⟨⟨y, hy⟩, hbefore⟩ := List.forall_mem_cons.mp hbefore
        rw [List.cons_append, List.mapM_cons, hy, ih hbefore]
        rfl

theorem exists_mem_of_mapM_error {f : α → Except ε β} {xs : List α} {error : ε}
    (h : xs.mapM f = .error error) : ∃ x ∈ xs, f x = .error error := by
  obtain ⟨before, x, after, rfl, -, hx⟩ := mapM_eq_error_iff.mp h
  exact ⟨x, List.mem_append_right before List.mem_cons_self, hx⟩

theorem mapM_congr {f g : α → Except ε β} {xs : List α} (h : ∀ x ∈ xs, f x = g x) :
    xs.mapM f = xs.mapM g := by
  induction xs with
  | nil => rfl
  | cons x xs ih =>
      obtain ⟨hx, hxs⟩ := List.forall_mem_cons.mp h
      rw [List.mapM_cons, List.mapM_cons, hx, ih hxs]

theorem foldlM_eq_self {f : β → α → Except ε β} {xs : List α} {start : β}
    (h : ∀ x ∈ xs, f start x = .ok start) : xs.foldlM f start = .ok start := by
  induction xs with
  | nil => rfl
  | cons x xs ih =>
      obtain ⟨hx, hxs⟩ := List.forall_mem_cons.mp h
      rw [List.foldlM_cons, hx]
      exact ih hxs

theorem exists_of_foldlM_error {f : β → α → Except ε β} {xs : List α} {start : β} {error : ε}
    (h : xs.foldlM f start = .error error) :
    ∃ before x after reached, xs = before ++ x :: after ∧
      before.foldlM f start = .ok reached ∧ f reached x = .error error := by
  induction xs generalizing start with
  | nil => cases h
  | cons x xs ih =>
      rw [List.foldlM_cons] at h
      cases hnext : f start x with
      | error other =>
          rw [hnext] at h
          cases h
          exact ⟨[], x, xs, start, rfl, rfl, hnext⟩
      | ok next =>
          rw [hnext] at h
          obtain ⟨before, failing, after, reached, rfl, hbefore, herror⟩ := ih h
          refine ⟨x :: before, failing, after, reached, rfl, ?_, herror⟩
          rw [List.foldlM_cons, hnext]
          exact hbefore

/-- Two runs agree when their steps agree wherever an invariant of the first one holds. -/
theorem foldlM_congr {P : β → Prop} {f g : β → α → Except ε β} {xs : List α}
    (heq : ∀ b, ∀ x ∈ xs, P b → f b x = g b x)
    (hstep : ∀ b, ∀ x ∈ xs, P b → ∀ b', f b x = .ok b' → P b') {start : β} (hstart : P start) :
    xs.foldlM f start = xs.foldlM g start := by
  induction xs generalizing start with
  | nil => rfl
  | cons x xs ih =>
      rw [List.foldlM_cons, List.foldlM_cons, ← heq start x List.mem_cons_self hstart]
      cases hnext : f start x with
      | error error => rfl
      | ok next =>
          exact ih (fun b y hy => heq b y (List.mem_cons_of_mem x hy))
            (fun b y hy => hstep b y (List.mem_cons_of_mem x hy))
            (hstep start x List.mem_cons_self hstart next hnext)

theorem foldlM_preserves {P : β → Prop} {f : β → α → Except ε β} {xs : List α}
    (hstep : ∀ b x b', x ∈ xs → P b → f b x = .ok b' → P b') {start final : β}
    (hstart : P start) (h : xs.foldlM f start = .ok final) : P final := by
  induction xs generalizing start with
  | nil =>
      cases h
      exact hstart
  | cons x xs ih =>
      simp only [List.foldlM_cons, bind_eq_ok_iff] at h
      obtain ⟨next, hnext, hrest⟩ := h
      exact ih (fun b y b' hy => hstep b y b' (List.mem_cons_of_mem _ hy))
        (hstep start x next List.mem_cons_self hstart hnext) hrest

end Variants
