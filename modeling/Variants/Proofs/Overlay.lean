import Mathlib.Data.List.DropRight
import Variants.Config.Rendering
import Variants.Proofs.OrderedMap
import Variants.Proofs.Outcome

/-!
# Mappings as overlays

Rendering a mapping puts its entries one after another into what there is so far.
What comes out depends on the last entry without a key, which everything before
it gives way to, and on the entries with keys after it, which are laid over its
value.  Rendering fails at the first key that has no mapping to go into.
-/

namespace Variants

/-! ## Entries laid over others -/

namespace Entries

variable {κ α : Type} [DecidableEq κ]

/--
Keys below keep their places and new ones follow as they first appear.  Each has
the last value that is added for it, or else the one below.
-/
structure Overlays (below added merged : List (κ × α)) : Prop where
  keys_eq : keys merged = keys below ++ (keys added).eraseDups.filter fun key => key ∉ keys below
  get?_eq : ∀ key, get? key merged = (get? key added.reverse).or (get? key below)

def overlay (below added : List (κ × α)) : List (κ × α) :=
  added.foldl (fun entries entry => insert entry.1 entry.2 entries) below

@[simp] theorem overlay_nil (below : List (κ × α)) : overlay below [] = below := rfl

@[simp] theorem overlay_concat (below added : List (κ × α)) (key : κ) (value : α) :
    overlay below (added ++ [(key, value)]) = insert key value (overlay below added) := by
  simp [overlay]

theorem keys_concat_eraseDups (added : List (κ × α)) (key : κ) (value : α) :
    (keys (added ++ [(key, value)])).eraseDups =
      if key ∈ keys added then (keys added).eraseDups else (keys added).eraseDups ++ [key] := by
  by_cases h : key ∈ added.map Prod.fst <;>
    simp [keys, List.eraseDups_append, List.eraseDups_cons, List.removeAll, h]

theorem overlays_overlay (below added : List (κ × α)) :
    Overlays below added (overlay below added) := by
  induction added using List.reverseRecOn with
  | nil => exact ⟨by simp [keys], by simp⟩
  | append_singleton added entry ih =>
      obtain ⟨key, value⟩ := entry
      rw [overlay_concat]
      constructor
      · have hmem : key ∈ keys (overlay below added) ↔ key ∈ keys below ∨ key ∈ keys added := by
          simp only [ih.keys_eq, List.mem_append, List.mem_filter, List.mem_eraseDups]
          by_cases hbelow : key ∈ keys below <;> simp [hbelow]
        rw [insert, keys_alter, keys_concat_eraseDups]
        rw [ih.keys_eq] at hmem ⊢
        simp only [hmem]
        by_cases hadded : key ∈ keys added
        · simp [hadded]
        · by_cases hbelow : key ∈ keys below <;> simp [hadded, hbelow]
      · intro other
        rw [get?_insert, ih.get?_eq, List.reverse_append]
        by_cases hother : key = other <;> simp [get?, hother]

end Entries

/-! ## Rendered entries -/

theorem Value.entries?_eq_some_iff {value : Value} {entries : List (String × Value)} :
    value.entries? = some entries ↔ value = .object entries := by
  cases value <;> simp [entries?]

abbrev Rendered := List (Option String × Value)

def MapEntry.RendersTo (render : Child → Except Error Value) (entry : MapEntry)
    (pair : Option String × Value) : Prop :=
  pair.1 = entry.key ∧ render entry.child = .ok pair.2

namespace Rendered

/-- The last entry without a key, which stands for the mapping. -/
def standing? (rendered : Rendered) : Option Value :=
  (rendered.rdropWhile (·.1.isSome)).getLast?.map Prod.snd

def added (rendered : Rendered) : List (String × Value) :=
  (rendered.rtakeWhile (·.1.isSome)).filterMap fun entry => entry.1.map fun key => (key, entry.2)

def base (rendered : Rendered) : Value := rendered.standing?.getD (.object [])

/-- What stands for the mapping is no mapping itself, so that no key can go into it. -/
def Closed (rendered : Rendered) : Prop :=
  ∃ value, rendered.standing? = some value ∧ value.entries? = none

def Blocked (rendered : Rendered) : Prop :=
  ∃ before key value after, rendered = before ++ (some key, value) :: after ∧ Closed before

def result (rendered : Rendered) : Value :=
  match rendered.base with
  | .object below => .object (Entries.overlay below rendered.added)
  | value => value

variable {rendered : Rendered} {key : Option String} {name : String} {value : Value}

@[simp] theorem standing?_concat_none :
    standing? (rendered ++ [(none, value)]) = some value := by
  simp [standing?]

@[simp] theorem standing?_concat_some :
    standing? (rendered ++ [(some name, value)]) = rendered.standing? := by
  simp [standing?]

@[simp] theorem added_concat_none : added (rendered ++ [(none, value)]) = [] := by
  simp [added]

@[simp] theorem added_concat_some :
    added (rendered ++ [(some name, value)]) = rendered.added ++ [(name, value)] := by
  simp [added]

theorem closed_iff : rendered.Closed ↔ rendered.base.entries? = none := by
  unfold Closed base
  cases rendered.standing? <;> simp [Value.entries?]

theorem not_blocked_nil : ¬ Blocked [] := by
  rintro ⟨before, name, other, after, hsplit, -⟩
  simp at hsplit

theorem blocked_concat_iff :
    Blocked (rendered ++ [(key, value)]) ↔
      rendered.Blocked ∨ key.isSome = true ∧ rendered.Closed := by
  constructor
  · rintro ⟨before, name, other, after, hsplit, hclosed⟩
    rcases List.eq_nil_or_concat after with rfl | ⟨after, last, rfl⟩
    · simp only [List.append_singleton_inj, Prod.mk.injEq] at hsplit
      obtain ⟨rfl, rfl, rfl⟩ := hsplit
      exact .inr ⟨rfl, hclosed⟩
    · rw [List.concat_eq_append, ← List.cons_append, ← List.append_assoc] at hsplit
      exact .inl ⟨before, name, other, after, (List.append_inj' hsplit rfl).1, hclosed⟩
  · rintro (⟨before, name, other, after, rfl, hclosed⟩ | ⟨hkey, hclosed⟩)
    · exact ⟨before, name, other, after ++ [(key, value)], by simp, hclosed⟩
    · obtain ⟨name, rfl⟩ := Option.isSome_iff_exists.mp hkey
      exact ⟨rendered, name, value, [], rfl, hclosed⟩

theorem added_eq_nil (hclosed : rendered.Closed) (hopen : ¬ rendered.Blocked) :
    rendered.added = [] := by
  rcases List.eq_nil_or_concat rendered with rfl | ⟨before, ⟨key, value⟩, rfl⟩
  · rfl
  · rw [List.concat_eq_append] at *
    cases key with
    | none => exact added_concat_none
    | some name =>
        have hbefore : Closed before := by simpa [Closed] using hclosed
        exact absurd (blocked_concat_iff.mpr (.inr ⟨rfl, hbefore⟩)) hopen

theorem result_of_object {below : List (String × Value)} (h : rendered.base = .object below) :
    rendered.result = .object (Entries.overlay below rendered.added) := by
  simp [result, h]

theorem result_of_closed (h : rendered.Closed) : rendered.result = rendered.base := by
  rw [closed_iff] at h
  unfold result
  cases hbase : rendered.base <;> simp_all [Value.entries?]

theorem exists_object_of_not_closed (h : ¬ rendered.Closed) :
    ∃ below, rendered.base = .object below := by
  obtain ⟨below, hbelow⟩ := Option.ne_none_iff_exists'.mp (mt closed_iff.mpr h)
  exact ⟨below, Value.entries?_eq_some_iff.mp hbelow⟩

/-! ### Placing entries in turn -/

def put (accumulated : Value) (entry : Option String × Value) : Except Error Value :=
  Config.place entry.1 entry.2 (some accumulated)

theorem put_result_none : put rendered.result (none, value) =
    .ok (result (rendered ++ [(none, value)])) := by
  cases value <;> simp [put, Config.place, result, base]

theorem put_result_some (h : ¬ rendered.Closed) : put rendered.result (some name, value) =
    .ok (result (rendered ++ [(some name, value)])) := by
  obtain ⟨below, hbelow⟩ := exists_object_of_not_closed h
  have hnext : base (rendered ++ [(some name, value)]) = .object below := by
    simpa [base] using hbelow
  rw [result_of_object hbelow, result_of_object hnext]
  simp [put, Config.place]

theorem put_result_of_closed (h : rendered.Closed) :
    put rendered.result (some name, value) = .error (.keyIntoScalar name) := by
  rw [result_of_closed h]
  rw [closed_iff] at h
  cases hbase : rendered.base <;> simp_all [Value.entries?, put, Config.place]

theorem foldlM_put_eq_ok_iff {final : Value} :
    rendered.foldlM put (.object []) = .ok final ↔
      ¬ rendered.Blocked ∧ rendered.result = final := by
  -- On the entry placed last, since what stands for the mapping is found from the end.
  induction rendered using List.reverseRecOn generalizing final with
  | nil => simp [not_blocked_nil, result, base, standing?, added, pure, Except.pure]
  | append_singleton rendered entry ih =>
      obtain ⟨key, value⟩ := entry
      simp only [List.foldlM_append, List.foldlM_cons, List.foldlM_nil, bind_eq_ok_iff, ih,
        blocked_concat_iff, bind_pure]
      cases key with
      | none => simp [put_result_none]
      | some name =>
          by_cases hclosed : Closed rendered
          · simp [put_result_of_closed hclosed, hclosed]
          · simp [put_result_some hclosed, hclosed]

theorem exists_foldlM_put_error_iff :
    (∃ error, rendered.foldlM put (.object []) = .error error) ↔ rendered.Blocked := by
  cases hfinal : rendered.foldlM put (.object []) with
  | ok value => simp [(foldlM_put_eq_ok_iff.mp hfinal).1]
  | error error =>
      have hblocked : rendered.Blocked := by
        by_contra hopen
        rw [foldlM_put_eq_ok_iff.mpr ⟨hopen, rfl⟩] at hfinal
        cases hfinal
      simp [hblocked]

theorem foldlM_put_eq_error_iff {error : Error} :
    rendered.foldlM put (.object []) = .error error ↔
      ∃ before name value after, rendered = before ++ (some name, value) :: after ∧
        Closed before ∧ ¬ Blocked before ∧ error = .keyIntoScalar name := by
  constructor
  · intro h
    obtain ⟨before, ⟨key, value⟩, after, reached, hsplit, hreached, herror⟩ :=
      exists_of_foldlM_error h
    obtain ⟨hopen, rfl⟩ := foldlM_put_eq_ok_iff.mp hreached
    cases key with
    | none =>
        rw [put_result_none] at herror
        cases herror
    | some name =>
        by_cases hclosed : Closed before
        · rw [put_result_of_closed hclosed] at herror
          cases herror
          exact ⟨before, name, value, after, hsplit, hclosed, hopen, rfl⟩
        · rw [put_result_some hclosed] at herror
          cases herror
  · rintro ⟨before, name, value, after, rfl, hclosed, hopen, rfl⟩
    have hbefore := foldlM_put_eq_ok_iff.mpr ⟨hopen, rfl⟩
    simp [List.foldlM_append, hbefore, bind, Except.bind, put_result_of_closed hclosed]

theorem renderEntries_eq_foldlM {render : Child → Except Error Value} {entries : List MapEntry}
    (h : List.Forall₂ (MapEntry.RendersTo render) entries rendered)
    (accumulated : Option Value) :
    Config.renderEntries render entries accumulated =
      rendered.foldlM put (accumulated.getD (.object [])) := by
  induction h generalizing accumulated with
  | nil => rfl
  | @cons entry pair entries rendered hpair _ ih =>
      obtain ⟨key, value⟩ := pair
      obtain ⟨rfl, hvalue⟩ := hpair
      have hplace : Config.place entry.key value accumulated =
          put (accumulated.getD (.object [])) (entry.key, value) := by
        cases accumulated with
        | some other => rfl
        | none => cases entry.key <;> rfl
      rw [List.foldlM_cons, ← hplace, Config.renderEntries, hvalue]
      refine congrArg _ (funext fun placed => ih (some placed))

end Rendered

end Variants
