import Variants.Document.Declaration
import Variants.Proofs.Dimension

/-!
# Well-declared dimensions

Every condition that is read from a key is about a dimension declared before,
about a single domain of it, and about values that it lists.  Reading the
declarations one after another therefore ends in dimensions that depend on
earlier declarations only.
-/

namespace Variants

/-! ## Conditions read from keys -/

structure Condition.Fits (condition : Condition) (d : Dimension) : Prop where
  dimension_eq : condition.dimension = d.name
  offers : d.Offers condition.register condition.domains

def Condition.Grounded (known : List Dimension) (condition : Condition) : Prop :=
  ∃ d ∈ known, condition.Fits d

theorem Condition.Grounded.mono {known more : List Dimension} (hsub : known ⊆ more)
    {condition : Condition} (h : condition.Grounded known) : condition.Grounded more := by
  obtain ⟨d, hd, hfits⟩ := h
  exact ⟨d, hsub hd, hfits⟩

theorem Condition.mem_merge {conditions more : List Condition} {condition : Condition}
    (h : condition ∈ merge conditions more) : condition ∈ conditions ∨ condition ∈ more := by
  induction more generalizing conditions with
  | nil => exact .inl h
  | cons first more ih =>
      rcases ih h with h | h
      · simp only at h
        split at h
        · exact .inl h
        · rcases List.mem_append.mp h with h | h
          · exact .inl h
          · rw [List.mem_singleton.mp h]
            exact .inr List.mem_cons_self
      · exact .inr (List.mem_cons_of_mem _ h)

theorem Expression.fits_of_conditions {d : Dimension} {expression : List Char}
    {conditions : List Condition} (h : Expression.conditions d expression = .ok conditions)
    {condition : Condition} (hc : condition ∈ conditions) :
    condition.Fits d ∧ d.hasRegister condition.register = true := by
  simp only [Expression.conditions, bind_eq_ok_iff] at h
  obtain ⟨segments, -, h⟩ := h
  obtain ⟨⟨register, name⟩, -, h⟩ := exists_mem_of_mapM h hc
  simp only [bind_eq_ok_iff] at h
  obtain ⟨domains, hresolve, h⟩ := h
  obtain ⟨hregister, hresolve⟩ := d.resolve_eq_ok_iff.mp hresolve
  cases h
  exact ⟨⟨rfl, d.offers_of_resolve? hresolve⟩, hregister⟩

namespace KeyReading

theorem grounded_addExpression {known : List Dimension} {key : String} {d : Dimension}
    (hd : d ∈ known) {conditions result : List Condition} {expression : List Char}
    (hconditions : ∀ c ∈ conditions, c.Grounded known)
    (h : addExpression key d conditions expression = .ok result) :
    ∀ c ∈ result, c.Grounded known := by
  unfold addExpression at h
  split at h
  · cases h
    exact hconditions
  · simp only [bind_eq_ok_iff, mapError_eq_ok_iff] at h
    obtain ⟨more, hmore, h⟩ := h
    cases h
    intro c hc
    rcases Condition.mem_merge hc with hc | hc
    · exact hconditions c hc
    · exact ⟨d, hd, (Expression.fits_of_conditions hmore hc).1⟩

theorem grounded_strip {known : List Dimension} {key : String} {d : Dimension} (hd : d ∈ known)
    {reading result : KeyReading} (hreading : ∀ c ∈ reading.conditions, c.Grounded known)
    (h : strip key reading d = .ok result) : ∀ c ∈ result.conditions, c.Grounded known := by
  simp only [strip, bind_eq_ok_iff] at h
  obtain ⟨conditions, hfold, h⟩ := h
  have hconditions : ∀ c ∈ conditions, c.Grounded known :=
    foldlM_preserves (P := fun conditions => ∀ c ∈ conditions, c.Grounded known)
      (fun _ _ _ _ hprevious hstep => grounded_addExpression hd hprevious hstep) hreading hfold
  split at h
  · cases h
    exact hconditions
  · cases h

end KeyReading

theorem grounded_of_parseKey {known : List Dimension} {key name : String}
    {conditions : List Condition} (h : parseKey known key = .ok (name, conditions)) :
    ∀ c ∈ conditions, c.Grounded known := by
  simp only [parseKey, bind_eq_ok_iff] at h
  obtain ⟨reading, hfold, h⟩ := h
  have hreading : ∀ c ∈ reading.conditions, c.Grounded known :=
    foldlM_preserves (P := fun reading => ∀ c ∈ reading.conditions, c.Grounded known)
      (fun _ _ _ hd hprevious hstep => KeyReading.grounded_strip hd hprevious hstep)
      (fun _ hc => absurd hc List.not_mem_nil) hfold
  split at h
  · cases h
    exact hreading
  · cases h

/-! ## Items -/

/-- What is stated of an item when its values are read, and kept on the way to the root. -/
structure PendingItem.Kept (dimension : String) (known : List Dimension)
    (P : PendingItem → Prop) : Prop where
  list : ∀ {key name conditions}, parseKey known key = .ok (name, conditions) →
    ∀ values, P ⟨none, values, conditions, key⟩
  inherit : ∀ {key name conditions}, parseKey known key = .ok (name, conditions) →
    ∀ item, P item → P (item.inherit conditions)
  assign : ∀ {key name slot}, Expression.slot name = .ok slot →
    ∀ item result, P item → item.assign dimension key slot = .ok result → P result

section Kept

variable {dimension : String} {known : List Dimension} {P : PendingItem → Prop}
  (hkept : PendingItem.Kept dimension known P)

include hkept

theorem forall_assignSlot {key : String} {name : List Char} {items result : List PendingItem}
    (hitems : ∀ item ∈ items, P item) (h : assignSlot dimension key name items = .ok result) :
    ∀ item ∈ result, P item := by
  unfold assignSlot at h
  split at h
  · cases h
    exact hitems
  · simp only [bind_eq_ok_iff, mapError_eq_ok_iff] at h
    obtain ⟨slot, hslot, h⟩ := h
    intro item hitem
    obtain ⟨source, hsource, hassign⟩ := exists_mem_of_mapM h hitem
    exact hkept.assign hslot source item (hitems source hsource) hassign

mutual

theorem forall_readInitializer {key name : String} {conditions : List Condition}
    (hkey : parseKey known key = .ok (name, conditions)) :
    ∀ {value : Value} {items : List PendingItem},
      readInitializer dimension known key conditions value = .ok items → ∀ item ∈ items, P item
  | .object entries, items, h => by
      simp only [readInitializer, map_eq_ok_iff] at h
      obtain ⟨nested, hnested, rfl⟩ := h
      simp only [List.forall_mem_map]
      intro item hitem
      exact hkept.inherit hkey item (forall_readInitializers hnested item hitem)
  | .array values, items, h => by
      simp only [readInitializer, map_eq_ok_iff] at h
      obtain ⟨texts, -, rfl⟩ := h
      intro item hitem
      rw [List.mem_singleton.mp hitem]
      exact hkept.list hkey texts
  | .null, _, h => by cases h
  | .boolean _, _, h => by cases h
  | .integer _, _, h => by cases h
  | .decimal _, _, h => by cases h
  | .string _, _, h => by cases h

theorem forall_readInitializers :
    ∀ {entries : List (String × Value)} {items : List PendingItem},
      readInitializers dimension known entries = .ok items → ∀ item ∈ items, P item
  | [], items, h => by
      cases h
      simp
  | (key, value) :: rest, items, h => by
      simp only [readInitializers, bind_eq_ok_iff] at h
      obtain ⟨⟨name, conditions⟩, hkey, found, hfound, level, hlevel, others, hothers, h⟩ := h
      cases h
      have hlevel := forall_assignSlot hkept (forall_readInitializer hkey hfound) hlevel
      intro item hitem
      rcases List.mem_append.mp hitem with hitem | hitem
      · exact hlevel item hitem
      · exact forall_readInitializers hothers item hitem

end

theorem exists_of_mem_readItems {entries : List (String × Value)} {items : List Item}
    (h : readItems dimension known entries = .ok items) {item : Item} (hitem : item ∈ items) :
    ∃ source, P source ∧ source.slot = some (item.register, item.domain) ∧
      source.conditions = item.conditions := by
  simp only [readItems, bind_eq_ok_iff] at h
  obtain ⟨pending, hpending, h⟩ := h
  obtain ⟨source, hsource, htoItem⟩ := exists_mem_of_mapM h hitem
  refine ⟨source, forall_readInitializers hkept hpending source hsource, ?_⟩
  unfold PendingItem.toItem at htoItem
  split at htoItem
  · next hslot =>
      cases htoItem
      exact ⟨hslot, rfl⟩
  · cases htoItem

end Kept

theorem PendingItem.kept_grounded (dimension : String) (known : List Dimension) :
    Kept dimension known fun item => ∀ c ∈ item.conditions, c.Grounded known where
  list := fun hkey _ => grounded_of_parseKey hkey
  inherit := by
    intro key name conditions hkey item hitem c hc
    rcases Condition.mem_merge hc with hc | hc
    · exact grounded_of_parseKey hkey c hc
    · exact hitem c hc
  assign := by
    intro key name slot _ item result hitem hassign
    unfold PendingItem.assign at hassign
    split at hassign
    · cases hassign
    · cases hassign
      exact hitem

theorem grounded_readItems {dimension : String} {known : List Dimension}
    {entries : List (String × Value)} {items : List Item}
    (h : readItems dimension known entries = .ok items) :
    ∀ item ∈ items, ∀ c ∈ item.conditions, c.Grounded known := by
  intro item hitem
  obtain ⟨source, hgrounded, -, hconditions⟩ :=
    exists_of_mem_readItems (PendingItem.kept_grounded dimension known) h hitem
  rwa [← hconditions]

/-! ## Declarations -/

/--
The names are those declared, each once; a dimension depends on earlier ones
only, and its conditions are about values that those offer.
-/
structure WellDeclared (dimensions : List Dimension) (declared : List String) : Prop where
  nodup : declared.Nodup
  perm : (dimensions.map (·.name)).Perm declared
  depends_earlier : ∀ d ∈ dimensions, ∀ name ∈ d.depends,
    declared.idxOf name < declared.idxOf d.name
  mem_depends : ∀ d ∈ dimensions, ∀ item ∈ d.items, ∀ c ∈ item.conditions,
    c.dimension ∈ d.depends
  grounded : ∀ d ∈ dimensions, ∀ item ∈ d.items, ∀ c ∈ item.conditions, c.Grounded dimensions

namespace WellDeclared

variable {dimensions : List Dimension} {declared : List String}

theorem nodup_names (h : WellDeclared dimensions declared) :
    (dimensions.map (·.name)).Nodup :=
  h.perm.nodup_iff.mpr h.nodup

theorem mem_declared_iff (h : WellDeclared dimensions declared) {name : String} :
    name ∈ declared ↔ ∃ d ∈ dimensions, d.name = name := by
  rw [← h.perm.mem_iff, List.mem_map]

theorem eq_of_name_eq (h : WellDeclared dimensions declared) {a b : Dimension}
    (ha : a ∈ dimensions) (hb : b ∈ dimensions) (hname : a.name = b.name) : a = b :=
  List.inj_on_of_nodup_map h.nodup_names ha hb hname

theorem exists_of_mem_depends (h : WellDeclared dimensions declared) {d : Dimension}
    (hd : d ∈ dimensions) {name : String} (hname : name ∈ d.depends) :
    ∃ other ∈ dimensions, other.name = name := by
  rw [← h.mem_declared_iff, ← List.idxOf_lt_length_iff]
  exact Nat.lt_of_lt_of_le (h.depends_earlier d hd name hname) List.idxOf_le_length

theorem induction_on_depends (h : WellDeclared dimensions declared) {P : Dimension → Prop}
    (step : ∀ d ∈ dimensions,
      (∀ other ∈ dimensions, other.name ∈ d.depends → P other) → P d) {d : Dimension}
    (hd : d ∈ dimensions) : P d := by
  induction hindex : declared.idxOf d.name using Nat.strongRecOn generalizing d with
  | ind bound ih =>
      refine step d hd fun other hother hdepends => ih _ ?_ hother rfl
      rw [← hindex]
      exact h.depends_earlier d hd other.name hdepends

theorem nil : WellDeclared [] [] where
  nodup := List.nodup_nil
  perm := List.Perm.refl _
  depends_earlier := by simp
  mem_depends := by simp
  grounded := by simp

end WellDeclared

theorem perm_insertByWidth (d : Dimension) (dimensions : List Dimension) :
    (insertByWidth d dimensions).Perm (d :: dimensions) := by
  induction dimensions with
  | nil => exact List.Perm.refl _
  | cons other rest ih =>
      unfold insertByWidth
      split
      · exact (ih.cons other).trans (List.Perm.swap d other rest)
      · exact List.Perm.refl _

theorem mem_depends_ofItems {name : String} {brackets : Brackets} {items : List Item}
    {other : String} :
    other ∈ (Dimension.ofItems name brackets items).depends ↔
      ∃ item ∈ items, ∃ c ∈ item.conditions, c.dimension = other := by
  simp [Dimension.ofItems, List.mem_eraseDups]

theorem WellDeclared.insert {dimensions : List Dimension} {declared : List String}
    (h : WellDeclared dimensions declared) {name : String} {brackets : Brackets}
    {items : List Item} (hname : ∀ d ∈ dimensions, d.name ≠ name)
    (hitems : ∀ item ∈ items, ∀ c ∈ item.conditions, c.Grounded dimensions) :
    WellDeclared (insertByWidth (.ofItems name brackets items) dimensions)
      (declared ++ [name]) := by
  have hperm := perm_insertByWidth (.ofItems name brackets items) dimensions
  have hfresh : name ∉ declared := by
    rw [h.mem_declared_iff]
    rintro ⟨d, hd, heq⟩
    exact hname d hd heq
  have hsub : dimensions ⊆ insertByWidth (.ofItems name brackets items) dimensions :=
    fun d hd => hperm.mem_iff.mpr (List.mem_cons_of_mem _ hd)
  have hdeclared : ∀ d ∈ dimensions, d.name ∈ declared :=
    fun d hd => h.mem_declared_iff.mpr ⟨d, hd, rfl⟩
  -- Positions of names that were declared before stay what they were.
  have hindex : ∀ other ∈ declared, (declared ++ [name]).idxOf other = declared.idxOf other :=
    fun other hother => List.idxOf_append_of_mem hother
  have hcases : ∀ d ∈ insertByWidth (.ofItems name brackets items) dimensions,
      d = .ofItems name brackets items ∨ d ∈ dimensions :=
    fun d hd => List.mem_cons.mp (hperm.mem_iff.mp hd)
  refine ⟨?_, ?_, ?_, ?_, ?_⟩
  · refine List.nodup_append.mpr ⟨h.nodup, List.nodup_singleton name, ?_⟩
    intro other hother last hlast heq
    rw [List.mem_singleton.mp hlast] at heq
    exact hfresh (heq ▸ hother)
  · refine (hperm.map _).trans ?_
    refine (h.perm.cons name).trans ?_
    exact (List.perm_append_singleton name declared).symm
  · intro d hd other hother
    rcases hcases d hd with rfl | hd
    · obtain ⟨item, hitem, c, hc, rfl⟩ := mem_depends_ofItems.mp hother
      obtain ⟨known, hknown, hfits⟩ := hitems item hitem c hc
      have hmem : c.dimension ∈ declared := hfits.dimension_eq ▸ hdeclared known hknown
      have hlast : (declared ++ [name]).idxOf name = declared.length := by
        simp [List.idxOf_append, hfresh]
      rw [hindex _ hmem]
      change declared.idxOf c.dimension < (declared ++ [name]).idxOf name
      rw [hlast]
      exact List.idxOf_lt_length_iff.mpr hmem
    · have hlt := h.depends_earlier d hd other hother
      have hmem : other ∈ declared :=
        List.idxOf_lt_length_iff.mp (Nat.lt_of_lt_of_le hlt List.idxOf_le_length)
      rw [hindex other hmem, hindex d.name (hdeclared d hd)]
      exact hlt
  · intro d hd item hitem c hc
    rcases hcases d hd with rfl | hd
    · exact mem_depends_ofItems.mpr ⟨item, hitem, c, hc, rfl⟩
    · exact h.mem_depends d hd item hitem c hc
  · intro d hd item hitem c hc
    rcases hcases d hd with rfl | hd
    · exact (hitems item hitem c hc).mono hsub
    · exact (h.grounded d hd item hitem c hc).mono hsub

namespace Declarations

theorem declare_eq_ok {declarations result : Declarations} {key name marker : String}
    {value : Value} (h : declarations.declare key name marker value = .ok result) :
    ∃ brackets entries items,
      name.isEmpty = false ∧ Brackets.parse name marker = .ok brackets ∧
      (∀ d ∈ declarations.dimensions, d.name ≠ name) ∧
      (∀ d ∈ declarations.dimensions, d.brackets ≠ brackets) ∧
      value.entries? = some entries ∧
      readItems name declarations.dimensions entries = .ok items ∧
      result =
        { dimensions := insertByWidth (.ofItems name brackets items) declarations.dimensions
          declared := declarations.declared ++ [name] } := by
  unfold declare at h
  cases hempty : name.isEmpty with
  | true => simp [hempty, throw, throwThe, MonadExceptOf.throw, bind, Except.bind] at h
  | false =>
      simp only [hempty, Bool.false_eq_true, if_false, bind_eq_ok_iff] at h
      obtain ⟨brackets, hbrackets, h⟩ := h
      cases hname : declarations.dimensions.any (·.name == name) with
      | true => simp [hname, throw, throwThe, MonadExceptOf.throw, bind, Except.bind] at h
      | false =>
          simp only [hname, Bool.false_eq_true, if_false] at h
          cases hfind : declarations.dimensions.find? (·.brackets == brackets) with
          | some existing => simp [hfind, throw, throwThe, MonadExceptOf.throw] at h
          | none =>
              cases hentries : value.entries? with
              | none => simp [hfind, hentries, throw, throwThe, MonadExceptOf.throw] at h
              | some entries =>
                  simp only [hfind, hentries, bind_eq_ok_iff] at h
                  obtain ⟨items, hitems, h⟩ := h
                  refine ⟨brackets, entries, items, rfl, hbrackets, ?_, ?_, rfl, hitems,
                    (Except.ok.inj h).symm⟩
                  · simpa using hname
                  · simpa using hfind

theorem wellDeclared_addEntry {declarations result : Declarations} {entry : String × Value}
    (h : WellDeclared declarations.dimensions declarations.declared)
    (hadd : declarations.addEntry entry = .ok result) :
    WellDeclared result.dimensions result.declared := by
  unfold addEntry at hadd
  split at hadd
  · cases hadd
    exact h
  · obtain ⟨brackets, entries, items, -, -, hname, -, -, hitems, rfl⟩ := declare_eq_ok hadd
    exact h.insert hname (grounded_readItems hitems)

theorem wellDeclared_read {root : List (String × Value)} {declarations : Declarations}
    (h : read root = .ok declarations) :
    WellDeclared declarations.dimensions declarations.declared :=
  foldlM_preserves
    (P := fun declarations => WellDeclared declarations.dimensions declarations.declared)
    (fun _ _ _ _ hprevious hstep => wellDeclared_addEntry hprevious hstep) WellDeclared.nil h

end Declarations

end Variants
