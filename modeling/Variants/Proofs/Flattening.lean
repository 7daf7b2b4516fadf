import Variants.Proofs.Declaration
import Variants.Proofs.Stripping

/-!
# Declarations as paths

The initializers of a dimension nest keys above lists of values.  Reading them
gives one item for each list, and all that the item takes from the document is
said by the keys on the way to the list: exactly one of them names the register
and the domain, and the conditions are those of all of them, from the outermost
key on.
-/

namespace Variants

/-! ## Lists and the keys above them -/

structure ListPath where
  /-- From the outermost key on, without the one right above the list. -/
  outer : List String
  key : String
  values : List Value

namespace ListPath

def keys (path : ListPath) : List String := path.outer ++ [path.key]

def under (key : String) (path : ListPath) : ListPath := { path with outer := key :: path.outer }

@[simp] theorem keys_under (key : String) (path : ListPath) :
    (path.under key).keys = key :: path.keys := rfl

end ListPath

namespace Value

mutual

def listsAt (key : String) : Value → List ListPath
  | .object entries => (listsBelow entries).map (ListPath.under key)
  | .array values => [⟨[], key, values⟩]
  | _ => []

def listsBelow : List (String × Value) → List ListPath
  | [] => []
  | (key, value) :: rest => listsAt key value ++ listsBelow rest

end

mutual

def innerEntries : Value → List (String × Value)
  | .object entries => allEntries entries
  | _ => []

def allEntries : List (String × Value) → List (String × Value)
  | [] => []
  | (key, value) :: rest => (key, value) :: (innerEntries value ++ allEntries rest)

end

def IsScalar : Value → Prop
  | .array _ => False
  | .object _ => False
  | _ => True

def IsInitializer : Value → Prop
  | .object _ => True
  | .array values => ∀ value ∈ values, value.IsScalar
  | _ => False

theorem isScalar_iff {value : Value} : value.IsScalar ↔ ∃ text, value.scalarText? = some text := by
  cases value <;> simp [IsScalar, scalarText?]

theorem keys_of_mem_listsAt {key : String} {value : Value} {path : ListPath}
    (h : path ∈ value.listsAt key) : path.keys = key :: path.keys.tail := by
  cases value with
  | object entries =>
      simp only [listsAt] at h
      obtain ⟨inner, -, rfl⟩ := List.mem_map.mp h
      rfl
  | array values =>
      simp only [listsAt] at h
      rw [List.mem_singleton.mp h]
      rfl
  | _ => cases h

mutual

theorem mem_allEntries_of_mem_listsAt : ∀ {key : String} {value : Value} {path : ListPath},
    path ∈ value.listsAt key →
      (∀ inner ∈ path.keys.tail, ∃ below, (inner, below) ∈ value.innerEntries) ∧
        (path.key, .array path.values) ∈ (key, value) :: value.innerEntries
  | key, .object entries, path, h => by
      simp only [listsAt] at h
      obtain ⟨below, hbelow, rfl⟩ := List.mem_map.mp h
      obtain ⟨hkeys, harray⟩ := mem_allEntries_of_mem_listsBelow hbelow
      exact ⟨hkeys, List.mem_cons_of_mem _ harray⟩
  | key, .array values, path, h => by
      simp only [listsAt] at h
      rw [List.mem_singleton.mp h]
      refine ⟨?_, List.mem_cons_self⟩
      intro inner hinner
      cases hinner
  | _, .null, _, h => by cases h
  | _, .boolean _, _, h => by cases h
  | _, .integer _, _, h => by cases h
  | _, .decimal _, _, h => by cases h
  | _, .string _, _, h => by cases h

theorem mem_allEntries_of_mem_listsBelow :
    ∀ {entries : List (String × Value)} {path : ListPath}, path ∈ listsBelow entries →
      (∀ key ∈ path.keys, ∃ value, (key, value) ∈ allEntries entries) ∧
        (path.key, .array path.values) ∈ allEntries entries
  | [], _, h => by cases h
  | (first, value) :: rest, path, h => by
      simp only [listsBelow, List.mem_append] at h
      simp only [allEntries]
      rcases h with h | h
      · obtain ⟨hkeys, harray⟩ := mem_allEntries_of_mem_listsAt h
        refine ⟨fun key hkey => ?_, ?_⟩
        · rw [keys_of_mem_listsAt h, List.mem_cons] at hkey
          rcases hkey with rfl | hkey
          · exact ⟨value, List.mem_cons_self⟩
          · obtain ⟨below, hbelow⟩ := hkeys key hkey
            exact ⟨below, List.mem_cons_of_mem _ (List.mem_append_left _ hbelow)⟩
        · exact List.mem_append_left (allEntries rest) harray
      · obtain ⟨hkeys, harray⟩ := mem_allEntries_of_mem_listsBelow h
        refine ⟨fun key hkey => ?_, ?_⟩
        · obtain ⟨below, hbelow⟩ := hkeys key hkey
          exact ⟨below, List.mem_cons_of_mem _ (List.mem_append_right _ hbelow)⟩
        · exact List.mem_cons_of_mem _ (List.mem_append_right _ harray)

end

end Value

/-! ## What a key says -/

namespace DeclarationKey

variable (known : List Dimension) (key : String)

/-- What is left of the key without its conditions and without the blanks around it. -/
def remainder? : Option (List Char) :=
  (parseKey known key).toOption.map fun reading => Text.trim reading.1.toList

def conditions : List Condition :=
  ((parseKey known key).toOption.map Prod.snd).getD []

def names : Bool := (remainder? known key).any fun name => !isAnonymous name

def slot? : Option (Register × String) :=
  (remainder? known key).bind fun name =>
    if isAnonymous name then none else (Expression.slot name).toOption

def slots (keys : List String) : List (Register × String) := keys.filterMap (slot? known)

/-- The key is read, and what it names, if anything, is one register and domain. -/
def Accepted : Prop :=
  ∃ name conditions, parseKey known key = .ok (name, conditions) ∧
    (isAnonymous (Text.trim name.toList) = false →
      ∃ slot, Expression.slot (Text.trim name.toList) = .ok slot)

variable {known key}

theorem Accepted.isSome_slot? (h : Accepted known key) :
    (slot? known key).isSome = names known key := by
  obtain ⟨name, conditions, hkey, hslot⟩ := h
  unfold slot? names remainder?
  rw [hkey]
  simp only [Except.toOption, Option.map_some, Option.bind_some, Option.any_some]
  cases hanonymous : isAnonymous (Text.trim name.toList) with
  | true => rfl
  | false =>
      obtain ⟨slot, hslot⟩ := hslot hanonymous
      simp [hslot]

theorem conditions_of_parseKey {name : String} {found : List Condition}
    (h : parseKey known key = .ok (name, found)) : conditions known key = found := by
  unfold conditions
  rw [h]
  rfl

theorem remainder?_of_parseKey {name : String} {found : List Condition}
    (h : parseKey known key = .ok (name, found)) :
    remainder? known key = some (Text.trim name.toList) := by
  unfold remainder?
  rw [h]
  rfl

theorem slot?_of_parseKey {name : String} {found : List Condition}
    (h : parseKey known key = .ok (name, found)) :
    slot? known key =
      if isAnonymous (Text.trim name.toList) then none
      else (Expression.slot (Text.trim name.toList)).toOption := by
  unfold slot?
  rw [remainder?_of_parseKey h]
  rfl

theorem slots_cons_of_none (h : slot? known key = none) (keys : List String) :
    slots known (key :: keys) = slots known keys :=
  List.filterMap_cons_none h

theorem slots_cons_of_some {slot : Register × String} (h : slot? known key = some slot)
    (keys : List String) : slots known (key :: keys) = slot :: slots known keys :=
  List.filterMap_cons_some h

theorem length_slots {keys : List String} (h : ∀ key ∈ keys, Accepted known key) :
    (slots known keys).length = keys.countP (names known) := by
  rw [slots, List.length_filterMap_eq_countP]
  exact List.countP_congr fun key hkey => by rw [(h key hkey).isSome_slot?]

variable (known key)

theorem single_of_mem_conditions :
    ∀ c ∈ conditions known key, ∃ domain values, c.domains = .single domain values := by
  intro c hc
  cases hkey : parseKey known key with
  | error error =>
      simp [conditions, hkey, Except.toOption] at hc
  | ok reading =>
      rw [conditions_of_parseKey hkey] at hc
      obtain ⟨d, -, hfits⟩ := grounded_of_parseKey hkey c hc
      obtain ⟨domain, values, hsingle, -⟩ := hfits.offers
      exact ⟨domain, values, hsingle⟩

theorem nodup_conditions : (conditions known key).Nodup := by
  cases hkey : parseKey known key with
  | error error => simp [conditions, hkey, Except.toOption]
  | ok reading =>
      rw [conditions_of_parseKey hkey]
      exact (distinct_of_parseKey hkey).nodup

end DeclarationKey

theorem Condition.merge_eraseDups {conditions more : List Condition} (hnodup : conditions.Nodup)
    (hsingle : ∀ c ∈ conditions ++ more, ∃ domain values, c.domains = .single domain values) :
    merge conditions more.eraseDups = (conditions ++ more).eraseDups := by
  obtain ⟨hconditions, hmore⟩ := List.forall_mem_append.mp hsingle
  calc merge conditions more.eraseDups
      = merge (merge [] conditions) more.eraseDups := by
        rw [merge_nil_eq_eraseDups hconditions, eraseDups_of_nodup hnodup]
    _ = merge [] (conditions ++ more.eraseDups) := (merge_append _ _ _).symm
    _ = (conditions ++ more.eraseDups).eraseDups :=
        merge_nil_eq_eraseDups (List.forall_mem_append.mpr
          ⟨hconditions, fun c hc => hmore c (List.mem_eraseDups.mp hc)⟩)
    _ = (conditions ++ more).eraseDups := eraseDups_append_eraseDups _ _

/-! ## What a path says -/

namespace ListPath

variable (known : List Dimension)

def conditions (path : ListPath) : List Condition :=
  (path.keys.flatMap (DeclarationKey.conditions known)).eraseDups

/-- The item of the list when only some of the keys have been asked for its name. -/
def pending (path : ListPath) (naming : List String) : PendingItem where
  slot := (DeclarationKey.slots known naming).head?
  values := path.values.map fun value => value.scalarText?.getD ""
  conditions := path.conditions known
  origin := path.key

variable {known}

theorem conditions_singleton {key name : String} {found : List Condition}
    (h : parseKey known key = .ok (name, found)) (values : List Value) :
    (ListPath.mk [] key values).conditions known = found := by
  unfold conditions keys
  rw [List.nil_append, List.flatMap_singleton,
    eraseDups_of_nodup (DeclarationKey.nodup_conditions known key),
    DeclarationKey.conditions_of_parseKey h]

theorem conditions_under (key : String) (path : ListPath) :
    (path.under key).conditions known =
      Condition.merge (DeclarationKey.conditions known key) (path.conditions known) := by
  have hsingle : ∀ c ∈ (key :: path.keys).flatMap (DeclarationKey.conditions known),
      ∃ domain values, c.domains = .single domain values := by
    intro c hc
    obtain ⟨source, -, hc⟩ := List.mem_flatMap.mp hc
    exact DeclarationKey.single_of_mem_conditions known source c hc
  unfold conditions
  rw [keys_under, List.flatMap_cons]
  exact (Condition.merge_eraseDups (DeclarationKey.nodup_conditions known key) hsingle).symm

theorem inherit_pending (key : String) (path : ListPath) (naming : List String) :
    (path.pending known naming).inherit (DeclarationKey.conditions known key) =
      (path.under key).pending known naming := by
  simp only [PendingItem.inherit, pending, conditions_under]
  rfl

variable (known)

structure Makes (path : ListPath) (item : Item) : Prop where
  named : ∃ key ∈ path.keys, DeclarationKey.slot? known key = some (item.register, item.domain)
  values : path.values.map Value.scalarText? = item.values.map some
  conditions : item.conditions = path.conditions known

end ListPath

/-! ## Reading one level after another -/

theorem scalarTexts_eq_ok_iff {dimension key : String} {values : List Value}
    {texts : List String} :
    scalarTexts dimension key values = .ok texts ↔
      (∀ value ∈ values, value.IsScalar) ∧
        values.map (fun value => value.scalarText?.getD "") = texts := by
  refine mapM_eq_ok_iff_map fun value text => ?_
  rw [Value.isScalar_iff]
  cases value.scalarText? <;> simp

namespace PendingItem

theorem assign_eq_ok_iff {dimension key : String} {slot : Register × String}
    {item result : PendingItem} :
    item.assign dimension key slot = .ok result ↔
      item.slot = none ∧ { item with slot := some slot } = result := by
  unfold assign
  cases item.slot <;> simp

theorem toItem_eq_ok_iff {dimension : String} {item : PendingItem} {result : Item} :
    item.toItem dimension = .ok result ↔
      item.slot = some (result.register, result.domain) ∧ item.values = result.values ∧
        item.conditions = result.conditions := by
  obtain ⟨register, domain, values, conditions⟩ := result
  unfold toItem
  cases item.slot with
  | none => simp
  | some slot => simp [Prod.ext_iff, and_assoc]

end PendingItem

section Reading

open DeclarationKey (slots slot? slot?_of_parseKey slots_cons_of_none slots_cons_of_some Accepted)

variable {dimension : String} {known : List Dimension}

/-- A key names all lists below it or none, and no list that a key below has named. -/
theorem assignSlot_eq_ok_iff {key name : String} {found : List Condition}
    (hkey : parseKey known key = .ok (name, found)) {paths : List ListPath}
    {naming : ListPath → List String}
    (hnaming : ∀ path ∈ paths, (slots known (naming path)).length ≤ 1)
    {items : List PendingItem} :
    assignSlot dimension key (Text.trim name.toList)
        (paths.map fun path => path.pending known (naming path)) = .ok items ↔
      Accepted known key ∧
        (∀ path ∈ paths, (slots known (key :: naming path)).length ≤ 1) ∧
        (paths.map fun path => path.pending known (key :: naming path)) = items := by
  have hslot := slot?_of_parseKey hkey
  have haccepted : Accepted known key ↔ (isAnonymous (Text.trim name.toList) = false →
      ∃ slot, Expression.slot (Text.trim name.toList) = .ok slot) := by
    simp [Accepted, hkey]
  rw [haccepted]
  cases hanonymous : isAnonymous (Text.trim name.toList) with
  | true =>
      rw [hanonymous, if_pos rfl] at hslot
      simp only [assignSlot, hanonymous, if_true, ListPath.pending, slots_cons_of_none hslot,
        Except.ok.injEq, reduceCtorEq, false_imp_iff, true_and]
      exact (and_iff_right hnaming).symm
  | false =>
      rw [hanonymous, if_neg Bool.false_ne_true] at hslot
      simp only [assignSlot, hanonymous, Bool.false_eq_true, if_false, true_imp_iff]
      cases hexpression : Expression.slot (Text.trim name.toList) with
      | error error => simp [Except.mapError, bind, Except.bind]
      | ok slot =>
          rw [hexpression] at hslot
          have hassign : ∀ item result : PendingItem,
              item.assign dimension key slot = .ok result ↔
                item.slot = none ∧ { item with slot := some slot } = result :=
            fun _ _ => PendingItem.assign_eq_ok_iff
          change List.mapM (PendingItem.assign dimension key slot) _ = _ ↔ _
          rw [mapM_eq_ok_iff_map hassign, List.forall_mem_map, List.map_map]
          simp [ListPath.pending, slots_cons_of_some hslot, Function.comp_def]

mutual

theorem readInitializer_eq_ok_iff {key name : String} {found : List Condition}
    (hkey : parseKey known key = .ok (name, found)) :
    ∀ {value : Value} {items : List PendingItem},
      readInitializer dimension known key found value = .ok items ↔
        (value.IsInitializer ∧
          ∀ entry ∈ value.innerEntries, Accepted known entry.1 ∧ entry.2.IsInitializer) ∧
        (∀ path ∈ value.listsAt key, (slots known path.keys.tail).length ≤ 1) ∧
        ((value.listsAt key).map fun path => path.pending known path.keys.tail) = items
  | .object entries, items => by
      have hinherit : ∀ path : ListPath, (path.under key).pending known path.keys =
          (path.pending known path.keys).inherit found := fun path => by
        rw [← DeclarationKey.conditions_of_parseKey hkey, ListPath.inherit_pending]
      simp only [readInitializer, map_eq_ok_iff, readInitializers_eq_ok_iff,
        Value.innerEntries, Value.listsAt, List.forall_mem_map, List.map_map, Function.comp_def,
        ListPath.keys_under, List.tail_cons, hinherit]
      constructor
      · rintro ⟨below, ⟨hentries, hslots, rfl⟩, rfl⟩
        exact ⟨⟨trivial, hentries⟩, hslots, by rw [List.map_map, Function.comp_def]⟩
      · rintro ⟨⟨-, hentries⟩, hslots, rfl⟩
        exact ⟨_, ⟨hentries, hslots, rfl⟩, by rw [List.map_map, Function.comp_def]⟩
  | .array values, items => by
      have hpending : (ListPath.mk [] key values).pending known [] =
          ⟨none, values.map fun value => value.scalarText?.getD "", found, key⟩ := by
        rw [ListPath.pending, ListPath.conditions_singleton hkey]
        rfl
      simp only [readInitializer, map_eq_ok_iff, scalarTexts_eq_ok_iff, Value.innerEntries,
        Value.listsAt, List.forall_mem_singleton, List.map_singleton]
      change _ ↔ _ ∧ (slots known []).length ≤ 1 ∧
        [(ListPath.mk [] key values).pending known []] = _
      rw [hpending]
      constructor
      · rintro ⟨texts, ⟨hscalar, rfl⟩, rfl⟩
        exact ⟨⟨hscalar, List.forall_mem_nil _⟩, Nat.zero_le _, rfl⟩
      · rintro ⟨⟨hscalar, -⟩, -, rfl⟩
        exact ⟨_, ⟨hscalar, rfl⟩, rfl⟩
  | .null, _ => by simp [readInitializer, Value.IsInitializer]
  | .boolean _, _ => by simp [readInitializer, Value.IsInitializer]
  | .integer _, _ => by simp [readInitializer, Value.IsInitializer]
  | .decimal _, _ => by simp [readInitializer, Value.IsInitializer]
  | .string _, _ => by simp [readInitializer, Value.IsInitializer]

theorem readInitializers_eq_ok_iff :
    ∀ {entries : List (String × Value)} {items : List PendingItem},
      readInitializers dimension known entries = .ok items ↔
        (∀ entry ∈ Value.allEntries entries,
          Accepted known entry.1 ∧ entry.2.IsInitializer) ∧
        (∀ path ∈ Value.listsBelow entries, (slots known path.keys).length ≤ 1) ∧
        ((Value.listsBelow entries).map fun path => path.pending known path.keys) = items
  | [], items => by
      simp [readInitializers, Value.allEntries, Value.listsBelow]
  | (key, value) :: rest, items => by
      have hkeys : ∀ path ∈ value.listsAt key, key :: path.keys.tail = path.keys :=
        fun path hpath => (Value.keys_of_mem_listsAt hpath).symm
      simp only [readInitializers, bind_eq_ok_iff, readInitializers_eq_ok_iff,
        Value.allEntries, Value.listsBelow, List.forall_mem_cons, List.forall_mem_append,
        List.map_append]
      constructor
      · rintro ⟨⟨name, found⟩, hkey, level, hlevel, named, hnamed, others, hothers, heq⟩
        obtain ⟨⟨hvalue, hinner⟩, hslots, rfl⟩ := (readInitializer_eq_ok_iff hkey).mp hlevel
        obtain ⟨haccepted, hone, rfl⟩ := (assignSlot_eq_ok_iff hkey hslots).mp hnamed
        obtain ⟨hrest, hbelow, rfl⟩ := hothers
        rw [List.map_congr_left fun path hpath => by rw [hkeys path hpath]] at heq
        refine ⟨⟨⟨haccepted, hvalue⟩, hinner, hrest⟩, ⟨fun path hpath => ?_, hbelow⟩,
          Except.ok.inj heq⟩
        rw [← hkeys path hpath]
        exact hone path hpath
      · rintro ⟨⟨⟨haccepted, hvalue⟩, hinner, hrest⟩, ⟨hone, hbelow⟩, rfl⟩
        have hread := haccepted
        obtain ⟨name, found, hkey, -⟩ := hread
        have hslots : ∀ path ∈ value.listsAt key, (slots known path.keys.tail).length ≤ 1 :=
          fun path hpath =>
            Nat.le_trans ((List.tail_sublist _).filterMap _).length_le (hone path hpath)
        refine ⟨⟨name, found⟩, hkey, _, (readInitializer_eq_ok_iff hkey).mpr
          ⟨⟨hvalue, hinner⟩, hslots, rfl⟩, _, (assignSlot_eq_ok_iff hkey hslots).mpr
            ⟨haccepted, ?_, rfl⟩, _, ⟨hrest, hbelow, rfl⟩, ?_⟩
        · intro path hpath
          rw [hkeys path hpath]
          exact hone path hpath
        · rw [List.map_congr_left fun path hpath => by rw [hkeys path hpath]]
          rfl

end

theorem readItems_eq_ok_iff {entries : List (String × Value)} {items : List Item} :
    readItems dimension known entries = .ok items ↔
      (∀ entry ∈ Value.allEntries entries, Accepted known entry.1 ∧ entry.2.IsInitializer) ∧
      (∀ path ∈ Value.listsBelow entries, (slots known path.keys).length ≤ 1) ∧
      List.Forall₂
        (fun path item => (path.pending known path.keys).toItem dimension = .ok item)
        (Value.listsBelow entries) items := by
  simp only [readItems, bind_eq_ok_iff, readInitializers_eq_ok_iff, mapM_eq_ok_iff]
  constructor
  · rintro ⟨pending, ⟨hentries, hslots, rfl⟩, hitems⟩
    exact ⟨hentries, hslots, List.forall₂_map_left_iff.mp hitems⟩
  · rintro ⟨hentries, hslots, hitems⟩
    exact ⟨_, ⟨hentries, hslots, rfl⟩, List.forall₂_map_left_iff.mpr hitems⟩

theorem exists_toItem_iff {path : ListPath} :
    (∃ item, (path.pending known path.keys).toItem dimension = .ok item) ↔
      slots known path.keys ≠ [] := by
  simp only [PendingItem.toItem_eq_ok_iff, ListPath.pending]
  constructor
  · rintro ⟨item, hslot, -⟩ hnil
    rw [hnil] at hslot
    cases hslot
  · intro hne
    obtain ⟨slot, rest, hslots⟩ := List.exists_cons_of_ne_nil hne
    exact ⟨⟨slot.1, slot.2, _, _⟩, by rw [hslots]; rfl, rfl, rfl⟩

theorem makes_of_toItem {path : ListPath} (hvalues : ∀ value ∈ path.values, value.IsScalar)
    {item : Item} (h : (path.pending known path.keys).toItem dimension = .ok item) :
    path.Makes known item := by
  obtain ⟨hslot, htexts, hconditions⟩ := PendingItem.toItem_eq_ok_iff.mp h
  refine ⟨?_, ?_, hconditions.symm⟩
  · exact List.mem_filterMap.mp (List.mem_of_mem_head? hslot)
  · rw [← htexts, ListPath.pending, List.map_map]
    refine List.map_congr_left fun value hvalue => ?_
    obtain ⟨text, htext⟩ := Value.isScalar_iff.mp (hvalues value hvalue)
    simp [htext]

end Reading

/-! ## One item for each list -/

/--
Reading a declaration succeeds when every key at every level is accepted, every
value is a mapping or a list of scalars, and each list is named by exactly one
of the keys above it.  It then makes one item from each list, in order.
-/
theorem readItems_flattens (dimension : String) (known : List Dimension)
    (entries : List (String × Value)) :
    ((∃ items, readItems dimension known entries = .ok items) ↔
      (∀ entry ∈ Value.allEntries entries,
        DeclarationKey.Accepted known entry.1 ∧ entry.2.IsInitializer) ∧
      ∀ path ∈ Value.listsBelow entries,
        path.keys.countP (DeclarationKey.names known) = 1) ∧
    ∀ items, readItems dimension known entries = .ok items →
      List.Forall₂ (ListPath.Makes known) (Value.listsBelow entries) items := by
  have hcount : (∀ entry ∈ Value.allEntries entries,
        DeclarationKey.Accepted known entry.1 ∧ entry.2.IsInitializer) →
      ∀ path ∈ Value.listsBelow entries, path.keys.countP (DeclarationKey.names known) =
        (DeclarationKey.slots known path.keys).length := by
    intro hentries path hpath
    refine (DeclarationKey.length_slots fun key hkey => ?_).symm
    obtain ⟨value, hvalue⟩ := (Value.mem_allEntries_of_mem_listsBelow hpath).1 key hkey
    exact (hentries _ hvalue).1
  refine ⟨⟨?_, ?_⟩, ?_⟩
  · rintro ⟨items, hitems⟩
    obtain ⟨hentries, hslots, hitems⟩ := readItems_eq_ok_iff.mp hitems
    refine ⟨hentries, fun path hpath => ?_⟩
    obtain ⟨item, -, hitem⟩ := exists_mem_of_forall₂ hitems.flip hpath
    have hpos := List.length_pos_iff.mpr (exists_toItem_iff.mp ⟨item, hitem⟩)
    rw [hcount hentries path hpath]
    exact Nat.le_antisymm (hslots path hpath) hpos
  · rintro ⟨hentries, hone⟩
    have hlength : ∀ path ∈ Value.listsBelow entries,
        (DeclarationKey.slots known path.keys).length = 1 := fun path hpath =>
      (hcount hentries path hpath).symm.trans (hone path hpath)
    have hmade : ∀ path ∈ Value.listsBelow entries,
        ∃ item, (path.pending known path.keys).toItem dimension = .ok item := fun path hpath =>
      exists_toItem_iff.mpr (List.ne_nil_of_length_eq_add_one (hlength path hpath))
    obtain ⟨items, hitems⟩ := exists_forall₂_of_forall hmade
    exact ⟨items, readItems_eq_ok_iff.mpr
      ⟨hentries, fun path hpath => (hlength path hpath).le, hitems⟩⟩
  · intro items hitems
    obtain ⟨hentries, -, hitems⟩ := readItems_eq_ok_iff.mp hitems
    have hscalar : ∀ path ∈ Value.listsBelow entries, ∀ value ∈ path.values, value.IsScalar :=
      fun path hpath => (hentries _ (Value.mem_allEntries_of_mem_listsBelow hpath).2).2
    exact ((List.forall₂_and_left _ _).mpr ⟨hscalar, hitems⟩).imp fun path item h =>
      makes_of_toItem h.1 h.2

def nestedRegions : List (String × Value) :=
  [("us[[dev]]", .object [
      ("", .array [.string "nyc", .integer 3]),
      ("-|:z1| [[dev]]", .array [.boolean true])]),
    ("[[prod]]", .object [(":rack", .array [.string "r1"])]),
    ("eu", .object [])]

open Annotation

theorem readItems_flattens_nestedRegions :
    readItems "region" [stage, zone] nestedRegions = .ok [
      ⟨⟨0⟩, "us", ["nyc", "3"], [⟨"env", ⟨0⟩, .single "dev" ["d1", "d2"]⟩]⟩,
      ⟨⟨0⟩, "us", ["true"],
        [⟨"env", ⟨0⟩, .single "dev" ["d1", "d2"]⟩, ⟨"zone", ⟨1⟩, .single "z" ["z1"]⟩]⟩,
      ⟨⟨1⟩, "rack", ["r1"], [⟨"env", ⟨0⟩, .single "prod" ["p1"]⟩]⟩] ∧
    (∀ path ∈ Value.listsBelow nestedRegions,
      path.keys.countP (DeclarationKey.names [stage, zone]) = 1) ∧
    ListPath.Makes [stage, zone] ⟨["us[[dev]]"], "-|:z1| [[dev]]", [.boolean true]⟩
      ⟨⟨0⟩, "us", ["true"],
        [⟨"env", ⟨0⟩, .single "dev" ["d1", "d2"]⟩, ⟨"zone", ⟨1⟩, .single "z" ["z1"]⟩]⟩ := by
  have hread : readItems "region" [stage, zone] nestedRegions = .ok [
      ⟨⟨0⟩, "us", ["nyc", "3"], [⟨"env", ⟨0⟩, .single "dev" ["d1", "d2"]⟩]⟩,
      ⟨⟨0⟩, "us", ["true"],
        [⟨"env", ⟨0⟩, .single "dev" ["d1", "d2"]⟩, ⟨"zone", ⟨1⟩, .single "z" ["z1"]⟩]⟩,
      ⟨⟨1⟩, "rack", ["r1"], [⟨"env", ⟨0⟩, .single "prod" ["p1"]⟩]⟩] := by
    decide +kernel
  obtain ⟨haccepted, hmakes⟩ := readItems_flattens "region" [stage, zone] nestedRegions
  obtain ⟨-, hone⟩ := haccepted.mp ⟨_, hread⟩
  obtain _ | ⟨-, _ | ⟨hsecond, -⟩⟩ := hmakes _ hread
  exact ⟨hread, hone, hsecond⟩

end Variants
