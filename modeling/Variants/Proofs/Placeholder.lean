import Variants.Proofs.FailingPlaceholder

/-!
# Placeholders as they are written

A placeholder is read at the start of a text exactly if its own text stands
there, so it can be looked for like any other text.  One in front is replaced as
a whole, and what comes after it is filled in on its own.  A dimension leaves a
text alone that has no placeholder of its brackets in it.
-/

namespace Variants

def Emission.char : Emission → Char
  | .name => '.'
  | .value => '@'
  | .domain => '$'

theorem Emission.ofChar?_eq_some_iff {c : Char} {emission : Emission} :
    ofChar? c = some emission ↔ c = emission.char := by
  constructor
  · intro h
    unfold ofChar? at h
    split at h <;> cases h <;> rfl
  · rintro rfl
    cases emission <;> rfl

namespace Placeholder

def signs : List Char := [':', '.', '@', '$']

def BeyondSigns (text : List Char) : Prop := ∃ c ∈ text, c ∉ signs

instance (text : List Char) : Decidable (BeyondSigns text) :=
  decidable_of_iff (text.any fun c => !signs.contains c) (by simp [BeyondSigns])

def body (placeholder : Placeholder) : List Char :=
  List.replicate placeholder.register.index ':' ++ [placeholder.emission.char]

def written (brackets : Brackets) (placeholder : Placeholder) : List Char :=
  brackets.left ++ (placeholder.body ++ brackets.right)

variable {brackets : Brackets} {placeholder : Placeholder} {text : List Char}

theorem mem_signs_of_mem_body {c : Char} (h : c ∈ placeholder.body) : c ∈ signs := by
  simp only [body, List.mem_append, List.mem_replicate, List.mem_singleton] at h
  rcases h with ⟨-, rfl⟩ | rfl
  · decide
  · cases placeholder.emission <;> decide

theorem mem_of_mem_written {c : Char} (h : c ∈ placeholder.written brackets) :
    c ∈ brackets.left ++ brackets.right ∨ c ∈ signs := by
  simp only [written, List.mem_append] at h ⊢
  rcases h with h | h | h
  · exact .inl (.inl h)
  · exact .inr (mem_signs_of_mem_body h)
  · exact .inl (.inr h)

theorem length_written (brackets : Brackets) (placeholder : Placeholder) :
    (placeholder.written brackets).length =
      brackets.width + placeholder.register.index + 1 + brackets.width := by
  simp only [written, body, Brackets.width, List.length_append, List.length_replicate,
    List.length_singleton, ← brackets.same_width]
  omega

theorem written_ne_nil (brackets : Brackets) (placeholder : Placeholder) :
    placeholder.written brackets ≠ [] := by
  simp [written, brackets.left_ne_nil]

/-! ## Reading what is written -/

theorem takeWhile_colons (emission : Emission) (count : Nat) (rest : List Char) :
    (List.replicate count ':' ++ emission.char :: rest).takeWhile (· == ':') =
      List.replicate count ':' := by
  have hstop : (emission.char == ':') = false := by cases emission <;> rfl
  rw [List.takeWhile_append_of_pos fun c hc => by simp [List.eq_of_mem_replicate hc]]
  simp [hstop]

theorem read?_written_append (brackets : Brackets) (placeholder : Placeholder)
    (rest : List Char) : read? brackets (placeholder.written brackets ++ rest) =
      some (placeholder, (placeholder.written brackets).length) := by
  have hbody : List.drop brackets.width (placeholder.written brackets ++ rest) =
      List.replicate placeholder.register.index ':' ++
        placeholder.emission.char :: (brackets.right ++ rest) := by
    simp [written, body, Brackets.width]
  have hemission : Emission.ofChar? placeholder.emission.char = some placeholder.emission :=
    Emission.ofChar?_eq_some_iff.mpr rfl
  have hcolons := takeWhile_colons placeholder.emission placeholder.register.index
    (brackets.right ++ rest)
  have hleft : brackets.left.isPrefixOf (placeholder.written brackets ++ rest) = true := by
    simp [written]
  simp only [read?, hleft, hbody, hcolons, if_true]
  simp [hemission, length_written]

theorem eq_of_read? {length : Nat} (h : read? brackets text = some (placeholder, length)) :
    placeholder.written brackets <+: text ∧ length = (placeholder.written brackets).length := by
  simp only [read?] at h
  split at h
  · next hleft =>
    obtain ⟨inner, rfl⟩ := List.isPrefixOf_iff_prefix.mp hleft
    simp only [Brackets.width, List.drop_left] at h
    split at h
    · cases h
    · next c rest hrest =>
      split at h
      · cases h
      · next emission hemission =>
        split at h
        · next hright =>
          cases h
          obtain ⟨after, rfl⟩ := List.isPrefixOf_iff_prefix.mp hright
          rw [Emission.ofChar?_eq_some_iff] at hemission
          subst hemission
          have hcolons : inner.takeWhile (· == ':') =
              List.replicate (inner.takeWhile (· == ':')).length ':' :=
            List.eq_replicate_iff.mpr
              ⟨rfl, fun c hc => by simpa using List.mem_takeWhile_imp hc⟩
          have htake := List.prefix_iff_eq_take.mp (List.takeWhile_prefix (l := inner) (· == ':'))
          have hinner := List.take_append_drop (inner.takeWhile (· == ':')).length inner
          rw [← htake, hrest, hcolons] at hinner
          refine ⟨⟨after, ?_⟩, ?_⟩
          · simp [written, body, hinner]
          · simp [length_written, Brackets.width]
        · cases h
  · cases h

theorem read?_eq_some_iff {length : Nat} :
    read? brackets text = some (placeholder, length) ↔
      placeholder.written brackets <+: text ∧
        length = (placeholder.written brackets).length := by
  constructor
  · exact eq_of_read?
  · rintro ⟨⟨rest, rfl⟩, rfl⟩
    exact read?_written_append brackets placeholder rest

theorem forall_emitted (property : String → Prop) {d : Dimension} {tuple : Tuple}
    (hname : property d.name)
    (htuple : ∀ entry ∈ tuple.entries, ∀ slot ∈ entry.2.entries,
      property slot.2.domain ∧ property slot.2.value)
    (placeholder : Placeholder) {text : String}
    (h : placeholder.emitted? d tuple = some text) : property text := by
  have hselected : ∀ selection,
      tuple.selection? d.name placeholder.register = some selection →
        property selection.domain ∧ property selection.value := by
    intro selection hselection
    obtain ⟨fragment, hfragment, hget⟩ := Option.bind_eq_some_iff.mp hselection
    exact htuple _ (OrderedMap.get?_eq_some_iff.mp hfragment) _
      (OrderedMap.get?_eq_some_iff.mp hget)
  obtain ⟨emission, register⟩ := placeholder
  cases emission with
  | name =>
      cases h
      exact hname
  | value =>
      obtain ⟨selection, hselection, rfl⟩ := Option.map_eq_some_iff.mp h
      exact (hselected selection hselection).2
  | domain =>
      obtain ⟨selection, hselection, rfl⟩ := Option.map_eq_some_iff.mp h
      exact (hselected selection hselection).1

theorem standsIn_iff : placeholder.StandsIn brackets text ↔
    placeholder.written brackets <:+: text := by
  simp only [StandsIn, read?_eq_some_iff]
  constructor
  · rintro ⟨rest, _, hsuffix, hstarts, -⟩
    exact hstarts.isInfix.trans hsuffix.isInfix
  · rintro ⟨before, after, rfl⟩
    exact ⟨placeholder.written brackets ++ after, _, ⟨before, by simp⟩,
      List.prefix_append _ _, rfl⟩

end Placeholder

/-! ## Texts that are filled in -/

def FilledIn (brackets : Brackets) (text : List Char) : Prop :=
  ∀ placeholder : Placeholder, ¬ placeholder.written brackets <:+: text

theorem filledIn_iff {brackets : Brackets} {text : List Char} : FilledIn brackets text ↔
    text.tails.all fun rest => (Placeholder.read? brackets rest).isNone := by
  simp only [FilledIn, ← Placeholder.standsIn_iff, Placeholder.StandsIn, not_exists, not_and,
    List.all_eq_true, List.mem_tails, Option.isNone_iff_eq_none, Option.eq_none_iff_forall_ne_some,
    Prod.forall]
  exact ⟨fun h rest hrest placeholder length => h placeholder rest length hrest,
    fun h placeholder rest length hrest => h rest hrest placeholder length⟩

instance (brackets : Brackets) (text : List Char) : Decidable (FilledIn brackets text) :=
  decidable_of_iff _ filledIn_iff.symm

variable {d : Dimension} {tuple : Tuple} {text : List Char}

theorem FilledIn.read?_eq_none {brackets : Brackets} (h : FilledIn brackets text) :
    Placeholder.read? brackets text = none := by
  rw [Option.eq_none_iff_forall_ne_some]
  rintro ⟨placeholder, length⟩ hread
  exact h placeholder (Placeholder.eq_of_read? hread).1.isInfix

theorem FilledIn.of_suffix {brackets : Brackets} (h : FilledIn brackets text) {rest : List Char}
    (hrest : rest <:+ text) : FilledIn brackets rest :=
  fun placeholder hpart => h placeholder (hpart.trans hrest.isInfix)

theorem interpolateDimension_of_filledIn (h : FilledIn d.brackets text) :
    interpolateDimension tuple d text = .ok text := by
  induction text with
  | nil => simp [interpolateDimension]
  | cons c rest ih =>
      rw [interpolateDimension, h.read?_eq_none, ih (h.of_suffix (List.suffix_cons c rest))]
      rfl

theorem foldlM_interpolateDimension_of_filledIn {dimensions : List Dimension}
    (h : ∀ d ∈ dimensions, FilledIn d.brackets text) :
    dimensions.foldlM (fun text d => interpolateDimension tuple d text) text = .ok text :=
  foldlM_eq_self fun d hd => interpolateDimension_of_filledIn (h d hd)

theorem interpolate_eq_ok_iff {dimensions : List Dimension} {value result : String} :
    interpolate dimensions tuple value = .ok result ↔
      dimensions.foldlM (fun text d => interpolateDimension tuple d text) value.toList =
        .ok result.toList := by
  simp only [interpolate, map_eq_ok_iff, mapError_eq_ok_iff]
  constructor
  · rintro ⟨text, htext, rfl⟩
    rw [htext, String.toList_ofList]
  · intro h
    exact ⟨result.toList, h, String.ofList_toList⟩

theorem interpolate_of_filledIn {dimensions : List Dimension} {value : String}
    (h : ∀ d ∈ dimensions, FilledIn d.brackets value.toList) :
    interpolate dimensions tuple value = .ok value :=
  interpolate_eq_ok_iff.mpr (foldlM_interpolateDimension_of_filledIn h)

/-! ## Filling in piece by piece -/

theorem Text.Clear.of_suffix {delimiter text rest : List Char} (h : Clear delimiter text)
    (hrest : rest <:+ text) : Clear delimiter rest where
  absent := fun hpart => h.absent (hpart.trans hrest.isInfix)
  last_not_mem := by
    intro c hc
    obtain ⟨before, rfl⟩ := hrest
    exact h.last_not_mem c (by simp [List.getLast?_append, hc])

theorem interpolateDimension_append_of_clear {before : List Char}
    (h : Text.Clear d.brackets.left before) (more : List Char) :
    interpolateDimension tuple d (before ++ more) =
      (interpolateDimension tuple d more).map (before ++ ·) := by
  induction before with
  | nil => cases hmore : interpolateDimension tuple d more <;> simp [hmore, Except.map]
  | cons c rest ih =>
      have hfirst : ¬ d.brackets.left <+: c :: (rest ++ more) :=
        h.not_occursAt more (Nat.zero_lt_succ _)
      have hread : Placeholder.read? d.brackets (c :: (rest ++ more)) = none := by
        simp [Placeholder.read?, hfirst]
      rw [List.cons_append, interpolateDimension, hread,
        ih (h.of_suffix (List.suffix_cons c rest))]
      cases interpolateDimension tuple d more <;> rfl

theorem interpolateDimension_written_append (placeholder : Placeholder) (more : List Char) :
    interpolateDimension tuple d (placeholder.written d.brackets ++ more) =
      placeholder.text d tuple >>= fun text =>
        (interpolateDimension tuple d more).map (text.toList ++ ·) := by
  obtain ⟨c, rest, hcons⟩ := List.exists_cons_of_ne_nil (placeholder.written_ne_nil d.brackets)
  have hread := placeholder.read?_written_append d.brackets more
  rw [hcons, List.cons_append] at hread
  rw [hcons, List.cons_append, interpolateDimension, hread]
  simp only [List.length_cons, Nat.add_sub_cancel, List.drop_left]
  cases placeholder.text d tuple <;> rfl

end Variants
