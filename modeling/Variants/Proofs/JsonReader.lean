import Variants.Proofs.JsonScalars
import Variants.Proofs.OrderedMap

/-!
# Reading JSON text

The reader takes every text of the grammar for the node that it stands for, if
containers are not nested too deeply.  The induction is on the derivation.  What
comes behind a value is left, but a number has to have come to its end there.
Readers for the parts of a container are given a bound on their number; a text
is longer than it has parts, so its length will do.
-/

namespace Variants.Json

/-! ## Blanks -/

theorem isSpace_iff {c : Char} : isSpace c = true ↔ c ∈ [' ', '\t', '\n', '\r'] := by
  simp [isSpace, or_assoc]

theorem skipSpace_cons {c : Char} (h : isSpace c = false) (text : List Char) :
    skipSpace (c :: text) = c :: text := by
  simp [skipSpace, h]

theorem skipSpace_append {blank : List Char} (h : IsBlank blank) (text : List Char) :
    skipSpace (blank ++ text) = skipSpace text :=
  List.dropWhile_append_of_pos fun c hc => isSpace_iff.mpr (h c hc)

theorem endsNumber_cons {c : Char} (rest : List Char)
    (h : c.isDigit = false ∧ c ≠ '.' ∧ c ≠ 'e' ∧ c ≠ 'E') : EndsNumber (c :: rest) := by
  rintro _ ⟨⟩
  exact h

theorem EndsNumber.append {blank rest : List Char} (hrest : EndsNumber rest)
    (hblank : IsBlank blank) : EndsNumber (blank ++ rest) := by
  cases blank with
  | nil => exact hrest
  | cons c blank =>
      have hc := (isBlank_cons_iff.mp hblank).1
      simp only [List.mem_cons, List.not_mem_nil, or_false] at hc
      rcases hc with rfl | rfl | rfl | rfl <;> exact endsNumber_cons _ (by decide)

/-! ## The start of a value -/

def OpensValue (text : List Char) : Prop :=
  ∃ c rest, text = c :: rest ∧ isSpace c = false ∧ c ≠ ']' ∧ c ≠ '}'

theorem OpensValue.append {text : List Char} (h : OpensValue text) (more : List Char) :
    OpensValue (text ++ more) := by
  obtain ⟨c, rest, rfl, hc⟩ := h
  exact ⟨c, rest ++ more, rfl, hc⟩

theorem OpensValue.skipSpace_eq {text : List Char} (h : OpensValue text) :
    skipSpace text = text := by
  obtain ⟨c, rest, rfl, hc, -⟩ := h
  exact skipSpace_cons hc rest

def nonNumeric : List Char :=
  [' ', '\t', '\n', '\r', '[', ']', '\x7b', '\x7d', '"', 'n', 't', 'f']

theorem exists_toString_eq_cons (n : Int) :
    ∃ c rest, (toString n).toList = c :: rest ∧ c ∉ nonNumeric := by
  rw [Text.toList_toString]
  split
  · obtain ⟨c, digits, hcons⟩ := List.exists_cons_of_ne_nil
      (Nat.toDigits_ne_nil (n := n.toNat) (b := 10))
    have hdigit : c.isDigit = true := Text.isDigit_of_mem_toDigits (n := n.toNat) (by simp [hcons])
    have hnone : nonNumeric.all (!·.isDigit) = true := by decide
    refine ⟨c, digits, hcons, fun hmem => ?_⟩
    simpa [hdigit] using List.all_eq_true.mp hnone c hmem
  · exact ⟨'-', _, rfl, by decide⟩

theorem opensValue_toString (n : Int) : OpensValue (toString n).toList := by
  obtain ⟨c, rest, hcons, hnot⟩ := exists_toString_eq_cons n
  refine ⟨c, rest, hcons, ?_⟩
  simp_all [nonNumeric, isSpace]

variable {text : List Char} {node : Node Number}

theorem IsValue.opens (h : IsValue Number.integer text node) : OpensValue text := by
  cases h with
  | null => exact ⟨'n', _, rfl, by decide⟩
  | boolean value => cases value <;> exact ⟨_, _, rfl, by decide⟩
  | integer value => exact opensValue_toString value.toInt
  | string h => exact ⟨'"', _, rfl, by decide⟩
  | noItems h | array h => exact ⟨'[', _, rfl, by decide⟩
  | noEntries h | object h hkeys => exact ⟨'\x7b', _, rfl, by decide⟩

theorem IsPadded.opens (h : IsPadded Number.integer text node) (rest : List Char) :
    OpensValue (skipSpace (text ++ rest)) := by
  cases h with
  | intro hbefore h hafter =>
      rw [List.append_assoc, skipSpace_append hbefore, List.append_assoc,
        (h.opens.append _).skipSpace_eq]
      exact h.opens.append _

theorem IsItems.opens {items : List (Node Number)} (h : IsItems Number.integer text items)
    (rest : List Char) : OpensValue (skipSpace (text ++ rest)) := by
  cases h with
  | last h => exact h.opens rest
  | cons h hrest =>
      rw [List.append_assoc]
      exact h.opens _

theorem IsEntry.opens {entry : String × Node Number} (h : IsEntry Number.integer text entry)
    (rest : List Char) : OpensValue (skipSpace (text ++ rest)) := by
  cases h with
  | intro hbefore hkey hafter h =>
      rw [List.append_assoc, skipSpace_append hbefore, List.cons_append,
        skipSpace_cons (by decide)]
      exact ⟨'"', _, rfl, by decide⟩

theorem IsEntries.opens {entries : List (String × Node Number)}
    (h : IsEntries Number.integer text entries) (rest : List Char) :
    OpensValue (skipSpace (text ++ rest)) := by
  cases h with
  | last h => exact h.opens rest
  | cons h hrest =>
      rw [List.append_assoc]
      exact h.opens _

/-! ## Scalars -/

theorem readValue_of_not_container {bound room : Nat} {c : Char} {text : List Char}
    (hlist : c ≠ '[') (hobject : c ≠ '\x7b') :
    readValue bound room (c :: text) = readScalar (c :: text) := by
  cases room <;> unfold readValue <;> split <;> simp_all

theorem readValue_integer (bound room : Nat) (value : Int64) {rest : List Char}
    (hrest : EndsNumber rest) :
    readValue bound room ((toString value.toInt).toList ++ rest) =
      .ok (.number (.integer value), rest) := by
  have hread := readNumber_integer value hrest
  obtain ⟨c, digits, hcons, hnot⟩ := exists_toString_eq_cons value.toInt
  simp only [nonNumeric, List.mem_cons, not_or] at hnot
  rw [hcons, List.cons_append] at hread ⊢
  rw [readValue_of_not_container (by simp [hnot]) (by simp [hnot])]
  unfold readScalar
  split <;> simp_all

theorem readValue_string (bound room : Nat) {chars : List Char} (h : IsString text chars)
    (rest : List Char) :
    readValue bound room ('"' :: (text ++ '"' :: rest)) =
      .ok (.string (String.ofList chars), rest) := by
  rw [readValue_of_not_container (by decide) (by decide), readScalar, readString_string h]
  rfl

/-! ## Containers -/

theorem afterComma_of_opensValue {closing : Char} {rest : List Char}
    (h : OpensValue (skipSpace rest)) (hclosing : closing = ']' ∨ closing = '\x7d') :
    afterComma closing rest = .ok (skipSpace rest) := by
  obtain ⟨c, more, hcons, -, hlist, hobject⟩ := h
  have hne : c ≠ closing := by rcases hclosing with rfl | rfl <;> assumption
  rw [afterComma, hcons]
  simp [hne]

theorem readArray_of_isItems {reader : Reader} {bound : Nat} {items : List (Node Number)}
    (h : IsItems Number.integer text items) (rest : List Char)
    (hread : readItems reader bound (skipSpace (text ++ ']' :: rest)) = .ok (items, rest)) :
    readArray reader bound (text ++ ']' :: rest) = .ok (.array items, rest) := by
  obtain ⟨c, more, hcons, -, hclose, -⟩ := h.opens (']' :: rest)
  rw [hcons] at hread
  rw [readArray, hcons]
  split <;> simp_all [Except.map]

theorem readObject_of_isEntries {reader : Reader} {bound : Nat}
    {entries : List (String × Node Number)} (h : IsEntries Number.integer text entries)
    (hkeys : (Entries.keys entries).Nodup) (rest : List Char)
    (hread : readEntries reader bound (skipSpace (text ++ '\x7d' :: rest)) =
      .ok (entries, rest)) :
    readObject reader bound (text ++ '\x7d' :: rest) = .ok (.object entries, rest) := by
  obtain ⟨c, more, hcons, -, -, hclose⟩ := h.opens ('\x7d' :: rest)
  rw [hcons] at hread
  rw [readObject, hcons]
  split <;> simp_all [Except.map, Entries.ofList_of_nodup hkeys]

theorem IsItems.length_le {text : List Char} {items : List (Node Number)} :
    IsItems Number.integer text items → items.length ≤ text.length + 1
  | .last h => by simp
  | .cons h hrest => by
      have hle := hrest.length_le
      simp only [List.length_cons, List.length_append]
      omega

theorem IsEntries.length_le {text : List Char} {entries : List (String × Node Number)} :
    IsEntries Number.integer text entries → entries.length ≤ text.length + 1
  | .last h => by simp
  | .cons h hrest => by
      have hle := hrest.length_le
      simp only [List.length_cons, List.length_append]
      omega

/-! ## Values -/

variable {bound : Nat}

mutual

theorem readValue_of_isValue {text : List Char} {node : Node Number} {room : Nat} :
    IsValue Number.integer text node → node.depth ≤ room → text.length ≤ bound →
      ∀ rest, EndsNumber rest → readValue bound room (text ++ rest) = .ok (node, rest)
  | .null, _, _, rest, _ => by cases room <;> rfl
  | .boolean value, _, _, rest, _ => by cases value <;> cases room <;> rfl
  | .integer value, _, _, rest, hrest => readValue_integer bound room value hrest
  | .string h, _, _, rest, _ => by
      simpa using readValue_string bound room h rest
  | .noItems h, hdepth, _, rest, _ => by
      obtain ⟨room, rfl⟩ := Nat.exists_eq_add_of_lt hdepth
      simp [readValue, readArray, skipSpace_append h, skipSpace_cons (c := ']') rfl]
  | .array h, hdepth, hlength, rest, _ => by
      obtain ⟨room, rfl⟩ := Nat.exists_eq_add_of_lt hdepth
      simp only [List.length_cons, List.length_append] at hlength
      have hcount := h.length_le
      have hread := readItems_of_isItems h (Nat.le_add_right _ room) (by omega) bound
        (by omega) rest
      simpa [readValue] using readArray_of_isItems h rest hread
  | .noEntries h, hdepth, _, rest, _ => by
      obtain ⟨room, rfl⟩ := Nat.exists_eq_add_of_lt hdepth
      simp [readValue, readObject, skipSpace_append h, skipSpace_cons (c := '\x7d') rfl]
  | .object h hkeys, hdepth, hlength, rest, _ => by
      obtain ⟨room, rfl⟩ := Nat.exists_eq_add_of_lt hdepth
      simp only [List.length_cons, List.length_append] at hlength
      have hcount := h.length_le
      have hread := readEntries_of_isEntries h (Nat.le_add_right _ room) (by omega) bound
        (by omega) rest
      simpa [readValue] using readObject_of_isEntries h hkeys rest hread

theorem readValue_of_isPadded {text : List Char} {node : Node Number} {room : Nat} :
    IsPadded Number.integer text node → node.depth ≤ room → text.length ≤ bound →
      ∀ rest, EndsNumber rest → ∃ more, skipSpace more = skipSpace rest ∧
        readValue bound room (skipSpace (text ++ rest)) = .ok (node, more)
  | @IsPadded.intro _ _ _ text after _ hbefore h hafter, hdepth, hlength, rest, hrest => by
      simp only [List.length_append] at hlength
      refine ⟨after ++ rest, skipSpace_append hafter rest, ?_⟩
      rw [List.append_assoc, skipSpace_append hbefore, List.append_assoc,
        (h.opens.append _).skipSpace_eq]
      exact readValue_of_isValue h hdepth (by omega) _ (hrest.append hafter)

theorem readItems_of_isItems {text : List Char} {items : List (Node Number)} {room : Nat} :
    IsItems Number.integer text items → Node.depthOfItems items ≤ room → text.length ≤ bound →
      ∀ count, items.length ≤ count → ∀ rest,
        readItems (readValue bound room) count (skipSpace (text ++ ']' :: rest)) =
          .ok (items, rest)
  | .last h, hdepth, hlength, count + 1, _, rest => by
      obtain ⟨hfirst, -⟩ := Nat.max_le.mp hdepth
      obtain ⟨more, hmore, hread⟩ := readValue_of_isPadded h hfirst hlength (']' :: rest)
        (endsNumber_cons _ (by decide))
      rw [skipSpace_cons (by decide)] at hmore
      simp [readItems, hread, hmore, bind, Except.bind, pure, Except.pure]
  | @IsItems.cons _ _ _ others _ _ h hrest, hdepth, hlength, count + 1, hcount, rest => by
      obtain ⟨hfirst, hrooms⟩ := Nat.max_le.mp hdepth
      simp only [List.length_cons, List.length_append] at hlength hcount
      obtain ⟨more, hmore, hread⟩ := readValue_of_isPadded h hfirst (by omega)
        (',' :: (others ++ ']' :: rest)) (endsNumber_cons _ (by decide))
      have hothers := readItems_of_isItems hrest hrooms (by omega) count (by omega) rest
      have hafter := afterComma_of_opensValue (hrest.opens (']' :: rest)) (.inl rfl)
      rw [skipSpace_cons (by decide)] at hmore
      rw [List.append_assoc, List.cons_append]
      simp [readItems, hread, hmore, hafter, hothers, bind, Except.bind, pure, Except.pure]

theorem readEntry_of_isEntry {text : List Char} {entry : String × Node Number} {room : Nat} :
    IsEntry Number.integer text entry → entry.2.depth ≤ room → text.length ≤ bound →
      ∀ rest, EndsNumber rest → ∃ more, skipSpace more = skipSpace rest ∧
        readEntry (readValue bound room) (skipSpace (text ++ rest)) = .ok (entry, more)
  | @IsEntry.intro _ _ _ key after text _ _ hbefore hkey hafter h, hdepth, hlength,
      rest, hrest => by
      simp only [List.length_cons, List.length_append] at hlength
      obtain ⟨more, hmore, hread⟩ := readValue_of_isPadded h hdepth (by omega) rest hrest
      refine ⟨more, hmore, ?_⟩
      have hcolon : skipSpace (after ++ ':' :: (text ++ rest)) = ':' :: (text ++ rest) := by
        rw [skipSpace_append hafter, skipSpace_cons (by decide)]
      have hstring := readString_string hkey (after ++ ':' :: (text ++ rest))
      rw [List.append_assoc, skipSpace_append hbefore, List.cons_append,
        skipSpace_cons (by decide)]
      simp [readEntry, hstring, hcolon, hread, bind, Except.bind, pure, Except.pure]

theorem readEntries_of_isEntries {text : List Char} {entries : List (String × Node Number)}
    {room : Nat} :
    IsEntries Number.integer text entries → Node.depthOfEntries entries ≤ room →
      text.length ≤ bound → ∀ count, entries.length ≤ count → ∀ rest,
        readEntries (readValue bound room) count (skipSpace (text ++ '\x7d' :: rest)) =
          .ok (entries, rest)
  | .last h, hdepth, hlength, count + 1, _, rest => by
      obtain ⟨hfirst, -⟩ := Nat.max_le.mp hdepth
      obtain ⟨more, hmore, hread⟩ := readEntry_of_isEntry h hfirst hlength ('\x7d' :: rest)
        (endsNumber_cons _ (by decide))
      rw [skipSpace_cons (by decide)] at hmore
      simp [readEntries, hread, hmore, bind, Except.bind, pure, Except.pure]
  | @IsEntries.cons _ _ _ others _ _ h hrest, hdepth, hlength, count + 1, hcount, rest => by
      obtain ⟨hfirst, hrooms⟩ := Nat.max_le.mp hdepth
      simp only [List.length_cons, List.length_append] at hlength hcount
      obtain ⟨more, hmore, hread⟩ := readEntry_of_isEntry h hfirst (by omega)
        (',' :: (others ++ '\x7d' :: rest)) (endsNumber_cons _ (by decide))
      have hothers := readEntries_of_isEntries hrest hrooms (by omega) count (by omega) rest
      have hafter := afterComma_of_opensValue (hrest.opens ('\x7d' :: rest)) (.inr rfl)
      rw [skipSpace_cons (by decide)] at hmore
      rw [List.append_assoc, List.cons_append]
      simp [readEntries, hread, hmore, hafter, hothers, bind, Except.bind, pure, Except.pure]

end

theorem readAll_of_isPadded (h : IsPadded Number.integer text node)
    (hdepth : node.depth ≤ maxDepth) : readAll text = .ok node := by
  obtain ⟨more, hmore, hread⟩ := readValue_of_isPadded h hdepth (Nat.le_refl _) []
    (fun _ h => nomatch h)
  have hend : skipSpace more = [] := hmore
  rw [List.append_nil] at hread
  simp [readAll, hread, hend, bind, Except.bind, pure, Except.pure]

end Variants.Json
