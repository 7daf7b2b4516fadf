import Mathlib.Data.List.Forall2
import Variants.Json.Printer

/-!
# The grammar of JSON text

Which node a text stands for, as far as its numbers are integers of 64 bits and
its objects list no key twice.  Blanks may stand around every value and around
every key, so a text may be laid out in many ways: whatever stands at the start
of its lines, as long as these are blanks, it stands for the same node.
-/

namespace Variants

/-! ## Digits -/

namespace Text

theorem isSome_digitIn?_of_natural? {base n : Nat} {digits : List Char} {c : Char}
    (h : natural? base digits = some n) (hmem : c ∈ digits) :
    (digitIn? base c).isSome = true := by
  unfold natural? at h
  generalize 0 = start at h
  induction digits generalizing start with
  | nil => cases hmem
  | cons first rest ih =>
      rw [List.foldlM_cons, Option.bind_eq_bind, Option.bind_eq_some_iff] at h
      obtain ⟨next, hfirst, hrest⟩ := h
      rcases List.mem_cons.mp hmem with rfl | hmem
      · obtain ⟨digit, hdigit, -⟩ := Option.map_eq_some_iff.mp hfirst
        rw [hdigit]
        rfl
      · exact ih hmem next hrest

theorem isDigit_of_mem_toDigits {n : Nat} {c : Char} (h : c ∈ Nat.toDigits 10 n) :
    c.isDigit = true :=
  Nat.isDigit_of_mem_toDigits (by decide) (by decide) h

theorem toList_toString (n : Int) :
    (toString n).toList =
      if 0 ≤ n then Nat.toDigits 10 n.toNat else '-' :: Nat.toDigits 10 (-n).toNat := by
  rw [Int.toString_eq_repr, Int.repr_eq_if]
  split
  · exact Nat.toList_repr
  · rw [String.toList_append, Nat.toList_repr]
    rfl

end Text

namespace Json

/-! ## Strings -/

/-- The letters behind a backslash, with the characters that they stand for. -/
def letters : List (Char × Char) :=
  [('"', '"'), ('\\', '\\'), ('/', '/'), ('b', '\x08'), ('f', '\x0c'), ('n', '\n'), ('r', '\r'),
    ('t', '\t')]

/-- A character as it is, or escaped: by a letter, by its number, or by two surrogates. -/
inductive IsCharacter : List Char → Char → Prop
  | plain {c : Char} (hquote : c ≠ '"') (hbackslash : c ≠ '\\') (hcontrol : 0x20 ≤ c.toNat) :
      IsCharacter [c] c
  | letter {letter c : Char} (h : (letter, c) ∈ letters) : IsCharacter ['\\', letter] c
  | unit {a b c d : Char} {unit : Nat} (h : Text.natural? 16 [a, b, c, d] = some unit)
      (hsingle : unit < 0xD800 ∨ 0xE000 ≤ unit) :
      IsCharacter ['\\', 'u', a, b, c, d] (Char.ofNat unit)
  | pair {a b c d e f g h : Char} {high low : Nat}
      (hhigh : Text.natural? 16 [a, b, c, d] = some (0xD800 + high))
      (hlow : Text.natural? 16 [e, f, g, h] = some (0xDC00 + low))
      (hpair : high < 0x400 ∧ low < 0x400) :
      IsCharacter ['\\', 'u', a, b, c, d, '\\', 'u', e, f, g, h]
        (Char.ofNat (0x10000 + high * 0x400 + low))

/-- The text between two quotes. -/
inductive IsString : List Char → List Char → Prop
  | nil : IsString [] []
  | cons {text rest chars : List Char} {c : Char} (hfirst : IsCharacter text c)
      (hrest : IsString rest chars) : IsString (text ++ rest) (c :: chars)

/-! ## Values -/

def IsBlank (text : List Char) : Prop := ∀ c ∈ text, c ∈ [' ', '\t', '\n', '\r']

instance (text : List Char) : Decidable (IsBlank text) :=
  List.decidableBAll (· ∈ [' ', '\t', '\n', '\r']) text

section

variable {ν : Type} (ofInteger : Int64 → ν)

mutual

inductive IsValue : List Char → Node ν → Prop
  | null : IsValue ['n', 'u', 'l', 'l'] .null
  | boolean (value : Bool) : IsValue (toString value).toList (.boolean value)
  | integer (value : Int64) : IsValue (toString value.toInt).toList (.number (ofInteger value))
  | string {text chars : List Char} (h : IsString text chars) :
      IsValue ('"' :: (text ++ ['"'])) (.string (String.ofList chars))
  | noItems {blank : List Char} (h : IsBlank blank) : IsValue ('[' :: (blank ++ [']'])) (.array [])
  | array {text : List Char} {items : List (Node ν)} (h : IsItems text items) :
      IsValue ('[' :: (text ++ [']'])) (.array items)
  | noEntries {blank : List Char} (h : IsBlank blank) :
      IsValue ('{' :: (blank ++ ['}'])) (.object [])
  | object {text : List Char} {entries : List (String × Node ν)} (h : IsEntries text entries)
      (hkeys : (Entries.keys entries).Nodup) : IsValue ('{' :: (text ++ ['}'])) (.object entries)

/-- A value with blanks around it, such as a whole document. -/
inductive IsPadded : List Char → Node ν → Prop
  | intro {before text after : List Char} {node : Node ν} (hbefore : IsBlank before)
      (h : IsValue text node) (hafter : IsBlank after) :
      IsPadded (before ++ (text ++ after)) node

inductive IsItems : List Char → List (Node ν) → Prop
  | last {text : List Char} {item : Node ν} (h : IsPadded text item) : IsItems text [item]
  | cons {text rest : List Char} {item : Node ν} {items : List (Node ν)} (h : IsPadded text item)
      (hrest : IsItems rest items) : IsItems (text ++ ',' :: rest) (item :: items)

inductive IsEntry : List Char → String × Node ν → Prop
  | intro {before key after text chars : List Char} {node : Node ν} (hbefore : IsBlank before)
      (hkey : IsString key chars) (hafter : IsBlank after) (h : IsPadded text node) :
      IsEntry (before ++ '"' :: (key ++ '"' :: (after ++ ':' :: text))) (String.ofList chars, node)

inductive IsEntries : List Char → List (String × Node ν) → Prop
  | last {text : List Char} {entry : String × Node ν} (h : IsEntry text entry) :
      IsEntries text [entry]
  | cons {text rest : List Char} {entry : String × Node ν} {entries : List (String × Node ν)}
      (h : IsEntry text entry) (hrest : IsEntries rest entries) :
      IsEntries (text ++ ',' :: rest) (entry :: entries)

end

end

/-! ## Nesting -/

namespace Node

variable {ν : Type}

mutual

def depth : Node ν → Nat
  | .array items => depthOfItems items + 1
  | .object entries => depthOfEntries entries + 1
  | _ => 0

def depthOfItems : List (Node ν) → Nat
  | [] => 0
  | item :: rest => max (depth item) (depthOfItems rest)

def depthOfEntries : List (String × Node ν) → Nat
  | [] => 0
  | (_, node) :: rest => max (depth node) (depthOfEntries rest)

end

end Node

/-! ## Blanks -/

variable {ν : Type} {ofInteger : Int64 → ν}

theorem IsBlank.nil : IsBlank [] := by
  intro c h
  cases h

theorem isBlank_cons_iff {c : Char} {text : List Char} :
    IsBlank (c :: text) ↔ c ∈ [' ', '\t', '\n', '\r'] ∧ IsBlank text :=
  List.forall_mem_cons

theorem IsBlank.append {left right : List Char} (hleft : IsBlank left) (hright : IsBlank right) :
    IsBlank (left ++ right) :=
  List.forall_mem_append.mpr ⟨hleft, hright⟩

theorem IsValue.padded {text : List Char} {node : Node ν} (h : IsValue ofInteger text node) :
    IsPadded ofInteger text node := by
  simpa using IsPadded.intro .nil h .nil

theorem IsPadded.pad {text : List Char} {node : Node ν} (h : IsPadded ofInteger text node)
    {before after : List Char} (hbefore : IsBlank before) (hafter : IsBlank after) :
    IsPadded ofInteger (before ++ (text ++ after)) node := by
  cases h with
  | intro hfirst hvalue hlast =>
      simpa using IsPadded.intro (hbefore.append hfirst) hvalue (hlast.append hafter)

theorem IsEntry.pad {text : List Char} {entry : String × Node ν} (h : IsEntry ofInteger text entry)
    {before after : List Char} (hbefore : IsBlank before) (hafter : IsBlank after) :
    IsEntry ofInteger (before ++ (text ++ after)) entry := by
  cases h with
  | intro hfirst hkey hcolon hvalue =>
      simpa using IsEntry.intro (hbefore.append hfirst) hkey hcolon (hvalue.pad .nil hafter)

/-! ## Blanks at the start of lines -/

theorem shift_cons (c : Char) (text : List Char) :
    shift (c :: text) = (if c = '\n' then ['\n', ' ', ' '] else [c]) ++ shift text :=
  List.flatMap_cons

theorem shift_append (left right : List Char) :
    shift (left ++ right) = shift left ++ shift right :=
  List.flatMap_append

theorem shift_eq_self {text : List Char} (h : '\n' ∉ text) : shift text = text := by
  induction text with
  | nil => rfl
  | cons c text ih =>
      rw [List.mem_cons, not_or] at h
      rw [shift_cons, if_neg (Ne.symm h.1), ih h.2]
      rfl

@[simp] theorem shift_nil : shift [] = [] := rfl

theorem IsBlank.shift {text : List Char} (h : IsBlank text) : IsBlank (shift text) := by
  have hblank : IsBlank ['\n', ' ', ' '] := by decide
  intro c hc
  obtain ⟨other, hother, hc⟩ := List.mem_flatMap.mp hc
  split at hc
  · exact hblank c hc
  · rw [List.mem_singleton.mp hc]
    exact h other hother

theorem newline_not_mem_toString (n : Int) : '\n' ∉ (toString n).toList := by
  have hdigits : ∀ n : Nat, '\n' ∉ Nat.toDigits 10 n := by
    intro n h
    cases Text.isDigit_of_mem_toDigits h
  rw [Text.toList_toString]
  split
  · exact hdigits _
  · simp [hdigits]

theorem IsCharacter.newline_not_mem {text : List Char} {c : Char} (h : IsCharacter text c) :
    '\n' ∉ text := by
  have hunit : ∀ {digits : List Char} {unit : Nat},
      Text.natural? 16 digits = some unit → '\n' ∉ digits := by
    intro digits unit hunit hmem
    cases Text.isSome_digitIn?_of_natural? hunit hmem
  cases h with
  | plain hquote hbackslash hcontrol =>
      rw [List.mem_singleton]
      rintro rfl
      exact absurd hcontrol (by decide)
  | letter h =>
      have hletters : ∀ entry ∈ letters, '\n' ∉ ['\\', entry.1] := by decide
      exact hletters _ h
  | unit h hsingle =>
      simpa using hunit h
  | pair hhigh hlow hpair =>
      have hdigits := hunit hhigh
      have hmore := hunit hlow
      simp only [List.mem_cons, List.not_mem_nil, or_false, not_or] at hdigits hmore
      simp [hdigits, hmore]

theorem IsString.newline_not_mem {text chars : List Char} (h : IsString text chars) :
    '\n' ∉ text := by
  induction h with
  | nil => simp
  | cons hfirst hrest ih => simp [hfirst.newline_not_mem, ih]

mutual

theorem IsValue.shift {text : List Char} {node : Node ν} :
    IsValue ofInteger text node → IsValue ofInteger (shift text) node
  | .null => .null
  | .boolean value => by
      rw [shift_eq_self (by cases value <;> decide)]
      exact .boolean value
  | .integer value => by
      rw [shift_eq_self (newline_not_mem_toString _)]
      exact .integer value
  | .string h => by
      rw [shift_eq_self (by simp [h.newline_not_mem])]
      exact .string h
  | .noItems h => by
      simpa [shift_cons, shift_append] using IsValue.noItems h.shift
  | .array h => by
      simpa [shift_cons, shift_append] using IsValue.array h.shift
  | .noEntries h => by
      simpa [shift_cons, shift_append] using IsValue.noEntries h.shift
  | .object h hkeys => by
      simpa [shift_cons, shift_append] using IsValue.object h.shift hkeys

theorem IsPadded.shift {text : List Char} {node : Node ν} :
    IsPadded ofInteger text node → IsPadded ofInteger (shift text) node
  | .intro hbefore h hafter => by
      rw [shift_append, shift_append]
      exact .intro hbefore.shift h.shift hafter.shift

theorem IsItems.shift {text : List Char} {items : List (Node ν)} :
    IsItems ofInteger text items → IsItems ofInteger (shift text) items
  | .last h => .last h.shift
  | .cons h hrest => by
      rw [shift_append, shift_cons]
      exact .cons h.shift hrest.shift

theorem IsEntry.shift {text : List Char} {entry : String × Node ν} :
    IsEntry ofInteger text entry → IsEntry ofInteger (shift text) entry
  | .intro hbefore hkey hafter h => by
      have hself := shift_eq_self hkey.newline_not_mem
      simpa [shift_append, shift_cons, hself] using
        IsEntry.intro hbefore.shift hkey hafter.shift h.shift

theorem IsEntries.shift {text : List Char} {entries : List (String × Node ν)} :
    IsEntries ofInteger text entries → IsEntries ofInteger (shift text) entries
  | .last h => .last h.shift
  | .cons h hrest => by
      rw [shift_append, shift_cons]
      exact .cons h.shift hrest.shift

end

/-! ## Written text -/

theorem natural?_hexDigits : ∀ n < 0x20,
    Text.natural? 16 ['0', '0', Text.hexDigit (n / 16), Text.hexDigit (n % 16)] = some n := by
  decide

theorem isCharacter_escape (c : Char) : IsCharacter (escape c) c := by
  unfold escape
  split
  · exact .letter (by decide)
  · exact .letter (by decide)
  · exact .letter (by decide)
  · exact .letter (by decide)
  · exact .letter (by decide)
  · exact .letter (by decide)
  · exact .letter (by decide)
  · next hquote hbackslash _ _ _ _ _ =>
      split
      · next hcontrol =>
          have hunit := natural?_hexDigits c.toNat hcontrol
          have hcharacter := IsCharacter.unit hunit (.inl (by omega))
          rwa [Char.ofNat_toNat] at hcharacter
      · next hcontrol => exact .plain hquote hbackslash (by omega)

theorem isString_escape (chars : List Char) : IsString (chars.flatMap escape) chars := by
  induction chars with
  | nil => exact .nil
  | cons c chars ih =>
      rw [List.flatMap_cons]
      exact .cons (isCharacter_escape c) ih

theorem isValue_quote (text : String) : IsValue ofInteger (quote text) (.string text) := by
  have h : IsValue ofInteger _ _ := .string (isString_escape text.toList)
  simpa [quote] using h

theorem isEntry_quote (key : String) (style : Style) {text : List Char} {node : Node ν}
    (h : IsValue ofInteger text node) :
    IsEntry ofInteger (quote key ++ style.colon ++ text) (key, node) := by
  have hkey := isString_escape key.toList
  cases style with
  | compact => simpa [quote, Style.colon] using IsEntry.intro .nil hkey .nil h.padded
  | indented =>
      have hblank : IsBlank [' '] := by decide
      simpa [quote, Style.colon] using IsEntry.intro .nil hkey .nil (h.padded.pad hblank .nil)

/-- Texts of parts with commas between them make up the text of a list.  The parts may be
moved apart by blanks, and the lines of each may be shifted. -/
structure CommaSeparated {α : Type} (IsPart : List Char → α → Prop)
    (IsList : List Char → List α → Prop) : Prop where
  last : ∀ {text a}, IsPart text a → IsList text [a]
  cons : ∀ {text rest a as}, IsPart text a → IsList rest as → IsList (text ++ ',' :: rest) (a :: as)
  pad : ∀ {text a}, IsPart text a → ∀ {before after}, IsBlank before → IsBlank after →
    IsPart (before ++ (text ++ after)) a
  shift : ∀ {text a}, IsPart text a → IsPart (shift text) a

theorem commaSeparated_items : CommaSeparated (IsPadded ofInteger) (IsItems ofInteger) :=
  ⟨.last, .cons, .pad, .shift⟩

theorem commaSeparated_entries : CommaSeparated (IsEntry ofInteger) (IsEntries ofInteger) :=
  ⟨.last, .cons, .pad, .shift⟩

namespace CommaSeparated

variable {α : Type} {IsPart : List Char → α → Prop} {IsList : List Char → List α → Prop}
  {parts : List (List Char)} {as : List α}

theorem intercalate (h : CommaSeparated IsPart IsList) (hparts : List.Forall₂ IsPart parts as)
    (hne : parts ≠ []) : IsList ([','].intercalate parts) as := by
  induction hparts with
  | nil => exact absurd rfl hne
  | cons hfirst hrest ih =>
      cases hrest with
      | nil => simpa [List.intercalate] using h.last hfirst
      | cons hnext hrest => simpa [List.intercalate] using h.cons hfirst (ih (List.cons_ne_nil _ _))

theorem intercalate_lines (h : CommaSeparated IsPart IsList)
    (hparts : List.Forall₂ IsPart parts as) (hne : parts ≠ []) :
    IsList ('\n' :: ([',', '\n'].intercalate parts ++ ['\n'])) as := by
  have hbreak : IsBlank ['\n'] := by decide
  induction hparts with
  | nil => exact absurd rfl hne
  | cons hfirst hrest ih =>
      cases hrest with
      | nil => simpa [List.intercalate] using h.last (h.pad hfirst hbreak hbreak)
      | cons hnext hrest =>
          simpa [List.intercalate] using
            h.cons (h.pad hfirst hbreak .nil) (ih (List.cons_ne_nil _ _))

theorem enclose (h : CommaSeparated IsPart IsList) (style : Style) (opening closing : Char)
    (hparts : List.Forall₂ IsPart parts as) (hne : parts ≠ []) :
    ∃ inside, IsList inside as ∧
      style.enclose opening closing parts = opening :: (inside ++ [closing]) := by
  cases style with
  | compact => exact ⟨_, h.intercalate hparts hne, rfl⟩
  | indented =>
      have hblanks : IsBlank [' ', ' '] := by decide
      have hlines : List.Forall₂ IsPart (parts.map indent) as := by
        refine List.forall₂_map_left_iff.mpr (hparts.imp fun part a hpart => ?_)
        simpa [indent] using h.pad (h.shift hpart) hblanks .nil
      refine ⟨_, h.intercalate_lines hlines (by simpa using hne), ?_⟩
      obtain ⟨part, parts, rfl⟩ := List.exists_cons_of_ne_nil hne
      simp [Style.enclose]

end CommaSeparated

theorem isValue_array (style : Style) {parts : List (List Char)} {items : List (Node ν)}
    (h : List.Forall₂ (IsValue ofInteger) parts items) :
    IsValue ofInteger (style.enclose '[' ']' parts) (.array items) := by
  cases h with
  | nil => cases style <;> exact .noItems .nil
  | cons hfirst hrest =>
      have hparts := (List.Forall₂.cons hfirst hrest).imp fun _ _ => IsValue.padded
      obtain ⟨inside, hinside, henclose⟩ :=
        commaSeparated_items.enclose style '[' ']' hparts (List.cons_ne_nil _ _)
      rw [henclose]
      exact .array hinside

theorem isValue_object (style : Style) {parts : List (List Char)}
    {entries : List (String × Node ν)} (h : List.Forall₂ (IsEntry ofInteger) parts entries)
    (hkeys : (Entries.keys entries).Nodup) :
    IsValue ofInteger (style.enclose '{' '}' parts) (.object entries) := by
  cases h with
  | nil => cases style <;> exact .noEntries .nil
  | cons hfirst hrest =>
      obtain ⟨inside, hinside, henclose⟩ :=
        commaSeparated_entries.enclose style '{' '}' (.cons hfirst hrest) (List.cons_ne_nil _ _)
      rw [henclose]
      exact .object hinside hkeys

end Json

end Variants
