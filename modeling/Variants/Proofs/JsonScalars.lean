import Variants.Json.Reader
import Variants.Proofs.JsonGrammar

/-!
# Scalars in JSON text

What the grammar has for a string or an integer is read as such, and the text
behind it is left.  In a string each character is undone on its own, in
whichever way it was escaped.  Numbers have no end of their own, so nothing may
follow that could continue them.
-/

namespace Variants

/-! ## Digits -/

namespace Text

theorem readDigits_append {digits rest : List Char} (hdigits : ∀ c ∈ digits, c.isDigit = true)
    (hrest : ∀ c, rest.head? = some c → c.isDigit = false) :
    readDigits (digits ++ rest) = (digits.map fun c => c.toNat - '0'.toNat, rest) := by
  have hnone : rest.takeWhile Char.isDigit = [] ∧ rest.dropWhile Char.isDigit = rest := by
    cases rest with
    | nil => exact ⟨rfl, rfl⟩
    | cons c rest => simp [hrest c rfl]
  rw [readDigits, List.takeWhile_append_of_pos hdigits, List.dropWhile_append_of_pos hdigits,
    hnone.1, hnone.2, List.append_nil]

def digitsOf (n : Nat) : List Nat := (Nat.toDigits 10 n).map fun c => c.toNat - '0'.toNat

@[simp] theorem ofDigits_digitsOf (n : Nat) : ofDigits (digitsOf n) = n := by
  rw [ofDigits, digitsOf, List.foldl_map, ← Nat.ofDigitChars_eq_foldl,
    Nat.ofDigitChars_ten_toDigits]

theorem exists_digitsOf_eq_cons (n : Nat) (hpos : 0 < n) :
    ∃ first rest, digitsOf n = first :: rest ∧ first ≠ 0 := by
  induction n using Nat.strongRecOn with
  | ind n ih =>
      rcases Nat.lt_or_ge n 10 with hlt | hge
      · refine ⟨n.digitChar.toNat - '0'.toNat, [], ?_, ?_⟩
        · rw [digitsOf, Nat.toDigits_of_lt_base hlt]
          rfl
        · have hvalue : n.digitChar.toNat - '0'.toNat = n :=
            Nat.toNat_digitChar_sub_48_of_lt_ten hlt
          omega
      · obtain ⟨first, rest, hcons, hne⟩ := ih (n / 10) (by omega) (by omega)
        refine ⟨first, rest ++ [(n % 10).digitChar.toNat - '0'.toNat], ?_, hne⟩
        rw [digitsOf, Nat.toDigits_of_base_le (by decide) hge, List.map_append, ← digitsOf, hcons]
        rfl

end Text

namespace Json

/-! ## Strings -/

theorem isHighSurrogate_iff {unit : Nat} :
    isHighSurrogate unit = true ↔ 0xD800 ≤ unit ∧ unit < 0xDC00 := by
  rw [isHighSurrogate, Bool.and_eq_true, decide_eq_true_eq, decide_eq_true_eq]

theorem isLowSurrogate_iff {unit : Nat} :
    isLowSurrogate unit = true ↔ 0xDC00 ≤ unit ∧ unit < 0xE000 := by
  rw [isLowSurrogate, Bool.and_eq_true, decide_eq_true_eq, decide_eq_true_eq]

theorem readString_cons {c : Char} (hquote : c ≠ '"') (hbackslash : c ≠ '\\')
    (hcontrol : 0x20 ≤ c.toNat) (rest : List Char) :
    readString (c :: rest) = (readString rest).map fun (more, rest) => (c :: more, rest) := by
  rw [readString, if_neg hbackslash, if_neg (by omega)]
  · exact hquote
  · exact fun _ _ _ _ _ h => absurd h hbackslash
  · exact fun _ h => absurd h hbackslash
  · exact fun _ _ h => absurd h hbackslash

theorem readString_character {text : List Char} {c : Char} (h : IsCharacter text c)
    (rest : List Char) :
    readString (text ++ rest) = (readString rest).map fun (more, rest) => (c :: more, rest) := by
  cases h with
  | plain hquote hbackslash hcontrol => exact readString_cons hquote hbackslash hcontrol rest
  | letter h =>
      simp only [letters, List.mem_cons, Prod.mk.injEq, List.not_mem_nil, or_false] at h
      rcases h with ⟨rfl, rfl⟩ | ⟨rfl, rfl⟩ | ⟨rfl, rfl⟩ | ⟨rfl, rfl⟩ | ⟨rfl, rfl⟩ | ⟨rfl, rfl⟩ |
        ⟨rfl, rfl⟩ | ⟨rfl, rfl⟩ <;> rfl
  | @unit a b c d unit hunit hsingle =>
      have hhigh : ¬ isHighSurrogate unit = true := by
        rw [isHighSurrogate_iff]
        omega
      have hlow : ¬ isLowSurrogate unit = true := by
        rw [isLowSurrogate_iff]
        omega
      simp only [List.cons_append, List.nil_append]
      rw [readString]
      simp [unit?, hunit, hhigh, hlow]
  | @pair a b c d e f g h high low hhigh hlow hpair =>
      have hfirst : isHighSurrogate (0xD800 + high) = true := isHighSurrogate_iff.mpr (by omega)
      have hsecond : isLowSurrogate (0xDC00 + low) = true := isLowSurrogate_iff.mpr (by omega)
      simp only [List.cons_append, List.nil_append]
      rw [readString]
      simp [unit?, hhigh, hlow, hfirst, hsecond, pairOfSurrogates]

theorem readString_string {text chars : List Char} (h : IsString text chars) (rest : List Char) :
    readString (text ++ '"' :: rest) = .ok (chars, rest) := by
  induction h with
  | nil => rfl
  | cons hfirst hrest ih =>
      rw [List.append_assoc, readString_character hfirst, ih]
      rfl

/-! ## Integers -/

/-- No character follows that a number could go on with. -/
def EndsNumber (rest : List Char) : Prop :=
  ∀ c, rest.head? = some c → c.isDigit = false ∧ c ≠ '.' ∧ c ≠ 'e' ∧ c ≠ 'E'

theorem readWhole_toDigits (n : Nat) {rest : List Char} (hrest : EndsNumber rest) :
    readWhole (Nat.toDigits 10 n ++ rest) = .ok (Text.digitsOf n, rest) := by
  have hread : Text.readDigits (Nat.toDigits 10 n ++ rest) = (Text.digitsOf n, rest) :=
    Text.readDigits_append (fun _ => Text.isDigit_of_mem_toDigits) fun c hc => (hrest c hc).1
  rw [readWhole, hread]
  rcases Nat.eq_zero_or_pos n with rfl | hpos
  · rfl
  · obtain ⟨first, more, hcons, hne⟩ := Text.exists_digitsOf_eq_cons n hpos
    rw [hcons]
    split <;> simp_all

theorem readFraction_of_endsNumber {rest : List Char} (h : EndsNumber rest) :
    readFraction rest = .ok (none, rest) := by
  cases rest with
  | nil => rfl
  | cons c rest =>
      obtain ⟨-, hpoint, -, -⟩ := h c rfl
      unfold readFraction
      split
      · simp_all
      · rfl

theorem readExponent_of_endsNumber {rest : List Char} (h : EndsNumber rest) :
    readExponent rest = .ok (none, rest) := by
  cases rest with
  | nil => rfl
  | cons c rest =>
      obtain ⟨-, -, hlower, hupper⟩ := h c rfl
      unfold readExponent
      simp only
      split
      · simp_all
      · simp_all
      · rfl

theorem integer?_digitsOf (negative : Bool) (n : Nat) :
    integer? ⟨negative, Text.digitsOf n, none, none⟩ =
      if negative then if 0 < n ∧ n ≤ Nat.pow 2 63 then some (-(n : Int)) else none
      else if n < Nat.pow 2 63 then some (n : Int) else none := by
  simp [integer?, Decimal.Numeral.isWhole]

theorem readUnsigned_toDigits {negative : Bool} {n : Nat} {value : Int64} {rest : List Char}
    (hrest : EndsNumber rest)
    (hinteger : integer? ⟨negative, Text.digitsOf n, none, none⟩ = some value.toInt) :
    readUnsigned negative (Nat.toDigits 10 n ++ rest) = .ok (.number (.integer value), rest) := by
  simp only [readUnsigned, readWhole_toDigits n hrest, readFraction_of_endsNumber hrest,
    readExponent_of_endsNumber hrest, bind, Except.bind, number?, hinteger,
    Int64.ofInt_toInt]
  rfl

theorem readNumber_of_isDigit {text : List Char} (h : text.head?.any Char.isDigit = true) :
    readNumber text = readUnsigned false text := by
  unfold readNumber
  split
  · cases h
  · rw [if_pos h]

theorem readNumber_integer (value : Int64) {rest : List Char} (hrest : EndsNumber rest) :
    readNumber ((toString value.toInt).toList ++ rest) = .ok (.number (.integer value), rest) := by
  have hlower := value.le_toInt
  have hupper := value.toInt_lt
  have hlimit : Nat.pow 2 63 = 9223372036854775808 := rfl
  rw [Text.toList_toString]
  split
  · next hpos =>
      generalize hsize : value.toInt.toNat = size
      have hinteger : integer? ⟨false, Text.digitsOf size, none, none⟩ = some value.toInt := by
        rw [integer?_digitsOf, if_neg Bool.false_ne_true, if_pos (by omega)]
        exact congrArg some (by omega)
      have hhead : (Nat.toDigits 10 size ++ rest).head?.any Char.isDigit = true := by
        obtain ⟨c, digits, hcons⟩ := List.exists_cons_of_ne_nil
          (Nat.toDigits_ne_nil (n := size) (b := 10))
        have hmem : c ∈ Nat.toDigits 10 size := by simp [hcons]
        simpa [hcons] using Text.isDigit_of_mem_toDigits hmem
      rw [readNumber_of_isDigit hhead]
      exact readUnsigned_toDigits hrest hinteger
  · next hneg =>
      generalize hsize : (-value.toInt).toNat = size
      have hinteger : integer? ⟨true, Text.digitsOf size, none, none⟩ = some value.toInt := by
        rw [integer?_digitsOf, if_pos rfl, if_pos (by omega)]
        exact congrArg some (by omega)
      exact readUnsigned_toDigits hrest hinteger

end Json

end Variants
