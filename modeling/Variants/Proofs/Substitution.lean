import Variants.Proofs.Annotation
import Variants.Proofs.Placeholder

/-!
# Filling in is substitution

A text that is put together from placeholders and from parts without a character
of any marker is filled in as if all placeholders were replaced at once, when the
markers can be told apart.  The pass of one dimension answers its placeholders
and leaves everything else as it is: the placeholders of dimensions that come
later cannot be mistaken for its own, and answers have no character of a marker.
-/

namespace Variants

structure Legible (dimensions : List Dimension) : Prop where
  sorted : dimensions.Pairwise fun a b => b.brackets.width ≤ a.brackets.width
  not_sign : ∀ d ∈ dimensions, ∀ c ∈ d.brackets.left ++ d.brackets.right,
    c ∉ Placeholder.signs
  apart : dimensions.Pairwise fun a b =>
    a.brackets.Disjoint b.brackets ∨ a.brackets.Nested b.brackets

namespace Placeholder

def Answered (d : Dimension) (tuple : Tuple) (placeholder : Placeholder) : Prop :=
  d.hasRegister placeholder.register = true ∧
    ∃ text, placeholder.emitted? d tuple = some text ∧ text ≠ ""

def answer (d : Dimension) (tuple : Tuple) (placeholder : Placeholder) : List Char :=
  ((placeholder.emitted? d tuple).getD "").toList

theorem exists_text_iff {d : Dimension} {tuple : Tuple} {placeholder : Placeholder}
    {characters : List Char} :
    (∃ text, placeholder.text d tuple = .ok text ∧ text.toList = characters) ↔
      placeholder.Answered d tuple ∧ placeholder.answer d tuple = characters := by
  simp only [text_eq_ok_iff, Answered, answer]
  constructor
  · rintro ⟨text, ⟨hregister, hemitted, hne⟩, rfl⟩
    exact ⟨⟨hregister, text, hemitted, hne⟩, by simp [hemitted]⟩
  · rintro ⟨⟨hregister, text, hemitted, hne⟩, rfl⟩
    exact ⟨text, ⟨hregister, hemitted, hne⟩, by simp [hemitted]⟩

end Placeholder

theorem interpolateDimension_written_append_eq_ok_iff {d : Dimension} {tuple : Tuple}
    {placeholder : Placeholder} {more filled : List Char} :
    interpolateDimension tuple d (placeholder.written d.brackets ++ more) = .ok filled ↔
      placeholder.Answered d tuple ∧ ∃ rest, interpolateDimension tuple d more = .ok rest ∧
        placeholder.answer d tuple ++ rest = filled := by
  simp only [interpolateDimension_written_append, bind_eq_ok_iff, map_eq_ok_iff]
  constructor
  · rintro ⟨text, htext, rest, hrest, rfl⟩
    obtain ⟨hanswered, hanswer⟩ := Placeholder.exists_text_iff.mp ⟨text, htext, rfl⟩
    exact ⟨hanswered, rest, hrest, by rw [hanswer]⟩
  · rintro ⟨hanswered, rest, hrest, rfl⟩
    obtain ⟨text, htext, hanswer⟩ := Placeholder.exists_text_iff.mpr ⟨hanswered, rfl⟩
    exact ⟨text, htext, rest, hrest, by rw [hanswer]⟩

/-! ## Texts in pieces -/

inductive Piece where
  | literal (text : List Char)
  | marked (dimension : Dimension) (placeholder : Placeholder)

namespace Piece

def text : Piece → List Char
  | literal text => text
  | marked d placeholder => placeholder.written d.brackets

def filled (tuple : Tuple) : Piece → List Char
  | literal text => text
  | marked d placeholder => placeholder.answer d tuple

def WellFormed (dimensions : List Dimension) : Piece → Prop
  | literal text => Unmarked dimensions text
  | marked d _ => d ∈ dimensions

/-- The piece after the passes of some dimensions. -/
def remaining (tuple : Tuple) (done : List Dimension) : Piece → List Char
  | literal text => text
  | marked d placeholder =>
      if d ∈ done then placeholder.answer d tuple else placeholder.written d.brackets

section Passes

variable {done later : List Dimension} {d : Dimension} {tuple : Tuple}
  (h : Legible (done ++ d :: later))
  (hanswers : ∀ e ∈ done ++ d :: later, ∀ (placeholder : Placeholder) text,
    placeholder.emitted? e tuple = some text → Unmarked (done ++ d :: later) text.toList)

include hanswers in
theorem clear_answer {e : Dimension} (he : e ∈ done) (placeholder : Placeholder) :
    Text.Clear d.brackets.left (placeholder.answer e tuple) := by
  refine .of_forall_not_mem d.brackets.left_ne_nil fun c hc hmem => ?_
  unfold Placeholder.answer at hc
  cases hemitted : placeholder.emitted? e tuple with
  | none => simp [hemitted] at hc
  | some text =>
      have hunmarked := hanswers e (by simp [he]) placeholder text hemitted d (by simp)
      simp only [hemitted, Option.getD_some] at hc
      exact hunmarked c hc (List.mem_append_left _ hmem)

include h in
theorem clear_written {e : Dimension} (he : e ∈ later) (placeholder : Placeholder) :
    Text.Clear d.brackets.left (placeholder.written e.brackets) := by
  have hapart := (List.pairwise_cons.mp (List.pairwise_append.mp h.apart).2.1).1 e he
  have hwidth := (List.pairwise_cons.mp (List.pairwise_append.mp h.sorted).2.1).1 e he
  have hbody : ∀ c ∈ placeholder.body, c ∉ d.brackets.left := fun c hc hmem =>
    h.not_sign d (by simp) c (List.mem_append_left _ hmem) (Placeholder.mem_signs_of_mem_body hc)
  have hclear : Text.Clear d.brackets.left
      (e.brackets.left ++ (placeholder.body ++ (e.brackets.right ++ []))) :=
    Brackets.clear_of_apart hapart hwidth hbody (by simp)
  simpa [Placeholder.written] using hclear

include h hanswers

theorem remaining_of_ne {piece : Piece} (hpiece : piece.WellFormed (done ++ d :: later))
    (hne : ∀ own, piece ≠ marked d own) :
    piece.remaining tuple (done ++ [d]) = piece.remaining tuple done ∧
      Text.Clear d.brackets.left (piece.remaining tuple done) := by
  cases piece with
  | literal text =>
      refine ⟨rfl, .of_forall_not_mem d.brackets.left_ne_nil fun c hc hmem => ?_⟩
      exact hpiece d (by simp) c hc (List.mem_append_left _ hmem)
  | marked e own =>
      have hed : e ≠ d := fun heq => hne own (heq ▸ rfl)
      by_cases hdone : e ∈ done
      · simpa [remaining, hdone] using clear_answer hanswers hdone own
      · have hlater : e ∈ later := by simpa [WellFormed, hdone, hed] using hpiece
        simpa [remaining, hdone, hed] using clear_written h hlater own

theorem interpolateDimension_remaining {pieces : List Piece}
    (hpieces : ∀ piece ∈ pieces, piece.WellFormed (done ++ d :: later)) (result : List Char) :
    interpolateDimension tuple d (pieces.flatMap (remaining tuple done)) = .ok result ↔
      (∀ own, marked d own ∈ pieces → own.Answered d tuple) ∧
        pieces.flatMap (remaining tuple (done ++ [d])) = result := by
  induction pieces generalizing result with
  | nil => simp [interpolateDimension]
  | cons piece rest ih =>
      obtain ⟨hpiece, hrest⟩ := List.forall_mem_cons.mp hpieces
      simp only [List.flatMap_cons]
      -- Its own placeholders are answered; the pass goes over everything else.
      by_cases hd : ∃ own, piece = marked d own
      · obtain ⟨own, rfl⟩ := hd
        have hfresh : d ∉ done := fun hmem =>
          (List.nodup_append.mp (nodup_of_apart h.apart)).2.2 d hmem d List.mem_cons_self rfl
        have hdone : (marked d own).remaining tuple (done ++ [d]) = own.answer d tuple := by
          simp [remaining]
        have hleft : (marked d own).remaining tuple done = own.written d.brackets := by
          simp [remaining, hfresh]
        simp only [hdone, hleft, interpolateDimension_written_append_eq_ok_iff, ih hrest,
          List.mem_cons, marked.injEq, true_and, or_imp, forall_and, forall_eq]
        constructor
        · rintro ⟨hown, _, ⟨hothers, rfl⟩, rfl⟩
          exact ⟨⟨hown, hothers⟩, rfl⟩
        · rintro ⟨⟨hown, hothers⟩, rfl⟩
          exact ⟨hown, _, ⟨hothers, rfl⟩, rfl⟩
      · obtain ⟨hsame, hclear⟩ := remaining_of_ne h hanswers hpiece (not_exists.mp hd)
        have hmem : ∀ own, marked d own ∈ piece :: rest ↔ marked d own ∈ rest := fun own => by
          rw [List.mem_cons, or_iff_right (Ne.symm (not_exists.mp hd own))]
        rw [interpolateDimension_append_of_clear hclear, map_eq_ok_iff, hsame]
        simp only [ih hrest, hmem]
        constructor
        · rintro ⟨_, ⟨hanswered, rfl⟩, rfl⟩
          exact ⟨hanswered, rfl⟩
        · rintro ⟨hanswered, rfl⟩
          exact ⟨_, ⟨hanswered, rfl⟩, rfl⟩

end Passes

/-! ## All passes -/

variable {tuple : Tuple} {pieces : List Piece}

theorem foldlM_remaining {done later : List Dimension} (h : Legible (done ++ later))
    (hanswers : ∀ e ∈ done ++ later, ∀ (placeholder : Placeholder) text,
      placeholder.emitted? e tuple = some text → Unmarked (done ++ later) text.toList)
    (hpieces : ∀ piece ∈ pieces, piece.WellFormed (done ++ later)) (result : List Char) :
    later.foldlM (fun text d => interpolateDimension tuple d text)
        (pieces.flatMap (remaining tuple done)) = .ok result ↔
      (∀ d ∈ later, ∀ own, marked d own ∈ pieces → own.Answered d tuple) ∧
        pieces.flatMap (remaining tuple (done ++ later)) = result := by
  induction later generalizing done with
  | nil => simp [pure, Except.pure]
  | cons d later ih =>
      have hpass := interpolateDimension_remaining h hanswers hpieces
      rw [List.append_cons] at h hanswers hpieces
      simp only [List.foldlM_cons, bind_eq_ok_iff, hpass, List.forall_mem_cons]
      rw [List.append_cons done d later]
      constructor
      · rintro ⟨_, ⟨hown, rfl⟩, hrest⟩
        obtain ⟨hlater, hresult⟩ := (ih h hanswers hpieces).mp hrest
        exact ⟨⟨hown, hlater⟩, hresult⟩
      · rintro ⟨⟨hown, hlater⟩, hresult⟩
        exact ⟨_, ⟨hown, rfl⟩, (ih h hanswers hpieces).mpr ⟨hlater, hresult⟩⟩

def string (pieces : List Piece) : String := String.ofList (pieces.flatMap text)

/--
A text in pieces is filled in exactly if each of its placeholders is answered,
and then each placeholder is replaced by its answer and nothing else changes.
-/
theorem interpolate_pieces {dimensions : List Dimension} (h : Legible dimensions)
    (hanswers : ∀ d ∈ dimensions, ∀ (placeholder : Placeholder) text,
      placeholder.emitted? d tuple = some text → Unmarked dimensions text.toList)
    (hpieces : ∀ piece ∈ pieces, piece.WellFormed dimensions) :
    ((∃ result, interpolate dimensions tuple (string pieces) = .ok result) ↔
      ∀ d own, marked d own ∈ pieces → own.Answered d tuple) ∧
    ∀ result, interpolate dimensions tuple (string pieces) = .ok result →
      result = String.ofList (pieces.flatMap (filled tuple)) := by
  have hstart : (string pieces).toList = pieces.flatMap (remaining tuple []) := by
    rw [string, String.toList_ofList]
    exact List.flatMap_congr fun piece _ => by cases piece <;> rfl
  have hend : pieces.flatMap (remaining tuple dimensions) = pieces.flatMap (filled tuple) :=
    List.flatMap_congr fun piece hpiece => by
      cases piece with
      | literal text => rfl
      | marked d own => simp [remaining, filled, show d ∈ dimensions from hpieces _ hpiece]
  have hnone : Legible ([] ++ dimensions) := h
  have hfold := foldlM_remaining hnone hanswers hpieces
  simp only [List.nil_append, hend] at hfold
  simp only [interpolate_eq_ok_iff, hstart, hfold]
  constructor
  · constructor
    · rintro ⟨result, hanswered, -⟩ d own hown
      exact hanswered d (hpieces _ hown) own hown
    · intro hanswered
      exact ⟨String.ofList (pieces.flatMap (filled tuple)), fun d _ own => hanswered d own,
        String.toList_ofList.symm⟩
  · rintro result ⟨-, hresult⟩
    rw [hresult, String.ofList_toList]

/-! ### At a text -/

open Annotation (stage region zone toldApart_stage_region_zone)

theorem legible_stage_region_zone : Legible [stage, region, zone] where
  sorted := toldApart_stage_region_zone.sorted
  not_sign := by
    have hall : [stage, region, zone].all (fun d =>
        (d.brackets.left ++ d.brackets.right).all (!Placeholder.signs.contains ·)) = true := by
      decide +kernel
    simpa only [List.all_eq_true, Bool.not_eq_true', List.contains_eq_mem,
      decide_eq_false_iff_not] using hall
  apart := toldApart_stage_region_zone.apart

def rackedStage : Tuple :=
  .ofList
    [("env", .ofList [(⟨0⟩, ⟨"dev", "d1"⟩)]), ("region", .ofList [(⟨0⟩, ⟨"eu", "fra"⟩)]),
      ("zone", .ofList [(⟨1⟩, ⟨"z", "z1"⟩)])]

/-- `at [@][[@]]:|:$|.[[.]]`, where the brackets of two dimensions stand side by side. -/
def address : List Piece :=
  [.literal "at ".toList, .marked region ⟨.value, ⟨0⟩⟩, .marked stage ⟨.value, ⟨0⟩⟩,
    .literal ":".toList, .marked zone ⟨.domain, ⟨1⟩⟩, .literal ".".toList,
    .marked stage ⟨.name, ⟨0⟩⟩]

theorem interpolate_pieces_address :
    interpolate [stage, region, zone] rackedStage "at [@][[@]]:|:$|.[[.]]" =
      .ok "at frad1:z.env" := by
  have hstring : string address = "at [@][[@]]:|:$|.[[.]]" := by decide +kernel
  have hnames : ∀ d ∈ [stage, region, zone],
      Unmarked [stage, region, zone] d.name.toList := by decide +kernel
  have htuple : ∀ entry ∈ rackedStage.entries, ∀ slot ∈ entry.2.entries,
      Unmarked [stage, region, zone] slot.2.domain.toList ∧
        Unmarked [stage, region, zone] slot.2.value.toList := by decide +kernel
  have hpieces : ∀ piece ∈ address, piece.WellFormed [stage, region, zone] := by
    simp only [address, List.forall_mem_cons, List.not_mem_nil, false_implies, implies_true,
      and_true, WellFormed]
    decide +kernel
  have hanswered : ∀ d own, marked d own ∈ address → own.Answered d rackedStage := by
    intro d own hown
    simp only [address, List.mem_cons, reduceCtorEq, marked.injEq, false_or, List.not_mem_nil,
      or_false] at hown
    rcases hown with ⟨rfl, rfl⟩ | ⟨rfl, rfl⟩ | ⟨rfl, rfl⟩ | ⟨rfl, rfl⟩
    · exact ⟨by decide +kernel, "fra", by decide +kernel, by decide⟩
    · exact ⟨by decide +kernel, "d1", by decide +kernel, by decide⟩
    · exact ⟨by decide +kernel, "z", by decide +kernel, by decide⟩
    · exact ⟨by decide +kernel, "env", by decide +kernel, by decide⟩
  obtain ⟨hok, hresult⟩ := interpolate_pieces legible_stage_region_zone
    (fun d hd placeholder text h => Placeholder.forall_emitted
      (fun text => Unmarked [stage, region, zone] text.toList)
      (hnames d hd) htuple placeholder h) hpieces
  obtain ⟨result, hinterpolate⟩ := hok.mpr hanswered
  rw [← hstring, hinterpolate, hresult result hinterpolate]
  decide +kernel

end Piece

end Variants
