import Variants.Proofs.Excision
import Variants.Proofs.Naming
import Variants.Proofs.Resolution

/-!
# Keys with annotations

A name followed by bracketed expressions of several dimensions is read back as
it was put together, when the markers can be told apart: two of them share no
character, or one repeats the two characters of the other more often and is
looked for first.  Taking the expressions of one dimension out leaves a name and
the expressions of the others, and these again can be told apart.
-/

namespace Variants

/-! ## Markers -/

namespace Brackets

def Disjoint (a b : Brackets) : Prop :=
  ∀ c ∈ a.left ++ a.right, c ∉ b.left ++ b.right

instance (a b : Brackets) : Decidable (a.Disjoint b) :=
  decidable_of_iff ((a.left ++ a.right).all fun c => !(b.left ++ b.right).contains c)
    (by simp only [List.all_eq_true, Bool.not_eq_true', List.contains_eq_mem,
      decide_eq_false_iff_not, Disjoint])

/-- Both markers repeat the same two characters, one of them more often. -/
def Nested (a b : Brackets) : Prop :=
  ∃ first second : Char, ∃ n m : Nat, first ≠ second ∧ n ≠ m ∧
    a.left = List.replicate n first ∧ a.right = List.replicate n second ∧
    b.left = List.replicate m first ∧ b.right = List.replicate m second

theorem not_disjoint_self (b : Brackets) : ¬ b.Disjoint b := by
  intro h
  obtain ⟨c, hc⟩ := List.exists_mem_of_ne_nil _ b.left_ne_nil
  have hmem : c ∈ b.left ++ b.right := List.mem_append_left _ hc
  exact h c hmem hmem

theorem not_nested_self (b : Brackets) : ¬ b.Nested b := by
  rintro ⟨first, second, n, m, -, hne, hn, -, hm, -⟩
  rw [hn] at hm
  exact hne (by simpa using congrArg List.length hm)

theorem clear_of_apart {a b : Brackets} (hapart : a.Disjoint b ∨ a.Nested b)
    (hwidth : b.width ≤ a.width) {inner after : List Char} (hinner : ∀ c ∈ inner, c ∉ a.left)
    (hafter : ∀ c ∈ after, c ∉ a.left) :
    Text.Clear a.left (b.left ++ (inner ++ (b.right ++ after))) := by
  rcases hapart with hdisjoint | ⟨first, second, n, m, hne, hnm, hleft, -, hshort, hright⟩
  · refine .of_forall_not_mem a.left_ne_nil fun c hc hmem => ?_
    have hother := hdisjoint c (List.mem_append_left _ hmem)
    simp only [List.mem_append] at hc hother
    rcases hc with hc | hc | hc | hc
    · exact hother (.inl hc)
    · exact hinner c hc hmem
    · exact hother (.inr hc)
    · exact hafter c hc hmem
  -- The shorter marker and what stands behind it cannot make up the longer one.
  · have hlt : b.left.length < a.left.length := by
      simp only [width, hleft, hshort, List.length_replicate] at hwidth ⊢
      omega
    refine .of_short hlt (by simp [b.right_ne_nil]) fun c hc hmem => ?_
    simp only [List.mem_append] at hc
    rcases hc with hc | hc | hc
    · exact hinner c hc hmem
    · rw [hright] at hc
      rw [hleft] at hmem
      exact hne ((List.eq_of_mem_replicate hmem).symm.trans (List.eq_of_mem_replicate hc))
    · exact hafter c hc hmem

end Brackets

structure ToldApart (dimensions : List Dimension) : Prop where
  sorted : dimensions.Pairwise fun a b => b.brackets.width ≤ a.brackets.width
  not_blank : ∀ d ∈ dimensions, ∀ c ∈ d.brackets.left ++ d.brackets.right,
    Text.isBlank c = false
  apart : dimensions.Pairwise fun a b =>
    a.brackets.Disjoint b.brackets ∨ a.brackets.Nested b.brackets

theorem nodup_of_apart {dimensions : List Dimension}
    (h : dimensions.Pairwise fun a b =>
      a.brackets.Disjoint b.brackets ∨ a.brackets.Nested b.brackets) : dimensions.Nodup := by
  refine h.imp ?_
  rintro a _ hapart rfl
  exact hapart.elim a.brackets.not_disjoint_self a.brackets.not_nested_self

theorem ToldApart.nodup {dimensions : List Dimension} (h : ToldApart dimensions) :
    dimensions.Nodup :=
  nodup_of_apart h.apart

def Unmarked (dimensions : List Dimension) (text : List Char) : Prop :=
  ∀ d ∈ dimensions, ∀ c ∈ text, c ∉ d.brackets.left ++ d.brackets.right

instance (dimensions : List Dimension) (text : List Char) :
    Decidable (Unmarked dimensions text) :=
  decidable_of_iff
    (dimensions.all fun d => text.all fun c => !(d.brackets.left ++ d.brackets.right).contains c)
    (by simp [Unmarked])

/-! ## Annotations -/

/-- An expression in the brackets of its dimension, and the blanks after it. -/
structure Annotation where
  dimension : Dimension
  expression : List Char
  gap : List Char

namespace Annotation

def text (a : Annotation) : List Char :=
  a.dimension.brackets.left ++ (a.expression ++ (a.dimension.brackets.right ++ a.gap))

def conditions (a : Annotation) : List Condition :=
  (Expression.conditions a.dimension a.expression).toOption.getD []

structure WellFormed (dimensions : List Dimension) (a : Annotation) : Prop where
  mem : a.dimension ∈ dimensions
  unmarked : Unmarked dimensions a.expression
  blank : ∀ c ∈ a.gap, Text.isBlank c = true

instance (dimensions : List Dimension) (a : Annotation) : Decidable (a.WellFormed dimensions) :=
  decidable_of_iff (a.dimension ∈ dimensions ∧ Unmarked dimensions a.expression ∧
      a.gap.all Text.isBlank = true)
    ⟨fun ⟨hmem, hunmarked, hblank⟩ => ⟨hmem, hunmarked, List.all_eq_true.mp hblank⟩,
      fun h => ⟨h.mem, h.unmarked, List.all_eq_true.mpr h.blank⟩⟩

/-- What is left of the annotation when those of some dimensions have been taken out. -/
def remaining (done : List Dimension) (a : Annotation) : List Char :=
  if a.dimension ∈ done then a.gap else a.text

section Excision

variable {done later : List Dimension} {d : Dimension} {a : Annotation}
  (h : ToldApart (done ++ d :: later))

include h

theorem not_mem_gap (ha : a.WellFormed (done ++ d :: later)) :
    ∀ c ∈ a.gap, c ∉ d.brackets.left := by
  intro c hc hmem
  have hblank := h.not_blank d (by simp) c (List.mem_append_left _ hmem)
  simp [ha.blank c hc] at hblank

theorem clear_gap (ha : a.WellFormed (done ++ d :: later)) :
    Text.Clear d.brackets.left a.gap :=
  .of_forall_not_mem d.brackets.left_ne_nil (not_mem_gap h ha)

theorem clear_text (ha : a.WellFormed (done ++ d :: later)) (hlater : a.dimension ∈ later) :
    Text.Clear d.brackets.left a.text := by
  have hexpression : ∀ c ∈ a.expression, c ∉ d.brackets.left := fun c hc hmem =>
    ha.unmarked d (by simp) c hc (List.mem_append_left _ hmem)
  have hapart := (List.pairwise_cons.mp (List.pairwise_append.mp h.apart).2.1).1 _ hlater
  have hwidth := (List.pairwise_cons.mp (List.pairwise_append.mp h.sorted).2.1).1 _ hlater
  exact Brackets.clear_of_apart hapart hwidth hexpression (not_mem_gap h ha)

theorem remaining_of_ne (ha : a.WellFormed (done ++ d :: later)) (hne : a.dimension ≠ d) :
    a.remaining (done ++ [d]) = a.remaining done ∧
      Text.Clear d.brackets.left (a.remaining done) := by
  by_cases hdone : a.dimension ∈ done
  · simpa [remaining, hdone] using clear_gap h ha
  · have hlater : a.dimension ∈ later := by simpa [hdone, hne] using ha.mem
    simpa [remaining, hdone, hne] using clear_text h ha hlater

theorem exists_excise_remaining {annotations : List Annotation}
    (hannotations : ∀ a ∈ annotations, a.WellFormed (done ++ d :: later)) {before : List Char}
    (hbefore : Text.Clear d.brackets.left before) :
    ∃ first, d.brackets.excise (before ++ annotations.flatMap (remaining done)) =
        { text := before ++ annotations.flatMap (remaining (done ++ [d]))
          expressions := (annotations.filter fun a => a.dimension = d).map (·.expression)
          first
          closed := true } ∧
      ∀ start ∈ first, before.length ≤ start := by
  induction annotations generalizing before with
  | nil =>
      refine ⟨none, ?_, by simp⟩
      simpa using d.brackets.excise_of_absent hbefore.absent
  | cons a rest ih =>
      obtain ⟨ha, hrest⟩ := List.forall_mem_cons.mp hannotations
      by_cases hd : a.dimension = d
      · have hfresh : d ∉ done := fun hmem =>
          (List.nodup_append.mp h.nodup).2.2 d hmem d List.mem_cons_self rfl
        have hexpression : Text.Clear d.brackets.right a.expression :=
          .of_forall_not_mem d.brackets.right_ne_nil fun c hc hmem =>
            ha.unmarked d (by simp) c hc (List.mem_append_right _ hmem)
        obtain ⟨first, hexcise, -⟩ := ih hrest (clear_gap h ha)
        refine ⟨some before.length, ?_, by simp⟩
        have hfound := d.brackets.excise_of_clear hbefore hexpression
          (a.gap ++ rest.flatMap (remaining done))
        simpa [remaining, hd, hfresh, text, hexcise] using hfound
      -- An annotation of another dimension stays and joins the text in front.
      · obtain ⟨hsame, hclear⟩ := remaining_of_ne h ha hd
        obtain ⟨first, hexcise, hfirst⟩ := ih hrest (hbefore.append hclear)
        refine ⟨first, ?_, fun start hstart => ?_⟩
        · simpa [hd, hsame] using hexcise
        · have hle := hfirst start hstart
          rw [List.length_append] at hle
          omega

end Excision

end Annotation

/-! ## Conditions of expressions -/

namespace Expression

theorem segments_trim_eq_ok_iff {expression : List Char} {found : List (Register × List Char)} :
    segments (Text.trim expression) = .ok found ↔ segments expression = .ok found := by
  rw [segments_eq_ok_iff, segments_eq_ok_iff, Text.mem_trim_iff (by decide),
    Text.map_trim_splitAll_trim (by decide)]

theorem conditions_trim_eq_ok_iff {d : Dimension} {expression : List Char}
    {conditions : List Condition} :
    Expression.conditions d (Text.trim expression) = .ok conditions ↔
      Expression.conditions d expression = .ok conditions := by
  simp only [conditions_eq_ok_iff, segments_trim_eq_ok_iff]

theorem conditions_of_trim_eq_nil (d : Dimension) {expression : List Char}
    (h : Text.trim expression = []) : Expression.conditions d expression = .ok [] := by
  rw [← conditions_trim_eq_ok_iff, h]
  rfl

end Expression

namespace Condition

theorem merge_append (conditions first second : List Condition) :
    merge conditions (first ++ second) = merge (merge conditions first) second :=
  List.foldl_append

theorem same_iff_of_single {a b : Condition}
    (ha : ∃ domain values, a.domains = .single domain values)
    (hb : ∃ domain values, b.domains = .single domain values) : a.same b = true ↔ a = b := by
  obtain ⟨dimension, register, domains⟩ := a
  obtain ⟨other, slot, others⟩ := b
  obtain ⟨domain, values, rfl⟩ := ha
  obtain ⟨name, texts, rfl⟩ := hb
  simp only [same, Bool.and_eq_true, beq_iff_eq, OrderedMap.sameEntries_iff, mk.injEq, and_assoc]
  refine and_congr_right fun _ => and_congr_right fun _ => ?_
  constructor
  · intro h
    have hget := h domain
    by_cases hname : name = domain <;> simp_all
  · intro h
    simp [h]

theorem merge_nil_eq_eraseDups {conditions : List Condition}
    (h : ∀ c ∈ conditions, ∃ domain values, c.domains = .single domain values) :
    merge [] conditions = conditions.eraseDups := by
  induction conditions using List.reverseRecOn with
  | nil => rfl
  | append_singleton conditions c ih =>
      have hconditions := fun other hother => h other (List.mem_append_left _ hother)
      have hsame : conditions.eraseDups.any c.same = conditions.contains c := by
        rw [Bool.eq_iff_iff, List.any_eq_true, List.contains_iff_mem]
        constructor
        · rintro ⟨other, hother, hsame⟩
          have hmem := List.mem_eraseDups.mp hother
          rwa [(same_iff_of_single (h c (by simp)) (hconditions other hmem)).mp hsame]
        · intro hmem
          have hsingle := h c (by simp)
          exact ⟨c, List.mem_eraseDups.mpr hmem, (same_iff_of_single hsingle hsingle).mpr rfl⟩
      rw [merge_append, ih hconditions, eraseDups_concat, ← hsame]
      rfl

end Condition

/-! ## Reading annotated keys -/

namespace Annotation

def read (key : String) (a : Annotation) : Except Error (List Condition) :=
  (Expression.conditions a.dimension (Text.trim a.expression)).mapError (.inKey key)

def inOrder (dimensions : List Dimension) (annotations : List Annotation) : List Annotation :=
  dimensions.flatMap fun d => annotations.filter fun a => a.dimension = d

theorem addExpression_eq (key : String) (a : Annotation) (conditions : List Condition) :
    KeyReading.addExpression key a.dimension conditions a.expression =
      (a.read key).map (Condition.merge conditions) := by
  unfold KeyReading.addExpression read
  cases htrim : Text.trim a.expression with
  | nil => rfl
  | cons c rest =>
      dsimp only
      cases Expression.conditions a.dimension (c :: rest) <;> rfl

theorem foldlM_addExpression (key : String) {d : Dimension} {annotations : List Annotation}
    (h : ∀ a ∈ annotations, a.dimension = d) (conditions : List Condition) :
    (annotations.map (·.expression)).foldlM (KeyReading.addExpression key d) conditions =
      (annotations.mapM (read key)).map fun lists =>
        Condition.merge conditions lists.flatten := by
  induction annotations generalizing conditions with
  | nil => rfl
  | cons a rest ih =>
      obtain ⟨rfl, hrest⟩ := List.forall_mem_cons.mp h
      rw [List.map_cons, List.foldlM_cons, addExpression_eq, List.mapM_cons]
      cases a.read key with
      | error error => rfl
      | ok list =>
          refine (ih hrest (Condition.merge conditions list)).trans ?_
          cases rest.mapM (read key) with
          | error error => rfl
          | ok lists =>
              simp [Except.map, bind, Except.bind, pure, Except.pure, Condition.merge_append]

variable {name : List Char} {annotations : List Annotation}

theorem exists_foldlM_strip (key : String) {done later : List Dimension}
    (h : ToldApart (done ++ later)) (hname : Unmarked (done ++ later) name)
    (hannotations : ∀ a ∈ annotations, a.WellFormed (done ++ later)) {nameEnd : Nat}
    (hend : name.length ≤ nameEnd) :
    ∃ last, name.length ≤ last ∧ ∀ conditions : List Condition,
      later.foldlM (KeyReading.strip key)
          ⟨name ++ annotations.flatMap (remaining done), nameEnd, conditions⟩ =
        ((inOrder later annotations).mapM (read key)).map fun lists =>
          ⟨name ++ annotations.flatMap (remaining (done ++ later)), last,
            Condition.merge conditions lists.flatten⟩ := by
  induction later generalizing done nameEnd with
  | nil =>
      refine ⟨nameEnd, hend, fun conditions => ?_⟩
      simp [inOrder, Condition.merge, Except.map, pure, Except.pure]
  | cons d later ih =>
      have hbefore : Text.Clear d.brackets.left name :=
        .of_forall_not_mem d.brackets.left_ne_nil fun c hc hmem =>
          hname d (by simp) c hc (List.mem_append_left _ hmem)
      obtain ⟨first, hexcise, hfirst⟩ := exists_excise_remaining h hannotations hbefore
      rw [List.append_cons] at h hname hannotations
      -- No expression opens before the end of the name, so garbage is looked for behind it only.
      have hmin : name.length ≤ (first.map (min nameEnd)).getD nameEnd := by
        cases first with
        | none => exact hend
        | some start => exact Nat.le_min.mpr ⟨hend, hfirst start rfl⟩
      obtain ⟨last, hlast, hfold⟩ := ih h hname hannotations hmin
      refine ⟨last, hlast, fun conditions => ?_⟩
      have hstrip : KeyReading.strip key
            ⟨name ++ annotations.flatMap (remaining done), nameEnd, conditions⟩ d =
          ((annotations.filter fun a => a.dimension = d).mapM (read key)).map fun lists =>
            ⟨name ++ annotations.flatMap (remaining (done ++ [d])),
              (first.map (min nameEnd)).getD nameEnd,
              Condition.merge conditions lists.flatten⟩ := by
        have hown : ∀ a ∈ annotations.filter fun a => a.dimension = d, a.dimension = d :=
          fun a ha => by simpa using (List.mem_filter.mp ha).2
        simp only [KeyReading.strip, hexcise, foldlM_addExpression key hown, if_true]
        cases (annotations.filter fun a => a.dimension = d).mapM (read key) <;> rfl
      rw [List.foldlM_cons, hstrip, List.append_cons done d later, inOrder, List.flatMap_cons,
        List.mapM_append, ← inOrder]
      cases (annotations.filter fun a => a.dimension = d).mapM (read key) with
      | error error => rfl
      | ok lists =>
          refine (hfold (Condition.merge conditions lists.flatten)).trans ?_
          cases (inOrder later annotations).mapM (read key) with
          | error error => rfl
          | ok others =>
              simp [Except.map, bind, Except.bind, pure, Except.pure, Condition.merge_append]

theorem parseKey_eq {dimensions : List Dimension} (h : ToldApart dimensions)
    (hname : Unmarked dimensions name) (hannotations : ∀ a ∈ annotations, a.WellFormed dimensions)
    {key : String} (hkey : key.toList = name ++ annotations.flatMap text) :
    parseKey dimensions key =
      ((inOrder dimensions annotations).mapM (read key)).map fun lists =>
        (String.ofList (name ++ annotations.flatMap gap), Condition.merge [] lists.flatten) := by
  have happart : ToldApart ([] ++ dimensions) := h
  have hlength : name.length ≤ key.toList.length := by simp [hkey]
  obtain ⟨last, hlast, hfold⟩ := exists_foldlM_strip key happart hname hannotations hlength
  have hstart : KeyReading.ofKey key =
      ⟨name ++ annotations.flatMap (remaining []), key.toList.length, []⟩ := by
    rw [KeyReading.ofKey, hkey]
    rfl
  have hall : annotations.flatMap (remaining ([] ++ dimensions)) = annotations.flatMap gap :=
    List.flatMap_congr fun a ha => by simp [remaining, (hannotations a ha).mem]
  -- What is left behind the name are the blanks between the annotations.
  have hblank : ((name ++ annotations.flatMap gap).drop last).all Text.isBlank = true := by
    rw [List.drop_append, List.drop_of_length_le hlast, List.nil_append, List.all_eq_true]
    intro c hc
    obtain ⟨a, ha, hmem⟩ := List.mem_flatMap.mp (List.mem_of_mem_drop hc)
    exact (hannotations a ha).blank c hmem
  rw [parseKey, hstart, hfold, hall]
  cases (inOrder dimensions annotations).mapM (read key) with
  | error error => rfl
  | ok lists => simp [Except.map, bind, Except.bind, hblank, pure, Except.pure]

theorem read_eq_ok_iff {key : String} {a : Annotation} {list : List Condition} :
    a.read key = .ok list ↔ Expression.conditions a.dimension a.expression = .ok list := by
  rw [read, mapError_eq_ok_iff, Expression.conditions_trim_eq_ok_iff]

theorem mem_inOrder_iff {dimensions : List Dimension} {a : Annotation} :
    a ∈ inOrder dimensions annotations ↔ a ∈ annotations ∧ a.dimension ∈ dimensions := by
  simp only [inOrder, List.mem_flatMap, List.mem_filter, decide_eq_true_eq]
  constructor
  · rintro ⟨d, hd, ha, rfl⟩
    exact ⟨ha, hd⟩
  · rintro ⟨ha, hd⟩
    exact ⟨a.dimension, hd, ha, rfl⟩

theorem single_of_mem_conditions {a : Annotation} {c : Condition} (h : c ∈ a.conditions) :
    c.dimension = a.dimension.name ∧ ∃ domain values, c.domains = .single domain values := by
  unfold conditions at h
  cases hread : Expression.conditions a.dimension a.expression with
  | error error => simp [hread, Except.toOption] at h
  | ok list =>
      rw [hread] at h
      obtain ⟨hname, domain, values, hdomains, -⟩ := (Expression.fits_of_conditions hread h).1
      exact ⟨hname, domain, values, hdomains⟩

section Lists

variable {key : String}

theorem exists_mapM_read_iff :
    (∃ lists, annotations.mapM (read key) = .ok lists) ↔
      ∀ a ∈ annotations, a.expression.all Text.isBlank = false →
        ∃ list, Expression.conditions a.dimension a.expression = .ok list := by
  constructor
  · rintro ⟨lists, hlists⟩ a ha -
    obtain ⟨list, -, hread⟩ := exists_mem_of_forall₂ (mapM_eq_ok_iff.mp hlists).flip ha
    exact ⟨list, read_eq_ok_iff.mp hread⟩
  · intro haccepted
    have hread : ∀ a ∈ annotations, ∃ list, a.read key = .ok list := by
      intro a ha
      simp only [read_eq_ok_iff]
      cases hblank : a.expression.all Text.isBlank with
      | false => exact haccepted a ha hblank
      | true =>
          exact ⟨[], Expression.conditions_of_trim_eq_nil a.dimension
            (Text.trim_append_of_isBlank (List.all_eq_true.mp hblank) [])⟩
    obtain ⟨lists, hlists⟩ := exists_forall₂_of_forall hread
    exact ⟨lists, mapM_eq_ok_iff.mpr hlists⟩

theorem flatten_of_mapM_read {lists : List (List Condition)}
    (h : annotations.mapM (read key) = .ok lists) :
    lists.flatten = annotations.flatMap conditions := by
  have hmap : annotations.map conditions = lists.map id :=
    map_eq_of_forall₂ (mapM_eq_ok_iff.mp h) fun a list hread => by
      simp [conditions, read_eq_ok_iff.mp hread, Except.toOption]
  rw [List.flatMap_def, hmap, List.map_id]

theorem exists_conditions_of_mapM_read {error : Error}
    (h : annotations.mapM (read key) = .error error) :
    ∃ a ∈ annotations, ∃ cause, error = .inKey key cause ∧
      Expression.conditions a.dimension (Text.trim a.expression) = .error cause := by
  obtain ⟨a, ha, hread⟩ := exists_mem_of_mapM_error h
  obtain ⟨cause, hcause, rfl⟩ := mapError_eq_error_iff.mp hread
  exact ⟨a, ha, cause, rfl, hcause⟩

end Lists

def key (name : List Char) (annotations : List Annotation) : String :=
  String.ofList (name ++ annotations.flatMap text)

/--
An annotated key is read exactly if each expression with more than blanks in it
is one of its own dimension.  What is left is the name with the blanks, and the
conditions are those of the annotations, sorted by dimension and each once.  A
key is only rejected for what an annotation says about its own dimension.
-/
theorem parseKey_annotated {dimensions : List Dimension} (h : ToldApart dimensions)
    (hname : Unmarked dimensions name)
    (hannotations : ∀ a ∈ annotations, a.WellFormed dimensions) :
    ((∃ result, parseKey dimensions (key name annotations) = .ok result) ↔
      ∀ a ∈ annotations, a.expression.all Text.isBlank = false →
        ∃ list, Expression.conditions a.dimension a.expression = .ok list) ∧
    (∀ rest list, parseKey dimensions (key name annotations) = .ok (rest, list) →
      rest = String.ofList (name ++ annotations.flatMap gap) ∧
      list = ((inOrder dimensions annotations).flatMap conditions).eraseDups ∧
      ∀ c ∈ list, ∃ a ∈ annotations, c ∈ a.conditions ∧ c.dimension = a.dimension.name) ∧
    ∀ error, parseKey dimensions (key name annotations) = .error error →
      ∃ a ∈ annotations, ∃ cause, error = .inKey (key name annotations) cause ∧
        Expression.conditions a.dimension (Text.trim a.expression) = .error cause := by
  have hkey : (key name annotations).toList = name ++ annotations.flatMap text := by simp [key]
  have hmem : ∀ a, a ∈ inOrder dimensions annotations ↔ a ∈ annotations := fun a =>
    mem_inOrder_iff.trans (and_iff_left_of_imp fun ha => (hannotations a ha).mem)
  rw [parseKey_eq h hname hannotations hkey]
  refine ⟨?_, ?_, fun error herror => ?_⟩
  · simp only [map_eq_ok_iff, ← hmem]
    rw [← exists_mapM_read_iff]
    constructor
    · rintro ⟨_, lists, hlists, _⟩
      exact ⟨lists, hlists⟩
    · rintro ⟨lists, hlists⟩
      exact ⟨_, lists, hlists, rfl⟩
  · intro rest list hresult
    obtain ⟨lists, hlists, heq⟩ := map_eq_ok_iff.mp hresult
    cases heq
    rw [flatten_of_mapM_read hlists]
    have hfrom : ∀ c ∈ (inOrder dimensions annotations).flatMap conditions,
        ∃ a ∈ annotations, c ∈ a.conditions ∧ c.dimension = a.dimension.name ∧
          ∃ domain values, c.domains = .single domain values := by
      intro c hc
      obtain ⟨a, ha, hc⟩ := List.mem_flatMap.mp hc
      exact ⟨a, (hmem a).mp ha, hc, single_of_mem_conditions hc⟩
    have hmerge := Condition.merge_nil_eq_eraseDups fun c hc => (hfrom c hc).choose_spec.2.2.2
    refine ⟨rfl, hmerge, fun c hc => ?_⟩
    rw [hmerge] at hc
    obtain ⟨a, ha, hmem, hdimension, -⟩ := hfrom c (List.mem_eraseDups.mp hc)
    exact ⟨a, ha, hmem, hdimension⟩
  · obtain ⟨a, ha, hcause⟩ := exists_conditions_of_mapM_read (map_eq_error_iff.mp herror)
    exact ⟨a, (hmem a).mp ha, hcause⟩

/-! ### At a key -/

def stage : Dimension :=
  .ofItems "env" ⟨['[', '['], [']', ']'], rfl, by decide⟩
    [⟨⟨0⟩, "dev", ["d1", "d2"], []⟩, ⟨⟨0⟩, "prod", ["p1"], []⟩]

def region : Dimension :=
  .ofItems "region" ⟨['['], [']'], rfl, by decide⟩ [⟨⟨0⟩, "eu", ["fra", "ams"], []⟩]

def zone : Dimension :=
  .ofItems "zone" ⟨['|'], ['|'], rfl, by decide⟩ [⟨⟨1⟩, "z", ["z1"], []⟩]

theorem toldApart_stage_region_zone : ToldApart [stage, region, zone] where
  sorted := by decide +kernel
  not_blank := by simp [stage, region, zone, Dimension.ofItems, Text.isBlank, Text.blankRanges]
  apart := by
    have hnested : stage.brackets.Nested region.brackets :=
      ⟨'[', ']', 2, 1, by decide +kernel, by decide +kernel, rfl, rfl, rfl, rfl⟩
    have hstage : stage.brackets.Disjoint zone.brackets := by decide +kernel
    have hregion : region.brackets.Disjoint zone.brackets := by decide +kernel
    simp [hnested, hstage, hregion]

def hostAnnotations : List Annotation :=
  [⟨region, "fra".toList, []⟩, ⟨stage, "dev.d2".toList, [' ']⟩, ⟨zone, ":z1".toList, []⟩,
    ⟨stage, [' '], []⟩, ⟨stage, "dev.d2".toList, []⟩]

theorem parseKey_annotated_host :
    parseKey [stage, region, zone] "host [fra][[dev.d2]] |:z1|[[ ]][[dev.d2]]" =
      .ok ("host  ", [⟨"env", ⟨0⟩, .single "dev" ["d2"]⟩,
        ⟨"region", ⟨0⟩, .single "eu" ["fra"]⟩, ⟨"zone", ⟨1⟩, .single "z" ["z1"]⟩]) := by
  have hkey : key "host ".toList hostAnnotations =
      "host [fra][[dev.d2]] |:z1|[[ ]][[dev.d2]]" := by decide +kernel
  have haccepted : ∀ a ∈ hostAnnotations,
      (Expression.conditions a.dimension a.expression).toOption.any (fun _ => true) = true := by
    decide +kernel
  have hname : Unmarked [stage, region, zone] "host ".toList := by decide +kernel
  have hannotations : ∀ a ∈ hostAnnotations, a.WellFormed [stage, region, zone] := by decide +kernel
  obtain ⟨hok, hresult, -⟩ :=
    parseKey_annotated toldApart_stage_region_zone hname hannotations
  obtain ⟨⟨rest, list⟩, hparse⟩ := hok.mpr fun a ha _ => by
    obtain ⟨list, hlist, -⟩ := any_toOption_iff.mp (haccepted a ha)
    exact ⟨list, hlist⟩
  obtain ⟨rfl, rfl, -⟩ := hresult rest list hparse
  rw [← hkey, hparse]
  decide

end Annotation

end Variants
