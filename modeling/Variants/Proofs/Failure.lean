import Variants.Proofs.FailingPlaceholder

/-!
# Kinds of errors

Each operation fails with errors of a few kinds.  What is wrong with an
expression is wrapped once, by the key or filter that the expression stands in,
and what is wrong with a placeholder by the value around it; everything else is
reported as it is.  The kinds are followed through sequences of steps by lemmas
on runs, so every function needs to be looked into only once.
-/

namespace Variants

/-! ## Kinds -/

namespace Error

def isOfExpression : Error → Bool
  | .commaInExpression _ => true
  | .unknownRegister _ _ => true
  | .unresolved _ _ _ => true
  | _ => false

def isOfKey : Error → Bool
  | .registerCount _ => true
  | error => error.isOfExpression

def isOfDocument : Error → Bool
  | .rootNotMapping => true
  | .malformedDeclaration _ => true
  | .malformedBrackets _ _ => true
  | .duplicateDimension _ => true
  | .ambiguousBrackets _ _ _ => true
  | .invalidInitializer _ _ => true
  | .domainRedeclared _ _ => true
  | .missingDomain _ _ => true
  | .unterminated _ _ => true
  | .trailingGarbage _ => true
  | .inKey _ cause => cause.isOfKey
  | _ => false

def isOfFilter : Error → Bool
  | .malformedFilter _ => true
  | .inFilter _ (.unknownDimension _) => true
  | .inFilter _ cause => cause.isOfExpression
  | _ => false

def isOfInterpolation : Error → Bool
  | .inInterpolation _ (.unknownRegister _ _) => true
  | .inInterpolation _ (.emptyInterpolation _ _) => true
  | _ => false

def isOfRendering : Error → Bool
  | .keyIntoScalar _ => true
  | error => error.isOfInterpolation

def wrappers : Error → Nat
  | .inKey _ cause => cause.wrappers + 1
  | .inFilter _ cause => cause.wrappers + 1
  | .inInterpolation _ cause => cause.wrappers + 1
  | _ => 0

theorem wrappers_rootCause (error : Error) : error.rootCause.wrappers = 0 := by
  induction error with
  | inKey _ _ ih => exact ih
  | inFilter _ _ ih => exact ih
  | inInterpolation _ _ ih => exact ih
  | _ => rfl

theorem wrappers_of_isOfExpression {error : Error} (h : error.isOfExpression = true) :
    error.wrappers = 0 := by
  cases error <;> simp_all [isOfExpression, wrappers]

theorem wrappers_of_isOfKey {error : Error} (h : error.isOfKey = true) :
    error.wrappers = 0 := by
  unfold isOfKey at h
  split at h
  · rfl
  · exact wrappers_of_isOfExpression h

theorem wrappers_of_isOfDocument {error : Error} (h : error.isOfDocument = true) :
    error.wrappers ≤ 1 := by
  unfold isOfDocument at h
  split at h <;> simp_all [wrappers, wrappers_of_isOfKey]

theorem wrappers_of_isOfFilter {error : Error} (h : error.isOfFilter = true) :
    error.wrappers ≤ 1 := by
  unfold isOfFilter at h
  split at h <;> simp_all [wrappers, wrappers_of_isOfExpression]

theorem wrappers_of_isOfInterpolation {error : Error} (h : error.isOfInterpolation = true) :
    error.wrappers ≤ 1 := by
  unfold isOfInterpolation at h
  split at h <;> simp_all [wrappers]

theorem wrappers_of_isOfRendering {error : Error} (h : error.isOfRendering = true) :
    error.wrappers ≤ 1 := by
  unfold isOfRendering at h
  split at h
  · exact Nat.zero_le _
  · exact wrappers_of_isOfInterpolation h

end Error

/-! ## Runs -/

/-- Every error that the run can end with is of the kind. -/
def FailsWith {α : Type} (kind : Error → Bool) (run : Except Error α) : Prop :=
  ∀ error, run = .error error → kind error = true

namespace FailsWith

variable {α β : Type} {kind other : Error → Bool}

theorem ok (a : α) : FailsWith kind (.ok a) := by
  rintro error ⟨⟩

theorem error {error : Error} (h : kind error = true) :
    FailsWith kind (.error error : Except Error α) := by
  rintro _ ⟨⟩
  exact h

theorem throw_bind {error : Error} (h : kind error = true) (f : α → Except Error β) :
    FailsWith kind ((throw error : Except Error α) >>= f) :=
  .error h

theorem bind {x : Except Error α} {f : α → Except Error β} (hx : FailsWith kind x)
    (hf : ∀ a, FailsWith kind (f a)) : FailsWith kind (x >>= f) := by
  intro error h
  cases hrun : x with
  | error cause =>
      rw [hrun] at h
      cases h
      exact hx error hrun
  | ok a =>
      rw [hrun] at h
      exact hf a error h

theorem map {x : Except Error α} (hx : FailsWith kind x) (f : α → β) :
    FailsWith kind (x.map f) :=
  fun error h => hx error (map_eq_error_iff.mp h)

theorem mapError {x : Except Error α} {f : Error → Error} (hx : FailsWith kind x)
    (hf : ∀ error, kind error = true → other (f error) = true) :
    FailsWith other (x.mapError f) := by
  intro error h
  obtain ⟨cause, hcause, rfl⟩ := mapError_eq_error_iff.mp h
  exact hf cause (hx cause hcause)

theorem ite {p : Prop} [Decidable p] {x y : Except Error α} (hx : FailsWith kind x)
    (hy : FailsWith kind y) : FailsWith kind (if p then x else y) := by
  split
  · exact hx
  · exact hy

theorem mapM {f : α → Except Error β} (hf : ∀ a, FailsWith kind (f a)) (xs : List α) :
    FailsWith kind (xs.mapM f) := by
  intro error h
  obtain ⟨x, -, hx⟩ := exists_mem_of_mapM_error h
  exact hf x error hx

theorem foldlM {f : β → α → Except Error β} (hf : ∀ b a, FailsWith kind (f b a)) (xs : List α)
    (start : β) : FailsWith kind (xs.foldlM f start) := by
  intro error h
  obtain ⟨-, x, -, reached, -, -, hx⟩ := exists_of_foldlM_error h
  exact hf reached x error hx

end FailsWith

/-! ## Expressions -/

theorem Dimension.failsWith_resolve (d : Dimension) (register : Register) (name : List Char) :
    FailsWith Error.isOfExpression (d.resolve register name) := by
  unfold resolve
  refine .ite ?_ (.error rfl)
  cases d.resolve? register name with
  | none => exact .error rfl
  | some domains => exact .ok domains

namespace Expression

theorem failsWith_segments (expression : List Char) :
    FailsWith Error.isOfExpression (segments expression) :=
  .ite (.error rfl) (.ok _)

theorem failsWith_conditions (d : Dimension) (expression : List Char) :
    FailsWith Error.isOfExpression (conditions d expression) :=
  (failsWith_segments expression).bind fun segments =>
    .mapM (fun ⟨register, name⟩ => (d.failsWith_resolve register name).bind fun _ => .ok _)
      segments

theorem failsWith_slot (expression : List Char) :
    FailsWith Error.isOfKey (slot expression) := by
  have hsegments : FailsWith Error.isOfKey (segments expression) :=
    .ite (.error rfl) (.ok _)
  refine hsegments.bind fun segments => ?_
  split
  · exact .ok _
  · exact .error rfl

theorem failsWith_filterConditions (dimensions : List Dimension) (filter : String) :
    FailsWith Error.isOfFilter (filterConditions dimensions filter) := by
  unfold filterConditions
  split
  · exact .error rfl
  · split
    · exact .error rfl
    · refine (failsWith_conditions _ _).mapError fun error h => ?_
      cases error <;> simp_all [Error.isOfExpression, Error.isOfFilter]

end Expression

/-! ## Documents -/

theorem KeyReading.failsWith_addExpression (key : String) (d : Dimension)
    (conditions : List Condition) (expression : List Char) :
    FailsWith Error.isOfDocument (addExpression key d conditions expression) := by
  unfold addExpression
  split
  · exact .ok _
  · refine .bind ((Expression.failsWith_conditions _ _).mapError fun error h => ?_) fun _ => .ok _
    cases error <;> simp_all [Error.isOfExpression, Error.isOfDocument, Error.isOfKey]

theorem KeyReading.failsWith_strip (key : String) (reading : KeyReading) (d : Dimension) :
    FailsWith Error.isOfDocument (strip key reading d) :=
  (FailsWith.foldlM (failsWith_addExpression key d) _ _).bind fun _ => .ite (.ok _) (.error rfl)

theorem failsWith_parseKey (dimensions : List Dimension) (key : String) :
    FailsWith Error.isOfDocument (parseKey dimensions key) :=
  (FailsWith.foldlM (KeyReading.failsWith_strip key) _ _).bind fun _ =>
    .ite (.ok _) (.error rfl)

theorem PendingItem.failsWith_assign (dimension key : String) (slot : Register × String)
    (item : PendingItem) : FailsWith Error.isOfDocument (item.assign dimension key slot) := by
  unfold assign
  split
  · exact .error rfl
  · exact .ok _

theorem PendingItem.failsWith_toItem (dimension : String) (item : PendingItem) :
    FailsWith Error.isOfDocument (item.toItem dimension) := by
  unfold toItem
  split
  · exact .ok _
  · exact .error rfl

theorem failsWith_assignSlot (dimension key : String) (name : List Char)
    (items : List PendingItem) :
    FailsWith Error.isOfDocument (assignSlot dimension key name items) :=
  .ite (.ok _) <| .bind ((Expression.failsWith_slot name).mapError fun _ h => h) fun slot =>
    .mapM (PendingItem.failsWith_assign dimension key slot) items

theorem failsWith_scalarTexts (dimension key : String) (values : List Value) :
    FailsWith Error.isOfDocument (scalarTexts dimension key values) := by
  refine .mapM (fun value => ?_) values
  cases value.scalarText? with
  | none => exact .error rfl
  | some text => exact .ok text

mutual

theorem failsWith_readInitializer (dimension : String) (known : List Dimension) (key : String)
    (conditions : List Condition) : ∀ value : Value,
      FailsWith Error.isOfDocument (readInitializer dimension known key conditions value)
  | .object entries => by
      simp only [readInitializer]
      exact (failsWith_readInitializers dimension known entries).map _
  | .array values => by
      simp only [readInitializer]
      exact (failsWith_scalarTexts dimension key values).map _
  | .null => .error rfl
  | .boolean _ => .error rfl
  | .integer _ => .error rfl
  | .decimal _ => .error rfl
  | .string _ => .error rfl

theorem failsWith_readInitializers (dimension : String) (known : List Dimension) :
    ∀ entries : List (String × Value),
      FailsWith Error.isOfDocument (readInitializers dimension known entries)
  | [] => .ok _
  | (key, value) :: rest => by
      rw [readInitializers]
      exact (failsWith_parseKey known key).bind fun _ =>
        (failsWith_readInitializer dimension known key _ value).bind fun items =>
          (failsWith_assignSlot dimension key _ items).bind fun _ =>
            (failsWith_readInitializers dimension known rest).bind fun _ => .ok _

end

theorem failsWith_readItems (dimension : String) (known : List Dimension)
    (entries : List (String × Value)) :
    FailsWith Error.isOfDocument (readItems dimension known entries) :=
  (failsWith_readInitializers dimension known entries).bind
    (FailsWith.mapM (PendingItem.failsWith_toItem dimension))

theorem Brackets.failsWith_parse (name marker : String) :
    FailsWith Error.isOfDocument (Brackets.parse name marker) := by
  unfold Brackets.parse
  split
  · exact .ok _
  · exact .error rfl

namespace Declarations

theorem failsWith_declare (declarations : Declarations) (key name marker : String)
    (value : Value) :
    FailsWith Error.isOfDocument (declarations.declare key name marker value) := by
  unfold declare
  refine .ite (.throw_bind rfl _) ((Brackets.failsWith_parse name marker).bind fun brackets => ?_)
  refine .ite (.throw_bind rfl _) ?_
  split
  · exact .error rfl
  · split
    · exact .error rfl
    · exact (failsWith_readItems name declarations.dimensions _).bind fun _ => .ok _

theorem failsWith_addEntry (declarations : Declarations) (entry : String × Value) :
    FailsWith Error.isOfDocument (declarations.addEntry entry) := by
  unfold addEntry
  split
  · exact .ok _
  · exact declarations.failsWith_declare _ _ _ _

end Declarations

namespace Properties

mutual

theorem failsWith_build (dimensions : List Dimension) : ∀ (nodes : Array Node) (value : Value),
    FailsWith Error.isOfDocument (build dimensions nodes value)
  | nodes, .object entries => by
      rw [build]
      exact (failsWith_buildEntries dimensions nodes entries).bind fun _ => .ok _
  | nodes, .array items => by
      rw [build]
      exact (failsWith_buildItems dimensions nodes items).bind fun _ => .ok _
  | _, .null => .ok _
  | _, .boolean _ => .ok _
  | _, .integer _ => .ok _
  | _, .decimal _ => .ok _
  | _, .string _ => .ok _

theorem failsWith_buildEntries (dimensions : List Dimension) :
    ∀ (nodes : Array Node) (entries : List (String × Value)),
      FailsWith Error.isOfDocument (buildEntries dimensions nodes entries)
  | _, [] => .ok _
  | nodes, (key, value) :: rest => by
      rw [buildEntries]
      exact (failsWith_parseKey dimensions key).bind fun _ =>
        (failsWith_build dimensions nodes value).bind fun ⟨below, _⟩ =>
          (failsWith_buildEntries dimensions below rest).bind fun _ => .ok _

theorem failsWith_buildItems (dimensions : List Dimension) :
    ∀ (nodes : Array Node) (items : List Value),
      FailsWith Error.isOfDocument (buildItems dimensions nodes items)
  | _, [] => .ok _
  | nodes, item :: rest => by
      rw [buildItems]
      exact (failsWith_build dimensions nodes item).bind fun ⟨below, _⟩ =>
        (failsWith_buildItems dimensions below rest).bind fun _ => .ok _

end

end Properties

theorem Document.failsWith_parse (document : Value) :
    FailsWith Error.isOfDocument (Document.parse document) := by
  unfold Document.parse
  split
  · exact .error rfl
  · exact (FailsWith.foldlM Declarations.failsWith_addEntry _ _).bind fun declarations =>
      ((Properties.failsWith_buildEntries declarations.dimensions _ _).bind fun _ => .ok _).bind
        fun _ => .ok _

/-! ## Rendering -/

theorem failsWith_interpolate (dimensions : List Dimension) (tuple : Tuple) (text : String) :
    FailsWith Error.isOfInterpolation (interpolate dimensions tuple text) := by
  intro error h
  obtain ⟨-, d, -, -, cause, -, -, rfl, placeholder, -, htext⟩ :=
    exists_placeholder_of_interpolate h
  rcases Placeholder.text_eq_error_iff.mp htext with ⟨-, rfl⟩ | ⟨-, rfl, -⟩ <;> rfl

namespace Config

variable (config : Config) (tuple : Tuple)

theorem failsWith_renderScalar (value : Value) :
    FailsWith Error.isOfRendering (config.renderScalar tuple value) := by
  unfold renderScalar
  split
  · refine FailsWith.map (fun error h => ?_) _
    have hkind := failsWith_interpolate config.dimensions tuple _ error h
    cases error <;> first | exact hkind | rfl
  · exact .ok _

theorem failsWith_place (key : Option String) (value : Value) (result : Option Value) :
    FailsWith Error.isOfRendering (place key value result) := by
  unfold place
  split
  · exact .ok _
  · exact .ok _
  · exact .ok _
  · exact .error rfl

theorem failsWith_renderEntries {render : Child → Except Error Value}
    (hrender : ∀ child, FailsWith Error.isOfRendering (render child)) (entries : List MapEntry)
    (result : Option Value) :
    FailsWith Error.isOfRendering (renderEntries render entries result) := by
  induction entries generalizing result with
  | nil => exact .ok _
  | cons entry rest ih =>
      exact (hrender entry.child).bind fun value =>
        (failsWith_place entry.key value result).bind fun placed => ih (some placed)

variable {results : Array (Except Error Value)}

theorem failsWith_renderNode
    (hresults : ∀ id, FailsWith Error.isOfRendering (results.getD id (.ok (.object []))))
    (context : List (String × NestedSet)) (node : Node) :
    FailsWith Error.isOfRendering (config.renderNode tuple context results node) := by
  have hchild : ∀ child,
      FailsWith Error.isOfRendering (config.renderChild tuple results child) := by
    intro child
    cases child with
    | node id => exact hresults id
    | scalar value => exact config.failsWith_renderScalar tuple value
  cases node with
  | map entries => exact failsWith_renderEntries hchild _ _
  | array entries => exact (FailsWith.mapM (fun (entry : ArrayEntry) => hchild entry.child) _).map _

theorem failsWith_renderNodes (nodes : Array Node) (id : Nat) :
    FailsWith Error.isOfRendering
      ((config.renderNodes tuple nodes).getD id (.ok (.object []))) := by
  refine Array.foldl_induction (motive := fun _ (results : Array (Except Error Value)) =>
    ∀ id, FailsWith Error.isOfRendering (results.getD id (.ok (.object [])))) ?_ ?_ id
  · exact fun id => .ok _
  · intro index results ih id
    rw [Array.getD_eq_getD_getElem?, Array.getElem?_push]
    split
    · exact config.failsWith_renderNode tuple ih _ _
    · rw [← Array.getD_eq_getD_getElem?]
      exact ih id

theorem failsWith_render : FailsWith Error.isOfRendering (config.render tuple) :=
  config.failsWith_renderNodes tuple _ _

/-- A call is rejected at its first unreadable filter.  All its filters are read on the same
dimensions. -/
theorem filter_eq_error_iff {filters : List String} {error : Error} :
    config.filter filters = .error error ↔
      ∃ before filter after, filters = before ++ filter :: after ∧
        (∀ earlier ∈ before, ∃ conditions,
          Expression.filterConditions config.dimensions earlier = .ok conditions) ∧
        Expression.filterConditions config.dimensions filter = .error error := by
  rw [← mapM_eq_error_iff, filter, Expression.filtersConditions]
  cases filters.mapM (Expression.filterConditions config.dimensions) <;>
    simp [Except.map, bind, Except.bind, pure, Except.pure]

theorem afterFilter_of_unreadable {filters : List String} {filter : String} {error : Error}
    (hmem : filter ∈ filters)
    (h : Expression.filterConditions config.dimensions filter = .error error) :
    config.afterFilter filters = config := by
  cases hfilter : config.filter filters with
  | error cause => rw [afterFilter, hfilter]
  | ok filtered =>
      obtain ⟨conditions, hconditions, -⟩ := filter_eq_ok_iff.mp hfilter
      obtain ⟨lists, hlists, -⟩ := map_eq_ok_iff.mp hconditions
      obtain ⟨list, -, hlist⟩ := exists_mem_of_forall₂ (mapM_eq_ok_iff.mp hlists).flip hmem
      rw [h] at hlist
      cases hlist

/--
Reading a document, filtering, filling in and rendering fail with errors of their
own kinds only.  An unreadable filter keeps all filters of its call from having an
effect, and the first of these gives the error.  No error of these kinds is wrapped
twice, and no root cause is wrapped at all.
-/
theorem errors_of_operations :
    (∀ mode document, FailsWith Error.isOfDocument (parse mode document)) ∧
    (∀ (config : Config) filters, FailsWith Error.isOfFilter (config.filter filters) ∧
      (∀ filter ∈ filters, ∀ error,
        Expression.filterConditions config.dimensions filter = .error error →
          config.afterFilter filters = config) ∧
      ∀ error, config.filter filters = .error error ↔
        ∃ before filter after, filters = before ++ filter :: after ∧
          (∀ earlier ∈ before, ∃ conditions,
            Expression.filterConditions config.dimensions earlier = .ok conditions) ∧
          Expression.filterConditions config.dimensions filter = .error error) ∧
    (∀ (config : Config) tuple text,
      FailsWith Error.isOfInterpolation (config.interpolate tuple text)) ∧
    (∀ (config : Config) tuple, FailsWith Error.isOfRendering (config.render tuple)) ∧
    (∀ config : Config, FailsWith Error.isOfRendering config.products) ∧
    ∀ error : Error, error.rootCause.wrappers = 0 ∧
      ((error.isOfDocument || error.isOfFilter || error.isOfInterpolation ||
        error.isOfRendering) = true → error.wrappers ≤ 1) := by
  refine ⟨fun mode document => (Document.failsWith_parse document).map _,
    fun config filters => ⟨?_, fun filter hmem error => config.afterFilter_of_unreadable hmem,
      fun error => config.filter_eq_error_iff⟩,
    fun config tuple text => failsWith_interpolate config.dimensions tuple text,
    fun config tuple => config.failsWith_render tuple,
    fun config => .mapM (fun tuple => (config.failsWith_render tuple).bind fun _ => .ok _) _,
    fun error => ⟨error.wrappers_rootCause, fun h => ?_⟩⟩
  · have hfilters : FailsWith Error.isOfFilter
        (Expression.filtersConditions config.dimensions filters) :=
      (FailsWith.mapM (Expression.failsWith_filterConditions config.dimensions) filters).map _
    exact hfilters.bind fun _ => .ok _
  · simp only [Bool.or_eq_true] at h
    rcases h with ((h | h) | h) | h
    · exact Error.wrappers_of_isOfDocument h
    · exact Error.wrappers_of_isOfFilter h
    · exact Error.wrappers_of_isOfInterpolation h
    · exact Error.wrappers_of_isOfRendering h

example : ((parse .firstKey stagedRegions) >>= fun config =>
    (config.filter ["env=dev", "region=eu"]).map fun _ => ()) =
      .error (.inFilter "region=eu" (.unresolved "region" ⟨0⟩ "eu")) := by
  decide +kernel

end Config

end Variants
