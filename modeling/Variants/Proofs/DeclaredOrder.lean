import Variants.Proofs.Reachable

/-!
# The order of the dimensions

While the declarations of a document are read, the dimensions found so far are
kept by descending width of their brackets, because the keys of later
declarations are read with them.  What stands at the end is the stable sort of
the order of declaration, and no filter moves a dimension or changes its name,
its marker or what it depends on.
-/

namespace Variants

/-! ## Sorting by descending width -/

namespace Dimension

/-- A sort by width may leave the first dimension in front of the second. -/
def precedes (a b : Dimension) : Bool := decide (b.brackets.width ≤ a.brackets.width)

theorem precedes_trans (a b c : Dimension) (hab : a.precedes b = true)
    (hbc : b.precedes c = true) : a.precedes c = true := by
  simp only [precedes, decide_eq_true_eq] at *
  omega

theorem precedes_total (a b : Dimension) : (a.precedes b || b.precedes a) = true := by
  simp only [precedes, Bool.or_eq_true, decide_eq_true_eq]
  omega

def Sorted (dimensions : List Dimension) : Prop :=
  dimensions.Pairwise fun a b => a.precedes b = true

def ofWidth (width : Nat) (dimensions : List Dimension) : List Dimension :=
  dimensions.filter fun d => d.brackets.width = width

theorem ofWidth_append (width : Nat) (first second : List Dimension) :
    ofWidth width (first ++ second) = ofWidth width first ++ ofWidth width second :=
  List.filter_append _ _

theorem sorted_ofWidth (width : Nat) (dimensions : List Dimension) :
    Sorted (ofWidth width dimensions) := by
  refine List.pairwise_of_forall_mem_list fun a ha b hb => ?_
  simp only [ofWidth, List.mem_filter, decide_eq_true_eq] at ha hb
  simp [precedes, ha.2, hb.2]

theorem eq_of_ofWidth_eq {xs ys : List Dimension} (hxs : Sorted xs) (hys : Sorted ys)
    (h : ∀ width, ofWidth width xs = ofWidth width ys) : xs = ys := by
  have hmem : ∀ d, d ∈ xs ↔ d ∈ ys := fun d => by
    have hd := congrArg (d ∈ ·) (h d.brackets.width)
    simpa [ofWidth] using hd
  induction xs generalizing ys with
  | nil =>
      refine (List.eq_nil_iff_forall_not_mem.mpr fun d hd => ?_).symm
      exact List.not_mem_nil ((hmem d).mpr hd)
  | cons x xs ih =>
      cases ys with
      | nil => exact absurd ((hmem x).mp List.mem_cons_self) List.not_mem_nil
      | cons y ys =>
          obtain ⟨hx, hxrest⟩ := List.pairwise_cons.mp hxs
          obtain ⟨hy, hyrest⟩ := List.pairwise_cons.mp hys
          -- Both heads have the greatest width, so they head the part of that width.
          have hwidth : x.brackets.width = y.brackets.width := by
            have hxmem := List.mem_cons.mp ((hmem x).mp List.mem_cons_self)
            have hymem := List.mem_cons.mp ((hmem y).mpr List.mem_cons_self)
            rcases hxmem with rfl | hxmem
            · rfl
            rcases hymem with rfl | hymem
            · rfl
            have hle := hy x hxmem
            have hge := hx y hymem
            simp only [precedes, decide_eq_true_eq] at hle hge
            omega
          obtain rfl : x = y := by
            have hheads := h x.brackets.width
            simp only [ofWidth, List.filter_cons, hwidth, decide_true, if_true] at hheads
            exact (List.cons.inj hheads).1
          have hrest : ∀ width, ofWidth width xs = ofWidth width ys := fun width => by
            have hparts := h width
            by_cases hw : x.brackets.width = width <;> simpa [ofWidth, hw] using hparts
          rw [ih hxrest hyrest hrest fun d => ?_]
          have hd := congrArg (d ∈ ·) (hrest d.brackets.width)
          simpa [ofWidth] using hd

theorem ofWidth_mergeSort (width : Nat) (dimensions : List Dimension) :
    ofWidth width (dimensions.mergeSort precedes) = ofWidth width dimensions := by
  have hsub : (ofWidth width dimensions).Sublist (dimensions.mergeSort precedes) :=
    List.sublist_mergeSort precedes_trans precedes_total (sorted_ofWidth width dimensions)
      List.filter_sublist
  have hparts : (ofWidth width dimensions).Sublist
      (ofWidth width (dimensions.mergeSort precedes)) := by
    simpa [ofWidth] using hsub.filter fun d => d.brackets.width = width
  refine (hparts.eq_of_length ?_).symm
  exact ((List.mergeSort_perm dimensions precedes).filter _).length_eq.symm

theorem sorted_insertByWidth {d : Dimension} {dimensions : List Dimension}
    (h : Sorted dimensions) : Sorted (insertByWidth d dimensions) := by
  induction dimensions with
  | nil => exact List.pairwise_singleton _ _
  | cons other rest ih =>
      obtain ⟨hother, hrest⟩ := List.pairwise_cons.mp h
      unfold insertByWidth
      split
      · next hle =>
          refine List.pairwise_cons.mpr ⟨fun e he => ?_, ih hrest⟩
          rcases List.mem_cons.mp ((perm_insertByWidth d rest).mem_iff.mp he) with rfl | he
          · exact decide_eq_true hle
          · exact hother e he
      · next hlt =>
          have hd : d.precedes other = true := decide_eq_true (Nat.le_of_not_le hlt)
          refine List.pairwise_cons.mpr ⟨List.forall_mem_cons.mpr ⟨hd, fun e he => ?_⟩, h⟩
          exact precedes_trans d other e hd (hother e he)

theorem ofWidth_insertByWidth (width : Nat) (d : Dimension) {dimensions : List Dimension}
    (h : Sorted dimensions) :
    ofWidth width (insertByWidth d dimensions) = ofWidth width (dimensions ++ [d]) := by
  induction dimensions with
  | nil => rfl
  | cons other rest ih =>
      obtain ⟨hother, hrest⟩ := List.pairwise_cons.mp h
      unfold insertByWidth
      split
      · have hcons := ih hrest
        simp only [ofWidth, List.cons_append, List.filter_cons] at hcons ⊢
        rw [hcons]
      · next hlt =>
          by_cases hd : d.brackets.width = width
          · have hnone : ofWidth width (other :: rest) = [] := by
              refine List.filter_eq_nil_iff.mpr fun e he => ?_
              have hle : e.brackets.width ≤ other.brackets.width := by
                rcases List.mem_cons.mp he with rfl | he
                · exact Nat.le_refl _
                · exact of_decide_eq_true (hother e he)
              simp only [decide_eq_true_eq]
              omega
            unfold ofWidth at hnone ⊢
            rw [List.filter_append, hnone, List.filter_cons, hnone]
            simp [hd]
          · simp [ofWidth, List.filter_cons, hd]

/-- Inserting one dimension after another is one stable sort. -/
theorem insertByWidth_mergeSort (d : Dimension) (dimensions : List Dimension) :
    insertByWidth d (dimensions.mergeSort precedes) =
      (dimensions ++ [d]).mergeSort precedes := by
  have hsorted : Sorted (dimensions.mergeSort precedes) :=
    List.pairwise_mergeSort precedes_trans precedes_total dimensions
  refine eq_of_ofWidth_eq (sorted_insertByWidth hsorted)
    (List.pairwise_mergeSort precedes_trans precedes_total _) fun width => ?_
  rw [ofWidth_insertByWidth width d hsorted, ofWidth_append, ofWidth_mergeSort,
    ofWidth_mergeSort, ofWidth_append]

end Dimension

/-! ## Declarations in order -/

namespace Brackets

theorem parse_eq_ok_iff {name marker : String} {brackets : Brackets} :
    parse name marker = .ok brackets ↔ brackets.marker = marker := by
  have hhalves : parse name marker = .ok brackets ↔ ofMarker? marker.toList = some brackets := by
    unfold parse
    cases ofMarker? marker.toList <;> simp
  rw [hhalves, ofMarker?_eq_some_iff, Brackets.marker, ← String.toList_inj, eq_comm]
  simp

theorem marker_injective : Function.Injective marker := by
  intro a b h
  have ha : parse "" a.marker = .ok a := parse_eq_ok_iff.mpr rfl
  rw [parse_eq_ok_iff.mpr h.symm] at ha
  exact (Except.ok.inj ha).symm

theorem length_marker (brackets : Brackets) :
    brackets.marker.length = 2 * brackets.width := by
  have hsame := brackets.same_width
  simp only [marker, String.length_ofList, List.length_append, width]
  omega

end Brackets

structure Dimension.DeclaredBy (d : Dimension) (entry : String × Value) : Prop where
  key_eq : entry.1.toList = d.name.toList ++ '/' :: d.brackets.marker.toList
  not_mem_name : '/' ∉ d.name.toList

def declares (entry : String × Value) : Bool := entry.1.toList.contains '/'

/-- The entries declare dimensions in a certain order, and this is what is stored of them. -/
structure DeclaredInOrder (entries : List (String × Value)) (inOrder : List Dimension)
    (declared : List String) (dimensions : List Dimension) : Prop where
  declaredBy : List.Forall₂ Dimension.DeclaredBy inOrder (entries.filter declares)
  declared_eq : declared = inOrder.map (·.name)
  dimensions_eq : dimensions = inOrder.mergeSort Dimension.precedes
  nodup_names : (inOrder.map (·.name)).Nodup
  name_ne : ∀ d ∈ inOrder, d.name ≠ ""
  nodup_markers : (inOrder.map (·.brackets.marker)).Nodup
  even_markers : ∀ d ∈ inOrder,
    0 < d.brackets.marker.length ∧ d.brackets.marker.length % 2 = 0
  mem_depends : ∀ d ∈ inOrder, ∀ name, name ∈ d.depends ↔
    ∃ item ∈ d.items, ∃ c ∈ item.conditions, c.dimension = name
  earlier : ∀ d ∈ inOrder, ∀ name ∈ d.depends, declared.idxOf name < declared.idxOf d.name

namespace DeclaredInOrder

variable {entries : List (String × Value)} {inOrder dimensions : List Dimension}
  {declared : List String} {entry : String × Value}

theorem nil : DeclaredInOrder [] [] [] [] where
  declaredBy := .nil
  declared_eq := rfl
  dimensions_eq := by simp
  nodup_names := List.nodup_nil
  name_ne := by simp
  nodup_markers := List.nodup_nil
  even_markers := by simp
  mem_depends := by simp
  earlier := by simp

theorem mem_iff (h : DeclaredInOrder entries inOrder declared dimensions) {d : Dimension} :
    d ∈ inOrder ↔ d ∈ dimensions := by
  rw [h.dimensions_eq, List.mem_mergeSort]

theorem property (h : DeclaredInOrder entries inOrder declared dimensions)
    (hproperty : declares entry = false) :
    DeclaredInOrder (entries ++ [entry]) inOrder declared dimensions :=
  { h with declaredBy := by simpa [hproperty] using h.declaredBy }

theorem concat (h : DeclaredInOrder entries inOrder declared dimensions) {d : Dimension}
    (hdeclared : d.DeclaredBy entry) (hname : d.name ≠ "")
    (hmarker : ∀ other ∈ dimensions, other.brackets ≠ d.brackets)
    (hdepends : ∀ name, name ∈ d.depends ↔
      ∃ item ∈ d.items, ∃ c ∈ item.conditions, c.dimension = name)
    (hwell : WellDeclared (insertByWidth d dimensions) (declared ++ [d.name])) :
    DeclaredInOrder (entries ++ [entry]) (inOrder ++ [d]) (declared ++ [d.name])
      (insertByWidth d dimensions) where
  declaredBy := by
    have hdeclares : declares entry = true := by simp [declares, hdeclared.key_eq]
    rw [List.filter_append, List.filter_singleton, hdeclares]
    exact List.rel_append h.declaredBy (.cons hdeclared .nil)
  declared_eq := by simp [h.declared_eq]
  dimensions_eq := by
    rw [h.dimensions_eq]
    exact Dimension.insertByWidth_mergeSort d inOrder
  nodup_names := by simpa [h.declared_eq] using hwell.nodup
  name_ne := List.forall_mem_append.mpr ⟨h.name_ne, List.forall_mem_singleton.mpr hname⟩
  nodup_markers := by
    rw [List.map_append, List.map_singleton, ← List.concat_eq_append, List.nodup_concat]
    refine ⟨fun hmem => ?_, h.nodup_markers⟩
    obtain ⟨other, hother, heq⟩ := List.mem_map.mp hmem
    exact hmarker other (h.mem_iff.mp hother) (Brackets.marker_injective heq)
  even_markers := by
    refine List.forall_mem_append.mpr ⟨h.even_markers, List.forall_mem_singleton.mpr ?_⟩
    have hpos := d.brackets.width_pos
    rw [Brackets.length_marker, Brackets.width]
    omega
  mem_depends :=
    List.forall_mem_append.mpr ⟨h.mem_depends, List.forall_mem_singleton.mpr hdepends⟩
  earlier := by
    intro other hother
    refine hwell.depends_earlier other ((perm_insertByWidth d dimensions).mem_iff.mpr ?_)
    rcases List.mem_append.mp hother with hother | hother
    · exact List.mem_cons_of_mem d (h.mem_iff.mp hother)
    · rw [List.mem_singleton.mp hother]
      exact List.mem_cons_self

end DeclaredInOrder

namespace Declarations

theorem declaredBy_of_splitDeclaration? {entry : String × Value} {name marker : String}
    (h : splitDeclaration? entry.1 = some (name, marker)) {brackets : Brackets}
    (hbrackets : Brackets.parse name marker = .ok brackets) (items : List Item) :
    (Dimension.ofItems name brackets items).DeclaredBy entry := by
  obtain ⟨⟨before, after⟩, hsplit, heq⟩ := Option.map_eq_some_iff.mp h
  cases heq
  obtain ⟨hkey, hclear⟩ := Text.eq_append_of_splitOnce hsplit
  refine ⟨?_, ?_⟩
  · simpa [Dimension.ofItems, Brackets.parse_eq_ok_iff.mp hbrackets] using hkey
  · simpa [Dimension.ofItems] using hclear

variable {entries root : List (String × Value)} {inOrder : List Dimension}
  {declarations result : Declarations} {entry : String × Value}

theorem declaredInOrder_addEntry
    (hwell : WellDeclared declarations.dimensions declarations.declared)
    (h : DeclaredInOrder entries inOrder declarations.declared declarations.dimensions)
    (hadd : declarations.addEntry entry = .ok result) :
    ∃ extended, DeclaredInOrder (entries ++ [entry]) extended result.declared
      result.dimensions := by
  have hresult := wellDeclared_addEntry hwell hadd
  unfold addEntry at hadd
  split at hadd
  · next hnone =>
      cases hadd
      refine ⟨inOrder, h.property ?_⟩
      simpa [declares, splitDeclaration?, Text.splitOnce_eq_none_iff] using hnone
  · next name marker hsplit =>
      obtain ⟨brackets, mapping, items, hname, hbrackets, -, hmarkers, -, -, rfl⟩ :=
        declare_eq_ok hadd
      have hdeclared := declaredBy_of_splitDeclaration? hsplit hbrackets items
      refine ⟨_, h.concat hdeclared ?_ hmarkers (fun other => mem_depends_ofItems) hresult⟩
      simpa [Dimension.ofItems] using hname

theorem exists_declaredInOrder (h : read root = .ok declarations) :
    ∃ inOrder, DeclaredInOrder root inOrder declarations.declared declarations.dimensions := by
  induction root using List.reverseRecOn generalizing declarations with
  | nil =>
      cases h
      exact ⟨[], .nil⟩
  | append_singleton entries entry ih =>
      simp only [read, List.foldlM_append, bind_eq_ok_iff] at h
      obtain ⟨before, hbefore, hentry⟩ := h
      obtain ⟨inOrder, hinOrder⟩ := ih hbefore
      simp only [List.foldlM_cons, List.foldlM_nil, bind_pure] at hentry
      exact declaredInOrder_addEntry (wellDeclared_read hbefore) hinOrder hentry

end Declarations

/-! ## After filters -/

def Dimension.frame (d : Dimension) : String × Brackets × List String :=
  (d.name, d.brackets, d.depends)

namespace Config

theorem map_frame_filterNamed (conditions : List Condition) (dimensions : List Dimension)
    (name : String) :
    (filterNamed conditions dimensions name).map Dimension.frame =
      dimensions.map Dimension.frame := by
  unfold filterNamed
  rw [List.map_map]
  refine List.map_congr_left fun d _ => ?_
  simp only [Function.comp_apply]
  split <;> simp [Dimension.frame]

theorem frame_applyFilters (config : Config) (conditions : List Condition) :
    (config.applyFilters conditions).declared = config.declared ∧
      (config.applyFilters conditions).dimensions.map Dimension.frame =
        config.dimensions.map Dimension.frame := by
  unfold applyFilters
  split
  · exact ⟨rfl, rfl⟩
  · refine ⟨rfl, ?_⟩
    generalize config.declared = names
    dsimp only
    induction names using List.reverseRecOn with
    | nil => rfl
    | append_singleton names name ih =>
        rw [List.foldl_append]
        exact (map_frame_filterNamed _ _ name).trans ih

theorem frame_foldl_afterFilter (config : Config) (calls : List (List String)) :
    (calls.foldl afterFilter config).declared = config.declared ∧
      (calls.foldl afterFilter config).dimensions.map Dimension.frame =
        config.dimensions.map Dimension.frame := by
  induction calls generalizing config with
  | nil => exact ⟨rfl, rfl⟩
  | cons filters calls ih =>
      obtain ⟨hdeclared, hframe⟩ := ih (config.afterFilter filters)
      rw [List.foldl_cons, hdeclared, hframe]
      unfold afterFilter
      cases hfilter : config.filter filters with
      | error error => exact ⟨rfl, rfl⟩
      | ok filtered =>
          obtain ⟨conditions, -, rfl⟩ := filter_eq_ok_iff.mp hfilter
          exact frame_applyFilters config conditions

end Config

/-! ## Accepted documents -/

/--
The dimensions of an accepted document are stored as `DeclaredInOrder` says, and
no calls of the filter change their names, brackets, dependencies or order.
-/
theorem Document.parse_inOrder {document : Value} {parsed : Document}
    (h : Document.parse document = .ok parsed) :
    ∃ root inOrder, document = .object root ∧
      DeclaredInOrder root inOrder parsed.declared parsed.dimensions ∧
      ∀ (mode : Containment) (calls : List (List String)),
        (calls.foldl Config.afterFilter (.ofDocument mode parsed)).declared =
          parsed.declared ∧
        (calls.foldl Config.afterFilter (.ofDocument mode parsed)).dimensions.map
            Dimension.frame =
          parsed.dimensions.map Dimension.frame := by
  have hconfig : Config.parse .firstKey document = .ok (.ofDocument .firstKey parsed) := by
    rw [Config.parse, h]
    rfl
  obtain ⟨root, declarations, tree, hroot, hread, -, heq⟩ := Config.parse_eq_ok_iff.mp hconfig
  have hdeclared : parsed.declared = declarations.declared := congrArg Config.declared heq
  have hdimensions : parsed.dimensions = declarations.dimensions :=
    congrArg Config.dimensions heq
  obtain ⟨inOrder, hinOrder⟩ := Declarations.exists_declaredInOrder hread
  rw [← hdeclared, ← hdimensions] at hinOrder
  exact ⟨root, inOrder, hroot, hinOrder, fun mode calls =>
    Config.frame_foldl_afterFilter (.ofDocument mode parsed) calls⟩

def interleavedWidths : Value :=
  .object
    [("region/<>", .object [("us", .array [.string "nyc"]), ("eu", .array [.string "fra"])]),
      ("host", .string "<@>-[[@]]"),
      ("env/[[]]", .object
        [("dev", .array [.string "d1"]), ("prod<eu>", .array [.string "p1"])]),
      ("zone/||", .object
        [("z", .array [.string "z1"]), (":rack[[prod]]<eu>", .array [.string "r1"])])]

theorem Document.parse_inOrder_interleavedWidths :
    ∃ parsed root inOrder, Document.parse interleavedWidths = .ok parsed ∧
      parsed.declared = ["region", "env", "zone"] ∧
      (parsed.dimensions.map fun d => (d.name, d.brackets.marker, d.depends)) =
        [("env", "[[]]", ["region"]), ("region", "<>", []),
          ("zone", "||", ["env", "region"])] ∧
      interleavedWidths = .object root ∧
      DeclaredInOrder root inOrder parsed.declared parsed.dimensions ∧
      ([["region=us"], ["zone"]].foldl Config.afterFilter
        (.ofDocument .firstKey parsed)).dimensions.map Dimension.frame =
          parsed.dimensions.map Dimension.frame := by
  have hparse : (Document.parse interleavedWidths).toOption.any (fun parsed => decide
      (parsed.declared = ["region", "env", "zone"] ∧
        (parsed.dimensions.map fun d => (d.name, d.brackets.marker, d.depends)) =
          [("env", "[[]]", ["region"]), ("region", "<>", []),
            ("zone", "||", ["env", "region"])])) = true := by
    decide +kernel
  obtain ⟨parsed, hparsed, hdecide⟩ := any_toOption_iff.mp hparse
  obtain ⟨hdeclared, hdimensions⟩ := of_decide_eq_true hdecide
  obtain ⟨root, inOrder, hroot, hinOrder, hfilters⟩ := Document.parse_inOrder hparsed
  exact ⟨parsed, root, inOrder, hparsed, hdeclared, hdimensions, hroot, hinOrder,
    (hfilters .firstKey [["region=us"], ["zone"]]).2⟩

end Variants
