import Variants.Config.Rendering
import Variants.Proofs.Interpolation
import Variants.Proofs.PropertyTree

/-!
# What rendering looks at

A product is decided by the tree, by which of its conditions hold and by what its
strings become.  Conditions and placeholders look at the names, the brackets and
the registers of dimensions, not at the items, and at the selections of a tuple,
not at their order.
-/

namespace Variants

def Child.strings : Child → List String
  | .scalar (.string text) => [text]
  | _ => []

def Node.strings : Node → List String
  | .map entries => entries.flatMap (·.child.strings)
  | .array entries => entries.flatMap (·.child.strings)

namespace Config

variable {a b : Config} {s t : Tuple}

/-! ## Agreement on a node -/

structure AgreeOn (a b : Config) (s t : Tuple) (node : Node) : Prop where
  holdsIn_eq : ∀ c ∈ node.conditions,
    c.holdsIn a.containment s.toContext = c.holdsIn b.containment t.toContext
  interpolate_eq : ∀ text ∈ node.strings, a.interpolate s text = b.interpolate t text

theorem renderChild_agree {child : Child}
    (h : ∀ text ∈ child.strings, a.interpolate s text = b.interpolate t text)
    (results : Array (Except Error Value)) :
    a.renderChild s results child = b.renderChild t results child := by
  cases child with
  | node id => rfl
  | scalar value =>
      cases value with
      | string text => simp only [renderChild, renderScalar, h text (by simp [Child.strings])]
      | _ => rfl

theorem renderEntries_agree {f g : Child → Except Error Value} {entries : List MapEntry}
    (h : ∀ entry ∈ entries, f entry.child = g entry.child) (result : Option Value) :
    renderEntries f entries result = renderEntries g entries result := by
  induction entries generalizing result with
  | nil => rfl
  | cons entry rest ih =>
      obtain ⟨hentry, hrest⟩ := List.forall_mem_cons.mp h
      simp only [renderEntries, hentry, ih hrest]

theorem allHold_agree {mode other : Containment} {conditions : List Condition}
    (h : ∀ c ∈ conditions, c.holdsIn mode s.toContext = c.holdsIn other t.toContext) :
    allHold mode s.toContext conditions = allHold other t.toContext conditions := by
  rw [allHold, allHold, Bool.eq_iff_iff, List.all_eq_true, List.all_eq_true]
  exact forall₂_congr fun c hc => by rw [h c hc]

theorem renderNode_agree {node : Node} (h : AgreeOn a b s t node)
    (results : Array (Except Error Value)) :
    a.renderNode s s.toContext results node = b.renderNode t t.toContext results node := by
  cases node with
  | map entries =>
      have hactive : a.activeEntries s.toContext entries = b.activeEntries t.toContext entries :=
        List.filter_congr fun entry hentry => allHold_agree fun c hc =>
          h.holdsIn_eq c (List.mem_flatMap.mpr ⟨entry, hentry, hc⟩)
      have hchild : ∀ entry ∈ entries,
          a.renderChild s results entry.child = b.renderChild t results entry.child :=
        fun entry hentry => renderChild_agree (fun text htext =>
          h.interpolate_eq text (List.mem_flatMap.mpr ⟨entry, hentry, htext⟩)) results
      rw [renderNode, renderNode, hactive]
      exact renderEntries_agree (fun entry hentry => hchild entry (List.mem_of_mem_filter hentry))
        none
  | array entries =>
      have hactive : a.activeItems s.toContext entries = b.activeItems t.toContext entries :=
        List.filter_congr fun entry hentry => allHold_agree fun c hc =>
          h.holdsIn_eq c (List.mem_flatMap.mpr ⟨entry, hentry, hc⟩)
      have hchild : ∀ entry ∈ entries,
          a.renderChild s results entry.child = b.renderChild t results entry.child :=
        fun entry hentry => renderChild_agree (fun text htext =>
          h.interpolate_eq text (List.mem_flatMap.mpr ⟨entry, hentry, htext⟩)) results
      rw [renderNode, renderNode, hactive]
      congr 1
      exact mapM_congr fun entry hentry => hchild entry (List.mem_of_mem_filter hentry)

theorem render_agree (htree : a.tree = b.tree)
    (h : ∀ node ∈ a.tree.nodes, AgreeOn a b s t node) : a.render s = b.render t := by
  have hnodes : a.renderNodes s a.tree.nodes = b.renderNodes t a.tree.nodes := by
    rw [renderNodes, renderNodes, ← Array.foldl_toList, ← Array.foldl_toList]
    apply List.foldl_ext
    intro results node hnode
    rw [renderNode_agree (h node (Array.mem_toList_iff.mp hnode)) results]
  rw [render, render, hnodes, htree]

/-! ## Configurations that are alike -/

structure Alike (a b : Config) : Prop where
  dimensions : List.Forall₂ Dimension.Alike a.dimensions b.dimensions
  tree_eq : a.tree = b.tree
  holdsIn_eq : ∀ node ∈ a.tree.nodes, ∀ c ∈ node.conditions, ∀ tuple : Tuple,
    c.holdsIn a.containment tuple.toContext = c.holdsIn b.containment tuple.toContext

theorem allHold_congr (hsame : s.same t = true) {mode other : Containment}
    {conditions : List Condition}
    (h : ∀ c ∈ conditions, ∀ tuple : Tuple,
      c.holdsIn mode tuple.toContext = c.holdsIn other tuple.toContext) :
    allHold mode s.toContext conditions = allHold other t.toContext conditions :=
  allHold_agree fun c hc => (h c hc s).trans (c.holdsIn_of_same other hsame)

theorem render_congr (h : a.Alike b) (hsame : s.same t = true) : a.render s = b.render t := by
  refine render_agree h.tree_eq fun node hnode => ⟨fun c hc => ?_, fun text _ => ?_⟩
  · exact (h.holdsIn_eq node hnode c hc s).trans (c.holdsIn_of_same b.containment hsame)
  · exact interpolate_congr
      (h.dimensions.imp fun d _ hd => ⟨hd, Tuple.agreeAt_of_same hsame d.name⟩) text

end Config

end Variants
