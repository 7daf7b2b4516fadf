import Variants.Document
import Variants.Proofs.Declaration

/-!
# Conditions of property trees

The conditions in the nodes of a property tree are read from keys, like those
of items, so they too are about a known dimension, about a single domain of it
and about values that it listed when the tree was read.
-/

namespace Variants

def Node.conditions : Node → List Condition
  | .map entries => entries.flatMap MapEntry.conditions
  | .array entries => entries.flatMap ArrayEntry.conditions

def Node.Grounded (known : List Dimension) (node : Node) : Prop :=
  ∀ c ∈ node.conditions, c.Grounded known

@[simp] theorem Node.grounded_map_iff {known : List Dimension} {entries : List MapEntry} :
    (Node.map entries).Grounded known ↔
      ∀ entry ∈ entries, ∀ c ∈ entry.conditions, c.Grounded known :=
  List.forall_mem_flatMap

@[simp] theorem Node.grounded_array_iff {known : List Dimension} {entries : List ArrayEntry} :
    (Node.array entries).Grounded known ↔
      ∀ entry ∈ entries, ∀ c ∈ entry.conditions, c.Grounded known :=
  List.forall_mem_flatMap

namespace Properties

theorem ofRoot_eq_filter (root : List (String × Value)) :
    ofRoot root = root.filter fun entry => '/' ∉ entry.1.toList := by
  refine List.filter_congr fun entry _ => ?_
  rw [Bool.eq_iff_iff, Option.isNone_iff_eq_none]
  simp [splitDeclaration?, Text.splitOnce_eq_none_iff]

variable {known : List Dimension}

theorem grounded_push {nodes : Array Node} {node : Node}
    (hnodes : ∀ node ∈ nodes, node.Grounded known) (hnode : node.Grounded known) :
    ∀ other ∈ nodes.push node, other.Grounded known := by
  intro other hother
  rcases Array.mem_push.mp hother with hother | rfl
  · exact hnodes other hother
  · exact hnode

mutual

theorem grounded_build : ∀ {value : Value} {nodes result : Array Node} {child : Child},
    (∀ node ∈ nodes, node.Grounded known) → build known nodes value = .ok (result, child) →
      ∀ node ∈ result, node.Grounded known
  | .object entries, nodes, result, child, hnodes, h => by
      simp only [build, bind_eq_ok_iff] at h
      obtain ⟨⟨below, built⟩, hbuilt, h⟩ := h
      cases h
      obtain ⟨hbelow, hentries⟩ := grounded_buildEntries hnodes hbuilt
      exact grounded_push hbelow (Node.grounded_map_iff.mpr hentries)
  | .array items, nodes, result, child, hnodes, h => by
      simp only [build, bind_eq_ok_iff] at h
      obtain ⟨⟨below, built⟩, hbuilt, h⟩ := h
      cases h
      obtain ⟨hbelow, hentries⟩ := grounded_buildItems hnodes hbuilt
      exact grounded_push hbelow (Node.grounded_array_iff.mpr hentries)
  | .null, _, _, _, hnodes, h => by cases h; exact hnodes
  | .boolean _, _, _, _, hnodes, h => by cases h; exact hnodes
  | .integer _, _, _, _, hnodes, h => by cases h; exact hnodes
  | .decimal _, _, _, _, hnodes, h => by cases h; exact hnodes
  | .string _, _, _, _, hnodes, h => by cases h; exact hnodes

theorem grounded_buildEntries : ∀ {entries : List (String × Value)} {nodes result : Array Node}
    {built : List MapEntry}, (∀ node ∈ nodes, node.Grounded known) →
      buildEntries known nodes entries = .ok (result, built) →
        (∀ node ∈ result, node.Grounded known) ∧
          ∀ entry ∈ built, ∀ c ∈ entry.conditions, c.Grounded known
  | [], _, _, _, hnodes, h => by
      cases h
      exact ⟨hnodes, by simp⟩
  | (key, value) :: rest, nodes, result, built, hnodes, h => by
      simp only [buildEntries, bind_eq_ok_iff] at h
      obtain ⟨⟨name, conditions⟩, hkey, ⟨below, child⟩, hchild, ⟨after, others⟩, hothers, h⟩ := h
      cases h
      obtain ⟨hafter, hrest⟩ := grounded_buildEntries (grounded_build hnodes hchild) hothers
      exact ⟨hafter, List.forall_mem_cons.mpr ⟨grounded_of_parseKey hkey, hrest⟩⟩

theorem grounded_buildItems : ∀ {items : List Value} {nodes result : Array Node}
    {built : List ArrayEntry}, (∀ node ∈ nodes, node.Grounded known) →
      buildItems known nodes items = .ok (result, built) →
        (∀ node ∈ result, node.Grounded known) ∧
          ∀ entry ∈ built, ∀ c ∈ entry.conditions, c.Grounded known
  | [], _, _, _, hnodes, h => by
      cases h
      exact ⟨hnodes, by simp⟩
  | item :: rest, nodes, result, built, hnodes, h => by
      simp only [buildItems, bind_eq_ok_iff] at h
      obtain ⟨⟨below, child⟩, hchild, ⟨after, others⟩, hothers, h⟩ := h
      cases h
      obtain ⟨hafter, hrest⟩ := grounded_buildItems (grounded_build hnodes hchild) hothers
      exact ⟨hafter, List.forall_mem_cons.mpr ⟨by simp, hrest⟩⟩

end

theorem grounded_tree {root : List (String × Value)} {result : Tree}
    (h : tree known root = .ok result) : ∀ node ∈ result.nodes, node.Grounded known := by
  simp only [tree, bind_eq_ok_iff] at h
  obtain ⟨⟨below, built⟩, hbuilt, h⟩ := h
  cases h
  obtain ⟨hbelow, hentries⟩ := grounded_buildEntries (by simp) hbuilt
  exact grounded_push hbelow (Node.grounded_map_iff.mpr hentries)

end Properties

theorem Document.grounded_parse {document : Value} {parsed : Document}
    (h : Document.parse document = .ok parsed) :
    ∀ node ∈ parsed.tree.nodes, node.Grounded parsed.dimensions := by
  unfold Document.parse at h
  split at h
  · cases h
  · simp only [bind_eq_ok_iff] at h
    obtain ⟨declarations, -, tree, htree, h⟩ := h
    cases h
    exact Properties.grounded_tree htree

end Variants
