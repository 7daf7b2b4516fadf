import Mathlib.Logic.Relation
import Variants.Proofs.RenderedNodes

/-!
# The table of nodes as a tree

The nodes of a document are appended in post-order.  While the table grows, the nodes
that no entry refers to yet are those whose parent is still to come; a mapping or array
takes up the last of them as its children.  In the end the root alone is left.  So the
references make up a tree of all nodes, and rendering can descend along them.
-/

namespace Variants

def Child.references : Child → List Nat
  | .node id => [id]
  | .scalar _ => []

def Node.references (node : Node) : List Nat := node.children.flatMap Child.references

theorem Node.mem_references_iff {node : Node} {id : Nat} :
    id ∈ node.references ↔ .node id ∈ node.children := by
  rw [references, List.mem_flatMap]
  constructor
  · rintro ⟨child, hchild, hid⟩
    cases child with
    | node other =>
        rw [List.mem_singleton.mp hid]
        exact hchild
    | scalar value => cases hid
  · intro h
    exact ⟨.node id, h, List.mem_singleton_self id⟩

mutual

/-- How many mappings and arrays there are in a value, itself included. -/
def Value.containers : Value → Nat
  | .array items => Value.containersOfItems items + 1
  | .object entries => Value.containersOfEntries entries + 1
  | _ => 0

def Value.containersOfItems : List Value → Nat
  | [] => 0
  | item :: rest => Value.containers item + Value.containersOfItems rest

def Value.containersOfEntries : List (String × Value) → Nat
  | [] => 0
  | (_, value) :: rest => Value.containers value + Value.containersOfEntries rest

end

namespace Properties

variable {nodes : Array Node} {pending : List Nat} {known : List Dimension}

def references (nodes : Array Node) : List Nat := nodes.toList.flatMap Node.references

def RefersTo (nodes : Array Node) (parent child : Nat) : Prop :=
  ∃ node, nodes[parent]? = some node ∧ child ∈ node.references

/--
A table in post-order, with the nodes that no entry refers to yet.  A new node takes up
the last of these, each in one entry and in their order, and is then itself the last.
-/
inductive PostOrder : Array Node → List Nat → Prop
  | empty : PostOrder #[] []
  | push {nodes : Array Node} {pending : List Nat} {node : Node}
      (h : PostOrder nodes (pending ++ node.references)) :
      PostOrder (nodes.push node) (pending ++ [nodes.size])

/-! ## References of a table in post-order -/

/-- Every node is referred to once, or is still pending. -/
theorem PostOrder.perm (h : PostOrder nodes pending) :
    (references nodes ++ pending).Perm (List.range nodes.size) := by
  induction h with
  | empty => exact .refl []
  | @push nodes pending node h ih =>
      have hpush : references (nodes.push node) = references nodes ++ node.references := by
        simp [references]
      -- What the new node refers to is pending no longer; the node itself is.
      rw [hpush, Array.size_push, List.range_succ, ← List.append_assoc]
      refine .append_right _ (.trans ?_ ih)
      rw [List.append_assoc]
      exact List.perm_append_comm.append_left _

theorem PostOrder.lt_of_mem (h : PostOrder nodes pending) {id : Nat} (hid : id ∈ pending) :
    id < nodes.size :=
  List.mem_range.mp (h.perm.mem_iff.mp (List.mem_append_right _ hid))

theorem PostOrder.reference_lt (h : PostOrder nodes pending) {parent child : Nat}
    (hchild : RefersTo nodes parent child) : child < parent := by
  obtain ⟨node, hnode, hchild⟩ := hchild
  induction h with
  | empty => simp at hnode
  | push h ih =>
      rw [Array.getElem?_push] at hnode
      split at hnode
      · next hlast =>
        cases hnode
        rw [hlast]
        exact h.lt_of_mem (List.mem_append_right _ hchild)
      · exact ih hnode

theorem PostOrder.size_eq (h : PostOrder nodes pending) {last : Nat}
    (hlast : pending.getLast? = some last) : nodes.size = last + 1 := by
  cases h with
  | empty => cases hlast
  | push h =>
      rw [List.getLast?_concat, Option.some_inj] at hlast
      rw [Array.size_push, hlast]

theorem PostOrder.count_references {root : Nat} (h : PostOrder nodes [root]) (id : Nat) :
    (references nodes).count id = if id < root then 1 else 0 := by
  have hsize : nodes.size = root + 1 := h.size_eq rfl
  have hperm := h.perm
  rw [hsize, List.range_succ, List.perm_append_right_iff] at hperm
  rw [hperm.count_eq, List.count_range]

theorem RefersTo.push {parent child : Nat} (h : RefersTo nodes parent child) (node : Node) :
    RefersTo (nodes.push node) parent child := by
  obtain ⟨own, hown, hchild⟩ := h
  refine ⟨own, ?_, hchild⟩
  have hlt := (Array.getElem?_eq_some_iff.mp hown).1
  rw [Array.getElem?_push, if_neg (Nat.ne_of_lt hlt), hown]

theorem PostOrder.exists_above (h : PostOrder nodes pending) {id : Nat} (hid : id < nodes.size) :
    ∃ top ∈ pending, Relation.ReflTransGen (RefersTo nodes) top id := by
  induction h with
  | empty => simp at hid
  | @push nodes pending node h ih =>
      have hself : nodes.size ∈ pending ++ [nodes.size] := by simp
      rw [Array.size_push] at hid
      by_cases hlast : id = nodes.size
      · exact ⟨nodes.size, hself, hlast ▸ .refl⟩
      · obtain ⟨top, htop, hpath⟩ := ih (by omega)
        have hpath := Relation.ReflTransGen.mono (fun _ _ hstep => hstep.push node) _ _ hpath
        rcases List.mem_append.mp htop with htop | htop
        · exact ⟨top, List.mem_append_left _ htop, hpath⟩
        · exact ⟨nodes.size, hself, .head ⟨node, by simp, htop⟩ hpath⟩

/-! ## Tables of documents -/

mutual

theorem postOrder_build : ∀ {value : Value} {nodes result : Array Node} {child : Child}
    {pending : List Nat}, PostOrder nodes pending →
      build known nodes value = .ok (result, child) →
        PostOrder result (pending ++ child.references)
  | .object entries, nodes, result, child, pending, hnodes, h => by
      simp only [build, bind_eq_ok_iff] at h
      obtain ⟨⟨below, built⟩, hbuilt, h⟩ := h
      cases h
      exact .push (postOrder_buildEntries hnodes hbuilt)
  | .array items, nodes, result, child, pending, hnodes, h => by
      simp only [build, bind_eq_ok_iff] at h
      obtain ⟨⟨below, built⟩, hbuilt, h⟩ := h
      cases h
      exact .push (postOrder_buildItems hnodes hbuilt)
  | .null, _, _, _, _, hnodes, h => by cases h; simpa [Child.references] using hnodes
  | .boolean _, _, _, _, _, hnodes, h => by cases h; simpa [Child.references] using hnodes
  | .integer _, _, _, _, _, hnodes, h => by cases h; simpa [Child.references] using hnodes
  | .decimal _, _, _, _, _, hnodes, h => by cases h; simpa [Child.references] using hnodes
  | .string _, _, _, _, _, hnodes, h => by cases h; simpa [Child.references] using hnodes

theorem postOrder_buildEntries : ∀ {entries : List (String × Value)}
    {nodes result : Array Node} {built : List MapEntry} {pending : List Nat},
      PostOrder nodes pending → buildEntries known nodes entries = .ok (result, built) →
        PostOrder result (pending ++ (Node.map built).references)
  | [], _, _, _, _, hnodes, h => by
      cases h
      simpa [Node.references, Node.children] using hnodes
  | (key, value) :: rest, nodes, result, built, pending, hnodes, h => by
      simp only [buildEntries, bind_eq_ok_iff] at h
      obtain ⟨_, -, ⟨below, child⟩, hchild, ⟨after, others⟩, hothers, h⟩ := h
      cases h
      have hrest := postOrder_buildEntries (postOrder_build hnodes hchild) hothers
      simpa [Node.references, Node.children] using hrest

theorem postOrder_buildItems : ∀ {items : List Value} {nodes result : Array Node}
    {built : List ArrayEntry} {pending : List Nat},
      PostOrder nodes pending → buildItems known nodes items = .ok (result, built) →
        PostOrder result (pending ++ (Node.array built).references)
  | [], _, _, _, _, hnodes, h => by
      cases h
      simpa [Node.references, Node.children] using hnodes
  | item :: rest, nodes, result, built, pending, hnodes, h => by
      simp only [buildItems, bind_eq_ok_iff] at h
      obtain ⟨⟨below, child⟩, hchild, ⟨after, others⟩, hothers, h⟩ := h
      cases h
      have hrest := postOrder_buildItems (postOrder_build hnodes hchild) hothers
      simpa [Node.references, Node.children] using hrest

end

mutual

theorem size_build : ∀ {value : Value} {nodes result : Array Node} {child : Child},
    build known nodes value = .ok (result, child) →
      result.size = nodes.size + value.containers
  | .object entries, nodes, result, child, h => by
      simp only [build, bind_eq_ok_iff] at h
      obtain ⟨⟨below, built⟩, hbuilt, h⟩ := h
      cases h
      rw [Array.size_push, size_buildEntries hbuilt, Value.containers, Nat.add_assoc]
  | .array items, nodes, result, child, h => by
      simp only [build, bind_eq_ok_iff] at h
      obtain ⟨⟨below, built⟩, hbuilt, h⟩ := h
      cases h
      rw [Array.size_push, size_buildItems hbuilt, Value.containers, Nat.add_assoc]
  | .null, _, _, _, h => by cases h; rfl
  | .boolean _, _, _, _, h => by cases h; rfl
  | .integer _, _, _, _, h => by cases h; rfl
  | .decimal _, _, _, _, h => by cases h; rfl
  | .string _, _, _, _, h => by cases h; rfl

theorem size_buildEntries : ∀ {entries : List (String × Value)} {nodes result : Array Node}
    {built : List MapEntry}, buildEntries known nodes entries = .ok (result, built) →
      result.size = nodes.size + Value.containersOfEntries entries
  | [], _, _, _, h => by cases h; rfl
  | (key, value) :: rest, nodes, result, built, h => by
      simp only [buildEntries, bind_eq_ok_iff] at h
      obtain ⟨_, -, ⟨below, child⟩, hchild, ⟨after, others⟩, hothers, h⟩ := h
      cases h
      rw [size_buildEntries hothers, size_build hchild, Value.containersOfEntries, Nat.add_assoc]

theorem size_buildItems : ∀ {items : List Value} {nodes result : Array Node}
    {built : List ArrayEntry}, buildItems known nodes items = .ok (result, built) →
      result.size = nodes.size + Value.containersOfItems items
  | [], _, _, _, h => by cases h; rfl
  | item :: rest, nodes, result, built, h => by
      simp only [buildItems, bind_eq_ok_iff] at h
      obtain ⟨⟨below, child⟩, hchild, ⟨after, others⟩, hothers, h⟩ := h
      cases h
      rw [size_buildItems hothers, size_build hchild, Value.containersOfItems, Nat.add_assoc]

end

theorem postOrder_tree {root : List (String × Value)} {result : Tree}
    (h : tree known root = .ok result) : PostOrder result.nodes [result.root] := by
  simp only [tree, bind_eq_ok_iff] at h
  obtain ⟨⟨below, built⟩, hbuilt, h⟩ := h
  cases h
  exact .push (postOrder_buildEntries .empty hbuilt)

theorem size_tree {root : List (String × Value)} {result : Tree}
    (h : tree known root = .ok result) :
    result.size = Value.containersOfEntries (ofRoot root) + 1 := by
  simp only [tree, bind_eq_ok_iff] at h
  obtain ⟨⟨below, built⟩, hbuilt, h⟩ := h
  cases h
  rw [Tree.size, Array.size_push, size_buildEntries hbuilt, List.size_toArray, List.length_nil,
    Nat.zero_add]

end Properties

/-! ## Descent from the root -/

namespace Config

/--
The outcome of a node, found by going down to the nodes that it refers to: all of these
are in the table, and the descent from each of them has an end.
-/
inductive Renders (config : Config) (tuple : Tuple) : Nat → Except Error Value → Prop
  | node {id : Nat} {node : Node} {results : Array (Except Error Value)}
      (hnode : config.tree.nodes[id]? = some node)
      (hsize : ∀ child ∈ node.references, child < results.size)
      (hresults : ∀ child outcome, child ∈ node.references → results[child]? = some outcome →
        Renders config tuple child outcome) :
      Renders config tuple id (config.renderNode tuple tuple.toContext results node)

variable {config : Config} {tuple : Tuple} {pending : List Nat}

theorem getElem?_of_renders (h : Properties.ChildrenFirst config.tree.nodes) {id : Nat}
    {outcome : Except Error Value} (hrenders : config.Renders tuple id outcome) :
    (config.renderNodes tuple config.tree.nodes)[id]? = some outcome := by
  induction hrenders with
  | @node id node results hnode hsize hresults ih =>
      rw [getElem?_renderNodes h hnode]
      refine congrArg some (renderNode_congr (fun child hchild => ?_) _)
      cases child with
      | scalar value => rfl
      | node child =>
          have hreference := Node.mem_references_iff.mpr hchild
          have hresult := Array.getElem?_eq_getElem (hsize child hreference)
          have hlast := ih child _ hreference hresult
          simp only [renderChild, Array.getD_eq_getD_getElem?, hresult, hlast]

theorem renders_of_getElem? (h : Properties.ChildrenFirst config.tree.nodes)
    (horder : Properties.PostOrder config.tree.nodes pending) {id : Nat}
    {outcome : Except Error Value}
    (houtcome : (config.renderNodes tuple config.tree.nodes)[id]? = some outcome) :
    config.Renders tuple id outcome := by
  induction id using Nat.strong_induction_on generalizing outcome with
  | _ id ih =>
      have hsize := (Array.getElem?_eq_some_iff.mp houtcome).1
      have hid : id < config.tree.nodes.size := by rwa [size_renderNodes] at hsize
      have hnode := Array.getElem?_eq_getElem hid
      rw [getElem?_renderNodes h hnode, Option.some_inj] at houtcome
      rw [← houtcome]
      have hbelow : ∀ child ∈ config.tree.nodes[id].references, child < id :=
        fun child hchild => horder.reference_lt ⟨_, hnode, hchild⟩
      refine .node hnode (fun child hchild => (hbelow child hchild).trans hsize) ?_
      exact fun child outcome hchild hresult => ih child (hbelow child hchild) hresult

end Config

namespace Document

theorem exists_tree_of_parse {document : Value} {parsed : Document}
    (h : parse document = .ok parsed) :
    ∃ root, document = .object root ∧
      Properties.tree parsed.dimensions root = .ok parsed.tree := by
  have hconfig : Config.parse .firstKey document = .ok (.ofDocument .firstKey parsed) := by
    rw [Config.parse, h]
    rfl
  obtain ⟨root, declarations, tree, rfl, -, htree, heq⟩ := Config.parse_eq_ok_iff.mp hconfig
  cases parsed
  cases heq
  exact ⟨root, rfl, htree⟩

/--
The table of an accepted document is a tree in post-order: references go to earlier nodes
only, every node but the last, the root, is in one entry of one node, and there is a node
for each mapping and array among the properties and one for the properties themselves.
All nodes are below the root, and the descent from it that gives the product of a tuple
has an end and never leaves the table.
-/
theorem parse_postOrder {document : Value} {parsed : Document}
    (h : parse document = .ok parsed) :
    Properties.PostOrder parsed.tree.nodes [parsed.tree.root] ∧
    (∀ parent child, Properties.RefersTo parsed.tree.nodes parent child → child < parent) ∧
    (∀ id, (Properties.references parsed.tree.nodes).count id =
      if id < parsed.tree.root then 1 else 0) ∧
    parsed.tree.size = parsed.tree.root + 1 ∧
    (∃ root, document = .object root ∧ parsed.tree.size =
      Value.containersOfEntries (root.filter fun entry => '/' ∉ entry.1.toList) + 1) ∧
    (∀ id < parsed.tree.size,
      Relation.ReflTransGen (Properties.RefersTo parsed.tree.nodes) parsed.tree.root id) ∧
    ∀ config : Config, config.tree = parsed.tree → ∀ tuple outcome,
      config.Renders tuple config.tree.root outcome ↔ config.render tuple = outcome := by
  obtain ⟨root, rfl, htree⟩ := exists_tree_of_parse h
  have horder := Properties.postOrder_tree htree
  have hsize : parsed.tree.size = parsed.tree.root + 1 := horder.size_eq rfl
  have hcontainers := Properties.size_tree htree
  rw [Properties.ofRoot_eq_filter] at hcontainers
  refine ⟨horder, fun parent child => horder.reference_lt, horder.count_references, hsize,
    ⟨root, rfl, hcontainers⟩, fun id hid => ?_, fun config hconfig tuple outcome => ?_⟩
  · obtain ⟨top, htop, hpath⟩ := horder.exists_above hid
    rwa [List.mem_singleton.mp htop] at hpath
  · have hfirst := Properties.childrenFirst_tree htree
    rw [← hconfig] at hfirst horder hsize
    have hroot : (config.renderNodes tuple config.tree.nodes)[config.tree.root]? =
        some (config.render tuple) := by
      have hlt : config.tree.root < (config.renderNodes tuple config.tree.nodes).size := by
        rw [Config.size_renderNodes]
        rw [Tree.size] at hsize
        omega
      simp [Config.render, Array.getD, hlt]
    constructor
    · intro hrenders
      have houtcome := Config.getElem?_of_renders hfirst hrenders
      exact Option.some_inj.mp (hroot.symm.trans houtcome)
    · rintro rfl
      exact Config.renders_of_getElem? hfirst horder hroot

theorem parse_postOrder_stagedHosts :
    ∃ parsed, parse Config.stagedHosts = .ok parsed ∧ parsed.tree.root = 6 ∧
      Properties.references parsed.tree.nodes = [1, 2, 3, 4, 0, 5] ∧
      Properties.PostOrder parsed.tree.nodes [6] ∧ parsed.tree.size = 7 ∧
      Relation.ReflTransGen (Properties.RefersTo parsed.tree.nodes) 6 1 ∧
      ∀ tuple, (Config.ofDocument .allKeys parsed).Renders tuple 6
        ((Config.ofDocument .allKeys parsed).render tuple) := by
  have hparse : (parse Config.stagedHosts).toOption.any (fun parsed =>
      parsed.tree.root == 6 &&
        Properties.references parsed.tree.nodes == [1, 2, 3, 4, 0, 5]) = true := by
    decide +kernel
  obtain ⟨parsed, hparsed, hchecks⟩ := any_toOption_iff.mp hparse
  rw [Bool.and_eq_true, beq_iff_eq, beq_iff_eq] at hchecks
  obtain ⟨hroot, hreferences⟩ := hchecks
  obtain ⟨horder, -, -, hsize, -, hbelow, hrenders⟩ := parse_postOrder hparsed
  have hpath := hbelow 1 (by omega)
  have hdescent : ∀ tuple, (Config.ofDocument .allKeys parsed).Renders tuple parsed.tree.root
      ((Config.ofDocument .allKeys parsed).render tuple) :=
    fun tuple => (hrenders (.ofDocument .allKeys parsed) rfl tuple _).mpr rfl
  rw [hroot] at horder hsize hpath hdescent
  exact ⟨parsed, hparsed, hroot, hreferences, horder, hsize, hpath, hdescent⟩

end Document

end Variants
