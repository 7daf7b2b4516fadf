import Variants.Proofs.Evaluation
import Variants.Proofs.Overlay
import Variants.Proofs.Rendering

/-!
# Mappings among the nodes of a tree

In the table of a configuration the children of a node come before it.  The result
of a node is therefore what it renders to with the results of the whole table at
hand, and a mapping among them is the overlay of its rendered entries.
-/

namespace Variants

/-- A node of the table so far, or a scalar, which is no mapping. -/
def Child.Below (count : Nat) : Child → Prop
  | .node id => id < count
  | .scalar value => value.entries? = none

def Node.children : Node → List Child
  | .map entries => entries.map (·.child)
  | .array entries => entries.map (·.child)

def Node.entries? : Node → Option (List MapEntry)
  | .map entries => some entries
  | .array _ => none

def Value.DistinctKeys (value : Value) : Prop :=
  ∀ entries, value = .object entries → (Entries.keys entries).Nodup

@[simp] theorem Value.distinctKeys_object_iff {entries : List (String × Value)} :
    (object entries).DistinctKeys ↔ (Entries.keys entries).Nodup := by
  simp [DistinctKeys]

theorem Node.entries?_eq_some_iff {node : Node} {entries : List MapEntry} :
    node.entries? = some entries ↔ node = .map entries := by
  cases node <;> simp [entries?]

theorem Child.Below.mono {count more : Nat} (hle : count ≤ more) {child : Child}
    (h : child.Below count) : child.Below more := by
  cases child with
  | node id => exact Nat.lt_of_lt_of_le h hle
  | scalar value => exact h

namespace Properties

/-! ## Children before their parents -/

inductive ChildrenFirst : Array Node → Prop
  | empty : ChildrenFirst #[]
  | push {nodes : Array Node} {node : Node} (h : ChildrenFirst nodes)
      (hnode : ∀ child ∈ node.children, child.Below nodes.size) : ChildrenFirst (nodes.push node)

theorem ChildrenFirst.children_below {nodes : Array Node} (h : ChildrenFirst nodes) {id : Nat}
    {node : Node} (hnode : nodes[id]? = some node) :
    ∀ child ∈ node.children, child.Below nodes.size := by
  induction h with
  | empty => simp at hnode
  | push h hlast ih =>
      intro child hchild
      rw [Array.getElem?_push] at hnode
      split at hnode
      · cases hnode
        exact (hlast child hchild).mono (by simp)
      · exact (ih hnode child hchild).mono (by simp)

variable {known : List Dimension}

mutual

theorem childrenFirst_build : ∀ {value : Value} {nodes result : Array Node} {child : Child},
    ChildrenFirst nodes → build known nodes value = .ok (result, child) →
      ChildrenFirst result ∧ child.Below result.size
  | .object entries, nodes, result, child, hnodes, h => by
      simp only [build, bind_eq_ok_iff] at h
      obtain ⟨⟨below, built⟩, hbuilt, h⟩ := h
      cases h
      obtain ⟨hbelow, hentries⟩ := childrenFirst_buildEntries hnodes hbuilt
      exact ⟨.push hbelow (by simpa [Node.children] using hentries), by simp [Child.Below]⟩
  | .array items, nodes, result, child, hnodes, h => by
      simp only [build, bind_eq_ok_iff] at h
      obtain ⟨⟨below, built⟩, hbuilt, h⟩ := h
      cases h
      obtain ⟨hbelow, hentries⟩ := childrenFirst_buildItems hnodes hbuilt
      exact ⟨.push hbelow (by simpa [Node.children] using hentries), by simp [Child.Below]⟩
  | .null, _, _, _, hnodes, h => by cases h; exact ⟨hnodes, rfl⟩
  | .boolean _, _, _, _, hnodes, h => by cases h; exact ⟨hnodes, rfl⟩
  | .integer _, _, _, _, hnodes, h => by cases h; exact ⟨hnodes, rfl⟩
  | .decimal _, _, _, _, hnodes, h => by cases h; exact ⟨hnodes, rfl⟩
  | .string _, _, _, _, hnodes, h => by cases h; exact ⟨hnodes, rfl⟩

theorem childrenFirst_buildEntries : ∀ {entries : List (String × Value)}
    {nodes result : Array Node} {built : List MapEntry}, ChildrenFirst nodes →
      buildEntries known nodes entries = .ok (result, built) →
        ChildrenFirst result ∧ ∀ entry ∈ built, entry.child.Below result.size
  | [], _, _, _, hnodes, h => by
      cases h
      exact ⟨hnodes, by simp⟩
  | (key, value) :: rest, nodes, result, built, hnodes, h => by
      simp only [buildEntries, bind_eq_ok_iff] at h
      obtain ⟨_, -, ⟨below, child⟩, hchild, ⟨after, others⟩, hothers, h⟩ := h
      cases h
      obtain ⟨hbelow, hfirst⟩ := childrenFirst_build hnodes hchild
      obtain ⟨hafter, hrest⟩ := childrenFirst_buildEntries hbelow hothers
      have hle := (grows_buildEntries hothers).size_le
      exact ⟨hafter, List.forall_mem_cons.mpr ⟨hfirst.mono hle, hrest⟩⟩

theorem childrenFirst_buildItems : ∀ {items : List Value} {nodes result : Array Node}
    {built : List ArrayEntry}, ChildrenFirst nodes →
      buildItems known nodes items = .ok (result, built) →
        ChildrenFirst result ∧ ∀ entry ∈ built, entry.child.Below result.size
  | [], _, _, _, hnodes, h => by
      cases h
      exact ⟨hnodes, by simp⟩
  | item :: rest, nodes, result, built, hnodes, h => by
      simp only [buildItems, bind_eq_ok_iff] at h
      obtain ⟨⟨below, child⟩, hchild, ⟨after, others⟩, hothers, h⟩ := h
      cases h
      obtain ⟨hbelow, hfirst⟩ := childrenFirst_build hnodes hchild
      obtain ⟨hafter, hrest⟩ := childrenFirst_buildItems hbelow hothers
      have hle := (grows_buildItems hothers).size_le
      exact ⟨hafter, List.forall_mem_cons.mpr ⟨hfirst.mono hle, hrest⟩⟩

end

theorem childrenFirst_tree {root : List (String × Value)} {result : Tree}
    (h : tree known root = .ok result) : ChildrenFirst result.nodes := by
  simp only [tree, bind_eq_ok_iff] at h
  obtain ⟨⟨below, built⟩, hbuilt, h⟩ := h
  cases h
  obtain ⟨hbelow, hentries⟩ := childrenFirst_buildEntries .empty hbuilt
  exact .push hbelow (by simpa [Node.children] using hentries)

end Properties

namespace Config

theorem Reachable.childrenFirst {config : Config} (h : config.Reachable) :
    Properties.ChildrenFirst config.tree.nodes := by
  apply h.induction_on_filters
  · intro mode document config hparse
    obtain ⟨root, declarations, tree, -, -, htree, rfl⟩ := parse_eq_ok_iff.mp hparse
    exact Properties.childrenFirst_tree htree
  · intro config _ ih conditions
    cases conditions <;> exact ih

/-! ## Results -/

variable {config : Config} {tuple : Tuple} {nodes : Array Node}

theorem renderNode_congr {a b : Array (Except Error Value)} {node : Node}
    (h : ∀ child ∈ node.children,
      config.renderChild tuple a child = config.renderChild tuple b child)
    (context : List (String × NestedSet)) :
    config.renderNode tuple context a node = config.renderNode tuple context b node := by
  cases node with
  | map entries =>
      refine renderEntries_agree (fun entry hentry => h _ ?_) none
      exact List.mem_map_of_mem (List.mem_of_mem_filter hentry)
  | array entries =>
      rw [renderNode, renderNode]
      refine congrArg _ (mapM_congr fun entry hentry => h _ ?_)
      exact List.mem_map_of_mem (List.mem_of_mem_filter hentry)

theorem renderChild_push {child : Child} (h : child.Below nodes.size) (node : Node) :
    config.renderChild tuple (config.renderNodes tuple (nodes.push node)) child =
      config.renderChild tuple (config.renderNodes tuple nodes) child := by
  cases child with
  | node id => exact getD_renderNodes_of_grows config tuple (.push .refl node) h _
  | scalar value => rfl

theorem renderNode_push {node : Node} (h : ∀ child ∈ node.children, child.Below nodes.size)
    (last : Node) :
    config.renderNode tuple tuple.toContext (config.renderNodes tuple (nodes.push last)) node =
      config.renderNode tuple tuple.toContext (config.renderNodes tuple nodes) node :=
  renderNode_congr (fun child hchild => renderChild_push (h child hchild) last) _

theorem getElem?_renderNodes (h : Properties.ChildrenFirst nodes) {id : Nat} {node : Node}
    (hnode : nodes[id]? = some node) : (config.renderNodes tuple nodes)[id]? =
      some (config.renderNode tuple tuple.toContext (config.renderNodes tuple nodes) node) := by
  induction h generalizing id node with
  | empty => simp at hnode
  | @push nodes last h hlast ih =>
      rw [Array.getElem?_push] at hnode
      split at hnode
      · next hid =>
        cases hnode
        rw [renderNode_push hlast, renderNodes_push, Array.getElem?_push, size_renderNodes,
          if_pos hid]
      · next hid =>
        rw [renderNode_push (h.children_below hnode), renderNodes_push, Array.getElem?_push,
          size_renderNodes, if_neg hid, ih hnode]

/-! ## Keys of results -/

theorem distinctKeys_place {key : Option String} {value placed : Value}
    {accumulated : Option Value} (hvalue : value.DistinctKeys)
    (haccumulated : ∀ other, accumulated = some other → other.DistinctKeys)
    (h : place key value accumulated = .ok placed) : placed.DistinctKeys := by
  unfold place at h
  split at h
  · cases h
    exact hvalue
  · cases h
    simp [Entries.keys]
  · next below =>
    cases h
    have hbelow := Value.distinctKeys_object_iff.mp (haccumulated _ rfl)
    exact Value.distinctKeys_object_iff.mpr (Entries.nodup_keys_alter hbelow)
  · cases h

theorem distinctKeys_renderEntries {render : Child → Except Error Value}
    {entries : List MapEntry} {accumulated : Option Value} {value : Value}
    (hentries : ∀ entry ∈ entries, ∀ child, render entry.child = .ok child → child.DistinctKeys)
    (haccumulated : ∀ other, accumulated = some other → other.DistinctKeys)
    (h : renderEntries render entries accumulated = .ok value) : value.DistinctKeys := by
  induction entries generalizing accumulated with
  | nil =>
      cases h
      cases accumulated with
      | none => simp [Entries.keys]
      | some other => exact haccumulated other rfl
  | cons entry rest ih =>
      simp only [renderEntries, bind_eq_ok_iff] at h
      obtain ⟨child, hchild, placed, hplaced, hrest⟩ := h
      obtain ⟨hentry, hothers⟩ := List.forall_mem_cons.mp hentries
      have hdistinct := distinctKeys_place (hentry child hchild) haccumulated hplaced
      exact ih hothers (by rintro _ ⟨⟩; exact hdistinct) hrest

theorem distinctKeys_renderChild {results : Array (Except Error Value)} {child : Child}
    {value : Value} (hchild : child.Below results.size)
    (hresults : ∀ (id : Nat) (value : Value), results[id]? = some (.ok value) → value.DistinctKeys)
    (h : config.renderChild tuple results child = .ok value) : value.DistinctKeys := by
  cases child with
  | node id =>
      have hid : id < results.size := hchild
      refine hresults id value ?_
      simpa [renderChild, Array.getD, hid] using h
  | scalar leaf =>
      rintro entries rfl
      have hleaf : leaf.entries? = none := hchild
      cases leaf <;> simp_all [renderChild, renderScalar, Value.entries?, map_eq_ok_iff]

theorem distinctKeys_renderNodes (h : Properties.ChildrenFirst nodes) {id : Nat} {value : Value}
    (hvalue : (config.renderNodes tuple nodes)[id]? = some (.ok value)) :
    value.DistinctKeys := by
  induction h generalizing id value with
  | empty => simp [renderNodes] at hvalue
  | @push nodes last h hlast ih =>
      rw [renderNodes_push, Array.getElem?_push] at hvalue
      split at hvalue
      · rw [Option.some_inj] at hvalue
        have hchildren : ∀ child ∈ last.children, ∀ value,
            config.renderChild tuple (config.renderNodes tuple nodes) child = .ok value →
              value.DistinctKeys := by
          intro child hchild value
          have hbelow := hlast child hchild
          rw [← size_renderNodes config tuple nodes] at hbelow
          exact distinctKeys_renderChild hbelow fun id value => ih
        cases last with
        | map entries =>
            refine distinctKeys_renderEntries (fun entry hentry => ?_) (by simp) hvalue
            exact hchildren _ (List.mem_map_of_mem (List.mem_of_mem_filter hentry))
        | array entries =>
            obtain ⟨items, -, rfl⟩ := map_eq_ok_iff.mp hvalue
            rintro _ ⟨⟩
      · exact ih hvalue

/-! ## Mappings -/

/--
If the children of a mapping are all rendered, the mapping fails only where a key
comes after an entry without a key that is no mapping, and the error has the first
such key.  Otherwise the entries after the last one without a key are laid over its
value, or over an empty mapping.
-/
theorem renderNodes_mapping {config : Config} (h : config.Reachable) (tuple : Tuple) {id : Nat}
    {entries : List MapEntry} (hnode : config.tree.nodes[id]? = some (.map entries))
    {rendered : Rendered} (hrendered : List.Forall₂
      (MapEntry.RendersTo
        (config.renderChild tuple (config.renderNodes tuple config.tree.nodes)))
      (config.activeEntries tuple.toContext entries) rendered) :
    ∃ outcome, (config.renderNodes tuple config.tree.nodes)[id]? = some outcome ∧
      ((∃ error, outcome = .error error) ↔ rendered.Blocked) ∧
      (∀ before name value after, rendered = before ++ (some name, value) :: after →
        Rendered.Closed before → ¬ Rendered.Blocked before →
          outcome = .error (.keyIntoScalar name)) ∧
      ∀ value, outcome = .ok value →
        (∃ below merged, rendered.base = .object below ∧ value = .object merged ∧
          Entries.Overlays below rendered.added merged ∧ (Entries.keys merged).Nodup) ∨
        rendered.base.entries? = none ∧ rendered.added = [] ∧ value = rendered.base := by
  have houtcome : (config.renderNodes tuple config.tree.nodes)[id]? =
      some (config.renderNode tuple tuple.toContext
        (config.renderNodes tuple config.tree.nodes) (.map entries)) :=
    getElem?_renderNodes h.childrenFirst hnode
  refine ⟨_, houtcome, ?_⟩
  rw [renderNode, Rendered.renderEntries_eq_foldlM hrendered none, Option.getD_none] at houtcome ⊢
  refine ⟨?_, fun before name value after hsplit hclosed hopen => ?_, fun value hvalue => ?_⟩
  · exact Rendered.exists_foldlM_put_error_iff
  · exact Rendered.foldlM_put_eq_error_iff.mpr
      ⟨before, name, value, after, hsplit, hclosed, hopen, rfl⟩
  · rw [hvalue] at houtcome
    have hdistinct := distinctKeys_renderNodes h.childrenFirst houtcome
    obtain ⟨hopen, rfl⟩ := Rendered.foldlM_put_eq_ok_iff.mp hvalue
    by_cases hclosed : rendered.Closed
    · exact .inr ⟨Rendered.closed_iff.mp hclosed, Rendered.added_eq_nil hclosed hopen,
        Rendered.result_of_closed hclosed⟩
    · obtain ⟨below, hbelow⟩ := Rendered.exists_object_of_not_closed hclosed
      have hmerged := Rendered.result_of_object hbelow
      exact .inl ⟨below, _, hbelow, hmerged, Entries.overlays_overlay below rendered.added,
        hdistinct _ hmerged⟩

def tieredServer : Value :=
  .object
    [("env/[[]]", .object [("dev", .array [.string "d1"]), ("prod", .array [.string "p1"])]),
      ("server", .object
        [("name", .string "[[.]]"),
          ("-[[prod]]", .object [("port", .integer 443), ("tls", .boolean true)]),
          ("tls", .null), ("host", .string "[[@]]"), ("tls[[prod]]", .boolean false),
          ("port[[dev]]", .integer 80)])]

theorem renderNodes_mapping_tieredServer :
    ∃ config : Config, config.Reachable ∧ ∃ entries, ∃ rendered : Rendered, ∃ below merged,
      config.tree.nodes[1]? = some (.map entries) ∧
      (config.renderNodes (stagedVariant "prod" "p1") config.tree.nodes)[1]? =
        some (.ok (.object merged)) ∧
      rendered.base = .object below ∧ Entries.Overlays below rendered.added merged ∧
      Entries.keys merged = ["port", "tls", "host"] ∧
      (Value.object merged).same (.object
        [("port", .integer 443), ("tls", .boolean false), ("host", .string "p1")]) = true := by
  have hparse : (parse .firstKey tieredServer).toOption.any (fun config =>
      let results := config.renderNodes (stagedVariant "prod" "p1") config.tree.nodes
      ((config.tree.nodes[1]?.bind Node.entries?).any fun entries =>
        (config.activeEntries (stagedVariant "prod" "p1").toContext entries).all fun entry =>
          (config.renderChild (stagedVariant "prod" "p1") results entry.child).toOption.isSome) &&
      ((results[1]?.bind Except.toOption).bind Value.entries?).any fun merged =>
        Entries.keys merged == ["port", "tls", "host"] && (Value.object merged).same (.object
          [("port", .integer 443), ("tls", .boolean false), ("host", .string "p1")])) = true := by
    decide +kernel
  obtain ⟨config, hconfig, hchecks⟩ := any_toOption_iff.mp hparse
  simp only [Bool.and_eq_true, Option.any_eq_true, Option.bind_eq_some_iff, List.all_eq_true,
    beq_iff_eq, Option.isSome_iff_exists, toOption_eq_some_iff, Node.entries?_eq_some_iff,
    Value.entries?_eq_some_iff] at hchecks
  obtain ⟨⟨entries, ⟨_, hnode, rfl⟩, hchildren⟩,
    ⟨merged, ⟨_, ⟨_, hresult, rfl⟩, rfl⟩, hkeys, hsame⟩⟩ := hchecks
  have hentries : ∀ entry ∈ config.activeEntries (stagedVariant "prod" "p1").toContext entries,
      ∃ pair, MapEntry.RendersTo (config.renderChild (stagedVariant "prod" "p1")
        (config.renderNodes (stagedVariant "prod" "p1") config.tree.nodes)) entry pair := by
    intro entry hentry
    obtain ⟨value, hvalue⟩ := hchildren entry hentry
    exact ⟨(entry.key, value), rfl, hvalue⟩
  obtain ⟨rendered, hrendered⟩ := exists_forall₂_of_forall hentries
  obtain ⟨outcome, houtcome, -, -, hoverlay⟩ :=
    renderNodes_mapping (.parsed hconfig) (stagedVariant "prod" "p1") hnode hrendered
  rw [hresult, Option.some_inj] at houtcome
  rcases hoverlay _ houtcome.symm with ⟨below, _, hbelow, ⟨⟩, hoverlays, -⟩ | ⟨hbase, -, hvalue⟩
  · exact ⟨config, .parsed hconfig, entries, rendered, below, merged, hnode, hresult, hbelow,
      hoverlays, hkeys, hsame⟩
  · rw [← hvalue] at hbase
    cases hbase

end Config

end Variants
