import Variants.Config.Rendering
import Variants.Proofs.PropertyTree
import Variants.Proofs.Reachable
import Variants.Proofs.Tuple

/-!
# Evaluating a document

A document can be evaluated for a tuple by one recursion over its values, which
strips a key when it comes to it and has no table of nodes.  Rendering the tree
that was built from the document gives the same, value or error: a node keeps
its result whatever is appended to the table after it.
-/

namespace Variants

/-! ## Evaluation -/

mutual

def evaluate (dimensions : List Dimension) (tuple : Tuple) : Value → Except Error Value
  | .object entries => evaluateEntries dimensions tuple entries none
  | .array items => (evaluateItems dimensions tuple items).map .array
  | .string text => (interpolate dimensions tuple text).map .string
  | scalar => .ok scalar

def evaluateItems (dimensions : List Dimension) (tuple : Tuple) :
    List Value → Except Error (List Value)
  | [] => .ok []
  | item :: rest => do
      let value ← evaluate dimensions tuple item
      let values ← evaluateItems dimensions tuple rest
      return value :: values

/-- The value below a key is not looked at when a condition of the key fails. -/
def evaluateEntries (dimensions : List Dimension) (tuple : Tuple) :
    List (String × Value) → Option Value → Except Error Value
  | [], accumulated => .ok (accumulated.getD (.object []))
  | (key, value) :: rest, accumulated => do
      let (stripped, conditions) ← parseKey dimensions key
      if conditions.all tuple.meets then
        let value ← evaluate dimensions tuple value
        let name := String.ofList (Text.trim stripped.toList)
        if name = "" ∨ name = "-" then evaluateEntries dimensions tuple rest (some value)
        else
          match accumulated.getD (.object []) with
          | .object entries =>
              evaluateEntries dimensions tuple rest
                (some (.object (Entries.insert name value entries)))
          | _ => .error (.keyIntoScalar name)
      else evaluateEntries dimensions tuple rest accumulated

end

/-! ## Tables that grow -/

namespace Properties

inductive Grows (nodes : Array Node) : Array Node → Prop
  | refl : Grows nodes nodes
  | push {later : Array Node} (h : Grows nodes later) (node : Node) :
      Grows nodes (later.push node)

variable {known : List Dimension}

theorem Grows.trans {nodes later last : Array Node} (h : Grows nodes later)
    (hlast : Grows later last) : Grows nodes last := by
  induction hlast with
  | refl => exact h
  | push _ node ih => exact .push ih node

theorem Grows.size_le {nodes later : Array Node} (h : Grows nodes later) :
    nodes.size ≤ later.size := by
  induction h with
  | refl => exact Nat.le_refl _
  | push _ node ih => simp; omega

mutual

theorem grows_build : ∀ {value : Value} {nodes result : Array Node} {child : Child},
    build known nodes value = .ok (result, child) → Grows nodes result
  | .object entries, nodes, result, child, h => by
      simp only [build, bind_eq_ok_iff] at h
      obtain ⟨⟨below, built⟩, hbuilt, h⟩ := h
      cases h
      exact .push (grows_buildEntries hbuilt) _
  | .array items, nodes, result, child, h => by
      simp only [build, bind_eq_ok_iff] at h
      obtain ⟨⟨below, built⟩, hbuilt, h⟩ := h
      cases h
      exact .push (grows_buildItems hbuilt) _
  | .null, _, _, _, h => by cases h; exact .refl
  | .boolean _, _, _, _, h => by cases h; exact .refl
  | .integer _, _, _, _, h => by cases h; exact .refl
  | .decimal _, _, _, _, h => by cases h; exact .refl
  | .string _, _, _, _, h => by cases h; exact .refl

theorem grows_buildEntries : ∀ {entries : List (String × Value)} {nodes result : Array Node}
    {built : List MapEntry}, buildEntries known nodes entries = .ok (result, built) →
      Grows nodes result
  | [], _, _, _, h => by cases h; exact .refl
  | (key, value) :: rest, nodes, result, built, h => by
      simp only [buildEntries, bind_eq_ok_iff] at h
      obtain ⟨_, -, ⟨below, child⟩, hchild, ⟨after, others⟩, hothers, h⟩ := h
      cases h
      exact (grows_build hchild).trans (grows_buildEntries hothers)

theorem grows_buildItems : ∀ {items : List Value} {nodes result : Array Node}
    {built : List ArrayEntry}, buildItems known nodes items = .ok (result, built) →
      Grows nodes result
  | [], _, _, _, h => by cases h; exact .refl
  | item :: rest, nodes, result, built, h => by
      simp only [buildItems, bind_eq_ok_iff] at h
      obtain ⟨⟨below, child⟩, hchild, ⟨after, others⟩, hothers, h⟩ := h
      cases h
      exact (grows_build hchild).trans (grows_buildItems hothers)

end

end Properties

/-! ## Results of nodes -/

namespace Config

variable (config : Config) (tuple : Tuple)

theorem renderNodes_push (nodes : Array Node) (node : Node) :
    config.renderNodes tuple (nodes.push node) =
      (config.renderNodes tuple nodes).push
        (config.renderNode tuple tuple.toContext (config.renderNodes tuple nodes) node) := by
  simp [renderNodes]

theorem size_renderNodes (nodes : Array Node) :
    (config.renderNodes tuple nodes).size = nodes.size := by
  refine Array.foldl_induction
    (motive := fun count (results : Array (Except Error Value)) => results.size = count) rfl ?_
  intro index results hsize
  simp [hsize]

theorem getD_renderNodes_push (nodes : Array Node) (node : Node) (missing : Except Error Value) :
    (config.renderNodes tuple (nodes.push node)).getD nodes.size missing =
      config.renderNode tuple tuple.toContext (config.renderNodes tuple nodes) node := by
  rw [renderNodes_push]
  have hsize := config.size_renderNodes tuple nodes
  simp [Array.getD, ← hsize]

theorem getD_renderNodes_of_grows {nodes later : Array Node} (h : Properties.Grows nodes later)
    {id : Nat} (hid : id < nodes.size) (missing : Except Error Value) :
    (config.renderNodes tuple later).getD id missing =
      (config.renderNodes tuple nodes).getD id missing := by
  induction h with
  | refl => rfl
  | @push later h node ih =>
      have hlt : id < (config.renderNodes tuple later).size := by
        have hle := h.size_le
        rw [size_renderNodes]
        omega
      rw [renderNodes_push, ← ih]
      simp [Array.getD, hlt, Nat.lt_succ_of_lt hlt, Array.getElem_push_lt hlt]

/-! ## Agreement -/

theorem place_entryKey? (name : List Char) (value : Value) (accumulated : Option Value) :
    place (Properties.entryKey? name) value accumulated =
      if String.ofList name = "" ∨ String.ofList name = "-" then .ok value
      else
        match accumulated.getD (.object []) with
        | .object entries => .ok (.object (Entries.insert (String.ofList name) value entries))
        | _ => .error (.keyIntoScalar (String.ofList name)) := by
  have hanonymous : isAnonymous name = true ↔
      String.ofList name = "" ∨ String.ofList name = "-" := by
    simp [isAnonymous, String.ext_iff]
  by_cases h : isAnonymous name = true
  · rw [if_pos (hanonymous.mp h)]
    simp [Properties.entryKey?, h, place]
  · rw [if_neg (mt hanonymous.mpr h)]
    cases accumulated with
    | none => simp [Properties.entryKey?, h, place, Entries.insert, Entries.alter]
    | some result => cases result <;> simp [Properties.entryKey?, h, place]

theorem allHold_of_parseKey {known : List Dimension} {key name : String}
    {conditions : List Condition} (h : parseKey known key = .ok (name, conditions))
    (mode : Containment) (tuple : Tuple) :
    allHold mode tuple.toContext conditions = conditions.all tuple.meets := by
  refine allHold_toContext (fun c hc => ?_) mode tuple
  obtain ⟨d, -, -, domain, values, hdomains, -⟩ := grounded_of_parseKey h c hc
  exact ⟨domain, values, hdomains⟩

theorem evaluateEntries_cons {known : List Dimension} {key name : String}
    {conditions : List Condition} (tuple : Tuple)
    (h : parseKey known key = .ok (name, conditions)) (value : Value)
    (rest : List (String × Value)) (accumulated : Option Value) :
    evaluateEntries known tuple ((key, value) :: rest) accumulated =
      if conditions.all tuple.meets then do
        let value ← evaluate known tuple value
        let placed ← place (Properties.entryKey? (Text.trim name.toList)) value accumulated
        evaluateEntries known tuple rest (some placed)
      else evaluateEntries known tuple rest accumulated := by
  rw [evaluateEntries, h]
  simp only [place_entryKey?, bind, Except.bind]
  by_cases hmeets : conditions.all tuple.meets = true
  · simp only [hmeets, if_true]
    cases evaluate known tuple value with
    | error error => rfl
    | ok value =>
        simp only
        split
        · rfl
        · cases accumulated.getD (.object []) <;> rfl
  · simp only [hmeets, if_false, Bool.false_eq_true]

mutual

theorem renderChild_build : ∀ {value : Value} {nodes result : Array Node} {child : Child},
    Properties.build config.dimensions nodes value = .ok (result, child) →
      ∀ {later : Array Node}, Properties.Grows result later →
        config.renderChild tuple (config.renderNodes tuple later) child =
          evaluate config.dimensions tuple value
  | .object entries, nodes, result, child, h, later, hlater => by
      simp only [Properties.build, bind_eq_ok_iff] at h
      obtain ⟨⟨below, built⟩, hbuilt, h⟩ := h
      cases h
      -- The mapping is the last node of the table below it, so its children are all there.
      rw [renderChild, getD_renderNodes_of_grows config tuple hlater (by simp),
        getD_renderNodes_push]
      exact renderEntries_buildEntries hbuilt .refl none
  | .array items, nodes, result, child, h, later, hlater => by
      simp only [Properties.build, bind_eq_ok_iff] at h
      obtain ⟨⟨below, built⟩, hbuilt, h⟩ := h
      cases h
      rw [renderChild, getD_renderNodes_of_grows config tuple hlater (by simp),
        getD_renderNodes_push, renderNode, mapM_buildItems hbuilt .refl]
      rfl
  | .null, _, _, _, h, _, _ => by cases h; rfl
  | .boolean _, _, _, _, h, _, _ => by cases h; rfl
  | .integer _, _, _, _, h, _, _ => by cases h; rfl
  | .decimal _, _, _, _, h, _, _ => by cases h; rfl
  | .string _, _, _, _, h, _, _ => by cases h; rfl

theorem renderEntries_buildEntries :
    ∀ {entries : List (String × Value)} {nodes result : Array Node} {built : List MapEntry},
      Properties.buildEntries config.dimensions nodes entries = .ok (result, built) →
        ∀ {later : Array Node}, Properties.Grows result later → ∀ accumulated : Option Value,
          renderEntries (config.renderChild tuple (config.renderNodes tuple later))
              (config.activeEntries tuple.toContext built) accumulated =
            evaluateEntries config.dimensions tuple entries accumulated
  | [], _, _, _, h, _, _, _ => by cases h; rfl
  | (key, value) :: rest, nodes, result, built, h, later, hlater, accumulated => by
      simp only [Properties.buildEntries, bind_eq_ok_iff] at h
      obtain ⟨⟨name, conditions⟩, hkey, ⟨below, child⟩, hchild, ⟨after, others⟩, hothers, h⟩ := h
      cases h
      have hvalue := renderChild_build hchild ((Properties.grows_buildEntries hothers).trans hlater)
      have hrest := renderEntries_buildEntries hothers hlater
      rw [evaluateEntries_cons tuple hkey, activeEntries, List.filter_cons,
        allHold_of_parseKey hkey]
      by_cases hmeets : conditions.all tuple.meets = true
      · rw [if_pos hmeets, if_pos hmeets, renderEntries, hvalue]
        simp only [← hrest]
        rfl
      · rw [if_neg hmeets, if_neg hmeets]
        exact hrest accumulated

theorem mapM_buildItems :
    ∀ {items : List Value} {nodes result : Array Node} {built : List ArrayEntry},
      Properties.buildItems config.dimensions nodes items = .ok (result, built) →
        ∀ {later : Array Node}, Properties.Grows result later →
          ((config.activeItems tuple.toContext built).mapM fun entry =>
              config.renderChild tuple (config.renderNodes tuple later) entry.child) =
            evaluateItems config.dimensions tuple items
  | [], _, _, _, h, _, _ => by cases h; rfl
  | item :: rest, nodes, result, built, h, later, hlater => by
      simp only [Properties.buildItems, bind_eq_ok_iff] at h
      obtain ⟨⟨below, child⟩, hchild, ⟨after, others⟩, hothers, h⟩ := h
      cases h
      have hvalue := renderChild_build hchild ((Properties.grows_buildItems hothers).trans hlater)
      have hrest := mapM_buildItems hothers hlater
      have hactive : config.activeItems tuple.toContext (⟨child, []⟩ :: others) =
          ⟨child, []⟩ :: config.activeItems tuple.toContext others := rfl
      rw [hactive, List.mapM_cons, hvalue, hrest]
      rfl

end

theorem render_of_tree {root : List (String × Value)}
    (h : Properties.tree config.dimensions root = .ok config.tree) :
    config.render tuple =
      evaluateEntries config.dimensions tuple (Properties.ofRoot root) none := by
  simp only [Properties.tree, bind_eq_ok_iff] at h
  obtain ⟨⟨below, built⟩, hbuilt, h⟩ := h
  cases htree : config.tree with
  | mk nodes id =>
      rw [htree] at h
      cases h
      rw [render, htree, getD_renderNodes_push]
      exact renderEntries_buildEntries config tuple hbuilt .refl none

/--
Rendering a configuration is evaluating the properties of its document, which
are the root entries without a slash in the key.
-/
theorem render_eq_evaluate {mode : Containment} {document : Value} {config : Config}
    (h : parse mode document = .ok config) :
    ∃ root, document = .object root ∧ ∀ tuple : Tuple, config.render tuple =
      evaluateEntries config.dimensions tuple
        (root.filter fun entry => '/' ∉ entry.1.toList) none := by
  obtain ⟨root, declarations, tree, rfl, -, htree, rfl⟩ := parse_eq_ok_iff.mp h
  refine ⟨root, rfl, fun tuple => ?_⟩
  rw [render_of_tree _ tuple htree, Properties.ofRoot_eq_filter]

def stagedHosts : Value :=
  .object
    [("env/[[]]", .object [("dev", .array [.string "d1"]), ("prod", .array [.string "p1"])]),
      ("host", .object
        [("port", .integer 80), ("-[[prod]]", .string "[[@]]:[[$]]"), ("name[[dev]]", .null)]),
      ("list", .array [.object [("port[[prod]]", .object [("a/b", .array [])])], .array []])]

def stagedVariant (domain value : String) : Tuple :=
  .ofList [("env", .ofList [(⟨0⟩, ⟨domain, value⟩)])]

theorem render_eq_evaluate_stagedHosts :
    ∃ config root, parse .allKeys stagedHosts = .ok config ∧ stagedHosts = .object root ∧
      (∀ tuple, config.render tuple = evaluateEntries config.dimensions tuple
        (root.filter fun entry => '/' ∉ entry.1.toList) none) ∧
      (config.render (stagedVariant "prod" "p1")).toOption.any (·.same (.object
        [("host", .string "p1:prod"), ("list", .array
          [.object [("port", .object [("a/b", .array [])])], .array []])])) = true ∧
      (config.render (stagedVariant "dev" "d1")).toOption.any (·.same (.object
        [("host", .object [("port", .integer 80), ("name", .null)]),
          ("list", .array [.object [], .array []])])) = true := by
  have hparse : (parse .allKeys stagedHosts).toOption.any (fun config =>
      (config.render (stagedVariant "prod" "p1")).toOption.any (·.same (.object
        [("host", .string "p1:prod"), ("list", .array
          [.object [("port", .object [("a/b", .array [])])], .array []])])) &&
      (config.render (stagedVariant "dev" "d1")).toOption.any (·.same (.object
        [("host", .object [("port", .integer 80), ("name", .null)]),
          ("list", .array [.object [], .array []])]))) = true := by
    decide +kernel
  obtain ⟨config, hconfig, hrenders⟩ := any_toOption_iff.mp hparse
  obtain ⟨hprod, hdev⟩ := Bool.and_eq_true_iff.mp hrenders
  obtain ⟨root, hroot, hevaluate⟩ := render_eq_evaluate hconfig
  exact ⟨config, root, hconfig, hroot, hevaluate, hprod, hdev⟩

end Config

end Variants
