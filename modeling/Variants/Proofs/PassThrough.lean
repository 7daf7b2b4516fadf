import Variants.Proofs.Evaluation
import Variants.Proofs.Interpolation
import Variants.Proofs.Text

/-!
# Properties without annotations

A property tree whose keys are plain names, and in which no key and no string
has the left delimiter of a dimension, says nothing about dimensions.  Such a
document is accepted as soon as its declarations are, and every product of it is
the property tree itself.
-/

namespace Variants

/-! ## Plain values -/

def Undelimited (dimensions : List Dimension) (text : String) : Prop :=
  ∀ d ∈ dimensions, ¬ d.brackets.left <:+: text.toList

structure PlainKey (dimensions : List Dimension) (key : String) : Prop where
  ne_empty : key ≠ ""
  ne_dash : key ≠ "-"
  first_not_blank : key.toList.head?.any Text.isBlank = false
  last_not_blank : key.toList.getLast?.any Text.isBlank = false
  undelimited : Undelimited dimensions key

mutual

def Value.Plain (dimensions : List Dimension) : Value → Prop
  | .object entries => Value.PlainEntries dimensions entries
  | .array items => Value.PlainItems dimensions items
  | .string text => Undelimited dimensions text
  | _ => True

def Value.PlainItems (dimensions : List Dimension) : List Value → Prop
  | [] => True
  | item :: rest => Value.Plain dimensions item ∧ Value.PlainItems dimensions rest

def Value.PlainEntries (dimensions : List Dimension) : List (String × Value) → Prop
  | [] => True
  | (key, value) :: rest =>
      PlainKey dimensions key ∧ Value.Plain dimensions value ∧ Value.PlainEntries dimensions rest

end

variable {dimensions : List Dimension}

/-! ## Keys -/

theorem KeyReading.strip_of_absent {reading : KeyReading} {d : Dimension}
    (h : ¬ d.brackets.left <:+: reading.text) (key : String) :
    reading.strip key d = .ok reading := by
  simp [strip, Brackets.excise_of_absent _ h, bind, Except.bind, pure, Except.pure]

theorem parseKey_of_undelimited {key : String} (h : Undelimited dimensions key) :
    parseKey dimensions key = .ok (key, []) := by
  have hfold : dimensions.foldlM (KeyReading.strip key) (.ofKey key) = .ok (.ofKey key) :=
    foldlM_eq_self fun d hd => KeyReading.strip_of_absent (h d hd) key
  rw [parseKey, hfold]
  simp [KeyReading.ofKey, bind, Except.bind, pure, Except.pure]

theorem PlainKey.trim_eq {key : String} (h : PlainKey dimensions key) :
    Text.trim key.toList = key.toList := by
  have hstart : Text.trimStart key.toList = key.toList := by
    have hfirst := h.first_not_blank
    cases hkey : key.toList with
    | nil => rfl
    | cons c rest => simpa [Text.trimStart, hkey] using hfirst
  rw [Text.trim, hstart, Text.trimEnd_eq_self_iff.mpr h.last_not_blank]

/-! ## Acceptance -/

namespace Properties

mutual

theorem exists_build : ∀ {value : Value}, value.Plain dimensions → ∀ nodes : Array Node,
    ∃ built, build dimensions nodes value = .ok built
  | .object entries, h, nodes => by
      obtain ⟨built, hbuilt⟩ := exists_buildEntries h nodes
      simp only [build, bind_eq_ok_iff]
      exact ⟨_, built, hbuilt, rfl⟩
  | .array items, h, nodes => by
      obtain ⟨built, hbuilt⟩ := exists_buildItems h nodes
      simp only [build, bind_eq_ok_iff]
      exact ⟨_, built, hbuilt, rfl⟩
  | .null, _, _ => ⟨_, rfl⟩
  | .boolean _, _, _ => ⟨_, rfl⟩
  | .integer _, _, _ => ⟨_, rfl⟩
  | .decimal _, _, _ => ⟨_, rfl⟩
  | .string _, _, _ => ⟨_, rfl⟩

theorem exists_buildEntries : ∀ {entries : List (String × Value)},
    Value.PlainEntries dimensions entries → ∀ nodes : Array Node,
      ∃ built, buildEntries dimensions nodes entries = .ok built
  | [], _, _ => ⟨_, rfl⟩
  | (key, value) :: rest, ⟨hkey, hvalue, hrest⟩, nodes => by
      obtain ⟨child, hchild⟩ := exists_build hvalue nodes
      obtain ⟨others, hothers⟩ := exists_buildEntries hrest child.1
      simp only [buildEntries, bind_eq_ok_iff]
      exact ⟨_, _, parseKey_of_undelimited hkey.undelimited, child, hchild, others, hothers, rfl⟩

theorem exists_buildItems : ∀ {items : List Value},
    Value.PlainItems dimensions items → ∀ nodes : Array Node,
      ∃ built, buildItems dimensions nodes items = .ok built
  | [], _, _ => ⟨_, rfl⟩
  | item :: rest, ⟨hitem, hrest⟩, nodes => by
      obtain ⟨child, hchild⟩ := exists_build hitem nodes
      obtain ⟨others, hothers⟩ := exists_buildItems hrest child.1
      simp only [buildItems, bind_eq_ok_iff]
      exact ⟨_, child, hchild, others, hothers, rfl⟩

end

end Properties

/-! ## Evaluation -/

variable {tuple : Tuple}

mutual

theorem evaluate_of_plain : ∀ {value : Value}, value.Plain dimensions → value.UniqueKeys →
    evaluate dimensions tuple value = .ok value
  | .object entries, h, ⟨hnodup, hunique⟩ =>
      evaluateEntries_of_plain [] h hunique hnodup rfl
  | .array items, h, hunique => by
      rw [evaluate, evaluateItems_of_plain h hunique]
      rfl
  | .string text, h, _ => by
      rw [evaluate, interpolate_of_absent h]
      rfl
  | .null, _, _ => rfl
  | .boolean _, _, _ => rfl
  | .integer _, _, _ => rfl
  | .decimal _, _, _ => rfl

theorem evaluateEntries_of_plain : ∀ {entries : List (String × Value)}
    (before : List (String × Value)) {accumulated : Option Value},
      Value.PlainEntries dimensions entries → Value.UniqueKeysOfEntries entries →
        (Entries.keys (before ++ entries)).Nodup →
          accumulated.getD (.object []) = .object before →
            evaluateEntries dimensions tuple entries accumulated =
              .ok (.object (before ++ entries))
  | [], before, accumulated, _, _, _, haccumulated => by
      rw [evaluateEntries, haccumulated, List.append_nil]
  | (key, value) :: rest, before, accumulated, ⟨hkey, hvalue, hrest⟩, ⟨hbelow, hunique⟩, hnodup,
      haccumulated => by
      -- The key is new, so its entry goes behind those that are there already.
      have hnew : key ∉ Entries.keys before := by
        intro hmem
        simp only [Entries.keys, List.map_append, List.map_cons, List.nodup_append] at hnodup
        exact hnodup.2.2 key hmem key List.mem_cons_self rfl
      have happend : before ++ (key, value) :: rest = (before ++ [(key, value)]) ++ rest := by simp
      have hanonymous : ¬ (key = "" ∨ key = "-") := not_or.mpr ⟨hkey.ne_empty, hkey.ne_dash⟩
      have hname : String.ofList (Text.trim key.toList) = key := by
        rw [hkey.trim_eq, String.ofList_toList]
      rw [happend] at hnodup ⊢
      rw [evaluateEntries, parseKey_of_undelimited hkey.undelimited]
      simp only [bind, Except.bind, List.all_nil, if_true, evaluate_of_plain hvalue hbelow, hname,
        if_neg hanonymous, haccumulated, Entries.insert_of_not_mem hnew]
      exact evaluateEntries_of_plain _ hrest hunique hnodup rfl

theorem evaluateItems_of_plain : ∀ {items : List Value}, Value.PlainItems dimensions items →
    Value.UniqueKeysOfItems items → evaluateItems dimensions tuple items = .ok items
  | [], _, _ => rfl
  | item :: rest, ⟨hitem, hrest⟩, ⟨hbelow, hunique⟩ => by
      rw [evaluateItems, evaluate_of_plain hitem hbelow, evaluateItems_of_plain hrest hunique]
      rfl

end

theorem Value.UniqueKeysOfEntries.filter (keep : String × Value → Bool) :
    ∀ {entries : List (String × Value)}, UniqueKeysOfEntries entries →
      UniqueKeysOfEntries (entries.filter keep)
  | [], _ => trivial
  | entry :: rest, ⟨hentry, hrest⟩ => by
      have hfilter := UniqueKeysOfEntries.filter keep hrest
      rw [List.filter_cons]
      split
      · exact ⟨hentry, hfilter⟩
      · exact hfilter

namespace Config

/--
A document that is plain outside its declarations is accepted once they are, and
its product is the same for all tuples: all that it says there, as it says it.
-/
theorem render_of_plain {root : List (String × Value)} {declarations : Declarations}
    (hunique : (Value.object root).UniqueKeys)
    (hread : Declarations.read root = .ok declarations)
    (hplain : Value.PlainEntries declarations.dimensions
      (root.filter fun entry => '/' ∉ entry.1.toList)) (mode : Containment) :
    ∃ config, parse mode (.object root) = .ok config ∧ ∀ tuple : Tuple,
      config.render tuple =
        .ok (.object (root.filter fun entry => '/' ∉ entry.1.toList)) := by
  obtain ⟨hnodup, hbelow⟩ := hunique
  have hkeys : (Entries.keys (root.filter fun entry => '/' ∉ entry.1.toList)).Nodup :=
    hnodup.sublist (List.filter_sublist.map Prod.fst)
  have htree : ∃ tree, Properties.tree declarations.dimensions root = .ok tree := by
    rw [← Properties.ofRoot_eq_filter] at hplain
    obtain ⟨built, hbuilt⟩ := Properties.exists_buildEntries hplain #[]
    simp only [Properties.tree, bind_eq_ok_iff]
    exact ⟨_, built, hbuilt, rfl⟩
  obtain ⟨tree, htree⟩ := htree
  refine ⟨_, parse_eq_ok_iff.mpr ⟨root, declarations, tree, rfl, hread, htree, rfl⟩, ?_⟩
  intro tuple
  rw [render_of_tree _ tuple htree, Properties.ofRoot_eq_filter]
  exact evaluateEntries_of_plain [] hplain (hbelow.filter _) hkeys rfl

def plainHosts : List (String × Value) :=
  [("my host", .string " [1] "),
    ("list", .array [.object [("a/b", .integer 80)], .array [], .object [], .null])]

def declaredHosts : List (String × Value) :=
  [("env/[[]]", .object [("dev", .array [.string "d1"])]),
    ("region/<>", .object [("us[[dev]]", .array [.string "nyc"])])] ++ plainHosts

theorem render_of_plain_declaredHosts :
    ∃ declarations, Declarations.read declaredHosts = .ok declarations ∧
      (declaredHosts.filter fun entry => '/' ∉ entry.1.toList) = plainHosts ∧
      Value.PlainEntries declarations.dimensions plainHosts ∧
      ∃ config, parse .firstKey (.object declaredHosts) = .ok config ∧ ∀ tuple : Tuple,
        config.render tuple = .ok (.object plainHosts) := by
  have hparse : (Declarations.read declaredHosts).toOption.any (fun declarations =>
      decide (∀ d ∈ declarations.dimensions, ∀ text ∈ [" [1] ", "my host", "list", "a/b"],
        ¬ d.brackets.left <:+: text.toList)) = true := by
    decide +kernel
  obtain ⟨declarations, hread, hdecide⟩ := any_toOption_iff.mp hparse
  have hundelimited : ∀ text ∈ [" [1] ", "my host", "list", "a/b"],
      Undelimited declarations.dimensions text :=
    fun text htext d hd => of_decide_eq_true hdecide d hd text htext
  have hkey : ∀ key ∈ ["my host", "list", "a/b"], PlainKey declarations.dimensions key := by
    intro key hmem
    have hkey := hundelimited key (List.mem_cons_of_mem _ hmem)
    simp only [List.mem_cons, List.not_mem_nil, or_false] at hmem
    rcases hmem with rfl | rfl | rfl <;>
      exact ⟨by simp, by simp, by decide +kernel, by decide +kernel, hkey⟩
  have hplain : Value.PlainEntries declarations.dimensions plainHosts :=
    ⟨hkey "my host" (by simp), hundelimited " [1] " (by simp), hkey "list" (by simp),
      ⟨⟨hkey "a/b" (by simp), trivial, trivial⟩, trivial, trivial, trivial, trivial⟩, trivial⟩
  have hunique : (Value.object declaredHosts).UniqueKeys := by
    simp [declaredHosts, plainHosts, Value.UniqueKeys, Value.UniqueKeysOfEntries,
      Value.UniqueKeysOfItems, Entries.keys]
  have hfilter : (declaredHosts.filter fun entry => '/' ∉ entry.1.toList) = plainHosts := by
    simp [declaredHosts, plainHosts]
  refine ⟨declarations, hread, hfilter, hplain, ?_⟩
  have hrender := render_of_plain hunique hread (by rwa [hfilter]) .firstKey
  rwa [hfilter] at hrender

end Config

end Variants
