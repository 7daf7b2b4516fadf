import Variants.Proofs.JsonReader
import Variants.TextFormat

/-!
# Values in JSON text

A value that a JSON library writes, compact or indented, is loaded as the same
value.  Of the library no more is assumed than the format: how it writes each
kind of data, and which node it reads a text of the grammar as.
-/

namespace Variants

/-! ## What is known of a library -/

namespace Json

variable {ν : Type}

/-- The library writes and reads JSON text; `ofInteger` is the number with a given value. -/
structure Library.Standard (library : Library ν) (ofInteger : Int64 → ν) : Prop where
  write_unit : ∀ style, library.write style .unit = "null"
  write_boolean : ∀ style value, library.write style (.boolean value) = toString value
  write_integer : ∀ style value, library.write style (.integer value) = toString value.toInt
  write_string : ∀ style text, library.write style (.string text) = String.ofList (quote text)
  write_sequence : ∀ style items, library.write style (.sequence items.length items) =
    String.ofList (style.enclose '[' ']' (items.map fun item => (library.write style item).toList))
  write_mapping : ∀ style entries, library.write style (.mapping entries.length entries) =
    String.ofList (style.enclose '{' '}' (entries.map fun entry =>
      quote entry.1 ++ style.colon ++ (library.write style entry.2).toList))
  integer?_ofInteger : ∀ value, library.integer? (ofInteger value) = some value
  /-- Containers may be nested 127 deep. -/
  read_of_isPadded : ∀ {text node}, IsPadded ofInteger text.toList node → node.depth ≤ 127 →
    library.read text = .ok node

theorem writeItems_eq_map (style : Style) (items : List Serialized) :
    writeItems style items = items.map (write style) := by
  induction items with
  | nil => rfl
  | cons item items ih => rw [writeItems, ih, List.map_cons]

theorem writeEntries_eq_map (style : Style) (entries : List (String × Serialized)) :
    writeEntries style entries = entries.map fun entry =>
      quote entry.1 ++ style.colon ++ write style entry.2 := by
  induction entries with
  | nil => rfl
  | cons entry entries ih => rw [writeEntries, ih, List.map_cons]

theorem library_standard : library.Standard Number.integer where
  write_unit _ := rfl
  write_boolean style value := by cases value <;> rfl
  write_integer _ _ := by simp [library, write]
  write_string _ _ := by simp [library, write]
  write_sequence _ _ := by simp [library, write, writeItems_eq_map]
  write_mapping _ _ := by simp [library, write, writeEntries_eq_map]
  integer?_ofInteger _ := rfl
  read_of_isPadded {text node} h hdepth := by
    have hread : readAll text.toList = .ok node := readAll_of_isPadded h hdepth
    simp [library, parse, hread, Except.mapError]

end Json

/-! ## Values without decimals -/

namespace Value

mutual

def WithoutDecimals : Value → Prop
  | .decimal _ => False
  | .array items => WithoutDecimalsOfItems items
  | .object entries => WithoutDecimalsOfEntries entries
  | _ => True

def WithoutDecimalsOfItems : List Value → Prop
  | [] => True
  | item :: rest => WithoutDecimals item ∧ WithoutDecimalsOfItems rest

def WithoutDecimalsOfEntries : List (String × Value) → Prop
  | [] => True
  | (_, value) :: rest => WithoutDecimals value ∧ WithoutDecimalsOfEntries rest

end

variable {ν : Type} {library : Json.Library ν} {ofInteger : Int64 → ν}

theorem length_serializeItems (items : List Value) :
    (serializeItems items).length = items.length := by
  induction items with
  | nil => rfl
  | cons item items ih => rw [serializeItems, List.length_cons, List.length_cons, ih]

theorem length_serializeEntries (entries : List (String × Value)) :
    (serializeEntries entries).length = entries.length := by
  induction entries with
  | nil => rfl
  | cons entry entries ih => rw [serializeEntries, List.length_cons, List.length_cons, ih]

theorem keys_ofJsonEntries (library : Json.Library ν) (entries : List (String × Json.Node ν)) :
    Entries.keys (ofJsonEntries library entries) = Entries.keys entries := by
  induction entries with
  | nil => rfl
  | cons entry entries ih => exact congrArg (entry.1 :: ·) ih

-- The induction is on the value; for the parts of a container it gives their
-- texts one by one, and the library's law for containers puts these together.
mutual

/-- What is written for a value stands for a node, and the value of that node is the first. -/
theorem exists_isValue_serialize (hlibrary : library.Standard ofInteger) (style : Json.Style)
    (value : Value) (hwithout : value.WithoutDecimals) (hkeys : value.UniqueKeys) :
    ∃ node, Json.IsValue ofInteger (library.write style value.serialize).toList node ∧
      node.depth = value.depth ∧ ofJson library node = value :=
  match value with
  | .null => ⟨.null, by rw [serialize, hlibrary.write_unit]; exact .null, rfl, rfl⟩
  | .boolean value =>
      ⟨.boolean value, by rw [serialize, hlibrary.write_boolean]; exact .boolean value, rfl, rfl⟩
  | .integer value => by
      refine ⟨.number (ofInteger value), ?_, rfl, ?_⟩
      · rw [serialize, hlibrary.write_integer]
        exact .integer value
      · rw [ofJson, ofNumber, hlibrary.integer?_ofInteger]
  | .decimal _ => hwithout.elim
  | .string text => by
      refine ⟨.string text, ?_, rfl, rfl⟩
      rw [serialize, hlibrary.write_string, String.toList_ofList]
      exact Json.isValue_quote text
  | .array items => by
      obtain ⟨nodes, htexts, hdepth, hvalues⟩ :=
        exists_isValue_serializeItems hlibrary style items hwithout hkeys
      refine ⟨.array nodes, ?_, ?_, ?_⟩
      · rw [serialize, ← length_serializeItems, hlibrary.write_sequence, String.toList_ofList]
        exact Json.isValue_array style htexts
      · rw [Json.Node.depth, depth, hdepth]
      · rw [ofJson, hvalues]
  | .object entries => by
      obtain ⟨nodes, htexts, hdepth, hvalues⟩ :=
        exists_isEntry_serializeEntries hlibrary style entries hwithout hkeys.2
      have hnodup : (Entries.keys nodes).Nodup := by
        rw [← keys_ofJsonEntries library, hvalues]
        exact hkeys.1
      refine ⟨.object nodes, ?_, ?_, ?_⟩
      · rw [serialize, ← length_serializeEntries, hlibrary.write_mapping, String.toList_ofList]
        exact Json.isValue_object style htexts hnodup
      · rw [Json.Node.depth, depth, hdepth]
      · rw [ofJson, hvalues, Entries.ofList_of_nodup hkeys.1]

theorem exists_isValue_serializeItems (hlibrary : library.Standard ofInteger)
    (style : Json.Style) (items : List Value) (hwithout : WithoutDecimalsOfItems items)
    (hkeys : UniqueKeysOfItems items) :
    ∃ nodes, List.Forall₂ (Json.IsValue ofInteger)
        ((serializeItems items).map fun item => (library.write style item).toList) nodes ∧
      Json.Node.depthOfItems nodes = depthOfItems items ∧ ofJsonItems library nodes = items :=
  match items with
  | [] => ⟨[], .nil, rfl, rfl⟩
  | item :: items => by
      obtain ⟨node, htext, hdepth, hvalue⟩ :=
        exists_isValue_serialize hlibrary style item hwithout.1 hkeys.1
      obtain ⟨nodes, htexts, hdepths, hvalues⟩ :=
        exists_isValue_serializeItems hlibrary style items hwithout.2 hkeys.2
      refine ⟨node :: nodes, .cons htext htexts, ?_, ?_⟩
      · rw [Json.Node.depthOfItems, depthOfItems, hdepth, hdepths]
      · rw [ofJsonItems, hvalue, hvalues]

theorem exists_isEntry_serializeEntries (hlibrary : library.Standard ofInteger)
    (style : Json.Style) (entries : List (String × Value))
    (hwithout : WithoutDecimalsOfEntries entries) (hkeys : UniqueKeysOfEntries entries) :
    ∃ nodes, List.Forall₂ (Json.IsEntry ofInteger)
        ((serializeEntries entries).map fun entry =>
          Json.quote entry.1 ++ style.colon ++ (library.write style entry.2).toList) nodes ∧
      Json.Node.depthOfEntries nodes = depthOfEntries entries ∧
      ofJsonEntries library nodes = entries :=
  match entries with
  | [] => ⟨[], .nil, rfl, rfl⟩
  | (key, value) :: entries => by
      obtain ⟨node, htext, hdepth, hvalue⟩ :=
        exists_isValue_serialize hlibrary style value hwithout.1 hkeys.1
      obtain ⟨nodes, htexts, hdepths, hvalues⟩ :=
        exists_isEntry_serializeEntries hlibrary style entries hwithout.2 hkeys.2
      refine ⟨(key, node) :: nodes, .cons (Json.isEntry_quote key style htext) htexts, ?_, ?_⟩
      · rw [Json.Node.depthOfEntries, depthOfEntries, hdepth, hdepths]
      · rw [ofJsonEntries, hvalue, hvalues]

end

end Value

/-! ## Documents -/

namespace TextFormat

/--
A value without decimals, with containers at most 127 deep, is loaded from its
compact text and from its indented text, entries in their order.
-/
theorem load_json_written {ν : Type} {library : Json.Library ν} {ofInteger : Int64 → ν}
    (hlibrary : library.Standard ofInteger) {value : Value} (hwithout : value.WithoutDecimals)
    (hkeys : value.UniqueKeys) (hdepth : value.depth ≤ 127) :
    loadJson library (library.write .compact value.serialize) = .ok value ∧
      loadJson library (library.write .indented value.serialize) = .ok value := by
  have hload : ∀ style, loadJson library (library.write style value.serialize) = .ok value := by
    intro style
    obtain ⟨node, htext, hnode, hvalue⟩ :=
      Value.exists_isValue_serialize hlibrary style value hwithout hkeys
    have hread := hlibrary.read_of_isPadded htext.padded (by rwa [hnode])
    rw [loadJson, hread, Except.map, hvalue]
    rfl
  exact ⟨hload .compact, hload .indented⟩

def scatteredShapes : Value :=
  .object
    [("\"\\/", .array [.integer Int64.minValue, .integer (-1), .integer 0,
        .integer Int64.maxValue]),
      ("", .object []),
      ("\x00\x08\t\n\x0c\r\x1f \x7f", .array [.array [], .null, .boolean false]),
      ("é→😀", .object [("\u2028\uffff", .string "\u0000"), ("a", .string "1e5"),
        ("A", .string "")])]

theorem load_json_written_scatteredShapes :
    Json.library.Standard Json.Number.integer ∧
      (scatteredShapes.WithoutDecimals ∧ scatteredShapes.UniqueKeys ∧ scatteredShapes.depth = 3) ∧
      json.load (Json.compact scatteredShapes) = .ok scatteredShapes ∧
        json.load (Json.indented scatteredShapes) = .ok scatteredShapes := by
  have hwithout : scatteredShapes.WithoutDecimals := by
    simp [scatteredShapes, Value.WithoutDecimals, Value.WithoutDecimalsOfItems,
      Value.WithoutDecimalsOfEntries]
  have hkeys : scatteredShapes.UniqueKeys := by
    simp [scatteredShapes, Value.UniqueKeys, Value.UniqueKeysOfItems, Value.UniqueKeysOfEntries,
      Entries.keys]
  have hdepth : scatteredShapes.depth = 3 := by decide
  exact ⟨Json.library_standard, ⟨hwithout, hkeys, hdepth⟩,
    load_json_written Json.library_standard hwithout hkeys (by omega)⟩

end TextFormat

end Variants
