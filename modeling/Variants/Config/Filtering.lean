import Variants.Config

/-!
# Filtering a configuration

Filters are resolved against the dimensions as they are, all of them before the
first is applied.  The dimensions are then visited in the order of declaration,
so each one sees what is left of the dimensions it depends on.
-/

namespace Variants.Config

def available (dimensions : List Dimension) (dimension : Dimension) :
    OrderedMap String MergedValues :=
  .ofList <| dimension.depends.filterMap fun name =>
    (dimensions.find? (·.name == name)).map fun other => (name, other.mergedValues)

def filterNamed (conditions : List Condition) (dimensions : List Dimension) (name : String) :
    List Dimension :=
  dimensions.map fun dimension =>
    if dimension.name = name then dimension.filter conditions (available dimensions dimension)
    else dimension

def applyFilters (config : Config) (conditions : List Condition) : Config :=
  match conditions with
  | [] => config
  | conditions =>
      { config with
        dimensions := config.declared.foldl (filterNamed conditions) config.dimensions }

def filter (config : Config) (filters : List String) : Except Error Config := do
  let conditions ← Expression.filtersConditions config.dimensions filters
  return config.applyFilters conditions

end Variants.Config
