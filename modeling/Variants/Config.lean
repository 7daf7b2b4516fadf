import Variants.Document
import Variants.Dimension.Filtering
import Variants.Dimension.Generation
import Variants.Interpolation

/-!
# Configurations

A configuration is a document ready for use: its dimensions can be filtered,
its tuples generated, and its property tree rendered for each tuple.
-/

namespace Variants

structure Config where
  /-- By descending width of the brackets. -/
  dimensions : List Dimension
  declared : List String
  tree : Tree
  containment : Containment

namespace Config

def ofDocument (containment : Containment) (document : Document) : Config :=
  ⟨document.dimensions, document.declared, document.tree, containment⟩

def parse (containment : Containment) (document : Value) : Except Error Config :=
  (Document.parse document).map (ofDocument containment)

def dimension? (config : Config) (name : String) : Option Dimension :=
  config.dimensions.find? (·.name == name)

end Config

end Variants
