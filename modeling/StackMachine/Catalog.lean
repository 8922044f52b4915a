import StackMachine.Catalog.Arithmetic
import StackMachine.Catalog.Branches
import StackMachine.Catalog.Constants
import StackMachine.Catalog.Conversions
import StackMachine.Catalog.Fields
import StackMachine.Catalog.Slots

/-!
# The catalog

All fixtures, in the order in which they are listed and checked.
-/

namespace StackMachine.Catalog

/-- Every fixture. -/
def all : List Fixture := arithmetic ++ branches ++ conversions ++ constants ++ slots ++ fields

/-- The fixtures whose name has the filter in it; all of them without a filter. -/
def select (filter : Option String) : List Fixture :=
  match filter with
  | none => all
  | some pattern => all.filter fun f => Text.contains f.name pattern

end StackMachine.Catalog
