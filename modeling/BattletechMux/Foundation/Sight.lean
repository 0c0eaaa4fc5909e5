/-
Module: BattletechMux.Foundation.Sight
Purpose: Looking along a line: what is found from a place within so many steps, past clear places
  only, and when two lines see the same.
-/
import Mathlib.Logic.Function.Iterate

namespace BattletechMux.Sight

variable {Place : Type*} {next next' : Place → Place} {clear found : Place → Prop}

end BattletechMux.Sight
