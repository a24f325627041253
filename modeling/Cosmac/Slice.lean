/-!
# Slices

The part of a list between two positions.  A position below zero counts from the end of the list,
so `-1` is the position of the last element.
-/

namespace Cosmac

/-- The place of a position in a list of this length, counted from the start. -/
def placeOf (length : Nat) (position : Int) : Int :=
  if position < 0 then position + length else position

/-- The elements from one position up to another; places before the start count as the start. -/
def slice {α : Type} (xs : List α) (start stop : Int) : List α :=
  (xs.take (placeOf xs.length stop).toNat).drop (placeOf xs.length start).toNat

end Cosmac
