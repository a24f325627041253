/-!
# Rows of fixed length

Bytes are printed in rows: seven to a row of a listing, sixteen to a record.
-/

namespace Cosmac

/-- The list cut into rows of `size` elements, at least one; the last may be shorter. -/
def rowsOf {α : Type} (size : Nat) : List α → List (List α)
  | [] => []
  | a :: rest => (a :: rest.take (size - 1)) :: rowsOf size (rest.drop (size - 1))
termination_by l => l.length
decreasing_by
  simp only [List.length_cons, List.length_drop]
  omega

end Cosmac
