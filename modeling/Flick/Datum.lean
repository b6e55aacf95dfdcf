/-!
# Printable data

What the two tree formats print: texts, lists, and named records with
named fields in order.  A tree is turned into such data once, and the
formats differ in how they write it.
-/

namespace Flick

/-- A value to print. -/
inductive Datum where
  | text (value : String)
  | list (items : List Datum)
  | record (name : String) (fields : List (String × Datum))

end Flick
