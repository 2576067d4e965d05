/-!
# The order of texts

Texts are sorted by the code points of their characters, a text before the
ones it begins.
-/

namespace Qudit.Text

/-- Whether one list of characters comes before another. -/
def charsBefore : List Char → List Char → Bool
  | _, [] => false
  | [], _ :: _ => true
  | c :: cs, d :: ds =>
    if c = d then charsBefore cs ds else Nat.blt c.toNat d.toNat

/-- **Whether one text comes before another.** -/
def before (s t : String) : Bool := charsBefore s.toList t.toList

/-- Puts an entry into a list sorted by key. An entry of the same key is
replaced. -/
def insertSorted {β : Type} (key : String) (value : β) : List (String × β) → List (String × β)
  | [] => [(key, value)]
  | entry :: rest =>
    if key = entry.1 then (key, value) :: rest
    else if before key entry.1 then (key, value) :: entry :: rest
    else entry :: insertSorted key value rest

end Qudit.Text
