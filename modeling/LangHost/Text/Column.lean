/-!
# Columns

Columns count UTF-16 code units. `width` is the number of units of a text, so the column of a
character in a line is the width of what stands before it.
-/

namespace LangHost.Text

/-- The number of UTF-16 code units of a character: two above the basic plane, else one. -/
def units (c : Char) : Nat := if c.toNat < 0x10000 then 1 else 2

/-- The number of UTF-16 code units of a text. -/
def width : List Char → Nat
  | [] => 0
  | c :: cs => units c + width cs

@[simp] theorem width_nil : width [] = 0 := rfl

@[simp] theorem width_cons (c : Char) (cs : List Char) : width (c :: cs) = units c + width cs := rfl

@[simp] theorem width_append (cs ds : List Char) : width (cs ++ ds) = width cs + width ds := by
  induction cs with
  | nil => simp
  | cons c cs ih => simp [ih, Nat.add_assoc]

theorem units_pos (c : Char) : 0 < units c := by
  unfold units; split <;> decide

end LangHost.Text
