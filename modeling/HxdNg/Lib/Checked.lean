import Mathlib

/-!
# Checked subtraction

A subtraction of unsigned counts, which fails where it would go below zero.
-/

namespace HxdNg

def minus (a b : Nat) : Option Nat := if b ≤ a then some (a - b) else none

theorem minus_of_le {a b : Nat} (h : b ≤ a) : minus a b = some (a - b) := if_pos h

end HxdNg
