/-!
Characters that may surround a number.
-/

namespace LowThrust.Text

/-- Space, tab, the line and page separators and the spaces of other scripts. -/
def isBlank (c : Nat) : Bool :=
  c = 0x20 || (0x09 ≤ c && c ≤ 0x0D) || c = 0x85 || c = 0xA0 || c = 0x1680 ||
    (0x2000 ≤ c && c ≤ 0x200A) || c = 0x2028 || c = 0x2029 || c = 0x202F || c = 0x205F ||
    c = 0x3000

end LowThrust.Text
