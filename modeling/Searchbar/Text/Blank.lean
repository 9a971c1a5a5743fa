/-!
# Blank characters

A query is cut into words at **blanks**, the characters with the Unicode property `White_Space`.
The set is wider than the six characters of `Char.isWhitespace`: it has the no-break space, the
typographic spaces and the two Unicode line separators. It does not have the information
separators `U+001C` to `U+001F`, nor the characters of no width (`U+200B`, `U+2060`, `U+FEFF`).

* `isBlank_of_isWhitespace`: what the core library calls whitespace is blank.
-/

namespace Searchbar.Text

/-- **The blanks**: the characters with the property `White_Space`. -/
def isBlank (c : Char) : Bool :=
  let n := c.toNat
  (0x09 ≤ n && n ≤ 0x0D) || n == 0x20 || n == 0x85 || n == 0xA0 || n == 0x1680 ||
    (0x2000 ≤ n && n ≤ 0x200A) || n == 0x2028 || n == 0x2029 || n == 0x202F || n == 0x205F ||
    n == 0x3000

/-- Every character the core library calls whitespace is blank. -/
theorem isBlank_of_isWhitespace {c : Char} (h : c.isWhitespace = true) : isBlank c = true := by
  simp only [Char.isWhitespace, Bool.or_eq_true, decide_eq_true_eq] at h
  rcases h with ((rfl | rfl) | rfl) | rfl <;> rfl

/-- Whether `s` begins with `start`, character by character. -/
def startsWith (s start : String) : Bool :=
  start.toList.isPrefixOf s.toList

@[simp] theorem startsWith_empty (s : String) : startsWith s "" = true := by
  simp [startsWith]

theorem startsWith_eq_decide (s start : String) :
    startsWith s start = decide (start.toList <+: s.toList) := by
  rw [Bool.eq_iff_iff, startsWith, List.isPrefixOf_iff_prefix, decide_eq_true_eq]

end Searchbar.Text
