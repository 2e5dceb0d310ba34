/-!
# Blank characters

What counts as blank around a value: the characters of the Unicode property
`White_Space`. Trimming takes them away at both ends and nowhere else.
-/

namespace MapTables.Text

/-- The Unicode property `White_Space`. -/
def isBlank (c : Char) : Bool :=
  let n := c.toNat
  (0x09 ≤ n && n ≤ 0x0D) || n == 0x20 || n == 0x85 || n == 0xA0 || n == 0x1680 ||
    (0x2000 ≤ n && n ≤ 0x200A) || n == 0x2028 || n == 0x2029 || n == 0x202F || n == 0x205F ||
    n == 0x3000

/-- The text without the characters of a class at its start and at its end. -/
def trimChars (p : Char → Bool) (cs : List Char) : List Char :=
  ((cs.dropWhile p).reverse.dropWhile p).reverse

def trim (s : String) : String := String.ofList (trimChars isBlank s.toList)

theorem isBlank_of_isWhitespace (c : Char) (h : c.isWhitespace = true) : isBlank c = true := by
  simp only [Char.isWhitespace, Bool.or_eq_true, decide_eq_true_eq] at h
  rcases h with ((h | h) | h) | h <;> subst h <;> decide

@[simp] theorem trimChars_nil (p : Char → Bool) : trimChars p [] = [] := rfl

/-- A text that neither starts nor ends in the class is left alone. -/
theorem trimChars_of_ends (p : Char → Bool) (a z : Char) (cs : List Char)
    (ha : p a = false) (hz : p z = false) : trimChars p (a :: (cs ++ [z])) = a :: (cs ++ [z]) := by
  simp [trimChars, ha, hz]

end MapTables.Text
