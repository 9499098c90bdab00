/-!
# `Text.Blank` — white space and the trimming of text

White space is the Unicode property of that name together with the four information separators `U+001C` to
`U+001F`. Input fields are trimmed of it at both ends.
-/

namespace RegisterEvolution.Text

/-- The inclusive ranges of white-space code points. -/
def blankRanges : List (Nat × Nat) :=
  [(0x09, 0x0D), (0x1C, 0x20), (0x85, 0x85), (0xA0, 0xA0), (0x1680, 0x1680), (0x2000, 0x200A),
   (0x2028, 0x2029), (0x202F, 0x202F), (0x205F, 0x205F), (0x3000, 0x3000)]

/-- Whether `c` is white space. -/
def isBlank (c : Char) : Bool :=
  blankRanges.any fun (low, high) => low ≤ c.toNat && c.toNat ≤ high

/-- `cs` without the leading and trailing characters of which `p` holds. -/
def trimBy (p : Char → Bool) (cs : List Char) : List Char :=
  ((cs.dropWhile p).reverse.dropWhile p).reverse

/-- `s` without white space at its ends. -/
def strip (s : String) : String := String.ofList (trimBy isBlank s.toList)

/--
Lower case for the comparison with names made of ASCII letters, digits and underscores. Besides the ASCII
capitals, the Kelvin sign is the only character whose lower case is ASCII.
-/
def lowerChar (c : Char) : Char := if c = '\u212A' then 'k' else c.toLower

/-- `s` in lower case, as far as names can tell. -/
def lower (s : String) : String := String.ofList (s.toList.map lowerChar)

end RegisterEvolution.Text
