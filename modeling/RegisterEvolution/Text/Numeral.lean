import RegisterEvolution.Text.Blank

/-!
# `Text.Numeral` — decimal digits of every script

Numbers in configuration text may be written with the decimal digits of any script. Each script's digits are ten
consecutive code points in ascending order, so the table lists the zeros.
-/

namespace RegisterEvolution.Text

/-- The code points of the digit zero in each script. -/
def zeros : List Nat :=
  [0x30, 0x660, 0x6f0, 0x7c0, 0x966, 0x9e6, 0xa66, 0xae6, 0xb66, 0xbe6, 0xc66, 0xce6, 0xd66, 0xde6, 0xe50, 0xed0,
   0xf20, 0x1040, 0x1090, 0x17e0, 0x1810, 0x1946, 0x19d0, 0x1a80, 0x1a90, 0x1b50, 0x1bb0, 0x1c40, 0x1c50, 0xa620,
   0xa8d0, 0xa900, 0xa9d0, 0xa9f0, 0xaa50, 0xabf0, 0xff10, 0x104a0, 0x10d30, 0x11066, 0x110f0, 0x11136, 0x111d0,
   0x112f0, 0x11450, 0x114d0, 0x11650, 0x116c0, 0x11730, 0x118e0, 0x11950, 0x11c50, 0x11d50, 0x11da0, 0x16a60,
   0x16ac0, 0x16b50, 0x1d7ce, 0x1d7d8, 0x1d7e2, 0x1d7ec, 0x1d7f6, 0x1e140, 0x1e2f0, 0x1e950, 0x1fbf0]

/-- The value of a decimal digit, of any script. -/
def digitValue? (c : Char) : Option Nat :=
  (zeros.find? fun first => first ≤ c.toNat && c.toNat < first + 10).map (c.toNat - ·)

/-- The number that `digits` stand for in base ten, most significant first. -/
def ofDigits (digits : List Nat) : Nat := digits.foldl (fun n d => 10 * n + d) 0

/-- Whether `c` may surround a number: white space, but none of the information separators. -/
def isNumberSpace (c : Char) : Bool := isBlank c && !(0x1C ≤ c.toNat && c.toNat ≤ 0x1F)

/-- Whether `cs` begins with a digit. -/
def startsWithDigit (cs : List Char) : Bool := cs.head?.any fun c => (digitValue? c).isSome

/-- The digits that `cs` goes on with, after a digit or not, and the rest; an underscore joins two digits. -/
def continueDigits (afterDigit : Bool) : List Char → List Nat × List Char
  | [] => ([], [])
  | c :: rest =>
    if c = '_' ∧ afterDigit = true ∧ startsWithDigit rest = true then continueDigits false rest
    else
      match digitValue? c with
      | none => ([], c :: rest)
      | some d =>
        let (digits, tail) := continueDigits true rest
        (d :: digits, tail)

/-- The digits at the start of `cs`, and the rest. Single underscores may stand between two digits. -/
def takeDigits (cs : List Char) : List Nat × List Char := continueDigits false cs

end RegisterEvolution.Text
