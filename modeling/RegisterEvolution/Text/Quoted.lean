import RegisterEvolution.Text.Unprintable

/-!
# `Text.Quoted` — text in quotation marks, as messages show it

A quoted text stands between single quotes, or between double quotes when it holds a single quote and no double
quote. Inside, the backslash and the enclosing quote are escaped; tab, line feed and carriage return have short
escapes; every other unprintable character is written by its code point with two, four or eight hexadecimal digits.
-/

namespace RegisterEvolution.Text

/-- `n` in hexadecimal with at least `width` digits. -/
def hexadecimal (width n : Nat) : List Char :=
  let digits := Nat.toDigits 16 n
  List.replicate (width - digits.length) '0' ++ digits

/-- The quotation mark that messages put around `cs`. -/
def quoteFor (cs : List Char) : Char :=
  if cs.contains '\'' && !cs.contains '"' then '"' else '\''

/-- The code point of `c` in hexadecimal, with two, four or eight digits. -/
def escapeCode (c : Char) : List Char :=
  if c.toNat < 0x100 then '\\' :: 'x' :: hexadecimal 2 c.toNat
  else if c.toNat < 0x10000 then '\\' :: 'u' :: hexadecimal 4 c.toNat
  else '\\' :: 'U' :: hexadecimal 8 c.toNat

/-- `c` as ASCII. -/
def escapeBeyondAscii (c : Char) : List Char := if c.toNat < 0x80 then [c] else escapeCode c

/-- `c` inside a text enclosed in `quote`. -/
def escapeChar (quote c : Char) : List Char :=
  if c = quote ∨ c = '\\' then ['\\', c]
  else if c = '\t' then ['\\', 't']
  else if c = '\n' then ['\\', 'n']
  else if c = '\r' then ['\\', 'r']
  else if isPrintable c then [c]
  else escapeCode c

/-- `s` in quotation marks. -/
def quoted (s : String) : String :=
  let quote := quoteFor s.toList
  String.ofList (quote :: (s.toList.flatMap (escapeChar quote) ++ [quote]))

end RegisterEvolution.Text
