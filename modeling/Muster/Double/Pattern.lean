import Muster.Double.Basic

/-!
The bit patterns of doubles as texts: `0x` and sixteen hexadecimal digits. Patterns that stand for no
number all have the text `NaN`, which reads back as one of them; `inf` and `-inf` are read as well.
-/

namespace Muster.Double

/-- The text of a bit pattern. -/
def patternText (x : Double) : String :=
  if x.isNaN then "NaN" else "0x" ++ x.bits.toBitVec.toHex

/-- The value of a hexadecimal digit. -/
def hexDigit (c : Char) : Nat := if c.isDigit then c.toNat - 48 else c.toLower.toNat - 87

/-- The double of a text. -/
def ofPatternText (s : String) : Double :=
  match s with
  | "NaN" => nan
  | "inf" => infinity
  | "-inf" => negInfinity
  | s => ⟨.ofNat ((s.toList.drop 2).foldl (fun n c => n * 16 + hexDigit c) 0)⟩

end Muster.Double
