import Mathlib.Data.List.Basic
import Mathlib.Data.List.DropRight
import Mathlib.Tactic.Common

/-!
# White space

The three platforms agree on the separators of Unicode and differ on the control
characters that they count as white space.
-/

namespace NativeInterop

namespace Unicode

/-- The general category `Z`: space, line and paragraph separators. -/
def isSeparator (n : ℕ) : Bool :=
  n = 0x20 ∨ n = 0xA0 ∨ n = 0x1680 ∨ (0x2000 ≤ n ∧ n ≤ 0x200A) ∨ n = 0x2028 ∨ n = 0x2029 ∨
    n = 0x202F ∨ n = 0x205F ∨ n = 0x3000

/-- `U+0009` to `U+000D`, on which all agree. -/
def isFeed (n : ℕ) : Bool := 0x09 ≤ n ∧ n ≤ 0x0D

/-- The separators `U+001C` to `U+001F` of ASCII, which are controls of Unicode. -/
def isInformationSeparator (n : ℕ) : Bool := 0x1C ≤ n ∧ n ≤ 0x1F

/-- `Char.isWhitespace` of Kotlin on the JVM. -/
def isWhitespaceKotlin (n : ℕ) : Bool := isSeparator n ∨ isFeed n ∨ isInformationSeparator n

/-- `char.IsWhiteSpace`. -/
def isWhiteSpaceCSharp (n : ℕ) : Bool := isSeparator n ∨ isFeed n ∨ n = 0x85

/-- `CharacterSet.whitespacesAndNewlines`. -/
def isWhitespaceOrNewlineSwift (n : ℕ) : Bool := isSeparator n ∨ isFeed n ∨ n = 0x85

/-- `Trim` and `trimmingCharacters`. -/
def trim (isWhite : ℕ → Bool) (text : List Char) : List Char :=
  (text.dropWhile fun c => isWhite c.toNat).rdropWhile fun c => isWhite c.toNat

end Unicode

end NativeInterop
