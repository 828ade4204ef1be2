import Constituency.Text.Case
import Constituency.Text.PrintableTable

/-!
# Texts in diagnostics

A diagnostic shows a text in double quotes, with everything that could not be seen spelled out: the
common controls by a letter, any other unprintable character and any joining mark by its code point.
-/
namespace Constituency.Text

/-- Whether a character can be seen by itself. -/
def isVisible (c : Char) : Bool :=
  inRanges printableRanges c.toNat && !inRanges joiningMarkRanges c.toNat

/-- A code point in hexadecimal digits between braces. -/
def codePoint (c : Char) : List Char :=
  "\\u\x7b".toList ++ Nat.toDigits 16 c.toNat ++ "\x7d".toList

/-- A character as a diagnostic shows it. -/
def diagnosticChar (c : Char) : List Char :=
  match c with
  | '\x00' => ['\\', '0']
  | '\t' => ['\\', 't']
  | '\r' => ['\\', 'r']
  | '\n' => ['\\', 'n']
  | '"' => ['\\', '"']
  | '\\' => ['\\', '\\']
  | c => if isVisible c then [c] else codePoint c

/-- A text as a diagnostic shows it. -/
def diagnostic (text : String) : String :=
  String.ofList ('"' :: text.toList.flatMap diagnosticChar ++ ['"'])

end Constituency.Text
