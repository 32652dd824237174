import TreeCode.Text.Hidden
import TreeCode.Text.Combining

/-! # Characters in messages

A character that a message shows is put between single quotes; one that would not be seen,
or would be read wrongly, is written by an escape. -/

namespace TreeCode.Text

/-- Lower-case hexadecimal digits of the code point in braces, after a backslash and `u`. -/
def codePointEscape (c : Char) : List Char :=
  '\\' :: 'u' :: '\x7b' :: (Nat.toDigits 16 c.toNat ++ ['\x7d'])

/-- Backslash and single quote are escaped by a backslash, the usual controls have short
escapes, and what has no look of its own is written by its code point. -/
def escaped (c : Char) : List Char :=
  if c = '\x00' then ['\\', '0']
  else if c = '\t' then ['\\', 't']
  else if c = '\r' then ['\\', 'r']
  else if c = '\n' then ['\\', 'n']
  else if c = '\\' || c = '\x27' then ['\\', c]
  else if isCombining c || isHidden c then codePointEscape c
  else [c]

/-- What was found where a character was expected: a quoted character or the end. -/
def foundText : Option Char → String
  | none => "None"
  | some c => "Some('" ++ String.ofList (escaped c) ++ "')"

end TreeCode.Text
