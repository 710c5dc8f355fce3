import TreeDiff.Script.Basic
import TreeDiff.Text.Shown

/-!
# Quoted strings

A quoted string stands between double quotes. Inside, a double quote and a backslash follow a
backslash, the line feed, the carriage return, the tabulator and the null character are written as
a backslash and a letter or digit, and any other character that does not show as one character
of its own is written as its number in hexadecimal digits, in braces after `\u`.

* `Quoted.escape`: the text of one character inside quotes.
* `Quoted.quote`: a string in quotes.
* `Script.text`: a script of strings as a list in brackets, each edit in quotes and paired with its
  annotation.
-/

namespace TreeDiff

namespace Quoted

/-- The text of a character inside quotes. -/
def escape (c : Char) : List Char :=
  if c = '"' then ['\\', '"']
  else if c = '\\' then ['\\', '\\']
  else if c = '\n' then ['\\', 'n']
  else if c = '\r' then ['\\', 'r']
  else if c = '\t' then ['\\', 't']
  else if c = Char.ofNat 0 then ['\\', '0']
  else if isShown c then [c]
  else ['\\', 'u', '\x7b'] ++ Nat.toDigits 16 c.toNat ++ ['\x7d']

/-- The string in quotes. -/
def quote (s : String) : String :=
  String.ofList ('"' :: s.toList.flatMap escape ++ ['"'])

end Quoted

namespace Script

/-- An edit in quotes and its annotation, in parentheses. -/
def entryText (entry : String × Nat) : String :=
  "(" ++ Quoted.quote entry.1 ++ ", " ++ toString entry.2 ++ ")"

/-- The entries of a script in brackets, separated by a comma and a space. -/
def text (s : Script String) : String :=
  "[" ++ ", ".intercalate (s.entries.map entryText) ++ "]"

end Script

end TreeDiff
