import ReactiveViews.Text.Combining
import ReactiveViews.Text.Printable
/-!
# Quoted text

Diagnostics show a text between double quotes. Inside, a quotation mark and a
backslash stand behind a backslash, the four common controls have letters of
their own, and a character that is not printable or that would combine with the
one before it is written by its number in braces.
-/

namespace ReactiveViews.Text

/-- A code point in lower-case hexadecimal between braces. -/
def escapeCode (c : Char) : List Char :=
  '\\' :: 'u' :: '\x7b' :: (Nat.toDigits 16 c.toNat ++ ['\x7d'])

/-- How one character stands inside quotes. -/
def escapeChar (c : Char) : List Char :=
  if c == '\x00' then ['\\', '0']
  else if c == '\t' then ['\\', 't']
  else if c == '\r' then ['\\', 'r']
  else if c == '\n' then ['\\', 'n']
  else if c == '"' then ['\\', '"']
  else if c == '\\' then ['\\', '\\']
  else if ' ' ≤ c && c ≤ '~' then [c]
  else if isCombining c || !isPrintable c then escapeCode c
  else [c]

/-- **Quoted.** The text between double quotes, each character escaped as needed. -/
def quoted (text : String) : String :=
  String.ofList ('"' :: (text.toList.flatMap escapeChar ++ ['"']))

end ReactiveViews.Text
