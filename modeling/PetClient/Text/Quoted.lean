import PetClient.Text.Unprintable

/-!
Text in double quotes for a message: quotes and backslashes are escaped, and a character that would
not be seen is given by its number.
-/

namespace PetClient.Text

def hexChars (n : Nat) : List Char :=
  Nat.toDigits 16 n

def quotedChar (c : Char) : List Char :=
  if c = '"' then ['\\', '"']
  else if c = '\\' then ['\\', '\\']
  else if c = '\n' then ['\\', 'n']
  else if c = '\r' then ['\\', 'r']
  else if c = '\t' then ['\\', 't']
  else if c.toNat = 0 then ['\\', '0']
  else if unprintable.contains c then ['\\', 'u', '{'] ++ hexChars c.toNat ++ ['}']
  else [c]

def inQuotes (text : String) : String :=
  String.ofList ('"' :: (text.toList.flatMap quotedChar ++ ['"']))

end PetClient.Text
