import AgentPaths.Text.Hidden

/-!
Text between double quotes, in which every character can be seen: a character without a visible form
is written as its code point, and the quote and the backslash are marked.
-/
namespace AgentPaths.Text

def escape (c : Char) : List Char :=
  if c = '"' then ['\\', '"']
  else if c = '\\' then ['\\', '\\']
  else if c = '\n' then ['\\', 'n']
  else if c = '\r' then ['\\', 'r']
  else if c = '\t' then ['\\', 't']
  else if c = '\x00' then ['\\', '0']
  else if isHidden c then ['\\', 'u', '\x7b'] ++ Nat.toDigits 16 c.toNat ++ ['\x7d']
  else [c]

def quoted (s : List Char) : List Char := ['"'] ++ s.flatMap escape ++ ['"']

end AgentPaths.Text
