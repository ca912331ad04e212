import DiceRooms.Text.Invisible

/-!
Text shown in double quotes. Quotes, backslashes and a few controls have an escape
of their own, any other character without a visible form is shown by its number,
and the rest stands for itself.
-/
namespace DiceRooms.Quoted

def shortEscape? (c : Char) : Option Char :=
  if c = '\t' then some 't'
  else if c = '\r' then some 'r'
  else if c = '\n' then some 'n'
  else if c = '"' then some '"'
  else if c = '\\' then some '\\'
  else if c = '\x00' then some '0'
  else none

def escape (c : Char) : List Char :=
  match shortEscape? c with
  | some e => ['\\', e]
  | none =>
    if isInvisible c then '\\' :: 'u' :: '\x7b' :: Nat.toDigits 16 c.toNat ++ ['\x7d']
    else [c]

def quoted (s : String) : String :=
  String.ofList ('"' :: s.toList.flatMap escape ++ ['"'])

end DiceRooms.Quoted
