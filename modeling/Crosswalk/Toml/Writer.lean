import Crosswalk.Toml.Basic

/-!
# Writing TOML

Entries on lines of their own, for the values that settings are made of: texts and whole numbers.
-/

namespace Crosswalk.Toml

def escapeChar (c : Char) : List Char :=
  if c == '"' || c == '\\' then ['\\', c]
  else if c.toNat < 0x20 || c.toNat == 0x7F then
    let digits := Nat.toDigits 16 c.toNat
    '\\' :: 'u' :: (List.replicate (4 - digits.length) '0' ++ digits)
  else [c]

def quote (s : String) : String :=
  "\"" ++ String.ofList (s.toList.flatMap escapeChar) ++ "\""

def entryLine (key value : String) : String :=
  key ++ " = " ++ value ++ "\n"

end Crosswalk.Toml
