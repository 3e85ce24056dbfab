import ReadGuard.Text.Quoted

namespace ReadGuard.Text

/-- One character inside a JSON string written in ASCII; a character beyond the first plane takes
two units. -/
def jsonChar (c : Char) : List Char :=
  if c = '"' then ['\\', '"']
  else if c = '\\' then ['\\', '\\']
  else if c = '\n' then ['\\', 'n']
  else if c = '\r' then ['\\', 'r']
  else if c = '\t' then ['\\', 't']
  else if c.toNat = 8 then ['\\', 'b']
  else if c.toNat = 12 then ['\\', 'f']
  else if 32 ≤ c.toNat && c.toNat < 127 then [c]
  else if c.toNat < 0x10000 then '\\' :: 'u' :: hex 4 c.toNat
  else
    let rest := c.toNat - 0x10000
    '\\' :: 'u' :: hex 4 (0xd800 + rest / 0x400) ++
      '\\' :: 'u' :: hex 4 (0xdc00 + rest % 0x400)

def json (s : String) : String :=
  String.ofList ('"' :: s.toList.flatMap jsonChar ++ ['"'])

end ReadGuard.Text
