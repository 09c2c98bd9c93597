import QuadStore.Text.Utf8

namespace QuadStore.Regex

def special : Text := (".^$|?*+()[]\x7b\x7d" : Text) ++ [0]

def optional : Text := ("?*\x7b" : Text) ++ [0]

def plainLead : Text → Text × Text
  | [] => ([], [])
  | c :: rest =>
    if c = Text.byte '\\' then
      match rest with
      | d :: after =>
        if Ascii.isAlnum d then ([], c :: rest)
        else
          let (lead, tail) := plainLead after
          (d :: lead, tail)
      | [] => ([], [c])
    else if special.contains c then ([], c :: rest)
    else
      let (lead, tail) := plainLead rest
      (c :: lead, tail)

def lead (source : Text) : Text :=
  match source with
  | [] => []
  | c :: rest =>
    if c ≠ Text.byte '^' ∨ source.contains (Text.byte '|') then []
    else
      let (lead, tail) := plainLead rest
      match tail with
      | d :: _ => if optional.contains d then Utf8.dropLast lead else lead
      | [] => lead

end QuadStore.Regex
