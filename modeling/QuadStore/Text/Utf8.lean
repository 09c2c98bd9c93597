import QuadStore.Text

namespace QuadStore.Utf8

def continuation (n shift : Nat) : UInt8 := (0x80 ||| ((n >>> shift) &&& 0x3F)).toUInt8

def encode (n : Nat) : Text :=
  if n < 0x80 then [n.toUInt8]
  else if n < 0x800 then [(0xC0 ||| (n >>> 6)).toUInt8, continuation n 0]
  else if n < 0x10000 then [(0xE0 ||| (n >>> 12)).toUInt8, continuation n 6, continuation n 0]
  else [(0xF0 ||| (n >>> 18)).toUInt8, continuation n 12, continuation n 6, continuation n 0]

def isContinuation (c : UInt8) : Bool := c &&& 0xC0 == 0x80

/-- The text without its last character: trailing continuation bytes and the byte before them. -/
def dropLast (s : Text) : Text := ((s.reverse.dropWhile isContinuation).drop 1).reverse

def maxChar : Text := [0xEF, 0xBF, 0xBF]

end QuadStore.Utf8
