import QuadStore.Text.Utf8

namespace QuadStore.Like

inductive Item where
  | any
  | one
  | byte (c : UInt8)
  deriving DecidableEq

def percent : UInt8 := Text.byte '%'
def underscore : UInt8 := Text.byte '_'
def backslash : UInt8 := Text.byte '\\'

/-- The items of a pattern; none if it ends in the middle of an escape. -/
def items? : Text → Option (List Item)
  | [] => some []
  | c :: rest =>
    if c = backslash then
      match rest with
      | [] => none
      | d :: after => (items? after).map (.byte d :: ·)
    else if c = percent then (items? rest).map (.any :: ·)
    else if c = underscore then (items? rest).map (.one :: ·)
    else (items? rest).map (.byte c :: ·)

def someTail (test : Text → Bool) : Text → Bool
  | [] => test []
  | c :: rest => test (c :: rest) || someTail test rest

def itemsMatch : List Item → Text → Bool
  | [], s => s.isEmpty
  | .any :: items, s => someTail (itemsMatch items) s
  | .one :: items, _ :: rest => itemsMatch items (rest.dropWhile Utf8.isContinuation)
  | .byte c :: items, d :: rest => c = d && itemsMatch items rest
  | .one :: _, [] | .byte _ :: _, [] => false

def holds (pattern value : Text) : Bool :=
  match items? pattern.upToNul with
  | some items => itemsMatch items value.upToNul
  | none => false

def escape : Text → Text
  | [] => []
  | c :: rest =>
    if c = backslash ∨ c = percent ∨ c = underscore then backslash :: c :: escape rest
    else c :: escape rest

def ending (s : Text) : Text := percent :: escape s

def containing (s : Text) : Text := percent :: escape s ++ [percent]

end QuadStore.Like
