import QuadStore.Text

namespace QuadStore.Sql

inductive Dialect where
  | sqlite
  | postgres
  deriving DecidableEq

inductive Param where
  | text (s : Text)
  | int (n : Int)
  | null
  deriving DecidableEq

structure Fragment where
  text : Text
  params : List Param
  deriving DecidableEq

namespace Fragment

def empty : Fragment := ⟨[], []⟩

def raw (s : Text) : Fragment := ⟨s, []⟩

def param (p : Param) : Fragment := ⟨"?", [p]⟩

def append (a b : Fragment) : Fragment := ⟨a.text ++ b.text, a.params ++ b.params⟩

instance : Append Fragment := ⟨append⟩

instance : Coe String Fragment := ⟨fun s => raw s⟩

def joined (separator : Text) : List Fragment → Fragment
  | [] => empty
  | [f] => f
  | f :: rest => f ++ raw separator ++ joined separator rest

def params? (ps : List Param) : Fragment := joined ", " (ps.map param)

end Fragment

/-- Numbers the placeholders from left to right as `$1`, `$2`, …; a question mark between single
quotes is none. -/
def numbered (sql : Text) : Text :=
  let rec go (quoted : Bool) (next : Nat) : Text → Text
    | [] => []
    | c :: rest =>
      if c = Text.byte '\'' then c :: go (!quoted) next rest
      else if c = Text.byte '?' ∧ !quoted then
        Text.byte '$' :: Text.ofNat next ++ go quoted (next + 1) rest
      else c :: go quoted next rest
  go false 1 sql

def unitSeparator : UInt8 := 0x1F

def withoutNul (s : Text) : Text := s.map fun c => if c = 0 then unitSeparator else c

def withNul (s : Text) : Text := s.map fun c => if c = unitSeparator then 0 else c

end QuadStore.Sql
