/-!
This module contains positions in a source text.
-/

namespace ShaderParams

/--
A position in a source text: the number of line breaks before it, and of bytes since the last one.
-/
structure Point where
  row : Nat
  column : Nat
deriving DecidableEq, Repr

/--
A position together with the number of all bytes before it.
-/
structure Place where
  offset : Nat
  point : Point
deriving DecidableEq, Repr

namespace Place

def start : Place := ⟨0, ⟨0, 0⟩⟩

def next (p : Place) (c : Char) : Place where
  offset := p.offset + c.utf8Size
  point :=
    if c = '\n' then
      ⟨p.point.row + 1, 0⟩
    else
      ⟨p.point.row, p.point.column + c.utf8Size⟩

def skip (p : Place) (cs : List Char) : Place :=
  cs.foldl next p

end Place

end ShaderParams
