/-! Lines and columns, counted from one. Only a line feed ends a line. -/
namespace SuiteOutline

structure Position where
  line : Nat
  column : Nat
deriving Repr, DecidableEq

/-- An offset that no place in the text has. -/
structure OutsideText where
  offset : Int
  size : Nat
deriving Repr, DecidableEq

def OutsideText.message (e : OutsideText) : String :=
  s!"offset {e.offset} outside of text (size {e.size})"

/-- Where the lines behind the first one start, the text being at an offset itself. -/
def lineStarts (offset : Nat) : List Char → List Nat
  | [] => []
  | c :: cs =>
    if c = '\n' then (offset + 1) :: lineStarts (offset + 1) cs else lineStarts (offset + 1) cs

/-- The size of a text and the offsets at which its lines start. -/
structure LineIndex where
  size : Nat
  starts : Array Nat
  nonempty : 0 < starts.size

namespace LineIndex

def ofText (text : List Char) : LineIndex where
  size := text.length
  starts := (0 :: lineStarts 0 text).toArray
  nonempty := by simp

/-- The first place in ascending entries from which on they are above the offset. It is known to be
from `lo` to `hi`, and each step halves what is between. -/
def bisect (starts : Array Nat) (offset lo hi : Nat) (hhi : hi ≤ starts.size) : Nat :=
  if h : lo < hi then
    let mid := (lo + hi) / 2
    have : mid < starts.size := by omega
    if offset < starts[mid] then bisect starts offset lo mid (by omega)
    else bisect starts offset (mid + 1) hi hhi
  else lo
termination_by hi - lo

theorem bisect_le {starts : Array Nat} {offset lo hi : Nat} {hhi : hi ≤ starts.size}
    (h : lo ≤ hi) : bisect starts offset lo hi hhi ≤ hi := by
  fun_induction bisect starts offset lo hi hhi with
  | case1 lo hi hhi hlt mid hmid habove ih =>
    have := ih (by omega)
    omega
  | case2 lo hi hhi hlt mid hmid hbelow ih => exact ih (by omega)
  | case3 => exact h

/-- The line of an offset is the last one that starts at or before it. -/
def locate (index : LineIndex) (offset : Int) : Except OutsideText Position :=
  if offset < 0 ∨ index.size < offset then .error ⟨offset, index.size⟩
  else
    let line := bisect index.starts offset.toNat 0 index.starts.size (Nat.le_refl _) - 1
    have : line < index.starts.size := by
      have hle : bisect index.starts offset.toNat 0 index.starts.size (Nat.le_refl _) ≤
        index.starts.size := bisect_le (Nat.zero_le _)
      have := index.nonempty
      omega
    .ok ⟨line + 1, offset.toNat - index.starts[line] + 1⟩

end LineIndex

def Position.locate (text : List Char) (offset : Int) : Except OutsideText Position :=
  (LineIndex.ofText text).locate offset

/-- The lines of a text without their line feeds; there is always one. -/
def lines : List Char → List (List Char)
  | [] => [[]]
  | c :: cs =>
    if c = '\n' then [] :: lines cs
    else match lines cs with
      | [] => [[c]]
      | l :: ls => (c :: l) :: ls

end SuiteOutline
