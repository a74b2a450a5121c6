/-! Code points, and texts that may hold surrogates standing alone. -/
namespace SuiteOutline

/-- A code point; the surrogates are among them. -/
abbrev CodePoint := Fin 0x110000

/-- The value of a string: a sequence of code points. -/
abbrev Text := List CodePoint

namespace CodePoint

def ofChar (c : Char) : CodePoint :=
  ⟨c.toNat, by
    have h := c.valid
    simp only [UInt32.isValidChar, Nat.isValidChar] at h
    show c.val.toNat < 0x110000
    omega⟩

/-- The code point of that number, if there is one. -/
def ofNat? (n : Nat) : Option CodePoint :=
  if h : n < 0x110000 then some ⟨n, h⟩ else none

def isHighSurrogate (p : CodePoint) : Bool :=
  0xD800 ≤ p.val && p.val < 0xDC00

def isLowSurrogate (p : CodePoint) : Bool :=
  0xDC00 ≤ p.val && p.val < 0xE000

def isSurrogate (p : CodePoint) : Bool :=
  0xD800 ≤ p.val && p.val < 0xE000

/-- The supplementary code point that a high and a low surrogate spell together. -/
def joined (high low : CodePoint) : CodePoint :=
  Fin.ofNat _ (0x10000 + (high.val - 0xD800) * 0x400 + (low.val - 0xDC00))

end CodePoint

namespace Text

def ofChars (cs : List Char) : Text := cs.map CodePoint.ofChar

def ofString (s : String) : Text := ofChars s.toList

/-- Each high surrogate that stands before a low one is joined with it; all else stays. -/
def joinSurrogates : Text → Text
  | high :: low :: rest =>
    if high.isHighSurrogate && low.isLowSurrogate then
      CodePoint.joined high low :: joinSurrogates rest
    else high :: joinSurrogates (low :: rest)
  | [p] => [p]
  | [] => []

def hasSurrogate (t : Text) : Bool := t.any CodePoint.isSurrogate

/-- The characters of a text; a surrogate has none and is dropped. -/
def toChars (t : Text) : List Char :=
  (t.filter (!·.isSurrogate)).map fun p => Char.ofNat p.val

def toString (t : Text) : String := String.ofList t.toChars

end Text
end SuiteOutline
