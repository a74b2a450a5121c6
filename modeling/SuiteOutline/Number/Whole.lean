import SuiteOutline.Number.Basic

/-! Numbers given as text in settings and records. -/
namespace SuiteOutline

/-- Drops a point followed by zeros, of which there is at least one. -/
def withoutZeroFraction (cs : List Char) : List Char :=
  match cs.span (· != '.') with
  | (whole, _ :: zeros) => if !zeros.isEmpty && zeros.all (· = '0') then whole else cs
  | (_, []) => cs

/-- Drops zeros and underscores in front of a digit or a minus sign. In front of a point, and at the
end, one character of them stays. -/
def withoutZerosBefore (last : Char) : List Char → Option (List Char)
  | [] => some [last]
  | c :: cs =>
    if c = '0' || c = '_' then withoutZerosBefore c cs
    else if c.isDigit || c = '-' then some (c :: cs)
    else if c = '.' then some (last :: c :: cs)
    else none

/-- Drops the zeros that mean nothing in front of what begins with a digit; nothing else is a number. -/
def withoutZeros : List Char → Option (List Char)
  | [] => none
  | c :: cs =>
    if c = '0' then withoutZerosBefore c cs else if c.isDigit then some (c :: cs) else none

/-- Drops the zeros that mean nothing, behind a minus sign too. -/
def withoutLeadingZeros : List Char → Option (List Char)
  | '-' :: cs => (withoutZeros cs).map ('-' :: ·)
  | cs => withoutZeros cs

/-- Whether no two underscores stand side by side and none stands at the end. -/
def dividersApart : List Char → Bool
  | [] => true
  | [c] => c != '_'
  | c :: d :: cs => !(c = '_' && d = '_') && dividersApart (d :: cs)

/-- Drops underscores if each of them stands between two other characters. -/
def withoutDividers (cs : List Char) : List Char :=
  if cs.head? ≠ some '_' && dividersApart cs then cs.filter (· != '_') else cs

/-- Drops a plus sign, unless a minus sign follows it. -/
def withoutPlus : List Char → Option (List Char)
  | '+' :: '-' :: _ => none
  | '+' :: cs => some cs
  | cs => some cs

/-- Digits without a needless zero in front. -/
def isPlainNumeral (digits : List Char) : Bool :=
  !digits.isEmpty && digits.all Char.isDigit && (digits.head? ≠ some '0' || digits.length = 1)

/-- A whole number: white space around it, zeros in front, a fraction of zeros and underscores that
stand apart count for nothing. -/
def readWhole? (text : List Char) : Option Int := do
  let cs ← withoutPlus (trimBy isNumberBlank text)
  let cs := withoutDividers (withoutZeroFraction (← withoutLeadingZeros cs))
  let (negative, digits) := splitSign cs
  if digitLimit < cs.length || !isPlainNumeral digits then none
  let n := ofDigits 10 (digits.map fun c => c.toNat - 0x30)
  return if negative then -n else n

/-- A decimal number in ASCII. White space may stand around it, or single underscores inside it. -/
def readMeasure? (text : List Char) : Option Binary64 :=
  if text.any (· = '_') then
    let cs := withoutDividers text
    if cs.any fun c => c = '_' || isNumberBlank c || 0x80 ≤ c.toNat then none else readReal? cs
  else
    let cs := trimBy isNumberBlank text
    if cs.any (0x80 ≤ ·.toNat) then none else readReal? cs

/-- The words for true and false, in any case. -/
def readSwitch? (text : String) : Option Bool :=
  let word := lowered text
  if ["true", "1", "yes", "on", "t", "y"].contains word then some true
  else if ["false", "0", "no", "off", "f", "n"].contains word then some false
  else none

end SuiteOutline
