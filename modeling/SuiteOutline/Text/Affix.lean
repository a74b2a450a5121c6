/-! How a name begins and ends. -/
namespace SuiteOutline

def beginsWith (head name : String) : Bool := head.toList.isPrefixOf name.toList

def endsWith (tail name : String) : Bool := tail.toList.isSuffixOf name.toList

/-- The name without its last `n` characters. -/
def dropLast (n : Nat) (name : String) : String :=
  String.ofList (name.toList.take (name.toList.length - n))

/-- A capital letter made small, if an ASCII letter comes of it. The Kelvin sign is a capital k. -/
def lowerLetter (c : Char) : Char := if c = '\u212A' then 'k' else c.toLower

/-- The name with small letters only, as far as ASCII letters come of them. -/
def lowered (name : String) : String := name.map lowerLetter

/-- Whether one list occurs inside another. -/
def occursIn (part : List Char) : List Char → Bool
  | [] => part.isEmpty
  | c :: cs => part.isPrefixOf (c :: cs) || occursIn part cs

end SuiteOutline
