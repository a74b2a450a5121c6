/-! Stable sorting. Records come nearly in order, and insertion is quick on such lists. -/
namespace SuiteOutline

/-- Puts an element in front of the first one that it may precede. -/
def insertBy {α : Type} (le : α → α → Bool) (a : α) : List α → List α
  | [] => [a]
  | b :: bs => if le a b then a :: b :: bs else b :: insertBy le a bs

/-- Sorts by a relation; elements that may precede each other keep their order. -/
def sortBy {α : Type} (le : α → α → Bool) (as : List α) : List α := as.foldr (insertBy le) []

/-- The list without later copies of an element. -/
def distinct {α : Type} [BEq α] : List α → List α
  | [] => []
  | a :: as => a :: (distinct as).filter (· != a)

/-- Names in the order of their code points, each once. -/
def sortedNames (names : List String) : List String :=
  sortBy (fun a b => !decide (b < a)) (distinct names)

end SuiteOutline
