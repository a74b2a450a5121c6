import SuiteOutline.Number.Basic
import SuiteOutline.Text.CodePoint

/-! Values of literal expressions. -/
namespace SuiteOutline

inductive Value where
  | null
  | bool (b : Bool)
  | number (n : Number)
  | text (t : Text)
  | list (items : List Value)
  | object (entries : List (Text × Value))
deriving Repr

/-- Sets a key; one that is there keeps its place. -/
def setEntry {α : Type} (key : Text) (value : α) : List (Text × α) → List (Text × α)
  | [] => [(key, value)]
  | (k, v) :: rest => if k = key then (k, value) :: rest else (k, v) :: setEntry key value rest

/-- The entries with each key at its first place and with its last value. -/
def entriesOf {α : Type} (pairs : List (Text × α)) : List (Text × α) :=
  pairs.foldl (fun entries (k, v) => setEntry k v entries) []

end SuiteOutline
