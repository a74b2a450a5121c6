import SuiteOutline.Document.Basic

/-! Names that begin with `_sa` are reserved for the bookkeeping of database mappers. What stands
under such a name is not sent. -/
namespace SuiteOutline

def isReserved (name : Text) : Bool := (Text.ofString "_sa").isPrefixOf name

mutual
/-- The value without what stands under reserved names, at any depth. -/
def Value.withoutReserved : Value → Value
  | .list items => .list (Value.itemsWithoutReserved items)
  | .object entries => .object (Value.entriesWithoutReserved entries)
  | v => v

def Value.itemsWithoutReserved : List Value → List Value
  | [] => []
  | v :: vs => v.withoutReserved :: Value.itemsWithoutReserved vs

def Value.entriesWithoutReserved : List (Text × Value) → List (Text × Value)
  | [] => []
  | (k, v) :: rest =>
    let kept := Value.entriesWithoutReserved rest
    if isReserved k then kept else (k, v.withoutReserved) :: kept
end

mutual
/-- The document without what stands under reserved names, at any depth. -/
def Document.withoutReserved : Document → Document
  | .value v => .value v.withoutReserved
  | .list items => .list (Document.itemsWithoutReserved items)
  | .record fields => .record (Document.fieldsWithoutReserved fields)
  | d => d

def Document.itemsWithoutReserved : List Document → List Document
  | [] => []
  | d :: ds => d.withoutReserved :: Document.itemsWithoutReserved ds

def Document.fieldsWithoutReserved : List (String × Document) → List (String × Document)
  | [] => []
  | (name, d) :: rest =>
    let kept := Document.fieldsWithoutReserved rest
    if isReserved (Text.ofString name) then kept else (name, d.withoutReserved) :: kept
end

end SuiteOutline
