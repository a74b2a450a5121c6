import SuiteOutline.Value.Literal

/-! Values of expressions that are literal through and through. -/
namespace SuiteOutline

/-- Cons under two layers: a failure, and the absence of a value. -/
def consValue {α : Type} (head : Except Failure (Option α)) (tail : Except Failure (Option (List α))) :
    Except Failure (Option (List α)) := do
  match ← head with
  | none => return none
  | some a => return (← tail).map (a :: ·)

namespace Source

mutual
/-- The value of an expression, if it is literal. Each level of arrays and objects takes room on the
stack of calls; it is given how many levels have room there, and what is nested deeper has no
value. -/
def valueWithin (src : Source) (room : Nat) : Node → Except Failure (Option Value)
  | n@⟨symbol, _, _, _, _, children⟩ =>
    match symbol with
    | .parenthesizedExpression => firstValue src room children
    | .templateString => (src.template true n).map (·.map .text)
    | .object =>
      match room with
      | 0 => .ok none
      | room + 1 => (entryValues src room children).map (·.map fun ps => .object (entriesOf ps))
    | .array =>
      match room with
      | 0 => .ok none
      | room + 1 => (itemValues src room true children).map (·.map .list)
    | _ => src.literalValue n

/-- The value of the first member. -/
def firstValue (src : Source) (room : Nat) : List Node → Except Failure (Option Value)
  | [] => .ok none
  | c :: cs => if c.isMember then valueWithin src room c else firstValue src room cs

/-- The value of the first child that plays the part of a value. -/
def roleValue (src : Source) (room : Nat) : List Node → Except Failure (Option Value)
  | [] => .ok none
  | c :: cs => if c.role == some .value then valueWithin src room c else roleValue src room cs

/-- The entries of an object, all of which must be pairs with a name and a value. -/
def entryValues (src : Source) (room : Nat) :
    List Node → Except Failure (Option (List (Text × Value)))
  | [] => .ok (some [])
  | c@⟨symbol, _, _, _, _, children⟩ :: cs =>
    if !c.isMember then entryValues src room cs
    else if symbol ≠ .pair then .ok none
    else do
      match ← src.memberName c with
      | none => return none
      | some key =>
        consValue ((roleValue src room children).map (·.map (key, ·))) (entryValues src room cs)

/-- The items of an array. Where a comma finds no item in front of it there is a hole. -/
def itemValues (src : Source) (room : Nat) (expecting : Bool) :
    List Node → Except Failure (Option (List Value))
  | [] => .ok (some [])
  | c :: cs =>
    match c.symbol with
    | .leftBracket | .rightBracket | .comment => itemValues src room expecting cs
    | .comma => if expecting then .ok none else itemValues src room true cs
    | _ => consValue (valueWithin src room c) (itemValues src room false cs)
end

end Source
end SuiteOutline
