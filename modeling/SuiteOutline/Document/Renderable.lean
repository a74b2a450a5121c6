import SuiteOutline.Document.Basic

/-! Documents that can be sent as standard JSON: every text is well formed, every number finite and
not too long. -/
namespace SuiteOutline

def Number.isRenderable : Number → Bool
  | .integer n => (writeInteger? n).isSome
  | .real (.finite ..) => true
  | .real _ => false

mutual
def Value.isRenderable : Value → Bool
  | .null | .bool _ => true
  | .number n => n.isRenderable
  | .text t => !t.hasSurrogate
  | .list items => Value.allRenderable items
  | .object entries => Value.entriesRenderable entries

def Value.allRenderable : List Value → Bool
  | [] => true
  | v :: vs => v.isRenderable && Value.allRenderable vs

def Value.entriesRenderable : List (Text × Value) → Bool
  | [] => true
  | (k, v) :: rest => !k.hasSurrogate && v.isRenderable && Value.entriesRenderable rest
end

mutual
def Document.isRenderable : Document → Bool
  | .int _ | .bool _ => true
  | .text t => !t.hasSurrogate
  | .value v => v.isRenderable
  | .list items => Document.allRenderable items
  | .record fields => Document.fieldsRenderable fields

def Document.allRenderable : List Document → Bool
  | [] => true
  | d :: ds => d.isRenderable && Document.allRenderable ds

def Document.fieldsRenderable : List (String × Document) → Bool
  | [] => true
  | (_, d) :: rest => d.isRenderable && Document.fieldsRenderable rest
end

end SuiteOutline
