/-! Bytes of a source file as text. -/
namespace SuiteOutline

/-- Well-formed UTF-8 is read as such; of any other bytes each one is a character. -/
def decodeSource (bytes : ByteArray) : String :=
  match String.fromUTF8? bytes with
  | some s => s
  | none => String.ofList (bytes.toList.map fun b => Char.ofNat b.toNat)

end SuiteOutline
