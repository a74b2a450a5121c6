import SuiteOutline.Files.Disk
import SuiteOutline.Settings.Basic

/-! Uploaded archives: which members are outlined, and how much they may hold. -/
namespace SuiteOutline

/-- A member of an archive; a name that ends in a slash is a directory. -/
structure Member where
  name : String
  content : FileContent

/-- An archive keeps a name up to the first null character. -/
def storedName (name : String) : String := String.ofList (name.toList.takeWhile (· != '\x00'))

/-- A member as an archive lists it, with the size that is declared for it there. -/
structure PackedMember extends Member where
  declared : Nat

/-- The member stored as it is. -/
def Member.packed (m : Member) : PackedMember := ⟨m, m.content.bytes.size⟩

/-- An archive of some size whose members are known, or bytes that may be one. -/
inductive Archive where
  | packed (size : Nat) (ms : List PackedMember)
  | bytes (raw : ByteArray)

inductive ArchiveFault where
  | invalid
  | tooManyFiles
  | memberTooLarge (name : String)
  | tooLarge
deriving Repr, DecidableEq

/-- Folders whose contents are no tests of the project. -/
def ignoredFolders : List String :=
  ["node_modules/", "dist/", "build/", "coverage/", ".git/", "cypress/videos/"]

/-- Whether a member lies in an ignored folder, at the root or further down. -/
def isIgnored (name : String) : Bool :=
  ignoredFolders.any fun folder => occursIn ("/" ++ folder).toList ("/" ++ name).toList

/-- So many mebibytes, in bytes. -/
def mebibytes (n : Int) : Int := n * 1024 * 1024

def total (counts : List Nat) : Nat := counts.foldr (· + ·) 0

namespace Archive

/-- The archive of members that are stored as they are: a header and a directory entry for each, both
with its name, and an end record. -/
def members (ms : List Member) : Archive :=
  packed (total (ms.map fun m => 30 + 46 + 2 * m.name.utf8ByteSize + m.content.bytes.size) + 22)
    (ms.map Member.packed)

def size : Archive → Nat
  | packed size _ => size
  | bytes raw => raw.size

/-- The marks that records at the end of an archive begin with. -/
def endMark : List UInt8 := [0x50, 0x4B, 0x05, 0x06]
def locatorMark : List UInt8 := [0x50, 0x4B, 0x06, 0x07]
def largeEndMark : List UInt8 := [0x50, 0x4B, 0x06, 0x06]

/-- The number that bytes spell, the lowest first. -/
def littleEndian : List UInt8 → Nat
  | [] => 0
  | b :: bs => b.toNat + 256 * littleEndian bs

/-- The number in so many bytes at an offset. -/
def numberAt (offset count : Nat) (bs : List UInt8) : Nat :=
  littleEndian ((bs.drop offset).take count)

/-- The last place at which a mark stands. -/
def lastPlace? (mark : List UInt8) : List UInt8 → Option Nat
  | [] => none
  | b :: bs =>
    match lastPlace? mark bs with
    | some i => some (i + 1)
    | none => if mark.isPrefixOf (b :: bs) then some 0 else none

/-- Where the end record begins: at the very end if it has no comment, else at the last mark with
room for a record and a comment after it. -/
def endPlace? (raw : List UInt8) : Option Nat :=
  let tail := raw.drop (raw.length - 22)
  if tail.length = 22 && endMark.isPrefixOf tail && tail.drop 20 = [0, 0] then
    some (raw.length - 22)
  else
    let start := raw.length - 22 - Nat.pow 2 16
    (lastPlace? endMark (raw.drop start)).bind fun i =>
      if start + i + 22 ≤ raw.length then some (start + i) else none

/-- The size of the directory, from the end record or from the large one before it. None if the
archive is one of several, or if there is no room for the large record. -/
def directorySize? (raw : List UInt8) (place : Nat) : Option Nat :=
  let size := numberAt 12 4 (raw.drop place)
  let locator := raw.drop (place - 20)
  if !locatorMark.isPrefixOf locator then some size
  else if numberAt 4 4 locator ≠ 0 || 1 < numberAt 16 4 locator then none
  else
    let large := raw.drop (place - 20 - 56)
    if !largeEndMark.isPrefixOf large || large.length < 56 then some size
    else if place < 20 + 56 then none
    else some (numberAt 40 8 large)

/-- Whether bytes are an archive without members. -/
def isEmptyArchive (raw : List UInt8) : Bool :=
  (endPlace? raw).bind (directorySize? raw) = some 0

/-- The members that an archive lists. Of raw bytes only an archive without members is known. -/
def listed? : Archive → Option (List PackedMember)
  | packed _ ms => some ms
  | bytes raw => if isEmptyArchive raw.toList then some [] else none

/-- The scripts among the members, with the members and bytes counted so far. -/
def scriptsFrom (s : Settings) (count total : Nat) :
    List PackedMember → Except ArchiveFault (List (String × Script))
  | [] => .ok []
  | m :: ms =>
    if s.maxArchiveFiles < count + 1 then .error .tooManyFiles
    else if endsWith "/" m.name || isIgnored m.name || !endsWith ".js" m.name then
      scriptsFrom s (count + 1) total ms
    else if mebibytes s.maxMemberMb < m.declared then .error (.memberTooLarge m.name)
    else if mebibytes s.maxUnpackedMb < total + m.declared then .error .tooLarge
    else do
      let rest ← scriptsFrom s (count + 1) (total + m.declared) ms
      return (m.name, ⟨(decodeSource m.content.bytes).toList, m.content.tree⟩) :: rest

def scripts (s : Settings) (a : Archive) : Except ArchiveFault (List (String × Script)) :=
  match a.listed? with
  | some ms => scriptsFrom s 0 0 ms
  | none => .error .invalid

end Archive
end SuiteOutline
