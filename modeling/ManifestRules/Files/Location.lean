import ManifestRules.Text.Blank
import ManifestRules.Text.Raw
/-!
# Locations of files

A location is made of names parted by slashes. Its lead is a slash, or a dot
that stands for the current directory; behind it, empty names and single dots
do not count. The locations that are given to the program are texts; those that
are found in directories are raw.
-/

namespace ManifestRules.Location

/-- The byte of a slash. -/
def slash : UInt8 := 0x2F

/-- The byte of a dot. -/
def dot : UInt8 := 0x2E

/-- The location is given from the root. -/
def isAbsolute (location : RawText) : Bool := location.bytes.head? == some slash

/-- The lead of a location and what is behind it. -/
def splitLead : List Char → List Char × List Char
  | '/' :: rest => (['/'], rest)
  | ['.'] => (['.'], [])
  | '.' :: '/' :: rest => (['.'], '/' :: rest)
  | rest => ([], rest)

/-- A name that leads nowhere. -/
def isVoid (name : List Char) : Bool := name == [] || name == ['.']

/-- Names without those at the end that lead nowhere. -/
def dropVoid (names : List (List Char)) : List (List Char) :=
  (names.reverse.dropWhile isVoid).reverse

/-- Names joined by slashes. -/
def joinNames (names : List (List Char)) : List Char := ['/'].intercalate names

/-- The names behind the lead, without those at the end that lead nowhere. -/
def names (location : String) : List (List Char) :=
  dropVoid (Text.splitAt '/' (splitLead location.toList).2)

/-- The location of the directory around; the root and the empty location have none. -/
def parent? (location : String) : Option String :=
  let (lead, _) := splitLead location.toList
  match names location with
  | [] => if lead = ['.'] then some "" else none
  | found => some (String.ofList (lead ++ joinNames (dropVoid found.dropLast)))

/-- The last name of a location. -/
def fileName (location : RawText) : RawText :=
  match (Text.splitAt slash location.bytes).reverse.find? fun name => name ≠ [] && name ≠ [dot] with
  | some name => ⟨name⟩
  | none => location

/-- A name behind a directory, with a separator between them. A location from
the root stands for itself. -/
def joinWith {α : Type} [DecidableEq α] (separator : α) (directory name : List α) : List α :=
  if name.head? = some separator then name
  else
    match directory.getLast? with
    | none => name
    | some c => if c = separator then directory ++ name else directory ++ separator :: name

/-- The location of a name inside a directory. -/
def join (directory name : String) : String :=
  String.ofList (joinWith '/' directory.toList name.toList)

/-- The location of an entry of a directory. -/
def entry (directory name : RawText) : RawText := ⟨joinWith slash directory.bytes name.bytes⟩

end ManifestRules.Location
