import ManifestRules.Files.Access
/-!
# Trees of files

A tree of files stands for the current directory and everything under it. No
location leads out of it, and locations from the root lead nowhere. Names have
at most 255 bytes, and locations fewer than 4096; a directory further down than
that may be there, but it cannot be looked into by its location.
-/

namespace ManifestRules

/-- A file or a directory. -/
inductive FileTree where
  /-- A file with its text; bytes that are no text have none. -/
  | file (content : Option String)
  /-- A directory with its entries. -/
  | directory (entries : List (RawText × FileTree))
deriving Repr, Inhabited

namespace FileTree

/-- The directory without entries. -/
def empty : FileTree := .directory []

/-- The most bytes that a name has. -/
def nameLimit : Nat := 255

/-- The entry of a directory with the given name. -/
def entry? (t : FileTree) (name : RawText) : Except FileFault FileTree :=
  match t with
  | .file _ => .error .notDirectory
  | .directory entries =>
    if nameLimit < name.bytes.length then .error .nameTooLong
    else
      match entries.find? fun e => e.1 == name with
      | some e => .ok e.2
      | none => .error .notFound

/-- Take a step; the directories passed are kept with the names taken. -/
def step (passed : List (RawText × FileTree)) (here : FileTree) (name : RawText) :
    Except FileFault (List (RawText × FileTree) × FileTree) :=
  match here with
  | .file _ => .error .notDirectory
  | .directory _ =>
    if name = "" ∨ name = "." then .ok (passed, here)
    else if name = ".." then
      match passed with
      | (_, outer) :: more => .ok (more, outer)
      | [] => .error .notFound
    else (here.entry? name).map fun inner => ((name, here) :: passed, inner)

/-- Take steps from a tree. -/
def walk (t : FileTree) (names : List RawText) :
    Except FileFault (List (RawText × FileTree) × FileTree) :=
  names.foldlM (fun s name => step s.1 s.2 name) ([], t)

/-- The names of a location, all of them. -/
def namesOf (location : RawText) : List RawText :=
  (Text.splitAt Location.slash location.bytes).map RawText.mk

/-- The bytes that a location falls short of. -/
def locationLimit : Nat := 4096

/-- The first name behind the root, for a location that leads there. -/
def rootName (location : RawText) : RawText :=
  ((namesOf location).find? fun name : RawText => name ≠ "" ∧ name ≠ "." ∧ name ≠ "..").getD ""

/-- Why a location leads nowhere in any tree, if that is so. -/
def fault? (location : RawText) : Option FileFault :=
  if location.bytes.contains 0 then some .badName
  else if locationLimit ≤ location.bytes.length then some .nameTooLong
  else if location.bytes.isEmpty then some .notFound
  else if Location.isAbsolute location then
    some (if nameLimit < (rootName location).bytes.length then .nameTooLong else .notFound)
  else none

/-- What a location leads to. -/
def find (t : FileTree) (location : RawText) : Except FileFault FileTree :=
  match fault? location with
  | some f => .error f
  | none => (t.walk (namesOf location)).map (·.2)

/-- The text of a file. -/
def read (t : FileTree) (location : RawText) : Except FileFault String :=
  match t.find location with
  | .ok (.file (some text)) => .ok text
  | .ok (.file none) => .error .notText
  | .ok (.directory _) => .error .isDirectory
  | .error f => .error f

/-- What kind of thing a location leads to. -/
def kind (t : FileTree) (location : RawText) : Option FileKind :=
  match t.find location with
  | .ok (.file _) => some .file
  | .ok (.directory _) => some .directory
  | .error _ => none

mutual
/-- The tree at a location without its contents. -/
def toListing (location : RawText) (t : FileTree) : Listing :=
  match t with
  | .file _ => .file
  | .directory entries =>
    if locationLimit ≤ location.bytes.length then .unreadable .nameTooLong
    else .directory (toListings location entries)
/-- The entries of a directory without their contents. -/
def toListings (location : RawText) (entries : List (RawText × FileTree)) :
    List (RawText × Listing) :=
  match entries with
  | [] => []
  | (name, t) :: rest =>
    (name, t.toListing (Location.entry location name)) :: toListings location rest
end

/-- What is under a location. -/
def listing (t : FileTree) (location : RawText) : Listing :=
  match t.find location with
  | .ok found => found.toListing location
  | .error f => .unreadable f

/-- Give an entry a tree; a new one goes to the end. -/
def setEntry : List (RawText × FileTree) → RawText → FileTree → List (RawText × FileTree)
  | [], name, t => [(name, t)]
  | (other, u) :: rest, name, t =>
    if other = name then (name, t) :: rest else (other, u) :: setEntry rest name t

/-- Put a tree under the names that lead to it, making directories on the way. -/
def put (t : FileTree) (names : List RawText) (new : FileTree) : FileTree :=
  match names with
  | [] => new
  | name :: rest =>
    let entries :=
      match t with
      | .directory entries => entries
      | .file _ => []
    let inner := ((entries.find? fun e => e.1 == name).map (·.2)).getD empty
    .directory (setEntry entries name (inner.put rest new))

/-- Give the file at a location a text. Its directory has to be there. -/
def write (t : FileTree) (location : RawText) (text : String) : Except FileFault FileTree :=
  match fault? location with
  | some f => .error f
  | none =>
    let names := namesOf location
    let last := names.getLast?.getD ""
    let inner := names.dropLast
    if last = "" then
      match t.walk (inner.reverse.dropWhile fun name : RawText => name = "").reverse.dropLast with
      | .ok (_, .directory _) => .error .isDirectory
      | .ok (_, .file _) => .error .notDirectory
      | .error f => .error f
    else
      match t.walk inner with
      | .error f => .error f
      | .ok (_, .file _) => .error .notDirectory
      | .ok (passed, here) =>
        if last = "." ∨ last = ".." then .error .isDirectory
        else
          match here.entry? last with
          | .ok (.directory _) => .error .isDirectory
          | .error .nameTooLong => .error .nameTooLong
          | _ =>
            .ok (t.put ((passed.map (·.1)).reverse ++ [last]) (.file (some text)))

/-- Access to a tree. -/
def files : Files (StateM FileTree) where
  kind location := do pure ((← get).kind location)
  read location := do pure ((← get).read location)
  listing location := do pure ((← get).listing location)
  write location text := do
    match (← get).write location text with
    | .ok t =>
      set t
      pure (.ok ())
    | .error f => pure (.error f)

end FileTree

end ManifestRules
