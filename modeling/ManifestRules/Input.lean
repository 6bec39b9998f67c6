import ManifestRules.Error
import ManifestRules.Files.Access
import ManifestRules.Stream
/-!
# The input stream

Input is one file, all manifests under a directory, or what stands on standard
input. A directory is gone through in the order of names, and hidden entries
are left out; only the directory that was asked for may be hidden itself. The
texts of several files are joined by separator lines.
-/

namespace ManifestRules

namespace Input

/-- A file that holds manifests, by its name. A name that is no text is none of one. -/
def isManifestName (name : Option String) : Bool :=
  name.any fun text => text.endsWith ".yaml" || text.endsWith ".yml"

/-- A hidden entry, by its name. A name that is no text hides nothing. -/
def isHidden (name : Option String) : Bool := name.any fun text => text.toList.head? == some '.'

/-- The one name does not come after the other. -/
def nameLe {α : Type} [LT α] [DecidableLT α] (a b : α) : Bool := !decide (b < a)

/-- A place that could not be looked into. -/
def unreadable (location : RawText) (f : FileFault) : Error :=
  .walk ("IO error for operation on " ++ location.display ++ ": " ++ f.text)

mutual
/-- The manifests of a listing that has a location and a name, in order. The first
place that cannot be looked into ends the search. -/
def manifests (location name : RawText) (l : Listing) : Except Error (List RawText) :=
  match l with
  | .file => .ok (if isManifestName name.text? then [location] else [])
  | .special => .ok []
  | .unreadable f => .error (unreadable location f)
  | .directory entries => do
    let sorted := (entryManifests location entries).mergeSort fun a b => nameLe a.1 b.1
    let found ← sorted.mapM (·.2)
    pure found.flatten
termination_by structural l
/-- The manifests of each entry that is not hidden, with its name. -/
def entryManifests (location : RawText) (entries : List (RawText × Listing)) :
    List (RawText × Except Error (List RawText)) :=
  match entries with
  | [] => []
  | (name, l) :: rest =>
    if isHidden name.text? then entryManifests location rest
    else
      (name, manifests (Location.entry location name) name l) :: entryManifests location rest
termination_by structural entries
end

variable {m : Type → Type} [Monad m]

/-- The manifests at a location, in order. -/
def manifestFiles (fs : Files m) (location : RawText) : ExceptT Error m (List RawText) :=
  ExceptT.mk do
    let l ← fs.listing location
    pure (manifests location (Location.fileName location) l)

/-- The text of a file. -/
def readFile (fs : Files m) (location : RawText) : ExceptT Error m String := do
  match ← fs.read location with
  | .ok text => pure text
  | .error f => throw (.io f.text)

/-- What stands between the texts of two files. -/
def joint : String := "\n" ++ Stream.separator ++ "\n"

/-- The input at a location. -/
def loadFrom (fs : Files m) (location : String) : ExceptT Error m String := do
  match ← fs.kind location with
  | some .file => readFile fs location
  | some .directory =>
    let locations ← manifestFiles fs location
    if locations.isEmpty then
      throw (.input ("no *.yaml or *.yml files found under " ++ location))
    let texts ← locations.mapM (readFile fs)
    pure (joint.intercalate texts)
  | _ => throw (.input (location ++ " does not exist"))

/-- What standard input is. -/
inductive Standard where
  /-- A terminal, from which nothing is read. -/
  | terminal
  /-- A stream with this text; bytes that are no text have none. -/
  | stream (content : Option String)
deriving Repr, DecidableEq, Inhabited

/-- The input: at a location if one is given, else on standard input, and in the
current directory if that is a terminal. -/
def read (fs : Files m) (standard : m Standard) (location : Option String) :
    ExceptT Error m String := do
  match location with
  | some l => loadFrom fs l
  | none =>
    match ← standard with
    | .stream (some text) => pure text
    | .stream none => throw (.io FileFault.notText.text)
    | .terminal => loadFrom fs "."

end Input

end ManifestRules
