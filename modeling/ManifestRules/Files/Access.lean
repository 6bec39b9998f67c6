import ManifestRules.Files.Location
/-!
# Access to files

What the program asks of the files around it. The operations are given for any
monad, so that they can be carried out on a file system or on a tree of files
that is a value.
-/

namespace ManifestRules

/-- Why a file could not be read or written. -/
inductive FileFault where
  /-- Nothing is there. -/
  | notFound
  /-- A name on the way is no directory. -/
  | notDirectory
  /-- It is a directory. -/
  | isDirectory
  /-- Its content is no UTF-8 text. -/
  | notText
  /-- A name on the way, or the location, is too long. -/
  | nameTooLong
  /-- The location has a character that no name can have. -/
  | badName
  /-- Another reason. -/
  | other (message : String)
deriving Repr, DecidableEq, Inhabited

/-- The text of a fault. -/
def FileFault.text : FileFault → String
  | .notFound => "No such file or directory (os error 2)"
  | .notDirectory => "Not a directory (os error 20)"
  | .isDirectory => "Is a directory (os error 21)"
  | .notText => "stream did not contain valid UTF-8"
  | .nameTooLong => "File name too long (os error 36)"
  | .badName => "file name contained an unexpected NUL byte"
  | .other message => message

/-- What a location leads to. -/
inductive FileKind where
  /-- A file. -/
  | file
  /-- A directory. -/
  | directory
  /-- Something else. -/
  | special
deriving Repr, DecidableEq, Inhabited

/-- The files and directories under a location, without their contents. Names are
as the system gives them. -/
inductive Listing where
  /-- A file. -/
  | file
  /-- A directory with its entries in any order. -/
  | directory (entries : List (RawText × Listing))
  /-- A place that cannot be looked into, such as a directory whose entries
  cannot be read. -/
  | unreadable (fault : FileFault)
  /-- Something else. -/
  | special
deriving Repr, Inhabited

/-- The operations on files. -/
structure Files (m : Type → Type) where
  /-- What a location leads to, if anything. -/
  kind : RawText → m (Option FileKind)
  /-- The text of a file. -/
  read : RawText → m (Except FileFault String)
  /-- What is under a location. -/
  listing : RawText → m Listing
  /-- Give a file a text. -/
  write : RawText → String → m (Except FileFault Unit)

end ManifestRules
