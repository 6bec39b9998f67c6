import ManifestRules.Command.Run
/-!
# The program

The outermost layer: it gives the command line the files, the environment and
the standard streams of the process.
-/

namespace ManifestRules.Host

/-- The number of a failed operation and what is told about it. -/
def codeOf : IO.Error → UInt32 × String
  | .alreadyExists _ code text | .invalidArgument _ code text | .permissionDenied _ code text
  | .resourceExhausted _ code text | .inappropriateType _ code text | .noSuchThing _ code text
  | .interrupted _ code text | .noFileOrDirectory _ code text | .otherError code text
  | .resourceBusy code text | .resourceVanished code text | .unsupportedOperation code text
  | .hardwareFault code text | .unsatisfiedConstraints code text | .illegalOperation code text
  | .protocolError code text | .timeExpired code text => (code, text)
  | .unexpectedEof => (0, "unexpected end of file")
  | .userError text => (0, text)

/-- The fault behind a failed operation. Its number may be given below zero. -/
def faultOf (e : IO.Error) : FileFault :=
  let (code, text) := codeOf e
  let number := if code < 0x80000000 then code.toNat else (0 - code).toNat
  match number with
  | 2 => .notFound
  | 20 => .notDirectory
  | 21 => .isDirectory
  | 36 => .nameTooLong
  | n => .other (text.capitalize ++ " (os error " ++ toString n ++ ")")

/-- The result of an operation on a location, or its fault if it fails. The operations
of the host know no locations but texts. -/
def attempt {α : Type} (location : RawText) (act : String → IO α) : IO (Except FileFault α) := do
  match location.text? with
  | none => pure (.error .notFound)
  | some text =>
    if text.toList.contains '\x00' then pure (.error .badName)
    else
      try
        let x ← act text
        pure (.ok x)
      catch e =>
        pure (.error (faultOf e))

/-- An entry that a location leads to from the current directory. -/
def entryAt (location : String) : IO.FS.DirEntry := ⟨".", location⟩

/-- What a type of file is. -/
def kindOf : IO.FS.FileType → FileKind
  | .dir => .directory
  | .file => .file
  | _ => .special

/-- What a location leads to. -/
def kind (location : RawText) : IO (Option FileKind) := do
  match ← attempt location fun text => (entryAt text).path.metadata with
  | .ok data => pure (some (kindOf data.type))
  | .error _ => pure none

/-- Bytes as text. -/
def textOf (bytes : ByteArray) : Except FileFault String :=
  match String.fromUTF8? bytes with
  | some text => .ok text
  | none => .error .notText

/-- The text of a file. -/
def read (location : RawText) : IO (Except FileFault String) := do
  let bytes ← attempt location fun text => IO.FS.readBinFile text
  pure (bytes.bind textOf)

/-- What is under an entry whose type is asked for as given. -/
partial def listingOf (entry : IO.FS.DirEntry) (data : IO IO.FS.Metadata) : IO Listing := do
  try
    match (← data).type with
    | .file => pure .file
    | .dir =>
      let entries ← entry.path.readDir
      let found ← entries.toList.mapM fun e => do
        pure (RawText.ofText e.fileName, ← listingOf e e.path.symlinkMetadata)
      pure (.directory found)
    | _ => pure .special
  catch e =>
    pure (.unreadable (faultOf e))

/-- What is under a location. -/
def listing (location : RawText) : IO Listing := do
  match ← attempt location fun text => listingOf (entryAt text) (entryAt text).path.metadata with
  | .ok l => pure l
  | .error f => pure (.unreadable f)

/-- Give a file a text. -/
def write (location : RawText) (text : String) : IO (Except FileFault Unit) :=
  attempt location fun place => IO.FS.writeFile place text

/-- The files around the process. -/
def files : Files IO := ⟨kind, read, listing, write⟩

/-- Standard input. -/
def standard : IO Input.Standard := do
  let stdin ← IO.getStdin
  if ← stdin.isTty then pure .terminal
  else
    let bytes ← stdin.readBinToEnd
    pure (.stream (String.fromUTF8? bytes))

/-- What the process is run in. -/
def surroundings : IO Surroundings := do
  let found ← Command.variableNames.mapM fun name => do
    pure ((name, ·) <$> (← IO.getEnv name))
  let stdout ← IO.getStdout
  pure ⟨found.filterMap id, ← stdout.isTty⟩

end ManifestRules.Host

/-- The program. -/
def main (arguments : List String) : IO UInt32 := do
  let s ← ManifestRules.Host.surroundings
  let o ← ManifestRules.Command.run ManifestRules.Host.files s
    ManifestRules.Host.standard arguments
  IO.print o.stdout
  IO.eprint o.stderr
  pure (UInt32.ofNat o.code)
