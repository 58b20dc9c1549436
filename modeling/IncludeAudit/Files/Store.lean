import IncludeAudit.Files.Path

/-!
# File stores

The files below a working directory, as far as they are known, with their texts. A path is followed
component by component, so every directory on the way has to exist, and `..` leads out of the
directory that was entered last. Nothing is known of what lies outside the working directory.

`utf8ByteSize_le_of_read` says that the path of a file that can be read is not too long.
-/

namespace IncludeAudit

/-- Why a file cannot be read. -/
inductive FileError where
  | notFound
  /-- A file where a directory is needed. -/
  | notDirectory
  | isDirectory
  | nameTooLong
  /-- A null character in the path. -/
  | nullInName
  deriving DecidableEq, Repr

/-- The error in the words of the operating system. -/
def FileError.message : FileError → String
  | notFound => "No such file or directory (os error 2)"
  | notDirectory => "Not a directory (os error 20)"
  | isDirectory => "Is a directory (os error 21)"
  | nameTooLong => "File name too long (os error 36)"
  | nullInName => "file name contained an unexpected NUL byte"

/-- A file of a store. -/
structure StoredFile where
  /-- The names of its directories and its own name. -/
  names : List String
  text : String
  deriving DecidableEq, Repr

/-- The files below a working directory. -/
structure FileStore where
  files : List StoredFile

namespace FileStore

/-- The names on the way to a path that does not leave the working directory. -/
def namesOf (p : Path) : List String :=
  p.components.foldl (fun names part =>
    match part with
    | .name n => names ++ [n]
    | .up => names.dropLast
    | .root | .here => names) []

/-- The store with the given files. -/
def ofList (files : List (Path × String)) : FileStore :=
  ⟨files.map fun e => ⟨namesOf e.1, e.2⟩⟩

/-- The text of the file with the given names. -/
def text? (s : FileStore) (names : List String) : Option String :=
  (s.files.find? (·.names == names)).map (·.text)

/-- True of the working directory and the directories of the files. -/
def isDirectory (s : FileStore) (names : List String) : Bool :=
  names.isEmpty || s.files.any fun f => names.isPrefixOf f.names && names.length < f.names.length

/-- Where a path has led so far. -/
inductive Spot where
  | directory (names : List String)
  | file (text : String)
  /-- Above the working directory or at the root. -/
  | outside

/-- The length of the longest path, in bytes. -/
def pathLimit : Nat :=
  4095

/-- The length of the longest name, in bytes. -/
def nameLimit : Nat :=
  255

/-- Enters what has a name. -/
def enter (s : FileStore) (spot : Spot) (name : String) : Except FileError Spot :=
  match spot with
  | .directory names =>
    if nameLimit < name.utf8ByteSize then .error .nameTooLong
    else
      match s.text? (names ++ [name]) with
      | some text => .ok (.file text)
      | none =>
        if s.isDirectory (names ++ [name]) then .ok (.directory (names ++ [name]))
        else .error .notFound
  | .file _ => .error .notDirectory
  | .outside => .error (if nameLimit < name.utf8ByteSize then .nameTooLong else .notFound)

/-- Follows one component. -/
def follow (s : FileStore) (spot : Spot) (part : PathPart) : Except FileError Spot :=
  match part, spot with
  | .name n, spot => s.enter spot n
  | _, .file _ => .error .notDirectory
  | .here, spot => .ok spot
  | .root, _ => .ok .outside
  | .up, .directory (n :: names) => .ok (.directory (n :: names).dropLast)
  | .up, _ => .ok .outside

/-- True of a path whose text ends as that of a directory. -/
def endsAsDirectory (p : Path) : Bool :=
  match p.segments.getLast? with
  | some segment => Path.isIdle segment
  | none => false

/-- The text of the file at a path that is not too long. -/
def readShort (s : FileStore) (p : Path) : Except FileError String := do
  if p.text.isEmpty then throw .notFound
  match ← p.components.foldlM s.follow (.directory []) with
  | .file text => if endsAsDirectory p then throw .notDirectory else return text
  | _ => throw .isDirectory

/-- The text of the file at a path. -/
def read (s : FileStore) (p : Path) : Except FileError String :=
  if p.text.toList.contains '\x00' then .error .nullInName
  else if pathLimit < p.text.utf8ByteSize then .error .nameTooLong
  else s.readShort p

/-- True of the paths of files. -/
def isFile (s : FileStore) (p : Path) : Bool :=
  (s.read p).toOption.isSome

theorem utf8ByteSize_le_of_read {s : FileStore} {p : Path} {text : String}
    (h : s.read p = .ok text) : p.text.utf8ByteSize ≤ pathLimit := by
  unfold read at h
  split at h
  · simp at h
  · split at h
    · simp at h
    · omega

end FileStore

end IncludeAudit
