import IncludeAudit.Files.Store

/-!
# Errors of mapping files

What stops the reading of a mapping file, with its wording.
-/

namespace IncludeAudit

/-- What is wrong with an entry. -/
inductive EntryFault where
  /-- The target is no file name with delimiters. -/
  | target (text : String)
  /-- The source is neither a file name with delimiters nor a regular expression. -/
  | source (text : String)
  deriving DecidableEq, Repr

/-- The fault in words. -/
def EntryFault.message : EntryFault → String
  | target text => "mapping target must be a quoted include: " ++ text
  | source text => "include source must be quoted or @regex: " ++ text

/-- What stops the reading of a mapping file. -/
inductive LoadError where
  | unreadable (path : Path) (cause : FileError)
  /-- The text is no list of entries. -/
  | malformed (path : Path)
  | invalidEntry (path : Path) (fault : EntryFault)
  /-- A file that the mapping file refers to does not exist. -/
  | missingRef (path : Path) (name : String)
  /-- A file refers to one that is being read. -/
  | refCycle (path : Path) (name : Path)
  deriving DecidableEq, Repr

/-- The error in words. -/
def LoadError.message : LoadError → String
  | unreadable path cause => "IO error reading " ++ path.text ++ ": " ++ cause.message
  | malformed path => "cannot parse mapping file " ++ path.text
  | invalidEntry path fault => "invalid mapping entry in " ++ path.text ++ ": " ++ fault.message
  | missingRef path name =>
    "mapping file " ++ name ++ " referenced from " ++ path.text ++ " not found"
  | refCycle path name =>
    "mapping file " ++ path.text ++ " references itself through " ++ name.text

end IncludeAudit
