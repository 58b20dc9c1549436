import IncludeAudit.FileName.Basic

/-!
# Extensions and canonical names

A source file, its tests, its header and its inline definitions share a canonical name: the path
without extension, test ending and `-inl`, with the first `/internal/` read as `/public/` and the
first `/include/` as `/src/`. So `foo/bar.h`, `foo/bar.cc`, `foo/bar_test.cc` and `foo/bar-inl.h`
are all `foo/bar`.

* `canonicalPath`: the canonical name of a path;
* `isHeaderPath`: true of all paths but those with a source extension, since standard headers have
  no extension at all.
-/

namespace IncludeAudit

namespace FileName

/-- Header extensions, in the order in which they are tried. -/
def headerExtensions : List String :=
  ["h", "H", "hpp", "hxx", "hh", "inl"]

/-- Extensions of source files, in the order in which they are tried. -/
def sourceExtensions : List String :=
  ["c", "C", "cc", "CC", "cxx", "CXX", "cpp", "CPP", "c++", "C++", "cp"]

/-- Extensions of generated or textual files that are included and never analyzed. -/
def opaqueExtensions : List String :=
  ["moc", "inc", "def", "gen"]

/-- Endings of test files, which share a header with the file they test. -/
def testEndings : List String :=
  ["_unittest", "_regtest", "_test"]

/-- The ending of a header with inline definitions. -/
def inlineEnding : String :=
  "-inl"

/-- A point and an extension. -/
def pointed (extension : String) : List Char :=
  '.' :: extension.toList

/-- The path without the first of the known extensions that it has. -/
def dropExtension (path : List Char) : List Char :=
  let without (extension : String) := Text.dropEnd? (pointed extension) path
  ((headerExtensions ++ sourceExtensions).findSome? without).getD path

/-- The text without the first of the endings that it has. -/
def dropTestEnding (name : List Char) : List Char :=
  (testEndings.findSome? fun e => Text.dropEnd? e.toList name).getD name

/-- The text with the first occurrence of one part replaced by another. -/
def replaceFirst (part replacement name : List Char) : List Char :=
  match Text.breakOn? part name with
  | some (before, after) => before ++ replacement ++ after
  | none => name

/-- The canonical name of a path. -/
def canonicalChars (path : List Char) : List Char :=
  let stem := Text.dropEnd inlineEnding.toList (dropTestEnding (dropExtension path))
  replaceFirst "/include/".toList "/src/".toList
    (replaceFirst "/internal/".toList "/public/".toList stem)

/-- The canonical name of a path. -/
def canonicalPath (path : String) : String :=
  String.ofList (canonicalChars path.toList)

/-- True unless the path, without closing delimiters at its end, has a source extension. -/
def isHeaderPath (path : String) : Bool :=
  let bare := (path.toList.reverse.dropWhile fun c => c == '"' || c == '>').reverse
  !sourceExtensions.any fun e => (Text.dropEnd? (pointed e) bare).isSome

/-- True of every file but source files. -/
def isHeader (f : FileName) : Bool :=
  isHeaderPath f.path

/-- True of source files and generated files: an include of one is always kept. -/
def isOpaque (f : FileName) : Bool :=
  !f.isHeader || f.extension?.any opaqueExtensions.contains

/-- The canonical name of the whole path. -/
def canonical (f : FileName) : String :=
  canonicalPath f.path

/-- The canonical name of the base name. -/
def canonicalBaseName (f : FileName) : String :=
  canonicalPath f.baseName

/-- True of a header with inline definitions, such as `foo-inl.h`. -/
def isInlineDefinitions (f : FileName) : Bool :=
  (Text.dropEnd? inlineEnding.toList (dropExtension f.path.toList)).isSome

end FileName

end IncludeAudit
