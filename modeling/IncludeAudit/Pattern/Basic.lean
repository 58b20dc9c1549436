import IncludeAudit.FileName.Basic

/-!
# Patterns over file names

A pattern is a file name, a glob or a regular expression, and the last two are matched against the
delimited text of a name. What these two stand for is a matter of a `PatternEngine`: once it has
read them, they are predicates on texts. `MatchKind.detect` tells the three apart in mapping files,
where `@` marks a regular expression.
-/

namespace IncludeAudit

/-- How a source is read as a pattern. -/
inductive MatchKind where
  | exact
  | glob
  | regex
  deriving DecidableEq, Repr

namespace MatchKind

/-- The kind's name. -/
def describe : MatchKind → String
  | exact => "Exact"
  | glob => "Glob"
  | regex => "Regex"

/-- The kind of a source and the source without the mark of its kind. -/
def detect (source : String) : MatchKind × String :=
  match source.toList with
  | '@' :: rest => (regex, String.ofList rest)
  | cs => (if cs.any fun c => c == '*' || c == '?' || c == '[' then glob else exact, source)

end MatchKind

/-- A source that is no pattern of its kind. -/
structure PatternError where
  kind : MatchKind
  pattern : String
  reason : String
  deriving DecidableEq, Repr

/-- The error in words. -/
def PatternError.message (e : PatternError) : String :=
  "cannot compile " ++ e.kind.describe ++ " pattern '" ++ e.pattern ++ "': " ++ e.reason

/-- What reads globs and regular expressions: it gives the texts that a source stands for, or the
reason why it stands for none. -/
structure PatternEngine where
  /-- The texts that a glob matches. -/
  glob : String → Except String (String → Bool)
  /-- The texts of which an expression matches some part. -/
  expression : String → Except String (String → Bool)

namespace PatternEngine

/-- Reads a glob. -/
def readGlob (engine : PatternEngine) (source : String) : Except PatternError (String → Bool) :=
  match engine.glob source with
  | .ok admits => .ok admits
  | .error reason => .error ⟨.glob, source, reason⟩

/-- Reads an expression that has to match a whole text. It is anchored as a text, so a source may
close the group that it is put into and open another. -/
def readWhole (engine : PatternEngine) (source : String) : Except PatternError (String → Bool) :=
  match engine.expression ("^(?:" ++ source ++ ")$") with
  | .ok admits => .ok admits
  | .error reason => .error ⟨.regex, source, reason⟩

end PatternEngine

/-- A set of file names. -/
inductive Pattern where
  | exact (file : FileName)
  | glob (source : String) (admits : String → Bool)
  | regex (source : String) (admits : String → Bool)

namespace Pattern

/-- Reads a source as a pattern of the given kind. -/
def compile (engine : PatternEngine) (kind : MatchKind) (source : String) :
    Except PatternError Pattern :=
  match kind with
  | .exact => .ok (exact (FileName.ofText source))
  | .glob => (engine.readGlob source).map (glob source)
  | .regex => (engine.readWhole source).map (regex source)

/-- True if the text of a name belongs to the pattern. -/
def matchesText (p : Pattern) (text : String) : Bool :=
  match p with
  | exact file => file.text == text
  | glob _ admits => admits text
  | regex _ admits => admits text

/-- True if the name belongs to the pattern. -/
def accepts (p : Pattern) (f : FileName) : Bool :=
  match p with
  | exact file => file == f
  | p => p.matchesText f.text

/-- How the pattern is read. -/
def kind : Pattern → MatchKind
  | exact _ => .exact
  | glob .. => .glob
  | regex .. => .regex

/-- The source of the pattern; that of a name is its text. -/
def source : Pattern → String
  | exact file => file.text
  | glob source _ => source
  | regex source _ => source

/-- The one name that belongs to an exact pattern. -/
def file? : Pattern → Option FileName
  | exact file => some file
  | _ => none

end Pattern

end IncludeAudit
