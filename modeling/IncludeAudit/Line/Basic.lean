import IncludeAudit.Position
import IncludeAudit.Symbol.Traits

/-!
# Output lines

A line of a report is an include directive or a forward declaration, present in the file or
proposed. `forwardText` writes the declaration of a symbol inside the namespaces of its name.
-/

namespace IncludeAudit

/-- The declaration of a symbol ahead of its definition. A template without a known header gets one
parameter. -/
def forwardText (s : Symbol) : String :=
  let header := match s.traits.templateHeader with
    | some header => header ++ " "
    | none => if s.key.kind = .recordTemplate then "template <typename> " else ""
  let declaration := header ++ s.traits.tag.keyword ++ " " ++ s.key.unqualified ++ ";"
  s.key.scopes.foldr (fun scope inner => "namespace " ++ scope ++ " \x7b " ++ inner ++ " \x7d")
    declaration

/-- What a line says. -/
inductive LineContent where
  | directive (file : FileName)
  | declaration (symbol : SymbolKey) (text : String)
  deriving DecidableEq, Repr

/-- A line of a report. -/
structure OutputLine where
  content : LineContent
  /-- Where the line stands now; nothing for a proposed line. -/
  lines : Option LineSpan := none
  /-- The symbols that the line provides. -/
  symbols : List SymbolKey := []
  deriving DecidableEq, Repr

namespace OutputLine

/-- A line that includes a file. -/
def ofFile (f : FileName) (lines : Option LineSpan) (symbols : List SymbolKey) : OutputLine :=
  ⟨.directive f, lines, symbols⟩

/-- A line that declares a symbol. -/
def ofSymbol (s : Symbol) (lines : Option LineSpan) : OutputLine :=
  ⟨.declaration s.key (forwardText s), lines, [s.key]⟩

/-- The file that the line includes. -/
def included? (l : OutputLine) : Option FileName :=
  match l.content with
  | .directive f => some f
  | .declaration .. => none

/-- The symbol that the line declares. -/
def declared? (l : OutputLine) : Option SymbolKey :=
  match l.content with
  | .directive _ => none
  | .declaration k _ => some k

/-- True of a line that declares a symbol. -/
def isDeclaration (l : OutputLine) : Bool :=
  l.declared?.isSome

/-- The line as it is written. -/
def text (l : OutputLine) : String :=
  match l.content with
  | .directive f => f.includeLine
  | .declaration _ text => text

/-- The line with a note on where it stands now. -/
def describe (l : OutputLine) : String :=
  match l.lines with
  | some span => l.text ++ "  // lines " ++ span.describe
  | none => l.text

end OutputLine

end IncludeAudit
