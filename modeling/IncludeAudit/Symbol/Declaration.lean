import IncludeAudit.Position
import IncludeAudit.Symbol.Key

/-!
# Declarations

One place that declares a symbol. A declaration belongs to the file in which it takes effect, which
for a declaration from a macro is where the macro is expanded.
-/

namespace IncludeAudit

/-- The two forms of an explicit template instantiation. -/
inductive Instantiation where
  /-- `extern template class S<int>;` -/
  | declaration
  /-- `template class S<int>;` -/
  | definition
  deriving DecidableEq, Repr

/-- One place that declares a symbol. -/
structure Declaration where
  symbol : SymbolKey
  location : Location
  /-- The lines that the declaration occupies in its file. -/
  lines : LineSpan := .line location.expansion.line
  isDefinition : Bool := false
  instantiation : Option Instantiation := none
  /-- The template arguments of a specialization. -/
  specialization : Option String := none
  /-- The file takes it on itself to provide the specialization. -/
  intendsToProvide : Bool := false
  /-- From a macro whose body declares the symbol: it belongs to the file that spells it. -/
  belongsToSpelling : Bool := false
  deriving DecidableEq, Repr

namespace Declaration

/-- The same declaration as an explicit instantiation, which defines the symbol in one of its forms
only. -/
def asInstantiation (d : Declaration) (i : Instantiation) : Declaration :=
  { d with instantiation := some i, isDefinition := i == .definition }

/-- The file in which the declaration takes effect. -/
def file (d : Declaration) : FileName :=
  d.location.expansion.file

/-- The file to which uses of the declaration are attributed. -/
def owner (d : Declaration) : FileName :=
  if d.belongsToSpelling then d.location.spelling.file else d.file

/-- True of an explicit instantiation in the given form. -/
def isInstantiation (d : Declaration) (i : Instantiation) : Bool :=
  d.instantiation == some i

/-- A line that declares a record by hand: no definition, no instantiation and no macro. -/
def isForward (d : Declaration) : Bool :=
  !d.isDefinition && d.instantiation.isNone && !d.location.isMacroExpansion
    && d.symbol.kind.isForwardDeclarable

end Declaration

end IncludeAudit
