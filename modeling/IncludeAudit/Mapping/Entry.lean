import IncludeAudit.Document.Fields
import IncludeAudit.Files.Path
import IncludeAudit.Pattern.Basic
import IncludeAudit.Provider.Visibility
import IncludeAudit.Text.Blank

/-!
# Entries of mapping files

A mapping file is a list of entries, each a map with one key that says of which kind the entry is:

    - include: ["<bits/stl_vector.h>", private, "<vector>", public]
    - symbol: ["NULL", private, "<cstddef>", public]
    - mapping: { from: "<x86/*.h>", to: "<machine/types.h>", visibility: private, match: glob }
    - ref: more.imp

Files with the extension `json` are JSON and all others YAML. A blank file has no entries.
-/

namespace IncludeAudit

/-- A source, its visibility, a target and its visibility. -/
structure MappingRow where
  source : String
  visibility : Visibility
  target : String
  targetVisibility : Visibility
  deriving DecidableEq, Repr

/-- An entry of a mapping file. -/
inductive MappingEntry where
  /-- A file and the file that provides it. The source says by itself what kind of pattern it is. -/
  | file (row : MappingRow)
  /-- A symbol and its header. -/
  | symbol (row : MappingRow)
  /-- Like `file`, but the kind of the pattern may be told. -/
  | explicit (row : MappingRow) (kind : Option MatchKind)
  /-- A further mapping file. -/
  | ref (name : String)
  deriving DecidableEq, Repr

/-- The notation of a file. -/
inductive DocumentFormat where
  | json
  | yaml
  deriving DecidableEq, Repr

namespace DocumentFormat

/-- The notation's name. -/
def describe : DocumentFormat → String
  | json => "Json"
  | yaml => "Yaml"

/-- The notation of a file, by its extension. -/
def ofPath (p : Path) : DocumentFormat :=
  if p.extension? = some "json" then json else yaml

/-- Reads a text in the notation. -/
def read? (engine : DocumentEngine) : DocumentFormat → String → Option Document
  | json => engine.json
  | yaml => engine.yaml

end DocumentFormat

namespace Visibility

/-- A visibility in a document. -/
def ofDocument? : Document → Option Visibility :=
  Document.choice? [(keyword priv, priv), (keyword pub, pub)]

end Visibility

namespace MatchKind

/-- The kind of a pattern in a document. -/
def ofDocument? : Document → Option MatchKind :=
  Document.choice? [("exact", exact), ("glob", glob), ("regex", regex)]

end MatchKind

namespace MappingEntry

/-- A row as a list of its four parts. -/
def row? : Document → Option MappingRow
  | .list [source, visibility, target, targetVisibility] => do
    some {
      source := ← source.text?
      visibility := ← Visibility.ofDocument? visibility
      target := ← target.text?
      targetVisibility := ← Visibility.ofDocument? targetVisibility }
  | _ => none

/-- The fields of an entry whose pattern may have a kind. -/
def explicitFields : List String :=
  ["from", "to", "visibility", "to_visibility", "match"]

/-- An entry with named parts. Its target is public unless it says otherwise. -/
def explicit? (d : Document) : Option MappingEntry := do
  let fields ← Fields.of? explicitFields d
  let row : MappingRow := {
    source := ← fields.required? "from" Document.text?
    target := ← fields.required? "to" Document.text?
    visibility := ← fields.required? "visibility" Visibility.ofDocument?
    targetVisibility := ← fields.optional? "to_visibility" Visibility.ofDocument? .pub }
  let kind ← fields.optional? "match" (Document.orNull? MatchKind.ofDocument?) none
  some (explicit row kind)

/-- An entry. -/
def ofDocument? : Document → Option MappingEntry
  | .map [(key, value)] =>
    match key.text? with
    | some "include" => (row? value).map file
    | some "symbol" => (row? value).map symbol
    | some "mapping" => explicit? value
    | some "ref" => value.text?.map ref
    | _ => none
  | _ => none

/-- The entries of a mapping file. -/
def parse? (engine : DocumentEngine) (format : DocumentFormat) (text : String) :
    Option (List MappingEntry) :=
  if Text.isAllBlank text then some []
  else (format.read? engine text).bind (Document.listOf? ofDocument?)

end MappingEntry

end IncludeAudit
