import IncludeAudit.Document.Basic
import IncludeAudit.Engine.Glob
import IncludeAudit.Engine.Regex.Match
import IncludeAudit.Engine.Regex.Parser
import IncludeAudit.Engine.Yaml.Block
import IncludeAudit.Pattern.Basic

/-!
# Engines to run with

An engine for patterns and one for documents. Everything else takes any engine, and these two are
named where something has to be computed.
-/

namespace IncludeAudit

/-- Globs and regular expressions by search. -/
def PatternEngine.standard : PatternEngine where
  glob source :=
    match Glob.parse source with
    | .ok glob => .ok glob.matchesText
    | .error e => .error e.message
  expression source :=
    match Regex.compile source with
    | .ok r => .ok r.matchesText
    | .error e => .error e.message

/-- JSON, and the part of YAML that is read here. -/
def DocumentEngine.standard : DocumentEngine where
  json := Document.ofJson?
  yaml := Document.ofYaml?

end IncludeAudit
