import IncludeAudit.Mapping.Load
import IncludeAudit.Policy

/-!
# Configurations

A policy and the mapping files that make up the provider map of a run. A configuration is a record
in a document, as its policy is, and every field of both may be left out.
-/

namespace IncludeAudit

/-- A policy and the sources of the provider map. -/
structure Config where
  policy : Policy := {}
  /-- The mapping files, in the order in which they are loaded. -/
  mappingFiles : List Path := []
  /-- Directories in which mapping files are looked for. -/
  searchPath : List Path := []
  /-- The built-in tables are left out. -/
  noDefaultMappings : Bool := false
  deriving DecidableEq, Repr

namespace Policy

/-- The fields of a policy, in their order. -/
def fields : List String :=
  ["system_namespaces", "transitive_includes_only", "ignore_cycles", "tolerate_transitive",
    "no_forward_decls", "quoted_includes_first", "using_is_a_use", "keep", "check_also",
    "pch_in_code", "complete_type_containers"]

/-- A policy in a document. -/
def ofDocument? (d : Document) : Option Policy := do
  let given ← Fields.of? fields d
  let flag (name : String) (default : Bool) := given.optional? name Document.truth? default
  let texts (name : String) (default : List String) := given.optional? name Document.texts? default
  let p : Policy := {}
  some {
    systemNamespaces := ← texts "system_namespaces" p.systemNamespaces
    transitiveIncludesOnly := ← flag "transitive_includes_only" p.transitiveIncludesOnly
    ignoreCycles := ← flag "ignore_cycles" p.ignoreCycles
    tolerateTransitive := ← flag "tolerate_transitive" p.tolerateTransitive
    noForwardDecls := ← flag "no_forward_decls" p.noForwardDecls
    quotedIncludesFirst := ← flag "quoted_includes_first" p.quotedIncludesFirst
    usingIsAUse := ← flag "using_is_a_use" p.usingIsAUse
    keep := ← texts "keep" p.keep
    checkAlso := ← texts "check_also" p.checkAlso
    pchInCode := ← flag "pch_in_code" p.pchInCode
    completeTypeContainers := ← texts "complete_type_containers" p.completeTypeContainers }

end Policy

namespace Config

/-- The configuration of a policy and the built-in tables. -/
def ofPolicy (p : Policy) : Config :=
  { policy := p }

/-- The fields of a configuration, in their order. -/
def fields : List String :=
  ["policy", "mapping_files", "search_path", "no_default_mappings"]

/-- A list of paths in a document. -/
def paths? (d : Document) : Option (List Path) :=
  d.texts?.map fun texts => texts.map Path.mk

/-- A configuration in a document. -/
def ofDocument? (d : Document) : Option Config := do
  let given ← Fields.of? fields d
  some {
    policy := ← given.optional? "policy" Policy.ofDocument? {}
    mappingFiles := ← given.optional? "mapping_files" paths? []
    searchPath := ← given.optional? "search_path" paths? []
    noDefaultMappings := ← given.optional? "no_default_mappings" Document.truth? false }

/-- Reads a configuration. -/
def parse? (engine : DocumentEngine) (format : DocumentFormat) (text : String) : Option Config :=
  (format.read? engine text).bind ofDocument?

/-- The builder from which the provider map is made. -/
def startBuilder (c : Config) : ProviderBuilder :=
  if c.noDefaultMappings then {} else .withBuiltins

/-- Where a mapping file is: in the first directory of the search path that has it, else where its
path says. -/
def locate (c : Config) (source : MappingSource) (p : Path) : Path :=
  if p.isAbsolute then p else (source.findBelow? p.text c.searchPath).getD p

/-- The provider map, as a builder: the built-in tables, then the mapping files. -/
def providerMap (c : Config) (files : FileStore) (documents : DocumentEngine)
    (patterns : PatternEngine) : Except LoadError ProviderBuilder :=
  let source : MappingSource := ⟨files, c.searchPath, documents, patterns⟩
  match source.loadAll (c.mappingFiles.map (c.locate source)) { builder := c.startBuilder } with
  | (.error e, _) => .error e
  | (.ok (), s) => .ok s.builder

end Config

end IncludeAudit
