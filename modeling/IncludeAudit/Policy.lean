import IncludeAudit.Pattern.FileGlobs
import IncludeAudit.Symbol.Key

/-!
# Policies

The switches of a run, with their defaults.
-/

namespace IncludeAudit

namespace Policy

/-- The namespaces whose symbols are never declared by others, unless a policy says otherwise. -/
def defaultSystemNamespaces : List String :=
  ["std", "__gnu_cxx"]

/-- The containers whose elements have to be complete types, unless a policy says otherwise. -/
def defaultCompleteTypeContainers : List String :=
  ["std::array", "std::bitset", "std::deque", "std::hash_map", "std::hash_set", "std::map",
    "std::multimap", "std::multiset", "std::set", "std::unordered_map", "std::unordered_multimap",
    "std::unordered_multiset", "std::unordered_set", "std::vector"]

end Policy

/-- The switches of a run. -/
structure Policy where
  /-- Namespaces whose symbols are never declared by others. -/
  systemNamespaces : List String := Policy.defaultSystemNamespaces
  /-- No include is proposed that the file does not reach already. -/
  transitiveIncludesOnly : Bool := false
  /-- An include cycle is a warning and not fatal. -/
  ignoreCycles : Bool := false
  /-- A use is satisfied by a provider that a present include reaches. -/
  tolerateTransitive : Bool := false
  /-- Every use needs the definition. -/
  noForwardDecls : Bool := false
  /-- Quoted includes are written before angled ones. -/
  quotedIncludesFirst : Bool := false
  /-- A use through a using-declaration is a use of the file that has it. -/
  usingIsAUse : Bool := true
  /-- Globs over the paths of includes that are never removed. -/
  keep : List String := []
  /-- Globs over the paths of further files to report on. -/
  checkAlso : List String := []
  /-- The first include of the main file is a precompiled header. -/
  pchInCode : Bool := false
  /-- Containers whose elements have to be complete types. -/
  completeTypeContainers : List String := Policy.defaultCompleteTypeContainers
  deriving DecidableEq, Repr

namespace Policy

/-- True of the system namespaces. -/
def isSystemNamespace (p : Policy) (scope : String) : Bool :=
  p.systemNamespaces.contains scope

/-- True of the containers whose elements have to be complete types. -/
def requiresCompleteElements (p : Policy) (container : String) : Bool :=
  p.completeTypeContainers.contains (SymbolKey.dropGlobalScope container)

/-- The choice of includes that are never removed. -/
def keepGlobs (p : Policy) (engine : PatternEngine) : FileGlobs × DiagnosticLog :=
  FileGlobs.compile engine p.keep

/-- The choice of further files to report on. -/
def checkAlsoGlobs (p : Policy) (engine : PatternEngine) : FileGlobs × DiagnosticLog :=
  FileGlobs.compile engine p.checkAlso

end Policy

end IncludeAudit
