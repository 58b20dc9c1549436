/-!
# Visibility of files

A private file must not be included directly; a public one may be.
-/

namespace IncludeAudit

/-- Whether a file may be included directly. -/
inductive Visibility where
  | priv
  | pub
  deriving DecidableEq, Repr

/-- The visibility in words, as tables and mapping files write it. -/
def Visibility.keyword : Visibility → String
  | priv => "private"
  | pub => "public"

end IncludeAudit
