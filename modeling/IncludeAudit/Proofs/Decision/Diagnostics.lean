import IncludeAudit.Proofs.Decision.PrivateHeaders
import IncludeAudit.Proofs.Decision.Warnings

/-!
# The diagnostics of a report

A report has one diagnostic for each use that gives a warning, in the order of the uses with the
same warning, one for each private header at which some use is stranded, and no other. The outcomes
that tell of the warnings are the final ones, although the diagnostics arise before all of them are
settled. What each diagnostic says is written out here and in `UseOutcome.missing?` and
`UseOutcome.undeclared?`.

* `exists_headers_triageLog`, `exists_headers`: the diagnostics about private headers;
* `finalize_accounts`: all of them.
-/

namespace IncludeAudit

open DiagnosticLog

namespace Plan

variable {ctx : DecisionContext} {r : FileRecord} {file : FileName} {warned : List FileName}
  {ds : List Draft}

/-- The induction is on the uses. A header that is warned of counts as met from there on. -/
theorem exists_headers_triageLog : ∃ headers : List FileName,
    (triageLog file warned ds).withCode "W0002" = headers.map .noPublicHeader ∧ headers.Nodup := by
  induction ds generalizing warned with
  | nil => exact ⟨[], rfl, List.nodup_nil⟩
  | cons d ds ih =>
    rw [triageLog]
    split
    · rename_i h _
      split
      · exact ih
      · obtain ⟨headers, hmap, hnodup⟩ := @ih (h :: warned)
        refine ⟨h :: headers, ?_, List.nodup_cons.2 ⟨fun hmem => ?_, hnodup⟩⟩
        · rw [List.map_cons, ← hmap]
          rfl
        · have hlog := List.mem_map_of_mem (f := Diagnostic.noPublicHeader) hmem
          rw [← hmap] at hlog
          exact (mem_triageLog.1 (List.mem_of_mem_filter hlog)).1 List.mem_cons_self
    · split
      · exact ih
      · exact ih

/-- Each private header is warned of once. -/
theorem exists_headers (p : Plan) : ∃ headers : List FileName,
    p.log.withCode "W0002" = headers.map .noPublicHeader ∧ headers.Nodup := by
  rw [withCode_log p (by decide)]
  exact exists_headers_triageLog

end Plan

namespace FileReport

variable {ctx : DecisionContext} {r : FileRecord}

/-- The diagnostics of a report are those that its outcomes and the stranded uses call for. -/
structure Accounts (ctx : DecisionContext) (r : FileRecord) (report : FileReport) : Prop where
  /-- One for each use that needs a definition from an include that is not present. -/
  missing : report.diagnostics.withCode "W0003" =
    report.uses.filterMap (·.missing? r.file r.present)
  /-- One for each use whose symbol nothing declares. -/
  undeclared : report.diagnostics.withCode "W0004" = report.uses.filterMap (·.undeclared? r.file)
  /-- One for each private header at which some use is stranded, which it names. -/
  stranded : ∃ headers : List FileName,
    report.diagnostics.withCode "W0002" = headers.map (fun header => {
      severity := .warning
      message := "no public header found to replace the private header " ++ header.text
      file := some header
      line := 0
      code := some "W0002" }) ∧
    headers.Nodup ∧ (∀ header ∈ headers, ctx.providers.isPrivate header = true) ∧
    ∀ header, header ∈ headers ↔ ∃ u ∈ r.resolved, ∃ a, ctx.Strands r u a header
  codes : ∀ d ∈ report.diagnostics,
    d.code = some "W0002" ∨ d.code = some "W0003" ∨ d.code = some "W0004"

/-- A report warns of a header exactly if it is one of those with the code of these warnings. -/
theorem mem_headers_iff {log : DiagnosticLog} {headers : List FileName} {header : FileName}
    (h : log.withCode "W0002" = headers.map .noPublicHeader) :
    header ∈ headers ↔ .noPublicHeader header ∈ log := by
  have hwith : .noPublicHeader header ∈ log.withCode "W0002" ↔ .noPublicHeader header ∈ log :=
    List.mem_filter.trans (and_iff_left rfl)
  rw [← hwith, h, List.mem_map]
  exact ⟨fun hmem => ⟨header, hmem, rfl⟩, fun ⟨g, hg, heq⟩ => Plan.noPublicHeader_inj.1 heq ▸ hg⟩

/-- The diagnostics of the report of a resolved file account for its outcomes. -/
theorem finalize_accounts (h : r.state = .resolving) :
    ∃ report done, finalize ctx r = .ok (report, done) ∧ Accounts ctx r report := by
  have hfinal : finalize ctx r = _ := Plan.finalize_of_resolving h
  have hstrands (header : FileName) :
      .noPublicHeader header ∈ ((Plan.make ctx r).report ctx r).diagnostics ↔
        ∃ u ∈ r.resolved, ∃ a, ctx.Strands r u a header := by
    simp only [mem_diagnostics_iff hfinal, DecisionContext.privateHeader_eq_some]
  obtain ⟨headers, hmap, hnodup⟩ := Plan.exists_headers (Plan.make ctx r)
  have hmem (header : FileName) :
      header ∈ headers ↔ ∃ u ∈ r.resolved, ∃ a, ctx.Strands r u a header :=
    (mem_headers_iff hmap).trans (hstrands header)
  have hprivate : ∀ header ∈ headers, ctx.providers.isPrivate header = true := by
    intro header hheader
    obtain ⟨u, -, a, hs⟩ := (hmem header).1 hheader
    exact hs.isPrivate
  exact ⟨_, _, hfinal, Plan.withCode_missing ctx r, Plan.withCode_undeclared ctx r,
    ⟨headers, hmap, hnodup, hprivate, hmem⟩, Plan.code_of_mem_log _⟩

/-- A source file that uses what the private `p.h` defines, twice, and something that nothing
declares. -/
def doubtfulUser : FileRecord where
  __ := facadeUser none
  resolved := [("C", 9, some "p.h"), ("D", 12, none), ("C", 15, some "p.h")].map fun e =>
    ⟨{ symbol := ⟨e.1, .record⟩, location := .plain ⟨.quoted "f.cc", e.2.1, 1⟩
       hints := { memberAccess := true } },
    ⟨.full, "complete_type_context"⟩,
    e.2.2.map fun f => ⟨none, .quoted f, .nearestDefinition⟩⟩

/-- Both uses of `C` are warned of, and the header at which they are stranded once. -/
theorem doubtful_uses_accounted :
    doubtfulUser.state = .resolving ∧
      ∃ report done, finalize (stranding ["c.h"]) doubtfulUser = .ok (report, done) ∧
        report.diagnostics =
          [.noPublicHeader (.quoted "a.h"), .needsDeclaration (.quoted "f.cc") 12 "D",
            .notDirectlyIncluded (.quoted "f.cc") 9 "C" (.quoted "d.h"),
            .notDirectlyIncluded (.quoted "f.cc") 15 "C" (.quoted "d.h")] ∧
        Accounts (stranding ["c.h"]) doubtfulUser report := by
  obtain ⟨report, done, h, haccounts⟩ := @finalize_accounts (stranding ["c.h"]) doubtfulUser rfl
  refine ⟨rfl, report, done, h, ?_, haccounts⟩
  rw [report_of_finalize h]
  decide +kernel

end FileReport

end IncludeAudit
