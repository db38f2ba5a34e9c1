/-!
# The release of this tool
-/

namespace PipelineAudit.Release

/-- The name under which the tool reports. -/
def toolName : String := "flowlyt"

/-- The version of the tool. -/
def version : String := "0.3.0"

/-- The day of the release. -/
def date : String := "2025-06-02"

/-- The year of the release. -/
def year : Nat := 2025

/-- The version of the tables of patterns. -/
def ruleTableVersion : String := "2025.06.1"

end PipelineAudit.Release
