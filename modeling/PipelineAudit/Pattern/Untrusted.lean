import PipelineAudit.Pattern.Table

/-!
# Untrusted input

What anyone can write into a run: titles, bodies, branch names and commit messages. In the first
dialect they are harmful inside an expression, which is pasted into the script before it runs.
-/

namespace PipelineAudit.Untrusted

open Regex

/-- An entry for the first dialect. -/
def event (id : String) (regex : Regex) (description : String) : NamedPattern :=
  { id := id, regex := regex, description := description, dialects := [.github] }

/-- A shell variable, perhaps in braces, whose name starts with a pattern. -/
def shellVariable (id : String) (name : Regex) (description : String) : NamedPattern :=
  { id := id
    regex := lit "$" ++ opt (lit "\x7b") ++ name ++ opt (lit "\x7d")
    description := description
    severity := .warning
    dialects := [.gitlab] }

/-- Untrusted inputs, in the order in which they are reported. -/
def patterns : List NamedPattern := [
  event "issue-title" (lit "github.event.issue.title") "issue title",
  event "issue-body" (lit "github.event.issue.body") "issue body",
  event "pr-title" (lit "github.event.pull_request.title") "pull request title",
  event "pr-body" (lit "github.event.pull_request.body") "pull request body",
  event "pr-head-ref" (lit "github.event.pull_request.head." ++ words ["ref", "label"])
    "pull request head branch",
  event "comment-body" (lit "github.event.comment.body") "comment body",
  event "review-body" (lit "github.event.review.body") "review body",
  event "review-comment-body" (lit "github.event.review_comment.body") "review comment body",
  event "head-commit"
    (lit "github.event.head_commit."
      ++ (lit "message" ||| lit "author." ++ words ["email", "name"]))
    "head commit metadata",
  event "commits" (lit "github.event.commits" ++ boundary) "pushed commit metadata",
  event "workflow-run"
    (lit "github.event.workflow_run." ++ words ["head_branch", "head_commit", "display_title"])
    "triggering workflow run metadata",
  event "discussion" (lit "github.event.discussion." ++ words ["title", "body"])
    "discussion content",
  event "pages" (lit "github.event.pages" ++ boundary) "wiki page names",
  event "head-ref" (lit "github.head_ref") "head branch name",
  shellVariable "gitlab-mr-title" (lit "CI_MERGE_REQUEST_TITLE") "merge request title",
  shellVariable "gitlab-mr-description" (lit "CI_MERGE_REQUEST_DESCRIPTION")
    "merge request description",
  shellVariable "gitlab-mr-source-branch" (lit "CI_MERGE_REQUEST_SOURCE_BRANCH_NAME")
    "merge request source branch",
  shellVariable "gitlab-commit-message"
    (lit "CI_COMMIT_" ++ words ["MESSAGE", "TITLE", "DESCRIPTION"]) "commit message",
  shellVariable "gitlab-commit-branch" (lit "CI_COMMIT_" ++ words ["BRANCH", "REF_NAME"])
    "branch name"]

/-- The untrusted inputs that a text uses in a dialect. -/
def inText (text : String) (dialect : Dialect) : List NamedPattern :=
  patterns.filter fun p => p.found dialect text

/-- An expression; what is inside is group one. -/
def expression : Regex := exprOpen ++ group 1 (lazyStar (char .any)) ++ exprClose

/-- The insides of the expressions of a text. -/
def expressions (text : String) : List String :=
  (expression.findAll text).filterMap fun m => m.group? 1

/-- The untrusted inputs that the expressions of a text use, each one once, in the order in which
they are met. -/
def inExpressions (text : String) : List NamedPattern :=
  (expressions text).foldl (fun found inside =>
    (inText inside .github).foldl (fun found p =>
      if found.any (·.id == p.id) then found else found ++ [p]) found) []

/-- A ref that an outsider controls. -/
def ref : Regex := choice [
  lit "github.event." ++ words ["pull_request.head", "workflow_run.head"],
  lit "github.head_ref",
  lit "refs/pull/"]

end PipelineAudit.Untrusted
