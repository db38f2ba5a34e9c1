import Mathlib.Algebra.Order.Field.Rat
import Mathlib.Algebra.Order.Ring.Cast
import Mathlib.Tactic.Ring
import PipelineAudit.Proofs.Report.Independence

/-!
# Reports that agree with themselves

Findings, summary, score and the overview of security findings are computed one after the other,
from whatever the parts of a report are. They agree (`Report.IsConsistent`), since all of them look
at the same final list: repeats are dropped before ids are given, ids are no part of what a finding
is about, and a severity is one of three (`Summary.sum_count`).

The score takes a fixed amount off for each error and each warning (`Summary.score_ofFindings`). So
findings that are added to a report do not raise it, and neither do findings that come after those
which go into one (`Aggregate.score_report_append_le`). Of findings before them this is not so: one
that is put in front of an error and repeats it takes its place.
-/

namespace PipelineAudit

/-! ## Summaries -/

namespace Summary

/-- Every finding has one of the three severities. -/
lemma sum_count (findings : List Finding) :
    count .error findings + count .warning findings + count .info findings = findings.length := by
  induction findings with
  | nil => rfl
  | cons f rest ih =>
      simp only [count] at ih
      cases hf : f.severity <;> simp [count, hf] <;> omega

/-- The score, which is 100 without findings, too. -/
lemma score_ofFindings (findings : List Finding) :
    (ofFindings findings).score = 100 -
      (20 * count .error findings + 10 * count .warning findings) := by
  have hsum := sum_count findings
  simp only [ofFindings, scoreOf, errorPenalty, warningPenalty]
  split_ifs <;> omega

/-- The score of findings is no better than that of others of which fewer are errors or warnings. -/
lemma score_le_of_count_le {findings more : List Finding}
    (herror : count .error findings ≤ count .error more)
    (hwarning : count .warning findings ≤ count .warning more) :
    (ofFindings more).score ≤ (ofFindings findings).score := by
  rw [score_ofFindings, score_ofFindings]
  omega

/-- The numbers by severity do not depend on ids. -/
lemma count_withIds (severity : Severity) (findings : List Finding) :
    count severity (Aggregate.withIds findings) = count severity findings := by
  have hsame : ∀ f : Finding, (f.withoutId.severity == severity) = (f.severity == severity) :=
    fun _ => rfl
  simpa [count] using congrArg List.length (Aggregate.filter_withIds hsame findings)

end Summary

/-- Numbering makes no repeats. -/
lemma Aggregate.pairwise_withIds {findings : List Finding}
    (h : findings.Pairwise fun f g => f.same g = false) :
    (withIds findings).Pairwise fun f g => f.same g = false := by
  have hids : (withIds findings).map Finding.withoutId = findings.map Finding.withoutId :=
    map_withoutId_withIdsFrom 0 [] findings
  have hkey : ∀ f : Finding, f.withoutId.key = f.key := fun _ => rfl
  have hpair := Finding.pairwise_map hkey h
  rw [← hids, List.pairwise_map] at hpair
  exact hpair

/-! ## Overviews -/

/-- No finding has two verdicts. -/
lemma ExposureCounts.highRisk_add_mitigated_le (findings : List Finding) :
    (findings.filter (hasVerdict .highRisk)).length +
      (findings.filter (hasVerdict .mitigated)).length ≤ findings.length := by
  have hsub : (findings.filter (hasVerdict .highRisk)).Sublist
      (findings.filter fun f => !hasVerdict .mitigated f) := by
    refine List.monotone_filter_right findings fun f hf => ?_
    unfold hasVerdict at hf ⊢
    cases hr : f.reachability with
    | none => rfl
    | some a =>
        simp only [hr, beq_iff_eq] at hf
        simp [hf]
  have hlength := hsub.length_le
  have hsplit := List.length_eq_length_filter_add (hasVerdict .mitigated) (l := findings)
  omega

/-- An overview is the one over the security findings among some findings. -/
structure ExposureOverview.IsConsistent (o : ExposureOverview) (findings : List Finding) :
    Prop where
  insights : o.insights = findings.filter (·.category == .security)
  total : o.stats.total = o.insights.length
  mitigated : o.stats.mitigated = (o.insights.filter (ExposureCounts.hasVerdict .mitigated)).length
  highRisk : o.stats.highRisk = (o.insights.filter (ExposureCounts.hasVerdict .highRisk)).length
  reachable_add_mitigated : o.stats.reachable + o.stats.mitigated = o.stats.total
  highRisk_le_reachable : o.stats.highRisk ≤ o.stats.reachable

/-- The overview of a report is one over its findings. -/
lemma ExposureOverview.isConsistent_ofFindings (context : Context) (findings : List Finding) :
    IsConsistent ⟨.ofFindings (findings.filter (·.category == .security)), context,
      findings.filter (·.category == .security)⟩ findings := by
  have hverdicts :=
    ExposureCounts.highRisk_add_mitigated_le (findings.filter (·.category == .security))
  have hmitigated := List.length_filter_le (ExposureCounts.hasVerdict .mitigated)
    (findings.filter (·.category == .security))
  rw [ExposureCounts.ofFindings_security]
  refine ⟨rfl, rfl, rfl, rfl, ?_, ?_⟩
  · exact Nat.sub_add_cancel hmitigated
  · exact Nat.le_sub_of_add_le hverdicts

/-! ## Reports -/

/-- What a report says in several places agrees. -/
structure Report.IsConsistent (r : Report) : Prop where
  /-- No finding repeats one before it. -/
  pairwise : r.findings.Pairwise fun f g => f.same g = false
  /-- No two findings have category, title and location in common, where locations are themselves: a
  line may be a decimal that is no number. -/
  nodup_key : (∀ f ∈ r.findings, f.same f = true) → (r.findings.map Finding.key).Nodup
  total : r.summary.total = r.findings.length
  errors : r.summary.errors = Summary.count .error r.findings
  warnings : r.summary.warnings = Summary.count .warning r.findings
  infos : r.summary.infos = Summary.count .info r.findings
  sum : r.summary.errors + r.summary.warnings + r.summary.infos = r.summary.total
  score_le : r.summary.score ≤ 100
  score_eq : (r.summary.score : ℤ) =
    max 0 (100 - 20 * (r.summary.errors : ℤ) - 10 * (r.summary.warnings : ℤ))
  /-- In parts of fifty an error takes ten and a warning five, and the score counts in
  hundredths. -/
  score_exact : (r.summary.score : ℚ) =
    max 0 ((1 - (10 * (r.summary.errors : ℚ) + 5 * (r.summary.warnings : ℚ)) / 50) * 100)
  /-- Findings that are added, wherever they stand, do not raise the score. -/
  score_antitone : ∀ more : List Finding, r.findings.Sublist more →
    (Summary.ofFindings more).score ≤ r.summary.score
  overview : ∀ o, r.reachability = some o → o.IsConsistent r.findings

/-- Where no finding repeats one before it, no two have category, title and location in common. -/
lemma Finding.nodup_key {findings : List Finding} (hself : ∀ f ∈ findings, f.same f = true)
    (h : findings.Pairwise fun f g => f.same g = false) : (findings.map key).Nodup := by
  refine List.pairwise_map.mpr (h.imp_of_mem fun {f g} hf _ hfg hkey => ?_)
  rw [← same_congr rfl hkey, hself f hf] at hfg
  cases hfg

namespace Aggregate

/-- **A report agrees with itself**, whatever it is put together from; and it has an overview of
security findings if it is asked for. -/
theorem report_isConsistent (p : Parts) :
    (report p).IsConsistent ∧ (report p).reachability.isSome = p.withReachability := by
  have hpair : (report p).findings.Pairwise fun f g => f.same g = false :=
    pairwise_withIds (Finding.pairwise_distinct _)
  have hscore : (report p).summary.score =
      100 - (20 * (report p).summary.errors + 10 * (report p).summary.warnings) :=
    Summary.score_ofFindings (report p).findings
  have hscoreInt : ((report p).summary.score : ℤ) =
      max 0
        (100 - 20 * ((report p).summary.errors : ℤ) - 10 * ((report p).summary.warnings : ℤ)) := by
    omega
  refine ⟨⟨hpair, fun hself => Finding.nodup_key hself hpair, rfl, rfl, rfl, rfl,
    Summary.sum_count _, ?_, hscoreInt, ?_, fun more hmore =>
      Summary.score_le_of_sublist hmore, ?_⟩, ?_⟩
  · omega
  · have hscoreRat : ((report p).summary.score : ℚ) =
        max 0 (100 - 20 * ((report p).summary.errors : ℚ) - 10 *
          ((report p).summary.warnings : ℚ)) := by
      exact_mod_cast hscoreInt
    rw [hscoreRat]
    congr 1
    ring
  · intro o ho
    simp only [report] at ho ⊢
    split_ifs at ho with hreach
    obtain rfl := Option.some.inj ho
    exact ExposureOverview.isConsistent_ofFindings p.context (findings p)
  · simp only [report]
    split_ifs with hreach <;> simp [hreach]

end Aggregate

/-! ## Findings that come later -/

/-- Of findings that come after others, some stay after those which stay of the others. -/
lemma Finding.exists_distinctFrom_append (seen findings more : List Finding) :
    ∃ rest, distinctFrom seen (findings ++ more) = distinctFrom seen findings ++ rest ∧
      rest.Sublist more := by
  induction findings generalizing seen with
  | nil => exact ⟨distinctFrom seen more, rfl, distinctFrom_sublist seen more⟩
  | cons f findings ih =>
      rw [List.cons_append, distinctFrom, distinctFrom]
      split_ifs with hseen
      · exact ih seen
      · obtain ⟨rest, heq, hrest⟩ := ih (f :: seen)
        exact ⟨rest, by rw [heq, List.cons_append], hrest⟩

namespace Aggregate

/-- Advisories are information. -/
lemma severity_of_mem_advisories {context : Context} {fileName : String} {f : Finding}
    (h : f ∈ advisories context fileName) : f.severity = .info := by
  rcases mem_advisories h with rfl | ⟨jobs, rfl⟩
  · rfl
  · rfl

/-- What goes into a report before repeats are dropped, advisories aside. -/
def chosen (p : Parts) : List Finding :=
  restrict p.options (inContext p.context (merge p.ofRules p.ofGraph p.annotated))

/-- No error or warning of a report is an advisory. -/
lemma count_findings (p : Parts) {severity : Severity} (h : severity ≠ .info) :
    Summary.count severity (findings p) = Summary.count severity (Finding.distinct (chosen p)) := by
  obtain ⟨rest, heq, hrest⟩ := Finding.exists_distinctFrom_append [] (chosen p)
    (restrict p.options (advisories p.context p.fileName))
  have hnone : rest.filter (·.severity == severity) = [] := by
    refine List.filter_eq_nil_iff.mpr fun f hf => ?_
    have hadvisory := List.mem_of_mem_filter (hrest.subset hf)
    simpa [severity_of_mem_advisories hadvisory] using h.symm
  have hfindings : findings p = withIds (Finding.distinct (chosen p) ++ rest) := by
    rw [findings, restrict, List.filter_append]
    exact congrArg withIds heq
  rw [hfindings, Summary.count_withIds, Summary.count, List.filter_append, hnone, List.append_nil,
    Summary.count]

/-- **Findings that come after the others do not raise the score**, also where they repeat
others. -/
theorem score_report_append_le (p : Parts) (more : List Finding) :
    (report { p with ofGraph := p.ofGraph ++ more }).summary.score ≤ (report p).summary.score := by
  let later := restrict p.options (inContext p.context (more.map (annotatedAs p.annotated)))
  have hchosen : chosen { p with ofGraph := p.ofGraph ++ more } = chosen p ++ later := by
    simp only [chosen, later, merge, inContext, restrict, ← List.append_assoc, List.map_append,
      List.filter_append]
  obtain ⟨rest, heq, -⟩ := Finding.exists_distinctFrom_append [] (chosen p) later
  have hcount : ∀ severity ≠ Severity.info, Summary.count severity (findings p) ≤
      Summary.count severity (findings { p with ofGraph := p.ofGraph ++ more }) := by
    intro severity hinfo
    rw [count_findings p hinfo, count_findings _ hinfo, hchosen, Finding.distinct,
      Finding.distinct, heq]
    exact Summary.count_le_of_sublist (List.sublist_append_left _ _) severity
  exact Summary.score_le_of_count_le (hcount .error (by decide)) (hcount .warning (by decide))

end Aggregate

end PipelineAudit
