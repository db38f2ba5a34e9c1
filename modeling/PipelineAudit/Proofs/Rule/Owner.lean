import PipelineAudit.Proofs.Workflow.Lines
import PipelineAudit.Rule.Credentials

/-!
# The job around a line

The search for the job around a line goes through the jobs and knows only where they start. It finds
the one that starts last at or before the line (`Rules.StartsLast`): what has been found among some
jobs is kept or replaced by the next one (`Rules.StartsLast.snoc`), so that the search finds it
among all of them (`Rules.startsLast_jobAround`). It is the same for all lines between which no job
starts (`Rules.jobAround_congr`).
-/

namespace PipelineAudit

/-- The line at which a job starts, if it is known. -/
def Job.start? (j : Job) : Option Int := j.line.number?

namespace Rules

/-- Of some jobs, one starts last at or before a line, the one that stands last in the list if
several start together; or none of them starts there. -/
inductive StartsLast (line : Int) : List Job → Option Job → Prop
  | none {jobs : List Job} (h : ∀ j ∈ jobs, ∀ n, j.start? = some n → line < n) :
    StartsLast line jobs none
  | job {before after : List Job} {j : Job} {n : Int} (hstart : j.start? = some n)
      (hline : n ≤ line) (hbefore : ∀ k ∈ before, ∀ m, k.start? = some m → m ≤ line → m ≤ n)
      (hafter : ∀ k ∈ after, ∀ m, k.start? = some m → m ≤ line → m < n) :
      StartsLast line (before ++ j :: after) (some j)

variable {line line' m n : Int} {jobs : List Job} {owner : Option Job} {j o : Job}
    {v w : Value} {d : Document}

/-- Of two known places it is told which one comes first. -/
lemma isAtMost_of_number? (hv : v.IsPlace) (hw : w.IsPlace) (hm : v.number? = some m)
    (hn : w.number? = some n) : isAtMost v w = .ok (decide (m ≤ n)) := by
  cases hv <;> cases hw <;> cases hm <;> cases hn <;> rfl

/-- A place is known if it has a number. -/
lemma isNull_iff_number? (hv : v.IsPlace) : v.isNull = true ↔ v.number? = none := by
  cases hv <;> simp [Value.isNull, Value.number?]

/-! ## The job that starts last -/

/-- A job that starts behind the line, or nowhere, changes nothing. -/
lemma StartsLast.append_later (h : StartsLast line jobs owner)
    (hj : ∀ n, j.start? = some n → line < n) : StartsLast line (jobs ++ [j]) owner := by
  cases h with
  | none h =>
      refine .none fun k hk n hn => ?_
      rcases List.mem_append.mp hk with hk | hk
      · exact h k hk n hn
      · obtain rfl := List.mem_singleton.mp hk
        exact hj n hn
  | job hstart hline hbefore hafter =>
      rw [List.append_assoc, List.cons_append]
      refine .job hstart hline hbefore fun k hk m hm hle => ?_
      rcases List.mem_append.mp hk with hk | hk
      · exact hafter k hk m hm hle
      · obtain rfl := List.mem_singleton.mp hk
        exact absurd hle (Int.not_le.mpr (hj m hm))

/-- No job starts between the one that starts last and the line. -/
lemma StartsLast.le (h : StartsLast line jobs (some o)) (ho : o.start? = some n) {k : Job}
    (hk : k ∈ jobs) (hm : k.start? = some m) (hle : m ≤ line) : m ≤ n := by
  cases h with
  | job hstart hline hbefore hafter =>
      cases hstart.symm.trans ho
      rcases List.mem_append.mp hk with hk | hk
      · exact hbefore k hk m hm hle
      · rcases List.mem_cons.mp hk with rfl | hk
        · exact Int.le_of_eq (Option.some.inj (ho.symm.trans hm)).symm
        · exact Int.le_of_lt (hafter k hk m hm hle)

/-- The job that starts last is one of the jobs. -/
lemma StartsLast.mem (h : StartsLast line jobs (some o)) : o ∈ jobs := by
  cases h
  simp

/-- It starts at the line or before it. -/
lemma StartsLast.exists_start (h : StartsLast line jobs (some o)) :
    ∃ n, o.start? = some n ∧ n ≤ line := by
  cases h with
  | job hstart hline => exact ⟨_, hstart, hline⟩

/-! ## The search -/

/-- The search passes over a job that starts behind the line, or nowhere. -/
lemma laterOwner_of_lt (hj : j.line.IsPlace) (h : ∀ n, j.start? = some n → line < n) :
    laterOwner line owner j = .ok owner := by
  unfold laterOwner
  split_ifs with hnull
  · rfl
  · obtain ⟨n, hn⟩ := Option.ne_none_iff_exists'.mp ((isNull_iff_number? hj).not.mp hnull)
    have hlater : ¬n ≤ line := Int.not_le.mpr (h n hn)
    rw [isAtMost_of_number? hj (.int line) hn rfl]
    simp [hlater, bind, Except.bind, pure, Except.pure]

/-- The search takes a job that starts at or before the line, unless it knows one that starts
later. -/
lemma laterOwner_of_le (hj : j.line.IsPlace) (hn : j.start? = some n) (hle : n ≤ line)
    (howner : ∀ o, owner = some o → o.line.IsPlace ∧ ∃ m, o.start? = some m) :
    ∃ later, laterOwner line owner j = .ok later ∧
      ((later = some j ∧ ∀ o m, owner = some o → o.start? = some m → m ≤ n) ∨
        ∃ o m, later = some o ∧ owner = some o ∧ o.start? = some m ∧ n < m) := by
  have hnull : ¬j.line.isNull = true := fun hnull => by
    rw [isNull_iff_number? hj] at hnull
    cases hn.symm.trans hnull
  unfold laterOwner
  rw [if_neg hnull, isAtMost_of_number? hj (.int line) hn rfl]
  cases owner with
  | none => exact ⟨some j, by simp [hle, bind, Except.bind, pure, Except.pure], .inl ⟨rfl, nofun⟩⟩
  | some o =>
      obtain ⟨ho, m, hm⟩ := howner o rfl
      refine ⟨if m ≤ n then some j else some o, ?_, ?_⟩
      · simp [hle, bind, Except.bind, pure, Except.pure, isAtMost_of_number? ho hj hm hn]
      · split_ifs with hmn
        · refine .inl ⟨rfl, ?_⟩
          rintro o' m' ⟨⟩ hm'
          cases hm.symm.trans hm'
          exact hmn
        · exact .inr ⟨o, m, rfl, rfl, hm, Int.not_le.mp hmn⟩

/-- What has been found among some jobs is kept or replaced by the next one. -/
lemma StartsLast.snoc (h : StartsLast line jobs owner) (hjobs : ∀ k ∈ jobs, k.line.IsPlace)
    (hj : j.line.IsPlace) :
    ∃ later, laterOwner line owner j = .ok later ∧ StartsLast line (jobs ++ [j]) later := by
  by_cases hstart : ∀ n, j.start? = some n → line < n
  · exact ⟨owner, laterOwner_of_lt hj hstart, h.append_later hstart⟩
  · obtain ⟨n, hn, hle⟩ : ∃ n, j.start? = some n ∧ n ≤ line := by simpa using hstart
    have howner : ∀ o, owner = some o → o.line.IsPlace ∧ ∃ m, o.start? = some m := by
      rintro o rfl
      obtain ⟨m, hm, -⟩ := h.exists_start
      exact ⟨hjobs o h.mem, m, hm⟩
    obtain ⟨later, hlater, ⟨rfl, hold⟩ | ⟨o, m, rfl, rfl, hm, hlt⟩⟩ :=
      laterOwner_of_le hj hn hle howner
    · refine ⟨some j, hlater, .job hn hle (fun k hk m hm hmle => ?_) (by simp)⟩
      cases h with
      | none hnone => exact absurd hmle (Int.not_le.mpr (hnone k hk m hm))
      | job hstart hline hbefore hafter =>
          exact Int.le_trans ((StartsLast.job hstart hline hbefore hafter).le hstart hk hm hmle)
            (hold _ _ rfl hstart)
    · refine ⟨some o, hlater, ?_⟩
      cases h with
      | job hstart hline hbefore hafter =>
          cases hstart.symm.trans hm
          rw [List.append_assoc, List.cons_append]
          refine .job hstart hline hbefore fun k hk m' hm' hle' => ?_
          rcases List.mem_append.mp hk with hk | hk
          · exact hafter k hk m' hm' hle'
          · obtain rfl := List.mem_singleton.mp hk
            cases hn.symm.trans hm'
            exact hlt

/-- So the search through the jobs that are left finds it among all of them. -/
lemma StartsLast.exists_foldlM {before rest : List Job} (h : StartsLast line before owner)
    (hplaces : ∀ k ∈ before ++ rest, k.line.IsPlace) : ∃ last,
      rest.foldlM (laterOwner line) owner = .ok last ∧ StartsLast line (before ++ rest) last := by
  induction rest generalizing before owner with
  | nil => exact ⟨owner, rfl, by rwa [List.append_nil]⟩
  | cons j rest ih =>
      obtain ⟨later, hlater, hnext⟩ := h.snoc
        (fun k hk => hplaces k (List.mem_append_left _ hk)) (hplaces j (by simp))
      obtain ⟨last, hlast, hall⟩ := ih hnext (by simpa using hplaces)
      refine ⟨last, ?_, by simpa using hall⟩
      rw [List.foldlM_cons]
      exact bind_eq_ok.mpr ⟨later, hlater, hlast⟩

/-- The job around a line is the one that starts last at or before it. -/
lemma startsLast_jobAround (h : d.IsLined) (line : Int) :
    ∃ owner, jobAround d line = .ok (owner.map Job.id) ∧ StartsLast line d.jobs owner := by
  have hnone : StartsLast line [] none := .none nofun
  have hplaces : ∀ k ∈ [] ++ d.jobs, k.line.IsPlace := h
  obtain ⟨owner, howner, hall⟩ := hnone.exists_foldlM hplaces
  exact ⟨owner, bind_eq_ok.mpr ⟨owner, howner, rfl⟩, hall⟩

/-! ## Lines with the same job -/

/-- The search does the same for two lines if the job does not start between them. -/
lemma laterOwner_congr (hj : j.line.IsPlace) (hline : line ≤ line')
    (hnone : ∀ n, j.start? = some n → line < n → line' < n) :
    laterOwner line' owner j = laterOwner line owner j := by
  unfold laterOwner
  split_ifs with hnull
  · rfl
  · obtain ⟨n, hn⟩ := Option.ne_none_iff_exists'.mp ((isNull_iff_number? hj).not.mp hnull)
    have hsame : n ≤ line' ↔ n ≤ line := by
      constructor
      · exact fun hle => Int.not_lt.mp fun hlt => absurd hle (Int.not_le.mpr (hnone n hn hlt))
      · exact fun hle => Int.le_trans hle hline
    rw [isAtMost_of_number? hj (.int line') hn rfl, isAtMost_of_number? hj (.int line) hn rfl,
      decide_eq_decide.mpr hsame]

/-- A line further on has the same owner if no job starts between. -/
lemma foldlM_laterOwner_congr (hjobs : ∀ j ∈ jobs, j.line.IsPlace) (hline : line ≤ line')
    (hnone : ∀ j ∈ jobs, ∀ n, j.start? = some n → line < n → line' < n) :
    jobs.foldlM (laterOwner line') owner = jobs.foldlM (laterOwner line) owner := by
  induction jobs generalizing owner with
  | nil => rfl
  | cons j rest ih =>
      rw [List.forall_mem_cons] at hjobs hnone
      rw [List.foldlM_cons, List.foldlM_cons, laterOwner_congr hjobs.1 hline hnone.1]
      exact congrArg _ (funext fun later => ih hjobs.2 hnone.2)

/-- The job around a line is the one around an earlier line, if no job starts between them. -/
lemma jobAround_congr (h : d.IsLined) (hline : line ≤ line')
    (hnone : ∀ j ∈ d.jobs, ∀ n, j.start? = some n → line < n → line' < n) :
    jobAround d line' = jobAround d line := by
  unfold jobAround
  rw [foldlM_laterOwner_congr h hline hnone]

end Rules

end PipelineAudit
