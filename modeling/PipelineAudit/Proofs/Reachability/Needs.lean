import Mathlib.Logic.Relation
import PipelineAudit.Proofs.Workflow.Document
import PipelineAudit.Reachability

/-!
# The jobs that a job needs

`Reachability.neededFrom` walks along needs with a queue and a list of the jobs that it may still
visit. Two facts carry the walk: what holds of the queue and is handed on along needs holds of every
job that is met (`of_mem_neededFrom`), and the jobs that are met are closed under needs, those aside
that were not to be visited (`mem_neededFrom_of_needs`). So from a job the walk meets exactly the
other jobs that can be reached by needs over jobs that exist (`mem_neededJobs_iff`), whatever cycles
the needs have and whatever jobs they name that do not exist.
-/

namespace PipelineAudit

open Relation (TransGen)

namespace Document

variable {d : Document} {u v : String}

/-- A job needs another job of the document. -/
def Needs (d : Document) (u v : String) : Prop :=
  v ∈ d.jobIds ∧ ∃ j ∈ d.jobs, j.id = u ∧ v ∈ j.needs

/-- Under distinct ids, needs are what the job with an id says. -/
lemma mem_needsOf_iff (hd : d.jobIds.Nodup) :
    v ∈ Reachability.needsOf d u ↔ ∃ j ∈ d.jobs, j.id = u ∧ v ∈ j.needs := by
  unfold Reachability.needsOf
  constructor
  · intro hv
    cases hu : d.job? u with
    | none => simp [hu] at hv
    | some j =>
        obtain ⟨hj, hid⟩ := (job?_eq_some_iff hd).mp hu
        exact ⟨j, hj, hid, by simpa [hu] using hv⟩
  · rintro ⟨j, hj, rfl, hv⟩
    simpa [(job?_eq_some_iff hd).mpr ⟨hj, rfl⟩] using hv

/-- Under distinct ids, a job needs the jobs of the document among those that it names. -/
lemma needs_iff (hd : d.jobIds.Nodup) :
    d.Needs u v ↔ v ∈ d.jobIds ∧ v ∈ Reachability.needsOf d u := by
  rw [mem_needsOf_iff hd, Needs]

end Document

namespace Reachability

section walk

variable {needs : String → List String} {unvisited queue later : List String} {job x y : String}

/-- A walk along needs ends where no job in the queue may be visited. -/
lemma neededFrom_of_nil (h : fromUnvisited unvisited queue = []) :
    neededFrom needs unvisited queue = [] := by
  rw [neededFrom]
  split
  · rfl
  · rename_i hcons
    rw [h] at hcons
    cases hcons

/-- It goes on with the first one that may. -/
lemma neededFrom_of_cons (h : fromUnvisited unvisited queue = job :: later) :
    neededFrom needs unvisited queue = job ::
      neededFrom needs (unvisited.erase job) (later ++ needs job) := by
  rw [neededFrom]
  split
  · rename_i hnil
    rw [h] at hnil
    cases hnil
  · rename_i hcons
    obtain ⟨rfl, rfl⟩ := List.cons.inj (h.symm.trans hcons)
    rfl

/-- Passing over visited jobs loses no other ones. -/
lemma mem_fromUnvisited_iff (hleft : x ∈ unvisited) :
    x ∈ fromUnvisited unvisited queue ↔ x ∈ queue := by
  constructor
  · exact fun h => (List.dropWhile_sublist _).mem h
  · intro h
    rw [← List.takeWhile_append_dropWhile (p := fun job => !unvisited.contains job) (l := queue)]
      at h
    refine (List.mem_append.mp h).resolve_left fun hpassed => ?_
    have hvisited := List.all_eq_true.mp List.all_takeWhile x hpassed
    simp [hleft] at hvisited

/-- The walk meets only jobs that it may visit. -/
lemma mem_unvisited_of_mem_neededFrom (h : x ∈ neededFrom needs unvisited queue) :
    x ∈ unvisited := by
  fun_induction neededFrom needs unvisited queue with
  | case1 => cases h
  | case2 unvisited queue job later hqueue ih =>
      rcases List.mem_cons.mp h with rfl | h
      · exact mem_of_fromUnvisited hqueue
      · exact List.mem_of_mem_erase (ih h)

/-- What holds of the jobs in the queue, and is handed on along needs, holds of the jobs that are
met. -/
lemma of_mem_neededFrom {p : String → Prop} (hfirst : ∀ q ∈ queue, q ∈ unvisited → p q)
    (hstep : ∀ a b, p a → b ∈ needs a → b ∈ unvisited → p b)
    (h : x ∈ neededFrom needs unvisited queue) : p x := by
  fun_induction neededFrom needs unvisited queue with
  | case1 => cases h
  | case2 unvisited queue job later hqueue ih =>
      have hleft : job ∈ unvisited := mem_of_fromUnvisited hqueue
      have hin : ∀ q ∈ job :: later, q ∈ queue := fun q hq =>
        (List.dropWhile_sublist _).mem (hqueue ▸ hq)
      have hp : p job := hfirst job (hin job List.mem_cons_self) hleft
      rcases List.mem_cons.mp h with rfl | h
      · exact hp
      · refine ih ?_ (fun a b ha hb hleft => hstep a b ha hb (List.mem_of_mem_erase hleft)) h
        intro q hq hleft
        rcases List.mem_append.mp hq with hq | hq
        · exact hfirst q (hin q (List.mem_cons_of_mem job hq)) (List.mem_of_mem_erase hleft)
        · exact hstep job q hp hq (List.mem_of_mem_erase hleft)

/-- The walk meets every job in the queue that it may visit. -/
lemma mem_neededFrom_of_mem_queue (hx : x ∈ queue) (hleft : x ∈ unvisited) :
    x ∈ neededFrom needs unvisited queue := by
  fun_induction neededFrom needs unvisited queue with
  | case1 unvisited queue hqueue =>
      have hx := (mem_fromUnvisited_iff hleft).mpr hx
      rw [hqueue] at hx
      cases hx
  | case2 unvisited queue job later hqueue ih =>
      have hx := (mem_fromUnvisited_iff hleft).mpr hx
      rw [hqueue] at hx
      by_cases hxj : x = job
      · exact hxj ▸ List.mem_cons_self
      · have hx : x ∈ later := (List.mem_cons.mp hx).resolve_left hxj
        exact List.mem_cons_of_mem job
          (ih (List.mem_append_left _ hx) ((List.mem_erase_of_ne hxj).mpr hleft))

/-- The walk meets what the jobs that it meets need, if it may visit that. -/
lemma mem_neededFrom_of_needs (hx : x ∈ neededFrom needs unvisited queue) (hy : y ∈ needs x)
    (hleft : y ∈ unvisited) : y ∈ neededFrom needs unvisited queue := by
  fun_induction neededFrom needs unvisited queue with
  | case1 => cases hx
  | case2 unvisited queue job later hqueue ih =>
      by_cases hyj : y = job
      · exact hyj ▸ List.mem_cons_self
      · have hleft : y ∈ unvisited.erase job := (List.mem_erase_of_ne hyj).mpr hleft
        rcases List.mem_cons.mp hx with rfl | hx
        · -- what a job needs is queued when the job is met
          exact List.mem_cons_of_mem x
            (mem_neededFrom_of_mem_queue (List.mem_append_right later hy) hleft)
        · exact List.mem_cons_of_mem job (ih hx hleft)

end walk

/-- **The jobs that a job needs** are the other jobs that can be reached from it by one or more
needs over jobs of the document. -/
theorem mem_neededJobs_iff {d : Document} (hd : d.jobIds.Nodup) {u x : String} :
    x ∈ neededJobs d u ↔ x ≠ u ∧ TransGen d.Needs u x := by
  have hvisit : ∀ {y}, y ∈ d.jobIds.filter (· != u) ↔ y ∈ d.jobIds ∧ y ≠ u := by simp
  unfold neededJobs
  constructor
  · intro h
    refine ⟨(hvisit.mp (mem_unvisited_of_mem_neededFrom h)).2, ?_⟩
    refine of_mem_neededFrom ?_ ?_ h
    · intro q hq hleft
      exact .single ((Document.needs_iff hd).mpr ⟨(hvisit.mp hleft).1, hq⟩)
    · intro a b ha hb hleft
      exact ha.tail ((Document.needs_iff hd).mpr ⟨(hvisit.mp hleft).1, hb⟩)
  · rintro ⟨hne, h⟩
    induction h with
    | single h =>
        obtain ⟨hjob, hqueue⟩ := (Document.needs_iff hd).mp h
        exact mem_neededFrom_of_mem_queue hqueue (hvisit.mpr ⟨hjob, hne⟩)
    | @tail y x _ h ih =>
        obtain ⟨hjob, hy⟩ := (Document.needs_iff hd).mp h
        by_cases hyu : y = u
        · -- a way that comes back to the start begins anew there
          exact mem_neededFrom_of_mem_queue (hyu ▸ hy) (hvisit.mpr ⟨hjob, hne⟩)
        · exact mem_neededFrom_of_needs (ih hyu) hy (hvisit.mpr ⟨hjob, hne⟩)

end Reachability

end PipelineAudit
