import Mathlib.Order.Lattice.Nat
import PipelineAudit.Proofs.Reachability.Needs

/-!
# The jobs that a job needs, nearest first

A search for the jobs that a job needs keeps a queue and the jobs that were met (`Search`). A round
takes one job from the queue; if that is new it is met, and what it needs is queued behind the rest.
The queue may grow and may hold a job many times, but a job is met once, so every search ends, after
as many rounds as there are needs to queue (`Search.after_rounds`), and what it has met then is
`Reachability.neededJobs`.

The order is that of distance. While the jobs at one distance are looked at, the queue holds those
of them that are left and behind these only jobs one need further on (`Reachability.IsFrontier`);
what is not visited is no nearer than that. A round keeps this or turns to the next distance
(`Reachability.IsFrontier.advance`), so no job is met before a nearer one
(`Reachability.pairwise_neededFrom`).
-/

namespace PipelineAudit

/-! ## Distances -/

namespace Document

variable {d : Document} {u v w : String} {n : Nat}

/-- From a job one gets to another job by so many needs over jobs of the document. -/
inductive NeedsIn (d : Document) (u : String) : Nat → String → Prop where
  | refl : NeedsIn d u 0 u
  | tail {n : Nat} {v w : String} : NeedsIn d u n v → d.Needs v w → NeedsIn d u (n + 1) w

/-- The number of needs on a shortest way from a job to another job that it needs. -/
noncomputable def needsDistance (d : Document) (u v : String) : Nat := sInf {n | d.NeedsIn u n v}

/-- A way to another job ends at a job of the document. -/
lemma NeedsIn.mem_jobIds (h : d.NeedsIn u n v) (hne : v ≠ u) : v ∈ d.jobIds := by
  cases h with
  | refl => exact absurd rfl hne
  | tail _ h => exact h.1

/-- No way is shorter than the distance. -/
lemma needsDistance_le (h : d.NeedsIn u n v) : d.needsDistance u v ≤ n := Nat.sInf_le h

/-- The distance is at least what bounds all ways, if there is one. -/
lemma le_needsDistance (h : d.NeedsIn u n v) {m : Nat} (hm : ∀ k, d.NeedsIn u k v → m ≤ k) :
    m ≤ d.needsDistance u v :=
  le_csInf ⟨n, h⟩ hm

end Document

namespace Reachability

variable {d : Document} {u job : String} {n : Nat}
    {unvisited current behind later queue : List String}

/-! ## Distances on the walk -/

/-- The state of the walk from a job while it looks at the jobs at one distance: `current` is what
is left of them in the queue, and `behind` was queued after them. -/
structure IsFrontier (d : Document) (u : String) (n : Nat)
    (unvisited current behind : List String) : Prop where
  /-- What is left are jobs at this distance. -/
  needsIn : ∀ x ∈ current, x ∈ unvisited → d.NeedsIn u n x
  /-- What was queued are jobs one need further on. -/
  needsIn_succ : ∀ x ∈ behind, x ∈ unvisited → d.NeedsIn u (n + 1) x
  /-- No unvisited job is nearer. -/
  least : ∀ x ∈ unvisited, ∀ k, d.NeedsIn u k x → n ≤ k
  /-- The unvisited jobs at this distance are left in the queue. -/
  left : ∀ x ∈ unvisited, d.NeedsIn u n x → x ∈ current
  /-- A visited job is nearer, or it is at this distance and what it needs was queued. -/
  visited : ∀ y m, d.NeedsIn u m y → y ∉ unvisited →
    (∃ k < n, d.NeedsIn u k y) ∨
      (d.NeedsIn u n y ∧ ∀ x ∈ needsOf d y, x ∈ unvisited → x ∈ behind)

/-- The walk starts with what the job needs itself. -/
lemma isFrontier_needsOf (hd : d.jobIds.Nodup) :
    IsFrontier d u 1 (d.jobIds.filter (· != u)) (needsOf d u) [] where
  needsIn x hx hleft :=
    .tail .refl ((Document.needs_iff hd).mpr ⟨(List.mem_filter.mp hleft).1, hx⟩)
  needsIn_succ := nofun
  least x hleft k hk := by
    cases hk with
    | refl => simp at hleft
    | tail => omega
  left x _ hx := by
    cases hx with
    | tail hzero hneeds =>
        cases hzero
        exact ((Document.needs_iff hd).mp hneeds).2
  visited y m hy hvisited := by
    have hyu : y = u := by
      by_contra hne
      exact hvisited (List.mem_filter.mpr ⟨hy.mem_jobIds hne, by simpa using hne⟩)
    exact .inl ⟨0, Nat.zero_lt_one, hyu ▸ .refl⟩

namespace IsFrontier

/-- Visited jobs at the head of the queue do not matter. -/
lemma fromUnvisited (h : IsFrontier d u n unvisited current behind) :
    IsFrontier d u n unvisited (fromUnvisited unvisited current) behind :=
  { h with
    needsIn := fun x hx hleft => h.needsIn x ((mem_fromUnvisited_iff hleft).mp hx) hleft
    left := fun x hleft hx => (mem_fromUnvisited_iff hleft).mpr (h.left x hleft hx) }

/-- A job is met, and what it needs is queued. -/
lemma meet (h : IsFrontier d u n unvisited (job :: current) behind) (hd : d.jobIds.Nodup)
    (hunvisited : unvisited.Nodup) (hsub : unvisited ⊆ d.jobIds) (hjob : job ∈ unvisited) :
    IsFrontier d u n (unvisited.erase job) current (behind ++ needsOf d job) where
  needsIn x hx hleft := h.needsIn x (List.mem_cons_of_mem job hx) (List.mem_of_mem_erase hleft)
  needsIn_succ x hx hleft := by
    have hleft := List.mem_of_mem_erase hleft
    rcases List.mem_append.mp hx with hx | hx
    · exact h.needsIn_succ x hx hleft
    · exact (h.needsIn job List.mem_cons_self hjob).tail
        ((Document.needs_iff hd).mpr ⟨hsub hleft, hx⟩)
  least x hleft := h.least x (List.mem_of_mem_erase hleft)
  left x hleft hx := by
    obtain ⟨hne, hleft⟩ := hunvisited.mem_erase_iff.mp hleft
    exact (List.mem_cons.mp (h.left x hleft hx)).resolve_left hne
  visited y m hy hvisited := by
    by_cases hyj : y = job
    · -- the job itself is at this distance
      subst hyj
      exact .inr ⟨h.needsIn y List.mem_cons_self hjob,
        fun x hx _ => List.mem_append_right behind hx⟩
    · have hvisited : y ∉ unvisited := fun hy => hvisited ((List.mem_erase_of_ne hyj).mpr hy)
      refine (h.visited y m hy hvisited).imp_right fun ⟨hn, hneeds⟩ => ⟨hn, fun x hx hleft => ?_⟩
      exact List.mem_append_left _ (hneeds x hx (List.mem_of_mem_erase hleft))

/-- When none of the jobs at this distance is left, the ones behind them are the next to look at. -/
lemma turn (h : IsFrontier d u n unvisited [] behind) (hd : d.jobIds.Nodup) :
    IsFrontier d u (n + 1) unvisited behind [] := by
  have hleast : ∀ x ∈ unvisited, ∀ k, d.NeedsIn u k x → n + 1 ≤ k := by
    intro x hleft k hk
    have hle := h.least x hleft k hk
    have hne : n ≠ k := by
      rintro rfl
      exact absurd (h.left x hleft hk) List.not_mem_nil
    omega
  refine ⟨h.needsIn_succ, nofun, hleast, ?_, ?_⟩
  · intro x hleft hx
    cases hx with
    | @tail _ y _ hy hneeds =>
        -- the last job on the way is visited, and it is not nearer than the distance that is done
        have hvisited : y ∉ unvisited := fun hmem => absurd (h.left y hmem hy) List.not_mem_nil
        rcases h.visited y n hy hvisited with ⟨k, hk, hky⟩ | ⟨-, hqueued⟩
        · have := hleast x hleft (k + 1) (hky.tail hneeds)
          omega
        · exact hqueued x ((Document.needs_iff hd).mp hneeds).2 hleft
  · intro y m hy hvisited
    rcases h.visited y m hy hvisited with ⟨k, hk, hky⟩ | ⟨hn, -⟩
    · exact .inl ⟨k, by omega, hky⟩
    · exact .inl ⟨n, by omega, hn⟩

/-- **A round of the walk** meets a nearest unvisited job, at this distance or at the next one. -/
lemma advance (h : IsFrontier d u n unvisited current behind) (hd : d.jobIds.Nodup)
    (hunvisited : unvisited.Nodup) (hsub : unvisited ⊆ d.jobIds)
    (hqueue : Reachability.fromUnvisited unvisited (current ++ behind) = job :: later) :
    ∃ m current' behind', later ++ needsOf d job = current' ++ behind' ∧ d.NeedsIn u m job ∧
      (∀ x ∈ unvisited, ∀ k, d.NeedsIn u k x → m ≤ k) ∧
      IsFrontier d u m (unvisited.erase job) current' behind' := by
  have hjob := mem_of_fromUnvisited hqueue
  have hround : ∀ {m : Nat} {current' behind' : List String},
      IsFrontier d u m unvisited (job :: current') behind' → later = current' ++ behind' →
      ∃ m current' behind', later ++ needsOf d job = current' ++ behind' ∧ d.NeedsIn u m job ∧
        (∀ x ∈ unvisited, ∀ k, d.NeedsIn u k x → m ≤ k) ∧
        IsFrontier d u m (unvisited.erase job) current' behind' := by
    rintro m current' behind' hm rfl
    exact ⟨m, current', behind' ++ needsOf d job, List.append_assoc ..,
      hm.needsIn job List.mem_cons_self hjob, hm.least, hm.meet hd hunvisited hsub hjob⟩
  have h := h.fromUnvisited
  rw [Reachability.fromUnvisited, List.dropWhile_append, ← Reachability.fromUnvisited,
    ← Reachability.fromUnvisited] at hqueue
  cases hcurrent : Reachability.fromUnvisited unvisited current with
  | nil =>
      -- the job stands among those behind
      rw [hcurrent] at h hqueue
      have h := (h.turn hd).fromUnvisited
      rw [show Reachability.fromUnvisited unvisited behind = job :: later from hqueue] at h
      exact hround h (List.append_nil later).symm
  | cons x rest =>
      rw [hcurrent] at h hqueue
      obtain ⟨rfl, rfl⟩ := List.cons.inj hqueue
      exact hround h rfl

end IsFrontier

/-- The jobs that the walk meets can be reached. -/
lemma exists_needsIn_of_mem (h : IsFrontier d u n unvisited current behind) (hd : d.jobIds.Nodup)
    (hsub : unvisited ⊆ d.jobIds) {x : String}
    (hx : x ∈ neededFrom (needsOf d) unvisited (current ++ behind)) : ∃ k, d.NeedsIn u k x := by
  refine of_mem_neededFrom (p := fun x => ∃ k, d.NeedsIn u k x) ?_ ?_ hx
  · intro q hq hleft
    rcases List.mem_append.mp hq with hq | hq
    · exact ⟨n, h.needsIn q hq hleft⟩
    · exact ⟨n + 1, h.needsIn_succ q hq hleft⟩
  · rintro a b ⟨k, hk⟩ hb hleft
    exact ⟨k + 1, hk.tail ((Document.needs_iff hd).mpr ⟨hsub hleft, hb⟩)⟩

/-- **The walk meets no job before a nearer one.** -/
lemma pairwise_neededFrom (hd : d.jobIds.Nodup) (hunvisited : unvisited.Nodup)
    (hsub : unvisited ⊆ d.jobIds) (h : IsFrontier d u n unvisited current behind) :
    (neededFrom (needsOf d) unvisited (current ++ behind)).Pairwise
      fun x y => d.needsDistance u x ≤ d.needsDistance u y := by
  generalize hqueue : current ++ behind = queue
  fun_induction neededFrom (needsOf d) unvisited queue generalizing n current behind with
  | case1 => exact .nil
  | case2 unvisited queue job later hfirst ih =>
      subst hqueue
      obtain ⟨m, current', behind', hlater, hjob, hleast, h⟩ := h.advance hd hunvisited hsub hfirst
      have hsub' : unvisited.erase job ⊆ d.jobIds := fun x hx => hsub (List.mem_of_mem_erase hx)
      refine .cons ?_ (ih (hunvisited.erase job) hsub' h hlater.symm)
      intro y hy
      obtain ⟨k, hk⟩ := exists_needsIn_of_mem h hd hsub' (hlater ▸ hy)
      have hleft := List.mem_of_mem_erase (mem_unvisited_of_mem_neededFrom hy)
      exact (Document.needsDistance_le hjob).trans (Document.le_needsDistance hk (hleast y hleft))

/-- The walk meets no job twice. -/
lemma nodup_neededFrom {needs : String → List String} (hunvisited : unvisited.Nodup) :
    (neededFrom needs unvisited queue).Nodup := by
  fun_induction neededFrom needs unvisited queue with
  | case1 => exact .nil
  | case2 unvisited queue job later hfirst ih =>
      refine .cons (fun hjob => ?_) (ih (hunvisited.erase job))
      exact (hunvisited.mem_erase_iff.mp (mem_unvisited_of_mem_neededFrom hjob)).1 rfl

end Reachability

/-! ## The search, round by round -/

/-- A search for the jobs that a job needs: the queue, and the jobs that were met, in this order. -/
structure Search where
  queue : List String
  met : List String := []

namespace Search

open Reachability

variable {d : Document} {u : String} {unvisited queue passed rest met : List String}
    {s t : Search} {m n : Nat}

/-- What a job needs, of the jobs of the document. -/
def presentNeeds (d : Document) (job : String) : List String := (needsOf d job).filter d.hasJob

/-- The search from a job when it begins. -/
def start (d : Document) (u : String) : Search := { queue := presentNeeds d u }

/-- A round takes the first job from the queue. If that was met before or is the one where the
search began, it is dropped; otherwise it is met, and what it needs is queued. -/
def round (d : Document) (u : String) : Search → Option Search
  | ⟨[], _⟩ => none
  | ⟨job :: later, met⟩ =>
    some (if met.contains job || job == u then ⟨later, met⟩
      else ⟨later ++ presentNeeds d job, met ++ [job]⟩)

/-- The search after so many rounds. -/
def after (d : Document) (u : String) : Nat → Search → Option Search
  | 0, s => some s
  | n + 1, s => (s.round d u).bind (after d u n)

/-- How many needs are queued: those of the job itself and of the jobs that it needs. -/
def rounds (d : Document) (u : String) : Nat :=
  sumOf ((u :: neededJobs d u).map fun job => (presentNeeds d job).length)

/-- Rounds add up. -/
lemma after_add (hs : s.after d u m = some t) : s.after d u (m + n) = t.after d u n := by
  induction m generalizing s with
  | zero =>
      cases hs
      rw [Nat.zero_add]
  | succ m ih =>
      rw [Nat.succ_add]
      obtain ⟨r, hr, hs⟩ := Option.bind_eq_some_iff.mp hs
      rw [after, hr]
      exact ih hs

/-- Jobs that need not be met are dropped one by one. -/
lemma after_passed (h : ∀ q ∈ passed, q ∈ met ∨ q = u) (rest : List String) :
    after d u passed.length ⟨passed ++ rest, met⟩ = some ⟨rest, met⟩ := by
  induction passed with
  | nil => rfl
  | cons q passed ih =>
      have hq : (met.contains q || q == u) = true := by simpa using h q List.mem_cons_self
      rw [List.length_cons, after, List.cons_append, round, if_pos hq]
      exact ih fun q hq => h q (List.mem_cons_of_mem _ hq)

/-- The jobs that the walk passes over were met, or are the one where the search began. -/
lemma met_of_mem_takeWhile (hleft : ∀ x, x ∈ unvisited ↔ x ∈ d.jobIds ∧ x ∉ met ∧ x ≠ u)
    (hqueue : ∀ q ∈ queue, q ∈ d.jobIds) :
    ∀ q ∈ queue.takeWhile fun job => !unvisited.contains job, q ∈ met ∨ q = u := by
  intro q hq
  have hvisited := List.all_eq_true.mp List.all_takeWhile q hq
  by_contra hnew
  rw [not_or] at hnew
  simp [(hleft q).mpr ⟨hqueue q ((List.takeWhile_sublist _).mem hq), hnew⟩] at hvisited

/-- **A search that has met some jobs ends**, after as many rounds as there are needs in the queue
and to queue, and it goes on to meet the jobs of the walk. -/
lemma after_eq_some (hunvisited : unvisited.Nodup)
    (hleft : ∀ x, x ∈ unvisited ↔ x ∈ d.jobIds ∧ x ∉ met ∧ x ≠ u)
    (hqueue : ∀ q ∈ queue, q ∈ d.jobIds) :
    after d u (queue.length + sumOf ((neededFrom (presentNeeds d) unvisited queue).map fun job =>
        (presentNeeds d job).length)) ⟨queue, met⟩ =
      some ⟨[], met ++ neededFrom (presentNeeds d) unvisited queue⟩ := by
  fun_induction neededFrom (presentNeeds d) unvisited queue generalizing met with
  | case1 unvisited queue hnone =>
      have hall :=
        List.takeWhile_append_dropWhile (p := fun job => !unvisited.contains job) (l := queue)
      rw [← fromUnvisited, hnone, List.append_nil] at hall
      have h := after_passed (d := d) (met_of_mem_takeWhile hleft hqueue) []
      rw [hall, List.append_nil] at h
      simpa using h
  | case2 unvisited queue job later hfirst ih =>
      have hall :=
        List.takeWhile_append_dropWhile (p := fun job => !unvisited.contains job) (l := queue)
      rw [← fromUnvisited, hfirst] at hall
      have hpassed := met_of_mem_takeWhile hleft hqueue
      generalize (queue.takeWhile fun job => !unvisited.contains job) = passed at hall hpassed
      subst hall
      have hround : round d u ⟨job :: later, met⟩ =
          some ⟨later ++ presentNeeds d job, met ++ [job]⟩ := by
        have hnew : (met.contains job || job == u) = false := by
          simpa using ((hleft job).mp (mem_of_fromUnvisited hfirst)).2
        rw [round, hnew]
        rfl
      -- what is left to visit after the round is still what was not met
      have hleft' : ∀ x, x ∈ unvisited.erase job ↔ x ∈ d.jobIds ∧ x ∉ met ++ [job] ∧ x ≠ u := by
        intro x
        rw [hunvisited.mem_erase_iff, hleft, List.mem_append, List.mem_singleton]
        tauto
      have hqueue' : ∀ q ∈ later ++ presentNeeds d job, q ∈ d.jobIds := by
        intro q hq
        rcases List.mem_append.mp hq with hq | hq
        · exact hqueue q (List.mem_append_right _ (List.mem_cons_of_mem _ hq))
        · exact Document.hasJob_iff.mp (List.mem_filter.mp hq).2
      have hrounds : ∀ k, (passed ++ job :: later).length + ((presentNeeds d job).length + k) =
          passed.length + ((later ++ presentNeeds d job).length + k + 1) := by
        intro k
        simp only [List.length_append, List.length_cons]
        omega
      rw [List.map_cons, sumOf_cons, hrounds, after_add (after_passed hpassed _), after, hround,
        Option.bind_some, ih (hunvisited.erase job) hleft' hqueue', List.append_assoc]
      rfl

/-- Jobs that do not exist are dropped from a queue, now or later. -/
lemma fromUnvisited_filter (hsub : unvisited ⊆ d.jobIds) :
    fromUnvisited unvisited (queue.filter d.hasJob) =
      (fromUnvisited unvisited queue).filter d.hasJob := by
  induction queue with
  | nil => rfl
  | cons q queue ih =>
      unfold fromUnvisited at ih ⊢
      by_cases hq : q ∈ unvisited
      · have hjob : d.hasJob q = true := Document.hasJob_iff.mpr (hsub hq)
        simp [hq, hjob]
      · by_cases hjob : d.hasJob q = true
        · simpa [hq, hjob] using ih
        · simpa [hq, hjob] using ih

/-- The walk does not notice needs of jobs that do not exist. -/
lemma neededFrom_filter (hsub : unvisited ⊆ d.jobIds) :
    neededFrom (presentNeeds d) unvisited (queue.filter d.hasJob) =
      neededFrom (needsOf d) unvisited queue := by
  fun_induction neededFrom (needsOf d) unvisited queue with
  | case1 unvisited queue hnone =>
      refine neededFrom_of_nil ?_
      rw [fromUnvisited_filter hsub, hnone, List.filter_nil]
  | case2 unvisited queue job later hfirst ih =>
      have hjob : d.hasJob job = true :=
        Document.hasJob_iff.mpr (hsub (mem_of_fromUnvisited hfirst))
      rw [neededFrom_of_cons
        (by rw [fromUnvisited_filter hsub, hfirst, List.filter_cons_of_pos hjob]),
        presentNeeds, ← List.filter_append, ih fun x hx => hsub (List.mem_of_mem_erase hx)]

/-- **The search from a job ends** after as many rounds as there are needs to queue, and has met the
jobs that the job needs. -/
lemma after_rounds (hd : d.jobIds.Nodup) :
    (start d u).after d u (rounds d u) = some ⟨[], neededJobs d u⟩ := by
  have hsub : d.jobIds.filter (· != u) ⊆ d.jobIds := fun x hx => List.mem_of_mem_filter hx
  have hneeded : neededFrom (presentNeeds d) (d.jobIds.filter (· != u)) (presentNeeds d u) =
      neededJobs d u := neededFrom_filter hsub
  have hleft (x : String) : x ∈ d.jobIds.filter (· != u) ↔ x ∈ d.jobIds ∧
      x ∉ ([] : List String) ∧ x ≠ u := by
    simp
  have hqueue : ∀ q ∈ presentNeeds d u, q ∈ d.jobIds := fun q hq =>
    Document.hasJob_iff.mp (List.mem_filter.mp hq).2
  have h := after_eq_some (hd.filter (· != u)) hleft hqueue
  rw [hneeded] at h
  rw [rounds, List.map_cons, sumOf_cons]
  exact h

end Search

/-! ## The search as a whole -/

open Relation (TransGen)

/-- What the search for the jobs that a job needs comes to. -/
structure Document.FindsNeeds (d : Document) (u : String) : Prop where
  /-- It ends, with nothing left in the queue, after as many rounds as there are needs to queue. -/
  ends : (Search.start d u).after d u (Search.rounds d u) = some ⟨[], Reachability.neededJobs d u⟩
  /-- No job is met twice. -/
  nodup : (Reachability.neededJobs d u).Nodup
  /-- The jobs that are met are the other ones that can be reached by one or more needs. -/
  mem_iff : ∀ x, x ∈ Reachability.neededJobs d u ↔ x ∈ d.jobIds ∧ x ≠ u ∧ TransGen d.Needs u x
  /-- There is a way of the length of the distance to each of them, and no shorter one. -/
  isLeast : ∀ x ∈ Reachability.neededJobs d u, IsLeast {n | d.NeedsIn u n x} (d.needsDistance u x)
  /-- Nearer jobs are met first. -/
  nearestFirst : (Reachability.neededJobs d u).Pairwise
    fun x y => d.needsDistance u x ≤ d.needsDistance u y

/-- **The jobs that a job needs are found, each one once and the nearest ones first**, in every
document that was read. -/
theorem Document.findsNeeds_of_ofTree {tree : Value} {source dialect fileName : String}
    {d : Document}
    (h : ofTree tree source dialect fileName = .ok d) : ∀ u ∈ d.jobIds, d.FindsNeeds u := by
  intro u _
  have hd : d.jobIds.Nodup := nodup_jobIds_of_ofTree h
  have hunvisited : (d.jobIds.filter (· != u)).Nodup := hd.filter _
  have hsub : d.jobIds.filter (· != u) ⊆ d.jobIds := fun x hx => List.mem_of_mem_filter hx
  have hfrontier := Reachability.isFrontier_needsOf (u := u) hd
  have hwalk : Reachability.neededJobs d u =
      Reachability.neededFrom (Reachability.needsOf d) (d.jobIds.filter (· != u))
        (Reachability.needsOf d u ++ []) := by
    rw [List.append_nil, Reachability.neededJobs]
  refine ⟨Search.after_rounds hd, ?_, ?_, ?_, ?_⟩
  · exact Reachability.nodup_neededFrom hunvisited
  · intro x
    rw [Reachability.mem_neededJobs_iff hd]
    refine ⟨fun hx => ⟨?_, hx⟩, And.right⟩
    obtain ⟨_, _, hlast, _⟩ := TransGen.tail'_iff.mp hx.2
    exact hlast
  · intro x hx
    obtain ⟨k, hk⟩ := Reachability.exists_needsIn_of_mem hfrontier hd hsub (hwalk ▸ hx)
    exact ⟨Nat.sInf_mem ⟨k, hk⟩, fun n hn => Document.needsDistance_le hn⟩
  · rw [hwalk]
    exact Reachability.pairwise_neededFrom hd hunvisited hsub hfrontier

/-- A job that names jobs twice, itself and, through others, a job that does not exist, before jobs
that wait for each other and for it. -/
def Document.roundaboutTree : Value :=
  .ofFields [("on", .str "push"), ("jobs", .ofFields [
    ("fetch", .ofFields [("needs", .str "sign")]),
    ("build", .ofFields [("needs", .str "fetch")]),
    ("pack", .ofFields [("needs", .ofStrings ["build", "gone"])]),
    ("sign", .ofFields [("needs", .ofStrings ["build", "ship"])]),
    ("ship", .ofFields [("needs", .ofStrings ["pack", "sign", "pack", "ship"])])])]

/-- The two jobs that it names come first, and what lies behind them comes once each. -/
theorem Document.findsNeeds_roundabout : ∃ d,
    ofTree roundaboutTree "" "github-actions" "ci.yml" = .ok d ∧
      (Reachability.neededJobs d "ship" = ["pack", "sign", "build", "fetch"] ∧
        Search.rounds d "ship" = 9 ∧ "ship" ∈ d.jobIds) ∧
      ∀ u ∈ d.jobIds, d.FindsNeeds u :=
  exists_ok_and (fun _ hd => findsNeeds_of_ofTree hd) (by decide +kernel)

end PipelineAudit
