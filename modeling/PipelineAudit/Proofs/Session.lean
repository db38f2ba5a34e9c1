import Mathlib.Tactic.Lemma
import PipelineAudit.FileTree
import PipelineAudit.Session

/-!
# What work yields

Work over a tree of files that only reads ends with a result that depends on the tree alone,
whatever was logged before (`Work.Yields`). The results of the parts of such work are put together
like the parts themselves, so that work is followed through its steps without looking at the log.
-/

namespace PipelineAudit

/-- The text of a file, with line breaks unified. -/
def FileTree.text (t : FileTree) (path : String) : Except Failure String := do
  let bytes ← (t.read path).mapError Work.fileFailure
  let text ← (Text.ofUtf8 (bytes.map UInt8.toNat)).mapError .text
  return Text.unifyBreaks text

namespace Work

variable {α β : Type} {t : FileTree}

/-- Work ends with a result, whatever has been printed and logged before, and leaves the files as
they are. -/
def Yields (t : FileTree) (x : Work (StateM FileTree) α) (r : Except Failure α) : Prop :=
  ∀ s, ∃ s', (x.run.run s).run t = ((r, s'), t)

variable {x : Work (StateM FileTree) α} {f : α → Work (StateM FileTree) β}
  {handle : Failure → Work (StateM FileTree) α} {a : α} {r : Except Failure α} {why : Failure}

/-- Work yields one result. -/
lemma Yields.unique {r' : Except Failure α} (h : Yields t x r) (h' : Yields t x r') : r = r' := by
  obtain ⟨s, hs⟩ := h {}
  obtain ⟨s', hs'⟩ := h' {}
  cases hs.symm.trans hs'
  rfl

/-! ## Steps -/

/-- A result yields itself. -/
lemma yields_pure (a : α) : Yields t (pure a) (.ok a) := fun s => ⟨s, rfl⟩

/-- A failure yields itself. -/
lemma yields_throw (why : Failure) : Yields t (throw why : Work (StateM FileTree) α) (.error why) :=
  fun s => ⟨s, rfl⟩

/-- Notices can always be made. -/
lemma yields_note (notices : List Notice) : Yields t (note notices) (.ok ()) := fun _ => ⟨_, rfl⟩

/-- What was worked out already yields itself. -/
lemma yields_ofExcept {ε : Type} (wrap : ε → Failure) (r : Except ε α) :
    Yields t (ofExcept wrap r) (r.mapError wrap) := by
  cases r with
  | ok a => exact yields_pure a
  | error e => exact yields_throw (wrap e)

/-- Work goes on with what its first part yields. -/
lemma Yields.bind_ok {r : Except Failure β} (hx : Yields t x (.ok a)) (hf : Yields t (f a) r) :
    Yields t (x >>= f) r := by
  intro s
  obtain ⟨s', hs'⟩ := hx s
  rw [ExceptT.run_bind, StateT.run_bind, StateT.run_bind, hs']
  exact hf s'

/-- Work ends where its first part fails. -/
lemma Yields.bind_error (hx : Yields t x (.error why)) : Yields t (x >>= f) (.error why) := by
  intro s
  obtain ⟨s', hs'⟩ := hx s
  rw [ExceptT.run_bind, StateT.run_bind, StateT.run_bind, hs']
  exact ⟨s', rfl⟩

/-- What work in two steps yields. -/
lemma Yields.bind {g : α → Except Failure β} (hx : Yields t x r) (hf : ∀ a, Yields t (f a) (g a)) :
    Yields t (x >>= f) (r >>= g) := by
  cases r with
  | ok a => exact hx.bind_ok (hf a)
  | error why => exact hx.bind_error

/-- Nothing is caught where nothing fails. -/
lemma Yields.tryCatch_ok (h : Yields t x (.ok a)) : Yields t (tryCatch x handle) (.ok a) := by
  intro s
  obtain ⟨s', hs'⟩ := h s
  refine ⟨s', ?_⟩
  rw [ExceptT.run_tryCatch, StateT.run_bind, StateT.run_bind, hs']
  rfl

/-- The bytes of a file are read. -/
lemma yields_read (path : String) :
    Yields t (ofFile (FileStore.read path)) ((t.read path).mapError fileFailure) :=
  Yields.bind_ok (fun s => ⟨s, rfl⟩) (yields_ofExcept fileFailure (t.read path))

/-- Work ends with a result and leaves a tree of files, after something has been printed and
logged. -/
def Leaves (t : FileTree) (x : Work (StateM FileTree) α) (r : Except Failure α) (t' : FileTree) :
    Prop :=
  ∃ s s', (x.run.run s).run t = ((r, s'), t')

variable {t' : FileTree} {b : β}

/-- Work in two steps that succeeds goes through both of them. -/
lemma Leaves.of_bind (h : Leaves t (x >>= f) (.ok b) t') :
    ∃ a t₁, Leaves t x (.ok a) t₁ ∧ Leaves t₁ (f a) (.ok b) t' := by
  obtain ⟨s, s', h⟩ := h
  rw [ExceptT.run_bind, StateT.run_bind, StateT.run_bind] at h
  cases hx : (x.run.run s).run t with
  | mk result t₁ =>
      obtain ⟨r, s₁⟩ := result
      rw [hx] at h
      cases r with
      | ok a => exact ⟨a, t₁, ⟨s, s₁, hx⟩, s₁, s', h⟩
      | error why => cases h

/-- Work whose failures are turned into others succeeds on its own. -/
lemma Leaves.of_tryCatch (h : Leaves t (tryCatch x handle) (.ok a) t')
    (hhandle : ∀ why, ∃ why', handle why = throw why') : Leaves t x (.ok a) t' := by
  obtain ⟨s, s', h⟩ := h
  rw [ExceptT.run_tryCatch, StateT.run_bind, StateT.run_bind] at h
  cases hx : (x.run.run s).run t with
  | mk result t₁ =>
      obtain ⟨r, s₁⟩ := result
      rw [hx] at h
      cases r with
      | ok a => exact ⟨s, s', hx.trans h⟩
      | error why =>
          obtain ⟨why', hwhy⟩ := hhandle why
          change ((handle why).run.run s₁).run t₁ = _ at h
          rw [hwhy] at h
          cases h

/-- Work that fails leaves no result. -/
lemma not_leaves_throw : ¬Leaves t (throw why : Work (StateM FileTree) α) (.ok a) t' := by
  rintro ⟨s, s', h⟩
  cases h

/-- A file operation that succeeds is carried out. -/
lemma Leaves.of_ofFile {operation : StateM FileTree (Except FileFault α)}
    (h : Leaves t (ofFile operation) (.ok a) t') : operation.run t = (.ok a, t') := by
  obtain ⟨s, s', h⟩ := h
  have hrun : (((ofExcept fileFailure (operation.run t).1 : Work (StateM FileTree) α).run.run s).run
      (operation.run t).2) = ((.ok a, s'), t') := h
  cases hresult : (operation.run t).1 with
  | ok value =>
      rw [hresult] at hrun
      cases hrun
      exact Prod.ext hresult rfl
  | error fault =>
      rw [hresult] at hrun
      cases hrun

end Work

end PipelineAudit
