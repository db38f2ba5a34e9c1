import PipelineAudit.FileTree
import PipelineAudit.Proofs.Assoc
import PipelineAudit.Proofs.Workflow.Document

/-!
# Files that were written

A file that was written at a place inside the working directory is read back
(`FileTree.read_of_write`): on the way to it nothing has changed, since the way leads through
directories only, and the file stands where none is.
-/

namespace PipelineAudit

namespace FileTree

variable {t t' : FileTree} {path text : String} {trail parts place : List String}
    {bytes : List UInt8}

/-! ## Walking -/

/-- A path leads to a place inside the working directory. -/
def IsInside (t : FileTree) (path : String) : Prop :=
  (collapse [] (t.partsOf path)).head? ≠ some ".." ∧
    (collapse [] (t.partsOf path)).head? ≠ some rootMark

/-- A walk ends where the parts of the path lead. -/
lemma collapse_of_walk (h : t.walk path trail parts = .ok place) :
    collapse trail parts = place := by
  induction parts generalizing trail with
  | nil => exact Except.ok.inj h
  | cons part rest ih =>
      rw [walk] at h
      split at h
      · cases h
      · cases h
      · split_ifs at h with hlong hup
        · rw [collapse, if_pos hup]
          exact ih h
        · rw [collapse, if_neg hup]
          exact ih h

/-- A walk can be taken in every tree that has the same directories and perhaps others. -/
lemma walk_of_directories
    (hkept : ∀ place, t.kindAt place = some .directory → t'.kindAt place = some .directory)
    (h : t.walk path trail parts = .ok place) : t'.walk path trail parts = .ok place := by
  induction parts generalizing trail with
  | nil => exact h
  | cons part rest ih =>
      rw [walk] at h ⊢
      split at h
      · cases h
      · cases h
      · rename_i hkind
        rw [hkept _ hkind]
        dsimp only
        split_ifs at h ⊢
        · exact ih h
        · exact ih h

/-! ## Writing -/

/-- A place that passes as a directory is one. -/
lemma kindAt_of_checkDirectory {r : Unit} (h : t.checkDirectory path true place = .ok r) :
    t.kindAt place = some .directory := by
  rw [checkDirectory, if_pos rfl] at h
  split at h
  · assumption
  · cases h
  · cases h

/-- What a tree is after a file was written in it. -/
lemma write_cases (h : t.write path text = .ok t') :
    checkPath path = .ok () ∧ pathEnd path = .name ∧
    ∃ place, t.walk path [] (t.partsOf path) = .ok place ∧ t.kindAt place ≠ some .directory ∧
      t' = t.put place text.toUTF8.toList := by
  rw [write] at h
  obtain ⟨_, hpath, h⟩ := bind_eq_ok.mp h
  by_cases hslash : pathEnd path = .slash
  · simp only [hslash, beq_self_eq_true, if_true] at h
    obtain ⟨_, -, h⟩ := bind_eq_ok.mp h
    obtain ⟨_, -, h⟩ := bind_eq_ok.mp h
    cases h
  · dsimp only at h
    rw [if_neg (by simpa using hslash)] at h
    obtain ⟨place, hwalk, h⟩ := bind_eq_ok.mp h
    obtain ⟨_, hdirectory, h⟩ := bind_eq_ok.mp h
    split_ifs at h with hkind
    · cases h
    · cases h
      have hkind : t.kindAt place ≠ some .directory := by simpa using hkind
      refine ⟨hpath, ?_, place, hwalk, hkind, rfl⟩
      cases hend : pathEnd path with
      | name => rfl
      | slash => exact absurd hend hslash
      | dot =>
          -- behind a step on the spot there would have to be a directory
          rw [hend] at hdirectory
          exact absurd (kindAt_of_checkDirectory hdirectory) hkind

/-- A file that is put somewhere else leaves directories what they are. -/
lemma kindAt_put {place' : List String} (hne : place' ≠ place)
    (h : t.kindAt place' = some .directory) :
    (t.put place bytes).kindAt place' = some .directory := by
  rw [put]
  split_ifs with houtside
  · exact h
  · have hget : (t.entries.insert place (.file bytes)).get? place' = t.entries.get? place' := by
      rw [Assoc.get?_insert, if_neg (by simpa using hne.symm)]
    have hany : (t.entries.any fun e => place'.isPrefixOf e.1) = true →
        ((t.entries.insert place (.file bytes)).any fun e => place'.isPrefixOf e.1) = true := by
      intro hany
      obtain ⟨e, he, hprefix⟩ := List.any_eq_true.mp hany
      obtain ⟨e', he', hkey⟩ := Assoc.exists_mem_insert_of_mem place (.file bytes) he
      exact List.any_eq_true.mpr ⟨e', he', hkey ▸ hprefix⟩
    unfold kindAt at h ⊢
    rw [hget]
    cases hentry : t.entries.get? place' with
    | some entry =>
        rw [hentry] at h
        cases entry with
        | file _ => cases h
        | directory => rfl
    | none =>
        rw [hentry] at h
        dsimp only at h ⊢
        split_ifs at h with hnull haround hbelow
        · cases h
        · rw [if_neg hnull, if_pos haround]
        · rw [if_neg hnull, if_neg haround, if_pos (hany hbelow)]

/-- The file at a place is read. -/
lemma read_of_locate (hplace : t.locate path = .ok place)
    (hfile : t.entries.get? place = some (.file bytes)) : t.read path = .ok bytes := by
  simp only [read, hplace, hfile, bind, Except.bind]
  rfl

/-- **A file that was written is read back**, if it stands inside the working directory. -/
theorem read_of_write (h : t.write path text = .ok t') (hinside : t.IsInside path) :
    t'.kind? path = some .file ∧ t'.read path = .ok text.toUTF8.toList := by
  obtain ⟨hpath, hend, place, hwalk, hkind, rfl⟩ := write_cases h
  obtain ⟨hup, hroot⟩ := hinside
  rw [collapse_of_walk hwalk] at hup hroot
  have hput : t.put place text.toUTF8.toList =
      { t with entries := t.entries.insert place (.file text.toUTF8.toList) } := by
    rw [put, if_neg (by simpa using ⟨hup, hroot⟩)]
  have hfound : (t.put place text.toUTF8.toList).entries.get? place =
      some (.file text.toUTF8.toList) := by
    rw [hput, Assoc.get?_insert, if_pos (by simp)]
  have hfile : (t.put place text.toUTF8.toList).kindAt place = some .file := by
    rw [kindAt, hfound]
  have hlocate : (t.put place text.toUTF8.toList).locate path = .ok place := by
    have hparts : (t.put place text.toUTF8.toList).partsOf path = t.partsOf path := by
      rw [hput]; rfl
    have hwalk' : (t.put place text.toUTF8.toList).walk path [] (t.partsOf path) = .ok place :=
      walk_of_directories
        (fun _ hdirectory => kindAt_put (fun heq => hkind (heq ▸ hdirectory)) hdirectory) hwalk
    simp only [locate, hpath, hparts, hend, hwalk', bind, Except.bind]
    rfl
  constructor
  · rw [kind?, hlocate]
    exact hfile
  · exact read_of_locate hlocate hfound

/-- Only a path that is not empty can be written to. -/
lemma isEmpty_of_write (h : t.write path text = .ok t') : path.isEmpty = false := by
  have hpath := (write_cases h).1
  rw [Bool.eq_false_iff]
  intro hempty
  rw [checkPath, if_pos hempty] at hpath
  split_ifs at hpath

/-- Making the directories above a path, as a change of the tree. -/
lemma run_makeParents (t : FileTree) (path : String) :
    (FileStore.makeParents path : StateM FileTree (Except FileFault Unit)).run t =
      t.makeParents path := by
  simp only [FileStore.makeParents, StateT.run]

/-- Writing a file, as a change of the tree. -/
lemma run_write (t : FileTree) (path text : String) :
    (FileStore.write path text : StateM FileTree (Except FileFault Unit)).run t =
      (change fun t => t.write path text).run t := by
  simp only [FileStore.write]

/-- A change of the tree that succeeds leaves what it makes. -/
lemma eq_ok_of_change {f : FileTree → Except FileFault FileTree}
    (h : (change f).run t = (.ok (), t')) : f t = .ok t' := by
  rw [StateT.run, change] at h
  cases hf : f t with
  | ok made =>
      rw [hf] at h
      cases h
      rfl
  | error fault =>
      rw [hf] at h
      cases h

/-! ## Making directories -/

/-- Making a directory leaves the working directory. -/
lemma workingDirectory_makeDirectory {isLast : Bool} (h : t.makeDirectory isLast place = .ok t') :
    t'.workingDirectory = t.workingDirectory := by
  unfold makeDirectory at h
  split at h
  · cases h
    rfl
  · split_ifs at h
    cases h
    rfl
  · dsimp only at h
    split_ifs at h
    cases h
    rfl

/-- Making directories leaves the working directory. -/
lemma workingDirectory_makeDirectories (t : FileTree) (places : List (List String)) :
    (t.makeDirectories places).2.workingDirectory = t.workingDirectory := by
  induction places generalizing t with
  | nil => rfl
  | cons place rest ih =>
      rw [makeDirectories]
      cases hmade : t.makeDirectory rest.isEmpty place with
      | error fault => rfl
      | ok t' => exact (ih t').trans (workingDirectory_makeDirectory hmade)

/-- Making directories does not change where a path leads. -/
lemma IsInside.makeParents (h : t.IsInside path) (other : String) :
    (t.makeParents other).2.IsInside path := by
  have hworking : (t.makeParents other).2.workingDirectory = t.workingDirectory := by
    unfold FileTree.makeParents
    rw [workingDirectory_makeDirectories]
  rwa [IsInside, partsOf, hworking]

end FileTree

end PipelineAudit
