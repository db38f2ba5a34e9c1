import PipelineAudit.Proofs.Value.Paths

/-!
# Different keys in data files

The mappings of a data file are made by writing pairs one after another under keys that are no
collections. So no two keys of a mapping are the same, and that on every level
(`Yaml.isKeyed_of_load`).
-/

namespace PipelineAudit

/-- Pairs that are written one after another have different keys. -/
lemma Value.areKeyed_entriesOf {pairs : List (Value × Value)} (h : ∀ p ∈ pairs, p.1.isKey = true) :
    AreKeyed (entriesOf pairs) := by
  have hfold : ∀ {es : List (Value × Value)}, AreKeyed es →
      AreKeyed (pairs.foldl (fun es p => insertEntry es p.1 p.2) es) := by
    induction pairs with
    | nil => exact fun hes => hes
    | cons p rest ih =>
        obtain ⟨hp, hrest⟩ := List.forall_mem_cons.mp h
        exact fun hes => ih hrest (hes.insertEntry hp p.2)
  exact hfold areKeyed_nil

namespace Yaml

/-- **The value of a node** is keyed, where no entries for positions are added. -/
lemma Builder.IsComplete.isKeyed_value {b : Builder} {schema : Schema} {root n : Node}
    (hb : b.IsComplete schema root)
    (hroot : root.IsNumbered) (hschema : schema.positions = false) (h : n.IsLoaded root)
    {fuel : Nat} {v : Value}
    (hv : b.value schema fuel n = .ok v) : v.IsKeyed := by
  refine hb.value_induction hroot (motive := fun _ _ v => v.IsKeyed) ?leaf ?mapping
    ?sequence ?pairs h hv
  case leaf => exact fun hleaf => .other (Value.isMap_of_isLeaf hleaf.isLeaf)
  case sequence => exact fun _ _ _ => .other rfl
  case pairs => exact fun _ _ _ => .other rfl
  case mapping =>
    intro fuel info own pairs _ _ hpairs
    rw [hschema, if_neg Bool.false_ne_true]
    refine .map (Value.areKeyed_entriesOf fun p hp => ?_) fun e he => ?_
    · obtain ⟨e, -, hkey, -⟩ := exists_left_of_forall₂ hpairs hp
      exact Value.isKey_of_isLeaf hkey.isLeaf
    · rcases Value.mem_foldl_insertEntry he with he | ⟨p, hp, heq⟩
      · cases he
      · obtain ⟨e', -, -, hkeyed⟩ := exists_left_of_forall₂ hpairs hp
        exact heq ▸ hkeyed

/-- **The mappings of a data file** have different keys on every level. -/
theorem isKeyed_of_load {passage : Passage} {v : Value} (h : passage.load .plain = .ok v) :
    v.IsKeyed := by
  rcases Passage.load_cases h with ⟨-, rfl⟩ | ⟨root, b, -, hroot, -, hb, hv⟩
  · exact .other rfl
  · exact hb.isKeyed_value hroot rfl .refl hv

end Yaml

end PipelineAudit
