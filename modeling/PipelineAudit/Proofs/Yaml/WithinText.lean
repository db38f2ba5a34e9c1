import PipelineAudit.Proofs.Yaml.KeyLines
import PipelineAudit.Proofs.Yaml.Placing

/-!
# Recorded lines within the text

The lines that a value records, for the start of a mapping and for its keys, are lines of the text
that it was read from, at every depth of lists and mappings (`Yaml.liesWithin_of_load`). They are
those of nodes: of mappings, and of keys that are written somewhere in the text, in the mapping or
in one that is merged into it.
-/

namespace PipelineAudit

/-! ## Lines within a count -/

namespace Value

/-- A place is within so many lines: if it is known, it is the number of one of them. -/
def IsWithin (count : Nat) : Value → Prop
  | .null => True
  | .int n => 1 ≤ n ∧ n ≤ count
  | .bool b => b = true ∧ 1 ≤ count
  | _ => False

instance (count : Nat) : (v : Value) → Decidable (v.IsWithin count)
  | .null => .isTrue trivial
  | .int n => inferInstanceAs (Decidable (1 ≤ n ∧ n ≤ count))
  | .bool b => inferInstanceAs (Decidable (b = true ∧ 1 ≤ count))
  | .float _ | .str _ | .bytes _ | .date _ | .moment _ | .seq _ | .map _ | .pair _ _ =>
      .isFalse nofun

/-- The lines that a value records are within a count, in lists and mappings at every depth. -/
inductive LiesWithin (count : Nat) : Value → Prop
  | map {es : List (Value × Value)} (start : (Value.map es).startLine.IsWithin count)
      (keys : ∀ key, ((Value.map es).keyLine key).IsWithin count)
        (values : ∀ e ∈ es, LiesWithin count e.2) :
      LiesWithin count (.map es)
  | seq {items : List Value} (items_lie : ∀ v ∈ items, LiesWithin count v) : LiesWithin
      count (.seq items)
  | pair (k w : Value) : LiesWithin count (.pair k w)
  | leaf {v : Value} (isLeaf : v.isLeaf = true) : LiesWithin count v

variable {count : Nat} {v : Value}

/-- No line lies within every text. -/
lemma isWithin_null : Value.null.IsWithin count := trivial

/-- A line of the text lies within it. -/
lemma isWithin_int {n : Nat} (hn : 1 ≤ n) (hcount : n ≤ count) : (Value.int n).IsWithin count :=
  ⟨Int.ofNat_le.mpr hn, Int.ofNat_le.mpr hcount⟩

/-- A place within so many lines is not known, or stands for the number of one of them. -/
lemma IsWithin.cases (h : v.IsWithin count) :
    v = .null ∨ v.IsPlace ∧ ∃ n : Nat, v.number? = some (n : Int) ∧ 1 ≤ n ∧ n ≤ count := by
  cases v with
  | null => exact Or.inl rfl
  | int n =>
      obtain ⟨hn, hcount⟩ := h
      exact Or.inr ⟨.int n,
        n.toNat, by rw [Value.number?, Int.toNat_of_nonneg (by omega)], by omega, by omega⟩
  | bool b =>
      obtain ⟨rfl, hcount⟩ := h
      exact Or.inr ⟨.bool true, 1, rfl, Nat.le_refl 1, hcount⟩
  | _ => exact h.elim

/-! ## What is in a value -/

/-- So do the values of its entries, if a value lies within a text. -/
lemma LiesWithin.entries (h : v.LiesWithin count) : ∀ e ∈ v.entries, e.2.LiesWithin count := by
  cases h with
  | map _ _ values => exact values
  | seq => exact List.forall_mem_nil _
  | pair => exact List.forall_mem_nil _
  | leaf isLeaf => exact entries_of_not_isMap (isMap_of_isLeaf isLeaf) ▸ List.forall_mem_nil _

/-- So do its fields. -/
lemma LiesWithin.get (h : v.LiesWithin count) (name : String) : (v.get name).LiesWithin count := by
  rw [Value.get]
  cases hget : v.get? name with
  | none => exact .leaf rfl
  | some w =>
      obtain ⟨e, he, rfl⟩ := get?_eq_some hget
      exact h.entries e he

/-- So do its items, or itself. -/
lemma LiesWithin.itemsOrSelf (h : v.LiesWithin count) :
    ∀ w ∈ v.itemsOrSelf, w.LiesWithin count := by
  have hself : ∀ w ∈ [v], w.LiesWithin count := List.forall_mem_singleton.mpr h
  cases h with
  | map => exact hself
  | seq items_lie => exact items_lie
  | pair => exact hself
  | leaf isLeaf =>
      cases v with
      | null => exact List.forall_mem_nil _
      | seq items => cases isLeaf
      | _ => exact hself

/-- So do the lines of its keys. -/
lemma LiesWithin.keyLine (h : v.LiesWithin count) (key : String) :
    (v.keyLine key).IsWithin count := by
  cases h with
  | map _ keys => exact keys key
  | seq => exact isWithin_null
  | pair => exact isWithin_null
  | leaf isLeaf =>
      rw [Value.keyLine, get?, entries_of_not_isMap (isMap_of_isLeaf isLeaf)]
      exact isWithin_null

/-- So does the line where it starts. -/
lemma LiesWithin.startLine (h : v.LiesWithin count) : v.startLine.IsWithin count := by
  cases h with
  | map start => exact start
  | seq => exact isWithin_null
  | pair => exact isWithin_null
  | leaf isLeaf =>
      rw [Value.startLine, get?, entries_of_not_isMap (isMap_of_isLeaf isLeaf)]
      exact isWithin_null

/-- The line where a mapping starts is what it holds under the key for it, if that is a line. -/
lemma isWithin_startLine (h : (v.get Yaml.lineKey).IsWithin count) :
    v.startLine.IsWithin count := by
  rw [Value.get] at h
  unfold Value.startLine
  split
  · rename_i hget
    rwa [hget] at h
  · rename_i hget
    rwa [hget] at h
  · exact isWithin_null

end Value

namespace Yaml

variable {count : Nat} {entries : List (Node × Node)} {info : NodeInfo} {b : Builder}
    {root n : Node} {e : Node × Node}

/-! ## Mappings with positions -/

namespace Builder

/-- The first entry in which a key is written gives a line within the count. -/
lemma isWithin_firstLine (hkeys : ∀ e ∈ entries, e.1.start.line < count) (written : String) :
    (((entries.find? fun e => e.1.isWritten written).map fun e => Value.int e.1.line).getD
      .null).IsWithin count := by
  cases hfind : entries.find? fun e => e.1.isWritten written with
  | none => exact Value.isWithin_null
  | some e =>
      exact Value.isWithin_int (Nat.le_add_left 1 _) (hkeys e (List.mem_of_find?_eq_some hfind))

/-- The lines of keys are numbers, and record no lines but the one of a key that is written like the
key for lines. -/
lemma liesWithin_keyLines (hmerge : ∀ e ∈ entries, e.1.tag ≠ Tag.merge)
    (hkeys : ∀ e ∈ entries, e.1.start.line < count) :
    (Value.map ((b.keyLines entries).map fun (k, n) => (Value.str k, Value.int n))).LiesWithin
      count := by
  have hint : ∀ e ∈ (b.keyLines entries).map fun (k, n) => (Value.str k, Value.int n),
      ∃ n, e.2 = .int n := by
    intro e he
    obtain ⟨p, -, rfl⟩ := List.mem_map.mp he
    exact ⟨_, rfl⟩
  refine .map (Value.isWithin_startLine ?_) (fun key => ?_) fun e he => ?_
  · rw [get_lines, get?_keyLines hmerge, Option.map_map]
    exact isWithin_firstLine hkeys lineKey
  · rw [Value.keyLine_of_int hint]
    exact Value.isWithin_null
  · obtain ⟨n, hn⟩ := hint e he
    exact hn ▸ Value.LiesWithin.leaf rfl

/-- The entries for positions tell lines of nodes. -/
lemma liesWithin_addPositions (hmerge : ∀ e ∈ entries, e.1.tag ≠ Tag.merge)
    (hkeys : ∀ e ∈ entries, e.1.start.line < count) (hstart : info.start.line < count)
    {es : List (Value × Value)} (hleaf : ∀ e ∈ es, e.1.isLeaf = true)
    (hes : ∀ e ∈ es, e.2.LiesWithin count) :
    (Value.map (b.addPositions info entries es)).LiesWithin count := by
  refine .map ?_ (fun key => ?_) fun e he => ?_
  · rw [startLine_addPositions hleaf]
    exact Value.isWithin_int (Nat.le_add_left 1 _) hstart
  · rw [keyLine_addPositions hmerge]
    exact isWithin_firstLine hkeys key
  · rcases mem_addPositions he with he | ⟨n, heq⟩ | heq
    · exact hes e he
    · exact heq ▸ Value.LiesWithin.leaf rfl
    · exact heq ▸ liesWithin_keyLines hmerge hkeys

end Builder

/-- The keys that a node of a tree offers are written in the tree. -/
lemma Node.LiesWithin.offered (h : root.LiesWithin count) (hn : n.Within root) (he : e ∈ n.offers) :
    e.1.start.line < count := by
  obtain ⟨info, own, howner, hmem, -⟩ := hn.exists_owner he
  exact h.key howner e hmem

/-- **The value of a node** records lines of nodes. -/
lemma Builder.IsComplete.liesWithin_value (hb : b.IsComplete .pipeline root)
    (hroot : root.IsNumbered)
    (hlines : root.LiesWithin count) (h : n.IsLoaded root) {fuel : Nat} {v : Value}
    (hv : b.value .pipeline fuel n = .ok v) : v.LiesWithin count := by
  refine hb.value_induction hroot (motive := fun _ _ v => v.LiesWithin count) ?leaf ?mapping
    ?sequence ?pairs h hv
  case leaf => exact fun hleaf => .leaf hleaf.isLeaf
  case sequence =>
    intro fuel info items values _ _ hvalues
    refine .seq fun w hw => ?_
    obtain ⟨item, -, hlies⟩ := exists_left_of_forall₂ hvalues hw
    exact hlies
  case pairs =>
    intro fuel info items values _ _ hvalues
    refine .seq fun w hw => ?_
    obtain ⟨k, v, rfl⟩ := hvalues w hw
    exact .pair k v
  case mapping =>
    intro fuel info own pairs hn _ hpairs
    refine liesWithin_addPositions (fun e he => Node.tag_ne_merge_of_mem_offers he)
      (fun e he => hlines.offered hn.within he) (hlines.collection hn.within nofun)
        (fun e he => ?_) fun e he => ?_
    · obtain ⟨p, hp, heq⟩ := Value.exists_fst_of_mem_entriesOf he
      obtain ⟨e', -, hkey, -⟩ := exists_left_of_forall₂ hpairs hp
      exact heq ▸ hkey.isLeaf
    · rcases Value.mem_foldl_insertEntry he with he | ⟨p, hp, heq⟩
      · cases he
      · obtain ⟨e', -, -, hlies⟩ := exists_left_of_forall₂ hpairs hp
        exact heq ▸ hlies

/-! ## Texts -/

/-- What can be read of a text has no more lines than the text. -/
lemma length_lines_ofText_le (text : String) :
    (Text.lines (Passage.ofText text).text).length ≤ (Text.lines text).length := by
  unfold Passage.ofText
  split
  · exact Nat.zero_le _
  · exact Nat.le_refl _

/-- **The lines that a text records** are its own. -/
theorem liesWithin_of_load {text : String} {tree : Value} (h : load .pipeline text = .ok tree) :
    tree.LiesWithin (Text.lines text).length := by
  rcases load_cases h with ⟨-, rfl⟩ | ⟨root, b, hparse, hroot, -, hb, hv⟩
  · exact .leaf rfl
  · have hlines := (Node.liesWithin_of_parse hparse).mono (length_lines_ofText_le text)
    exact hb.liesWithin_value hroot hlines .refl hv

end Yaml

end PipelineAudit
