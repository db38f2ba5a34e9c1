import PipelineAudit.Proofs.Yaml.Reading

/-!
# Positions are only added

Recording positions changes nothing else about what a text is read as. A schema without positions
composes the same nodes (`Yaml.Node.parse_withoutPositions`), fills the same collections in the same
order (`Yaml.Builder.ofRoot_withoutPositions`), and reads off values that differ in position entries
alone (`Yaml.Builder.IsComplete.exists_value_withoutPositions`). So a tree that was read with
positions is, when cleaned, the one that is read without them (`Yaml.exists_load_withoutPositions`).

Cleaning does not look into pairs. Their tags are what has to be absent; `Yaml.tagsOf` lists the
tags of a text.
-/

namespace PipelineAudit

namespace Yaml

/-- The schema that reads scalars in the same way, but neither refuses repeated keys nor records
positions. -/
def Schema.withoutPositions (schema : Schema) : Schema := { schema with positions := false }

/-! ## The same nodes -/

namespace Compose

variable {schema schema' : Schema}

/-- How scalars are parsed depends on how a schema resolves them. -/
lemma scalar_congr (h : schema.resolve = schema'.resolve) : scalar schema = scalar schema' := by
  unfold scalar
  rw [h]

/-- What is composed depends on a schema only by the tags of plain scalars. -/
lemma readers_congr (h : schema.resolve = schema'.resolve) (fuel : Nat) :
    node schema fuel = node schema' fuel ∧ blockItems schema fuel = blockItems schema' fuel ∧
      indentlessItems schema fuel = indentlessItems schema' fuel ∧
      blockEntries schema fuel = blockEntries schema' fuel ∧
      flowItems schema fuel = flowItems schema' fuel ∧
      flowPair schema fuel = flowPair schema' fuel ∧
      flowEntries schema fuel = flowEntries schema' fuel := by
  have hscalar := scalar_congr h
  have hempty : emptyScalar schema = emptyScalar schema' := by
    unfold emptyScalar
    rw [hscalar]
  -- the readers call each other with less fuel, so they are compared all at once
  induction fuel with
  | zero => exact ⟨rfl, rfl, rfl, rfl, rfl, rfl, rfl⟩
  | succ fuel ih =>
      obtain ⟨hnode, hblock, hindentless, hentries, hflow, hpair, hflowEntries⟩ := ih
      refine ⟨?_, ?_, ?_, ?_, ?_, ?_, ?_⟩
      · funext block indentless
        simp only [node, hscalar, hindentless, hflow, hflowEntries, hblock, hentries]
      · funext opened
        simp only [blockItems, hempty, hnode, hblock]
      · simp only [indentlessItems, hempty, hnode, hindentless]
      · funext opened
        simp only [blockEntries, hempty, hnode, hentries]
      · funext opened isFirst
        simp only [flowItems, hpair, hnode, hflow]
      · simp only [flowPair, hempty, hnode]
      · funext opened isFirst
        simp only [flowEntries, hempty, hnode, hflowEntries]

/-- So does how documents are parsed. -/
lemma document_congr (h : schema.resolve = schema'.resolve) (fuel : Nat) :
    document schema fuel = document schema' fuel := by
  have hnode : node schema fuel = node schema' fuel := (readers_congr h fuel).1
  have hannounced : announcedDocument? schema fuel = announcedDocument? schema' fuel := by
    unfold announcedDocument? emptyScalar
    rw [hnode, scalar_congr h]
  unfold document
  rw [hnode, hannounced]

end Compose

/-- Without positions, the same nodes are composed. -/
lemma Node.parse_withoutPositions (schema : Schema) (passage : Passage) :
    Node.parse schema.withoutPositions passage = Node.parse schema passage := by
  have h : schema.withoutPositions.resolve = schema.resolve := rfl
  unfold Node.parse
  dsimp only
  rw [Compose.document_congr h]

/-! ## The same filling -/

namespace Build

variable {schema : Schema} {n : Node} {b : Builder} {r : Unit × Builder}

/-- A mapping that can be filled is filled in the same way without positions. -/
lemma run_fillMapping_withoutPositions (h : (fillMapping schema n).run b = .ok r) :
    (fillMapping schema.withoutPositions n).run b = .ok r := by
  cases n with
  | scalar info text =>
      unfold fillMapping at h
      dsimp only at h
      split_ifs at h <;> cases h
  | sequence info items =>
      unfold fillMapping at h
      dsimp only at h
      split_ifs at h <;> cases h
  | mapping info own =>
      unfold fillMapping at h
      rw [StateT.run_bind] at h
      obtain ⟨⟨_, _⟩, hget, h⟩ := bind_eq_ok.mp h
      cases hget
      dsimp only at h
      split_ifs at h
      · split at h
        · cases h
        · exact h
      · exact h

/-- What is filled is filled without positions as well. -/
lemma run_fill_withoutPositions (h : (fill schema n).run b = .ok r) :
    (fill schema.withoutPositions n).run b = .ok r := by
  by_cases hmap : b.tagOf n = Tag.map
  · rw [run_fill_of_map hmap] at h ⊢
    exact run_fillMapping_withoutPositions h
  · exact (run_fill_of_not_map hmap).symm.trans h

/-- The collections that can be filled are filled in the same way without positions. -/
lemma run_fillAll_withoutPositions {rounds : Nat} (h : (fillAll schema rounds).run b = .ok r) :
    (fillAll schema.withoutPositions rounds).run b = .ok r := by
  induction rounds generalizing b with
  | zero => exact h
  | succ rounds ih =>
      cases hwaiting : b.waiting with
      | nil =>
          rw [run_fillAll_of_nil hwaiting] at h ⊢
          exact h
      | cons n rest =>
          rw [run_fillAll_of_cons hwaiting] at h ⊢
          obtain ⟨⟨_, b₁⟩, hfill, h⟩ := bind_eq_ok.mp h
          exact bind_eq_ok.mpr ⟨_, run_fill_withoutPositions hfill, ih h⟩

end Build

/-- A tree that can be filled is filled in the same way without positions. -/
lemma Builder.ofRoot_withoutPositions {schema : Schema} {root : Node} {b : Builder}
    (h : ofRoot schema root = .ok b) : ofRoot schema.withoutPositions root = .ok b := by
  obtain ⟨b₁, hmeet, hrun⟩ := exists_of_ofRoot h
  rw [ofRoot_of_meetNode hmeet, Build.run_fillAll_withoutPositions hrun]
  rfl

/-! ## The same values -/

/-- A tag marks pairs. -/
def Tag.IsPairs (tag : String) : Prop := tag = Tag.omap ∨ tag = Tag.pairs

namespace Builder.IsComplete

variable {b : Builder} {schema schema' : Schema} {root n : Node} {info : NodeInfo}
    {fuel : Nat} {v : Value}

/-- **Values differ in position entries alone**, where there are no pairs. -/
lemma exists_value_withoutPositions (hb : b.IsComplete schema root) (hroot : root.IsNumbered)
    (hpairs : ∀ m : Node, m.Within root → ¬Tag.IsPairs m.tag) (hn : n.IsLoaded root)
    (hv : b.value schema fuel n = .ok v) :
    ∃ w, b.value schema.withoutPositions fuel n = .ok w ∧ v.clean = w.clean := by
  refine hb.value_induction hroot (motive := fun fuel n v =>
    ∃ w, b.value schema.withoutPositions fuel n = .ok w ∧ v.clean = w.clean) ?leaf ?mapping
      ?sequence ?pairs hn hv
  case leaf =>
    intro fuel n v hleaf
    exact ⟨v, hleaf.read _, rfl⟩
  case pairs =>
    intro fuel info items values hn htag
    exact absurd htag (hpairs _ hn.within)
  case sequence =>
    intro fuel info items values hn htag hvalues
    obtain ⟨others, hothers, hclean⟩ := exists_forall₂ hvalues fun _ _ _ hread => hread
    refine ⟨.seq others, (hb.value_sequence_iff hroot hn htag).mpr ⟨others, hothers, rfl⟩, ?_⟩
    rw [Value.clean_seq, Value.clean_seq]
    refine congrArg Value.seq ?_
    rwa [← List.forall₂_eq_eq_eq, List.forall₂_map_left_iff, List.forall₂_map_right_iff]
  case mapping =>
    intro fuel info own pairs hn htag hread
    -- keys are read alike under both schemas, and values are so when cleaned
    have hentry : ∀ e ∈ (Node.mapping info own).offers, ∀ {p : Value × Value},
        (b.ReadsLeaf fuel e.1 p.1 ∧
          ∃ w, b.value schema.withoutPositions fuel e.2 = .ok w ∧ p.2.clean = w.clean) →
        ∃ q, b.ReadsEntry schema.withoutPositions fuel e q ∧ p.1 = q.1 ∧ p.2.clean = q.2.clean := by
      rintro e - p ⟨hkey, w, hw, hclean⟩
      exact ⟨(p.1, w), ⟨hkey.read _, hw⟩, rfl, hclean⟩
    obtain ⟨others, hothers, halike⟩ := exists_forall₂ hread hentry
    refine ⟨.map (Value.entriesOf others), ?_, ?_⟩
    · exact (hb.value_mapping_iff hroot hn htag).mpr ⟨others, hothers, rfl⟩
    have hentries : Value.cleanEntries (Value.entriesOf pairs) =
        Value.cleanEntries (Value.entriesOf others) :=
          (Value.AreAlike.entriesOf halike).cleanEntries_eq
    rw [Value.clean, Value.clean]
    refine congrArg Value.map ?_
    split_ifs
    · rw [Value.cleanEntries_eq_map, properEntries_addPositions, ← Value.cleanEntries_eq_map,
        hentries]
    · exact hentries

/-- The lines of keys make a tree. -/
lemma isTree_addPositions (b : Builder) (info : NodeInfo) (expanded : List (Node × Node))
    {es : List (Value × Value)} (h : (Value.map es).IsTree) :
    (Value.map (b.addPositions info expanded es)).IsTree := by
  refine ((h.insertEntry rfl (.leaf rfl)).insertEntry rfl (.leaf rfl)).insertEntry rfl (.map ?_ ?_)
  · exact List.forall_mem_map.mpr fun _ _ => rfl
  · exact List.forall_mem_map.mpr fun _ _ => .leaf rfl

/-- Where there are no pairs, values are trees. -/
lemma isTree_value (hb : b.IsComplete schema root) (hroot : root.IsNumbered)
    (hpairs : ∀ m : Node, m.Within root → ¬Tag.IsPairs m.tag) (hn : n.IsLoaded root)
    (hv : b.value schema' fuel n = .ok v) : v.IsTree := by
  refine hb.value_induction hroot (motive := fun _ _ v => v.IsTree) ?leaf ?mapping
    ?sequence ?pairs hn hv
  case leaf => exact fun hleaf => .leaf hleaf.isLeaf
  case pairs =>
    intro fuel info items values hn htag
    exact absurd htag (hpairs _ hn.within)
  case sequence =>
    intro fuel info items values _ _ hvalues
    refine .seq fun value hvalue => ?_
    obtain ⟨item, -, htree⟩ := exists_left_of_forall₂ hvalues hvalue
    exact htree
  case mapping =>
    intro fuel info own pairs _ _ hread
    have htree : (Value.map (Value.entriesOf pairs)).IsTree := by
      refine Value.isTree_entriesOf fun p hp => ?_
      obtain ⟨e, -, hkey, hvalue⟩ := exists_left_of_forall₂ hread hp
      exact ⟨hkey.isLeaf, hvalue⟩
    split_ifs
    · exact isTree_addPositions b info _ htree
    · exact htree

end Builder.IsComplete

/-! ## Tags of a text -/

mutual

/-- The tags of the nodes of a tree. -/
def Node.tags : Node → List String
  | .scalar info _ => [info.tag]
  | .sequence info items => info.tag :: Node.tagsOfItems items
  | .mapping info entries => info.tag :: Node.tagsOfEntries entries
termination_by structural n => n

/-- The tags of the nodes of several trees. -/
def Node.tagsOfItems : List Node → List String
  | [] => []
  | n :: rest => Node.tags n ++ Node.tagsOfItems rest
termination_by structural ns => ns

/-- The tags of the nodes of entries. -/
def Node.tagsOfEntries : List (Node × Node) → List String
  | [] => []
  | e :: rest => Node.tagsOfEntry e ++ Node.tagsOfEntries rest
termination_by structural es => es

/-- The tags of the nodes of an entry. -/
def Node.tagsOfEntry : Node × Node → List String
  | (k, v) => Node.tags k ++ Node.tags v
termination_by structural e => e

end

/-- The tag of a node is among its tags. -/
lemma Node.tag_mem_tags (n : Node) : n.tag ∈ n.tags := by
  cases n <;> exact List.mem_cons_self

/-- The tags of a part are tags of the whole. -/
lemma Node.tags_subset_of_mem_parts {m n : Node} (h : m ∈ n.parts) : m.tags ⊆ n.tags := by
  have hitems : ∀ {items : List Node}, m ∈ items → m.tags ⊆ Node.tagsOfItems items := by
    intro items hm
    induction items with
    | nil => cases hm
    | cons item rest ih =>
        rw [Node.tagsOfItems]
        rcases List.mem_cons.mp hm with rfl | hm
        · exact List.subset_append_left _ _
        · exact List.subset_append_of_subset_right _ (ih hm)
  have hentries : ∀ {entries : List (Node × Node)}, (∃ e ∈ entries, m = e.1 ∨ m = e.2) →
      m.tags ⊆ Node.tagsOfEntries entries := by
    rintro entries ⟨e, he, heq⟩
    induction entries with
    | nil => cases he
    | cons e' rest ih =>
        rw [Node.tagsOfEntries]
        rcases List.mem_cons.mp he with rfl | he
        · refine List.subset_append_of_subset_left _ ?_
          rw [Node.tagsOfEntry]
          rcases heq with rfl | rfl
          · exact List.subset_append_left _ _
          · exact List.subset_append_right _ _
        · exact List.subset_append_of_subset_right _ (ih he)
  cases n with
  | scalar info text => cases h
  | sequence info items => exact List.subset_cons_of_subset _ (hitems h)
  | mapping info entries => exact List.subset_cons_of_subset _ (hentries (Node.mem_ofEntries.mp h))

/-- A node of a tree has one of the tags of the tree. -/
lemma Node.Within.tag_mem_tags {m root : Node} (h : m.Within root) : m.tag ∈ root.tags := by
  have hsubset : m.tags ⊆ root.tags := by
    induction h with
    | refl => exact List.Subset.refl _
    | tail _ hpart ih => exact List.Subset.trans ih (Node.tags_subset_of_mem_parts hpart)
  exact hsubset m.tag_mem_tags

/-- The tags of the nodes that a text is composed of. -/
def tagsOf (schema : Schema) (text : String) : List String :=
  match Node.parse schema (Passage.ofText text) with
  | .ok (some root) => root.tags
  | _ => []

/-! ## Reading with and without positions -/

section load

variable {schema : Schema} {text : String} {v : Value}

/-- What can be read with positions can be read without them. -/
lemma exists_load_of_load (h : load schema text = .ok v) :
    ∃ w, load schema.withoutPositions text = .ok w := by
  rcases load_cases h with ⟨hparse, -⟩ | ⟨root, b, hparse, -, hb, -, hv⟩
  · exact ⟨.null, bind_eq_ok.mpr ⟨none, (Node.parse_withoutPositions schema _).trans hparse, rfl⟩⟩
  · obtain ⟨w, hw⟩ : ∃ w, b.value schema.withoutPositions root.reach root = .ok w :=
      Builder.exists_value_of_value hv
    exact ⟨w, bind_eq_ok.mpr ⟨some root, (Node.parse_withoutPositions schema _).trans hparse,
      bind_eq_ok.mpr ⟨b, Builder.ofRoot_withoutPositions hb, hw⟩⟩⟩

/-- Without the tags of pairs in a text, no node of its tree has one. -/
lemma not_isPairs_of_parse {root : Node}
    (hparse : Node.parse schema (Passage.ofText text) = .ok (some root))
    (htags : ∀ tag, Tag.IsPairs tag → tag ∉ tagsOf schema text) (m : Node) (hm : m.Within root) :
    ¬Tag.IsPairs m.tag := by
  have hall : tagsOf schema text = root.tags := by
    unfold tagsOf
    rw [hparse]
  exact fun hpairs => htags m.tag hpairs (hall ▸ hm.tag_mem_tags)

/-- A text without the tags of pairs is read as a tree. -/
lemma isTree_of_load (h : load schema text = .ok v)
    (htags : ∀ tag, Tag.IsPairs tag → tag ∉ tagsOf schema text) : v.IsTree := by
  rcases load_cases h with ⟨-, rfl⟩ | ⟨root, b, hparse, hroot, -, hb, hv⟩
  · exact .leaf rfl
  · exact hb.isTree_value hroot (not_isPairs_of_parse hparse htags) .refl hv

/-- A text without the tags of pairs can be read without positions, and what it is read as is the
same when cleaned. -/
lemma exists_load_withoutPositions (h : load schema text = .ok v)
    (htags : ∀ tag, Tag.IsPairs tag → tag ∉ tagsOf schema text) :
    ∃ w, load schema.withoutPositions text = .ok w ∧ v.clean = w.clean := by
  rcases load_cases h with ⟨hparse, rfl⟩ | ⟨root, b, hparse, hroot, hb, hcomplete, hv⟩
  · refine ⟨.null, bind_eq_ok.mpr ⟨none, ?_, rfl⟩, rfl⟩
    rw [Node.parse_withoutPositions, hparse]
  · obtain ⟨w, hw, hclean⟩ := hcomplete.exists_value_withoutPositions hroot
      (not_isPairs_of_parse hparse htags) .refl hv
    refine ⟨w, bind_eq_ok.mpr ⟨some root, ?_, ?_⟩, hclean⟩
    · rw [Node.parse_withoutPositions, hparse]
    · exact bind_eq_ok.mpr ⟨b, Builder.ofRoot_withoutPositions hb, hw⟩

end load

/-- **Recording positions is transparent.** A text that is read with positions, and in which no
pairs and no sets are tagged, is read without them too; and if the tree read without them has no
position key of its own, then it is what cleaning leaves of the tree with positions, entry by entry
in the same order. Cleaning once is enough, and leaves no position key at any depth. -/
theorem clean_of_load {text : String} {v : Value} (h : load .pipeline text = .ok v)
    (htags : ∀ tag ∈ [Tag.omap, Tag.pairs, Tag.set], tag ∉ tagsOf .pipeline text) :
    (∃ w, load Schema.pipeline.withoutPositions text = .ok w ∧
      (w.holdsPositionKey = false → v.clean = w)) ∧
      v.clean.clean = v.clean ∧ v.clean.holdsPositionKey = false := by
  have hpairs : ∀ tag, Tag.IsPairs tag → tag ∉ tagsOf .pipeline text := by
    rintro tag (rfl | rfl)
    · exact htags Tag.omap (by decide)
    · exact htags Tag.pairs (by decide)
  refine ⟨?_, v.clean_clean, (isTree_of_load h hpairs).not_holdsPositionKey_clean⟩
  obtain ⟨w, hw, hclean⟩ := exists_load_withoutPositions h hpairs
  refine ⟨w, hw, fun hfree => ?_⟩
  rw [hclean, Value.clean_of_not_holdsPositionKey hfree]

/-- A mapping that is shared by a list, and merged inside a list of lists with one of its keys
overridden. -/
theorem clean_of_load_merge :
    let text := "base: &b\n  on: push\n  x: 1\nitems:\n- *b\n- [\x7b<<: *b, x: 2\x7d]\n"
    ∃ v w, load .pipeline text = .ok v ∧ v.holdsPositionKey = true ∧
      load Schema.pipeline.withoutPositions text = .ok w ∧ w.holdsPositionKey = false ∧
        v.clean = w := by
  intro text
  obtain ⟨v, hv, hheld⟩ := exists_ok_of_any (x := load .pipeline text)
    (p := fun v => v.holdsPositionKey = true) (by decide +kernel)
  obtain ⟨w, hw, hfree⟩ := exists_ok_of_any (x := load Schema.pipeline.withoutPositions text)
    (p := fun w => w.holdsPositionKey = false) (by decide +kernel)
  obtain ⟨⟨w', hw', hclean⟩, -⟩ := clean_of_load hv (by decide +kernel)
  obtain rfl : w = w' := Except.ok.inj (hw.symm.trans hw')
  exact ⟨v, w, hv, hheld, hw, hfree, hclean hfree⟩

end Yaml

end PipelineAudit
