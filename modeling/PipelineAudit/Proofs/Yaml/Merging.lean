import PipelineAudit.Proofs.Yaml.Numbering

/-!
# Merge keys

What the merge keys of a mapping stand for can be said without the order in which mappings are
expanded (`Yaml.Node.offers`): the entries that its merge keys bring in, then its own. They are
entries of the tree (`Yaml.Node.Within.of_mem_offers`), none of them has a merge key
(`Yaml.Node.tag_ne_merge_of_mem_offers`), and without merge keys they are those that are written
(`Yaml.Node.offers_of_forall_ne`). Which mappings are merged into which others is told by
`Yaml.Node.merges`.
-/

namespace PipelineAudit.Yaml

namespace Node

/-! ## What a mapping holds -/

mutual

/-- The entries that a node offers where it is merged: those of a mapping with its merge keys
expanded, or those of several mappings, the last one first. -/
def offers : Node → List (Node × Node)
  | .scalar _ _ => []
  | .sequence _ items => offersOfItems items
  | .mapping _ own => offersOfMerged own ++ own.filter fun e => decide (e.1.tag ≠ Tag.merge)
termination_by structural n => n

/-- What the items of a sequence offer, the last one first. -/
def offersOfItems : List Node → List (Node × Node)
  | [] => []
  | item :: rest => offersOfItems rest ++ offers item
termination_by structural items => items

/-- What the values of merge keys offer. -/
def offersOfMerged : List (Node × Node) → List (Node × Node)
  | [] => []
  | e :: rest => offersOfEntry e ++ offersOfMerged rest
termination_by structural entries => entries

/-- What the value of a merge key offers; nothing for other keys. -/
def offersOfEntry : Node × Node → List (Node × Node)
  | (k, v) => if k.tag = Tag.merge then offers v else []
termination_by structural e => e

end

variable {n root : Node} {info : NodeInfo} {own : List (Node × Node)} {e : Node × Node}

/-- What is true of a node if it is true of its parts is true of all nodes. -/
theorem induction_parts {p : Node → Prop} (h : ∀ n, (∀ m ∈ n.parts, p m) → p n) (n : Node) :
    p n := by
  have hlt : ∀ {m n : Node}, m ∈ n.parts → sizeOf m < sizeOf n := by
    intro m n hm
    cases n with
    | scalar info text => cases hm
    | sequence info items =>
        have hitem : sizeOf m < sizeOf items := List.sizeOf_lt_of_mem hm
        simp only [sequence.sizeOf_spec]
        omega
    | mapping info entries =>
        obtain ⟨⟨k, v⟩, he, hm⟩ := List.mem_flatMap.mp hm
        have hentry := List.sizeOf_lt_of_mem he
        simp only [Prod.mk.sizeOf_spec] at hentry
        simp only [mapping.sizeOf_spec]
        rcases List.mem_pair.mp hm with rfl | rfl <;> omega
  induction hsize : sizeOf n using Nat.strong_induction_on generalizing n with
  | _ size ih =>
      apply h
      intro m hm
      exact ih (sizeOf m) (hsize ▸ hlt hm) m rfl

/-- Items offer what one of them offers. -/
lemma mem_offersOfItems {items : List Node} :
    e ∈ offersOfItems items ↔ ∃ item ∈ items, e ∈ item.offers := by
  induction items with
  | nil => simp [offersOfItems]
  | cons item rest ih => simp [offersOfItems, ih, or_comm]

/-- What is merged in offers what the value of a merge key offers. -/
lemma mem_offersOfMerged {entries : List (Node × Node)} :
    e ∈ offersOfMerged entries ↔ ∃ p ∈ entries, p.1.tag = Tag.merge ∧ e ∈ p.2.offers := by
  induction entries with
  | nil => simp [offersOfMerged]
  | cons p rest ih =>
      obtain ⟨k, v⟩ := p
      by_cases hk : k.tag = Tag.merge
      · simp [offersOfMerged, offersOfEntry, hk, ih]
      · simp [offersOfMerged, offersOfEntry, hk, ih]

/-- Where there are no merge keys, nothing is merged. -/
lemma offersOfMerged_eq_nil {entries : List (Node × Node)}
    (h : ∀ p ∈ entries, p.1.tag ≠ Tag.merge) : offersOfMerged entries = [] := by
  rw [List.eq_nil_iff_forall_not_mem]
  intro e he
  obtain ⟨p, hp, hmerge, -⟩ := mem_offersOfMerged.mp he
  exact h p hp hmerge

/-- A mapping without merge keys offers its own entries. -/
lemma offers_of_forall_ne (h : ∀ p ∈ own, p.1.tag ≠ Tag.merge) :
    (mapping info own).offers = own := by
  rw [offers, offersOfMerged_eq_nil h, List.nil_append, List.filter_eq_self]
  intro p hp
  simpa using h p hp

/-- What a node of a tree offers is an own entry of a mapping of the tree, and not a merge. -/
lemma Within.exists_owner (hn : n.Within root) (he : e ∈ n.offers) :
    ∃ info own, (mapping info own).Within root ∧ e ∈ own ∧ e.1.tag ≠ Tag.merge := by
  induction n using induction_parts with
  | h n ih =>
      cases n with
      | scalar info text => simp [offers] at he
      | sequence info items =>
          rw [offers, mem_offersOfItems] at he
          obtain ⟨item, hitem, he⟩ := he
          exact ih item hitem (hn.part hitem) he
      | mapping info own =>
          rw [offers, List.mem_append] at he
          rcases he with he | he
          · obtain ⟨p, hp, -, he⟩ := mem_offersOfMerged.mp he
            have hpart := (mem_parts_of_mem info hp).2
            exact ih p.2 hpart (hn.part hpart) he
          · exact ⟨info, own, hn,
              List.mem_of_mem_filter he, by simpa using (List.mem_filter.mp he).2⟩

/-- No merge keys are offered. -/
lemma tag_ne_merge_of_mem_offers (he : e ∈ n.offers) : e.1.tag ≠ Tag.merge := by
  obtain ⟨info, own, -, -, hne⟩ := (Within.refl n).exists_owner he
  exact hne

/-- What a node of a tree offers is in the tree. -/
lemma Within.of_mem_offers (hn : n.Within root) (he : e ∈ n.offers) :
    e.1.Within root ∧ e.2.Within root := by
  obtain ⟨info, own, howner, hmem, -⟩ := hn.exists_owner he
  have hparts := mem_parts_of_mem info hmem
  exact ⟨howner.part hparts.1, howner.part hparts.2⟩

/-! ## Which mappings are merged -/

/-- The entries that are written in a mapping, without its merge keys. -/
def written : Node → List (Node × Node)
  | .mapping _ own => own.filter fun e => decide (e.1.tag ≠ Tag.merge)
  | _ => []

/-- What is merged where a node is the value of a merge key: the items of a sequence, or the node
itself. -/
def mergeItems : Node → List Node
  | .sequence _ items => items
  | n => [n]

/-- What the merge keys of a mapping merge into it. -/
def merges : Node → List Node
  | .mapping _ own => own.flatMap fun e => if e.1.tag = Tag.merge then e.2.mergeItems else []
  | _ => []

/-- A mapping is merged into another one, by a merge key there or through mappings between them. -/
def IsMergedInto (m n : Node) : Prop := Relation.TransGen (fun m n => m ∈ n.merges) m n

/-- What is merged into a mapping stands as the value of a merge key. -/
lemma mem_merges {m : Node} :
    m ∈ (mapping info own).merges ↔ ∃ e ∈ own, e.1.tag = Tag.merge ∧ m ∈ e.2.mergeItems := by
  simp [merges]

/-- Without merge keys, nothing is merged. -/
lemma merges_of_forall_ne (h : ∀ p ∈ own, p.1.tag ≠ Tag.merge) :
    (mapping info own).merges = [] := by
  rw [List.eq_nil_iff_forall_not_mem]
  intro m hm
  obtain ⟨p, hp, hmerge, -⟩ := mem_merges.mp hm
  exact h p hp hmerge

/-- What is merged into a mapping of a tree is in the tree. -/
lemma Within.of_mem_merges {m : Node} (hn : n.Within root) (hm : m ∈ n.merges) : m.Within root := by
  cases n with
  | scalar info text => cases hm
  | sequence info items => cases hm
  | mapping info own =>
      obtain ⟨⟨k, v⟩, he, -, hm⟩ := mem_merges.mp hm
      have hv : v.Within root := hn.part (mem_parts_of_mem info he).2
      cases v with
      | sequence vinfo items => exact hv.part hm
      | scalar vinfo text => exact List.mem_singleton.mp hm ▸ hv
      | mapping vinfo ventries => exact List.mem_singleton.mp hm ▸ hv

/-- The entries that are written in a mapping are among those that it offers. -/
lemma written_sublist_offers (n : Node) : n.written.Sublist n.offers := by
  cases n with
  | mapping info own => exact List.sublist_append_right _ _
  | _ => exact List.nil_sublist _

/-- A mapping without merge keys has nothing to leave out. -/
lemma written_of_forall_ne (h : ∀ p ∈ own, p.1.tag ≠ Tag.merge) :
    (mapping info own).written = own :=
  List.filter_eq_self.mpr fun p hp => decide_eq_true (h p hp)

/-- What a mapping offers has no merge keys to leave out. -/
lemma written_offers (n : Node) (info : NodeInfo) : (mapping info n.offers).written = n.offers :=
  List.filter_eq_self.mpr fun _ he => decide_eq_true (tag_ne_merge_of_mem_offers he)

end Node

end PipelineAudit.Yaml
