import Mathlib.Data.List.Duplicate
import Mathlib.Data.List.Perm.Subperm
import PipelineAudit.Proofs.Value.Clean
import PipelineAudit.Proofs.Yaml.Merging
import PipelineAudit.Yaml.Tree

/-!
# Filling collections

When the values of a tree are made, collections wait in a queue until they are filled, and a bound
on the number of rounds ends the filling. Here it is shown that the bound is never reached: at the
end every collection that was met is filled (`Yaml.Builder.isComplete_of_ofRoot`). Its parts have
been met then, the keys of a mapping are no collections, and its entries are those that
`Yaml.Node.offers` tells.

Three notions carry the proof. What a builder remembers belongs to nodes of the tree, and along with
a mapping it has expanded those that are merged into it (`Yaml.Builder.IsSound`); what it remembers
stays (`Yaml.Builder.Extends`), so facts that were reached are not lost later; and a step that
starts from a builder with the first property ends with one that has it too, extends the one before
and has reached something (`Yaml.Build.Leads`). That all waiting collections get their turn is a
matter of counting: a collection is met once, and no more can be met than there are numbers up to
that of the root.
-/

namespace PipelineAudit

namespace Yaml

/-! ## What a builder remembers -/

/-- A value that a node with a scalar tag may have. -/
structure Node.Admits (n : Node) (v : Value) : Prop where
  not_collection : n.tag ∉ collectionTags
  not_merge : n.tag ≠ Tag.merge
  isLeaf : v.isLeaf = true
  text : ∀ {info text s}, n = .scalar info text → v = .str s → s = text

namespace Builder

/-- A mapping has been expanded. -/
def IsExpanded (b : Builder) (n : Node) : Prop := (b.expanded.get? n.id).isSome = true

/-- What a builder remembers belongs to nodes of a tree. With a mapping, those that are merged into
it have been expanded. -/
structure IsSound (b : Builder) (root : Node) : Prop where
  retagged : ∀ id ∈ b.retagged, ∃ n : Node, n.Within root ∧ n.id = id ∧ n.tag = Tag.value
  expanded : ∀ {id entries}, b.expanded.get? id = some entries →
    ∃ info own, (Node.mapping info own).Within root ∧ info.id = id ∧
      entries = (Node.mapping info own).offers
  merged : ∀ n : Node, n.Within root → b.IsExpanded n → ∀ m ∈ n.merges, b.IsExpanded m
  scalars : ∀ {id v}, b.scalars.lookup id = some v → ∃ n : Node, n.Within root ∧
    n.id = id ∧ n.Admits v
  met : ∀ id ∈ b.met, ∃ n : Node, n.Within root ∧ n.id = id ∧ n.tag ∈ collectionTags
  nodup : b.met.Nodup
  waiting : ∀ n ∈ b.waiting, n.Within root ∧ n.tag ∈ collectionTags

/-- What a builder remembers is remembered by another one. -/
structure Remembers (b b' : Builder) : Prop where
  retagged : b.retagged ⊆ b'.retagged
  expanded : ∀ {id entries}, b.expanded.get? id = some entries → b'.expanded.get? id = some entries
  scalars : ∀ {id v}, b.scalars.lookup id = some v → b'.scalars.lookup id = some v
  met : b.met ⊆ b'.met

/-- A builder remembers what it remembers. -/
lemma Remembers.refl (b : Builder) : b.Remembers b :=
  ⟨fun _ h => h, fun h => h, fun h => h, fun _ h => h⟩

/-- What is remembered stays remembered. -/
lemma Remembers.trans {b₁ b₂ b₃ : Builder} (h : b₁.Remembers b₂) (h' : b₂.Remembers b₃) :
    b₁.Remembers b₃ where
  retagged := List.Subset.trans h.retagged h'.retagged
  expanded hget := h'.expanded (h.expanded hget)
  scalars hget := h'.scalars (h.scalars hget)
  met := List.Subset.trans h.met h'.met

/-- Another builder remembers what a builder remembers, and collections that are new to it wait
there. -/
structure Extends (b b' : Builder) : Prop extends b.Remembers b' where
  waiting : b.waiting ⊆ b'.waiting
  fresh : ∀ id ∈ b'.met, id ∈ b.met ∨ ∃ n ∈ b'.waiting, n.id = id
  count : b'.met.length + b.waiting.length = b.met.length + b'.waiting.length

/-- A builder extends itself. -/
lemma Extends.refl (b : Builder) : b.Extends b :=
  ⟨Remembers.refl b, fun _ h => h, fun _ h => Or.inl h, rfl⟩

/-- An extension of an extension is one. -/
lemma Extends.trans {b₁ b₂ b₃ : Builder} (h : b₁.Extends b₂) (h' : b₂.Extends b₃) :
    b₁.Extends b₃ where
  toRemembers := h.toRemembers.trans h'.toRemembers
  waiting := List.Subset.trans h.waiting h'.waiting
  fresh := by
    intro id hid
    rcases h'.fresh id hid with hid | hid
    · exact (h.fresh id hid).imp_right fun ⟨n, hn, heq⟩ => ⟨n, h'.waiting hn, heq⟩
    · exact Or.inr hid
  count := by
    have hfirst := h.count
    have hsecond := h'.count
    omega

/-- A node has been met: it has its value, or it was put into the queue. -/
def HasMet (b : Builder) (n : Node) : Prop := n.id ∈ b.met ∨ (b.scalars.lookup n.id).isSome = true

/-- A node that has been met stays so. -/
lemma HasMet.mono {b b' : Builder} {n : Node} (hmet : b.HasMet n) (h : b.Remembers b') :
    b'.HasMet n := by
  refine hmet.imp (fun hid => h.met hid) fun hsome => ?_
  obtain ⟨v, hv⟩ := Option.isSome_iff_exists.mp hsome
  rw [h.scalars hv]
  rfl

/-- A mapping stays expanded. -/
lemma IsExpanded.mono {b b' : Builder} {n : Node} (hn : b.IsExpanded n) (h : b.Remembers b') :
    b'.IsExpanded n := by
  obtain ⟨entries, hentries⟩ := Option.isSome_iff_exists.mp hn
  unfold IsExpanded
  rw [h.expanded hentries]
  rfl

/-- A mapping with expanded entries has been expanded. -/
lemma isExpanded_of_get? {b : Builder} {n : Node} {entries : List (Node × Node)}
    (h : b.expanded.get? n.id = some entries) : b.IsExpanded n := by
  unfold IsExpanded
  rw [h]
  rfl

/-- Remembering the entries of a mapping expands this mapping. -/
lemma isExpanded_insert {b : Builder} {id : Nat} {entries : List (Node × Node)} {n : Node} :
    IsExpanded { b with expanded := b.expanded.insert id entries } n ↔ id = n.id ∨
      b.IsExpanded n := by
  unfold IsExpanded
  dsimp only
  rw [Assoc.get?_insert]
  by_cases hid : id = n.id
  · simp [hid]
  · simp [hid]

/-- The mappings that have been expanded are all of a kind. -/
def ExpandsOnly (b : Builder) (root : Node) (scope : Node → Prop) : Prop :=
  ∀ n : Node, n.Within root → b.IsExpanded n → scope n

section sound

variable {b b' : Builder} {root n : Node} {info : NodeInfo} {own : List (Node × Node)}

/-- At first nothing is remembered. -/
lemma isSound_empty (root : Node) : ({} : Builder).IsSound root where
  retagged := nofun
  expanded := nofun
  merged := nofun
  scalars := nofun
  met := nofun
  nodup := List.nodup_nil
  waiting := nofun

/-- Only a key `=` changes its tag. -/
lemma IsSound.tagOf_eq (hb : b.IsSound root) (hroot : root.IsNumbered) (hn : n.Within root) :
    b.tagOf n = n.tag ∨ n.tag = Tag.value ∧ b.tagOf n = Tag.str := by
  unfold tagOf
  by_cases hid : b.retagged.contains n.id = true
  · rw [if_pos hid]
    obtain ⟨m, hm, heq, htag⟩ := hb.retagged n.id (by simpa using hid)
    rw [hroot.eq_of_id hm hn heq] at htag
    exact Or.inr ⟨htag, rfl⟩
  · rw [if_neg hid]
    exact Or.inl rfl

/-- A tag that is neither that of a text nor that of a key `=` is the one that is written. -/
lemma IsSound.tagOf_eq_iff (hb : b.IsSound root) (hroot : root.IsNumbered) (hn : n.Within root)
    (tag : String)
    (hstr : tag ≠ Tag.str) (hvalue : tag ≠ Tag.value) : b.tagOf n = tag ↔ n.tag = tag := by
  rcases hb.tagOf_eq hroot hn with heq | ⟨hold, hnew⟩
  · rw [heq]
  · rw [hold, hnew]
    exact ⟨fun h => absurd h.symm hstr, fun h => absurd h.symm hvalue⟩

/-- Whether a node is a collection is told by the tag that is written. -/
lemma IsSound.contains_tagOf (hb : b.IsSound root) (hroot : root.IsNumbered) (hn : n.Within root) :
    collectionTags.contains (b.tagOf n) = true ↔ n.tag ∈ collectionTags := by
  rw [List.contains_iff_mem]
  rcases hb.tagOf_eq hroot hn with heq | ⟨hold, hnew⟩
  · rw [heq]
  · rw [hold, hnew]
    decide

/-- What is remembered for a mapping is what it offers. -/
lemma IsSound.eq_offers (hb : b.IsSound root) (hroot : root.IsNumbered)
    (hn : (Node.mapping info own).Within root) {entries : List (Node × Node)}
    (h : b.expanded.get? info.id = some entries) : entries = (Node.mapping info own).offers := by
  obtain ⟨info', own', hm, heq, rfl⟩ := hb.expanded h
  rw [hroot.eq_of_id hm hn heq]

/-- The entries of a mapping are those that are written or those that it offers. -/
lemma IsSound.entriesOf_cases (hb : b.IsSound root) (hroot : root.IsNumbered)
    (hn : (Node.mapping info own).Within root) :
    b.entriesOf info.id own = own ∨ b.entriesOf info.id own = (Node.mapping info own).offers := by
  unfold entriesOf
  cases hget : b.expanded.get? info.id with
  | none => exact Or.inl rfl
  | some entries => exact Or.inr (hb.eq_offers hroot hn hget)

/-- The keys and values of a mapping are in the tree, expanded or not. -/
lemma IsSound.within_of_mem_entriesOf (hb : b.IsSound root) (hroot : root.IsNumbered)
    (hn : (Node.mapping info own).Within root) {e : Node × Node}
    (he : e ∈ b.entriesOf info.id own) : e.1.Within root ∧ e.2.Within root := by
  rcases hb.entriesOf_cases hroot hn with heq | heq
  · have hparts := Node.mem_parts_of_mem info (heq ▸ he)
    exact ⟨hn.part hparts.1, hn.part hparts.2⟩
  · exact hn.of_mem_offers (heq ▸ he)

/-- Of a node that has been met, the value is known if it is no collection. -/
lemma IsSound.of_hasMet (hb : b.IsSound root) (hroot : root.IsNumbered) (hn : n.Within root)
    (h : b.HasMet n) :
    n.id ∈ b.met ∧ n.tag ∈ collectionTags ∨ ∃ v, b.scalars.lookup n.id = some v ∧ n.Admits v := by
  rcases h with hid | hsome
  · obtain ⟨m, hm, heq, htag⟩ := hb.met n.id hid
    rw [hroot.eq_of_id hm hn heq] at htag
    exact Or.inl ⟨hid, htag⟩
  · obtain ⟨v, hv⟩ := Option.isSome_iff_exists.mp hsome
    obtain ⟨m, hm, heq, hadmits⟩ := hb.scalars hv
    rw [hroot.eq_of_id hm hn heq] at hadmits
    exact Or.inr ⟨v, hv, hadmits⟩

/-- A node that has been met is no merge key. -/
lemma IsSound.tag_ne_merge (hb : b.IsSound root) (hroot : root.IsNumbered) (hn : n.Within root)
    (h : b.HasMet n) : n.tag ≠ Tag.merge := by
  rcases hb.of_hasMet hroot hn h with ⟨-, htag⟩ | ⟨v, -, hadmits⟩
  · intro hmerge
    rw [hmerge] at htag
    exact absurd htag (by decide)
  · exact hadmits.not_merge

/-- No more collections can be met than there are numbers up to that of the root. -/
lemma IsSound.length_met_le (hb : b.IsSound root) (hroot : root.IsNumbered) :
    b.met.length ≤ root.id + 1 := by
  have hsub : b.met ⊆ List.range (root.id + 1) := by
    intro id hid
    obtain ⟨n, hn, rfl, -⟩ := hb.met id hid
    exact List.mem_range.mpr (Nat.lt_succ_of_le (hroot.id_le hn))
  simpa using (List.Nodup.subperm hb.nodup hsub).length_le

end sound

end Builder

/-! ## Steps -/

namespace Build

variable {α β : Type} {root : Node} {pre : Builder → Prop} {scope : Node → Prop}

/-- From a builder that is sound and has a property, a step leads to one that is sound, extends it
and has another property. -/
def Leads (root : Node) (pre : Builder → Prop) (x : Build α) (post : α → Builder → Prop) : Prop :=
  ∀ b a b', b.IsSound root → pre b → x.run b = .ok (a, b') →
    b'.IsSound root ∧ b.Extends b' ∧ post a b'

/-- Returning leads where one is. -/
lemma Leads.pure {post : α → Builder → Prop} {a : α} (h : ∀ b, b.IsSound root → pre b → post a b) :
    Leads root pre (Pure.pure a) post := by
  intro b a' b' hb hpre heq
  cases heq
  exact ⟨hb, Builder.Extends.refl b, h b hb hpre⟩

/-- Of a step that fails nothing is asked. -/
lemma Leads.throw {post : α → Builder → Prop} (e : Error) :
    Leads root pre (throw e : Build α) post := by
  intro b a b' _ _ heq
  cases heq

/-- Two steps lead on from one property to the next. -/
lemma Leads.bind {x : Build α} {f : α → Build β} {mid : α → Builder → Prop}
    {post : β → Builder → Prop} (hx : Leads root pre x mid)
    (hf : ∀ a, Leads root (mid a) (f a) post) : Leads root pre (x >>= f) post := by
  intro b c b' hb hpre h
  rw [StateT.run_bind] at h
  obtain ⟨⟨a, b₁⟩, hfirst, h⟩ := bind_eq_ok.mp h
  obtain ⟨hb₁, hextends, hmid⟩ := hx b a b₁ hb hpre hfirst
  obtain ⟨hb', hextends', hpost⟩ := hf a b₁ c b' hb₁ hmid h
  exact ⟨hb', hextends.trans hextends', hpost⟩

/-- Nothing follows a failure. -/
lemma Leads.throw_bind {f : α → Build β} {post : β → Builder → Prop} (e : Error) :
    Leads root pre (MonadExcept.throw e >>= f) post := by
  intro b a b' _ _ heq
  cases heq

/-- What does not depend on the builder may be assumed. -/
lemma Leads.assume {x : Build α} {fact : Prop} {post : α → Builder → Prop}
    (h : fact → Leads root pre x post) : Leads root (fun b => fact ∧ pre b) x post :=
  fun b a b' hb hpre hrun => h hpre.1 b a b' hb hpre.2 hrun

/-- A look at the builder changes nothing. -/
lemma Leads.get_bind {f : Builder → Build β} {post : β → Builder → Prop}
    (hf : ∀ b, b.IsSound root → pre b → Leads root (fun b' => b' = b) (f b) post) :
    Leads root pre (MonadState.get >>= f) post := by
  intro b c b' hb hpre h
  rw [StateT.run_bind] at h
  obtain ⟨⟨_, _⟩, hget, h⟩ := bind_eq_ok.mp h
  cases hget
  exact hf b hb hpre b c b' hb rfl h

/-- A step may be taken from fewer builders, and more may be forgotten. -/
lemma Leads.imp {x : Build α} {pre' : Builder → Prop} {post post' : α → Builder → Prop}
    (h : Leads root pre x post) (hpre : ∀ b, pre' b → pre b)
    (hpost : ∀ a b, b.IsSound root → post a b → post' a b) : Leads root pre' x post' := by
  intro b a b' hb hb' hrun
  obtain ⟨hsound, hextends, hreached⟩ := h b a b' hb (hpre b hb') hrun
  exact ⟨hsound, hextends, hpost a b' hsound hreached⟩

/-- A fact that stays is still there after a step. -/
lemma Leads.keep {x : Build α} {post : α → Builder → Prop} (h : Leads root pre x post)
    (fact : Builder → Prop)
    (hstays : ∀ {b b' : Builder}, b'.IsSound root → b.Remembers b' → fact b → fact b') :
    Leads root (fun b => pre b ∧ fact b) x fun a b => post a b ∧ fact b := by
  intro b a b' hb ⟨hpre, hfact⟩ hrun
  obtain ⟨hsound, hextends, hreached⟩ := h b a b' hb hpre hrun
  exact ⟨hsound, hextends, hreached, hstays hsound hextends.toRemembers hfact⟩

/-- What a step leads to may be told from its runs, if they are known to lead somewhere. -/
lemma Leads.of_run {x : Build α} {post post' : α → Builder → Prop}
    (h : Leads root (fun _ => True) x post)
    (hrun : ∀ b a b', b.IsSound root → pre b → x.run b = .ok (a, b') → post' a b') :
    Leads root pre x post' := by
  intro b a b' hb hpre hok
  obtain ⟨hb', hextends, -⟩ := h b a b' hb trivial hok
  exact ⟨hb', hextends, hrun b a b' hb hpre hok⟩

/-- What a step keeps is still there when it has led somewhere. -/
lemma Leads.keeps {x : Build α} {post : α → Builder → Prop} {p : Builder → Prop}
    (h : Leads root pre x post)
    (hkeeps : Keeps p x) : Leads root (fun b => pre b ∧ p b) x fun a b => post a b ∧ p b := by
  rintro b a b' hb ⟨hpre, hp⟩ hrun
  obtain ⟨hb', hextends, hpost⟩ := h b a b' hb hpre hrun
  exact ⟨hb', hextends, hpost, hkeeps b a b' hp hrun⟩

/-- Steps on the items of a list reach something for each of them. -/
lemma Leads.forM {f : α → Build Unit} {reached : α → Builder → Prop} {items : List α}
    (hstays : ∀ a ∈ items, ∀ {b b' : Builder}, b'.IsSound root → b.Remembers b' → reached a b →
      reached a b') (h : ∀ a ∈ items, Leads root (fun _ => True) (f a) fun _ => reached a) :
    Leads root (fun _ => True) (items.forM f) fun _ b => ∀ a ∈ items, reached a b := by
  induction items with
  | nil => exact Leads.pure fun _ _ _ _ ha => absurd ha List.not_mem_nil
  | cons a rest ih =>
      have hrest := ih (fun a' ha' => hstays a' (List.mem_cons_of_mem a ha'))
        fun a' ha' => h a' (List.mem_cons_of_mem a ha')
      refine (h a List.mem_cons_self).bind fun _ => ?_
      refine (hrest.keep (reached a) (hstays a List.mem_cons_self)).imp
        (fun b hb => ⟨trivial, hb⟩) ?_
      rintro _ b _ ⟨hall, hfirst⟩ a' ha'
      rcases List.mem_cons.mp ha' with rfl | ha'
      · exact hfirst
      · exact hall a' ha'

/-! ### Expanding -/

/-- Remembering what a mapping offers extends a builder in which all that it merges has been
expanded. -/
lemma leads_remember (hroot : root.IsNumbered) {info : NodeInfo} {own : List (Node × Node)}
    (hn : (Node.mapping info own).Within root) (hscope : scope (.mapping info own)) :
    Leads root (fun b => b.ExpandsOnly root scope ∧ ∀ m ∈ (Node.mapping info own).merges,
      b.IsExpanded m)
      (modify fun b =>
        { b with expanded := b.expanded.insert info.id (Node.mapping info own).offers })
      fun _ b => b.ExpandsOnly root scope ∧
        b.expanded.get? info.id = some (Node.mapping info own).offers := by
  rintro b u b' hb ⟨honly, hmerged⟩ heq
  cases heq
  refine ⟨⟨hb.retagged, ?_, ?_, hb.scalars, hb.met, hb.nodup, hb.waiting⟩,
    ⟨⟨fun _ h => h, ?_, fun h => h, fun _ h => h⟩, fun _ h => h, fun _ h => Or.inl h, rfl⟩, ?_, ?_⟩
  · intro id entries hget
    rw [Assoc.get?_insert] at hget
    split_ifs at hget with hid
    · cases hget
      exact ⟨info, own, hn, by simpa using hid, rfl⟩
    · exact hb.expanded hget
  · intro n hn' hexpanded m hm
    refine Builder.isExpanded_insert.mpr (Or.inr ?_)
    rcases Builder.isExpanded_insert.mp hexpanded with hid | hold
    · exact hmerged m (hroot.eq_of_id hn hn' hid ▸ hm)
    · exact hb.merged n hn' hold m hm
  · intro id entries hget
    rw [Assoc.get?_insert]
    split_ifs with hid
    · have hid : info.id = id := by simpa using hid
      rw [← hid] at hget
      rw [hb.eq_offers hroot hn hget]
    · exact hget
  · intro n hn' hexpanded
    rcases Builder.isExpanded_insert.mp hexpanded with hid | hold
    · exact hroot.eq_of_id hn hn' hid ▸ hscope
    · exact honly n hn' hold
  · dsimp only
    rw [Assoc.get?_insert]
    simp

/-- A key `=` may become a text. -/
lemma leads_retag {n : Node} (hn : n.Within root) (htag : n.tag = Tag.value) :
    Leads root (fun b => b.ExpandsOnly root scope)
      (modify fun b => { b with retagged := n.id :: b.retagged })
      fun _ b => b.ExpandsOnly root scope := by
  intro b u b' hb honly heq
  cases heq
  refine ⟨⟨?_, hb.expanded, hb.merged, hb.scalars, hb.met, hb.nodup, hb.waiting⟩,
    ⟨⟨fun _ h => List.mem_cons_of_mem _ h, fun h => h, fun h => h, fun _ h => h⟩, fun _ h => h,
      fun _ h => Or.inl h, rfl⟩, honly⟩
  intro id hid
  rcases List.mem_cons.mp hid with rfl | hid
  · exact ⟨n, hn, rfl, htag⟩
  · exact hb.retagged id hid

/-- Expanding a mapping returns what it offers and remembers it, and expands only mappings of a
kind. -/
def Expands (root : Node) (scope : Node → Prop)
    (expandOne : NodeInfo → List (Node × Node) → Build (List (Node × Node))) (n : Node) : Prop :=
  ∀ info own, n = .mapping info own →
    Leads root (fun b => b.ExpandsOnly root scope) (expandOne info own)
    fun es b => es = n.offers ∧ b.ExpandsOnly root scope ∧ b.expanded.get? info.id = some es

/-- Items that are merged one after the other bring in what they offer, the last one first. -/
lemma leads_mergedItems {step : List (Node × Node) → Node → Build (List (Node × Node))}
    {items : List Node}
    (h : ∀ item ∈ items, ∀ merged, Leads root (fun b => b.ExpandsOnly root scope) (step merged item)
      fun es b => es = item.offers ++ merged ∧ b.ExpandsOnly root scope ∧ b.IsExpanded item)
    (merged : List (Node × Node)) :
    Leads root (fun b => b.ExpandsOnly root scope) (items.foldlM step merged) fun es b =>
      es = Node.offersOfItems items ++ merged ∧ b.ExpandsOnly root scope ∧
        ∀ m ∈ items, b.IsExpanded m := by
  induction items generalizing merged with
  | nil => exact Leads.pure fun _ _ honly => ⟨rfl, honly, fun _ hm => absurd hm List.not_mem_nil⟩
  | cons item rest ih =>
      obtain ⟨hitem, hrest⟩ := List.forall_mem_cons.mp h
      rw [List.foldlM_cons]
      refine (hitem merged).bind fun es => Leads.assume ?_
      rintro rfl
      refine ((ih hrest (item.offers ++ merged)).keep (fun b => b.IsExpanded item)
        fun _ hextends h => h.mono hextends).imp (fun _ h => h) ?_
      rintro es b _ ⟨⟨rfl, honly, hall⟩, hone⟩
      rw [Node.offersOfItems, List.append_assoc]
      exact ⟨rfl, honly, List.forall_mem_cons.mpr ⟨hone, hall⟩⟩

/-- The value of a merge key brings in what it offers, and what it merges is expanded. -/
lemma leads_mergedEntries {expandOne : NodeInfo → List (Node × Node) → Build (List (Node × Node))}
    (info : NodeInfo) {n : Node} (h : ∀ m ∈ n.mergeItems, Expands root scope expandOne m) :
    Leads root (fun b => b.ExpandsOnly root scope) (mergedEntries expandOne info n) fun es b =>
      es = n.offers ∧ b.ExpandsOnly root scope ∧ ∀ m ∈ n.mergeItems, b.IsExpanded m := by
  cases n with
  | scalar vinfo text => exact Leads.throw _
  | mapping vinfo ventries =>
      refine (h _ (List.mem_singleton_self _) vinfo ventries rfl).imp (fun _ h => h) ?_
      rintro es b _ ⟨rfl, honly, hget⟩
      refine ⟨rfl, honly, fun m hm => ?_⟩
      rw [List.mem_singleton.mp hm]
      exact Builder.isExpanded_of_get? hget
  | sequence vinfo items =>
      refine (leads_mergedItems (fun item hitem merged => ?_) []).imp (fun _ h => h) ?_
      · cases item with
        | scalar iinfo text => exact Leads.throw _
        | sequence iinfo items => exact Leads.throw _
        | mapping iinfo ientries =>
            refine (h _ hitem iinfo ientries rfl).bind fun es => Leads.pure ?_
            rintro b _ ⟨rfl, honly, hget⟩
            exact ⟨rfl, honly, Builder.isExpanded_of_get? hget⟩
      · rintro es b _ ⟨rfl, hall⟩
        exact ⟨by rw [List.append_nil, Node.offers], hall⟩

/-- An entry with a merge key brings in what it offers, and any other is kept. -/
lemma leads_partEntry (hroot : root.IsNumbered) {fuel : Nat} (info : NodeInfo) {k v : Node}
    (hkey : k.Within root)
    (h : k.tag = Tag.merge → ∀ m ∈ v.mergeItems, Expands root scope (expandWithin fuel) m)
    (merged kept : List (Node × Node)) :
    Leads root (fun b => b.ExpandsOnly root scope) (do
      let tag := (← MonadState.get).tagOf k
      if tag = Tag.merge then
        return (merged ++ (← mergedEntries (expandWithin fuel) info v), kept)
      else
        if tag = Tag.value then modify fun b => { b with retagged := k.id :: b.retagged }
        return (merged, kept ++ [(k, v)]))
      fun parted b => parted = (merged ++ Node.offersOfEntry (k, v),
        kept ++ [(k, v)].filter fun e => decide (e.1.tag ≠ Tag.merge)) ∧
        b.ExpandsOnly root scope ∧ (k.tag = Tag.merge → ∀ m ∈ v.mergeItems, b.IsExpanded m) := by
  refine Leads.get_bind fun b hb honly => ?_
  have hmerge := hb.tagOf_eq_iff hroot hkey Tag.merge (by decide) (by decide)
  have hpre : ∀ b', b' = b → b'.ExpandsOnly root scope := fun _ heq => heq ▸ honly
  dsimp only
  by_cases htag : k.tag = Tag.merge
  · rw [if_pos (hmerge.mpr htag)]
    refine ((leads_mergedEntries info (h htag)).imp hpre fun _ _ _ h => h).bind fun es =>
      Leads.pure ?_
    rintro b _ ⟨rfl, honly, hall⟩
    exact ⟨by simp [Node.offersOfEntry, htag], honly, fun _ => hall⟩
  · rw [if_neg fun hb => htag (hmerge.mp hb)]
    have hpart : (merged, kept ++ [(k, v)]) = (merged ++ Node.offersOfEntry (k, v),
        kept ++ [(k, v)].filter fun e => decide (e.1.tag ≠ Tag.merge)) := by
      simp [Node.offersOfEntry, htag]
    by_cases hset : b.tagOf k = Tag.value
    · rw [if_pos hset]
      have hown : k.tag = Tag.value := by
        rcases hb.tagOf_eq hroot hkey with heq | ⟨hold, -⟩
        · exact heq ▸ hset
        · exact hold
      refine ((leads_retag hkey hown).imp hpre fun _ _ _ h => h).bind fun _ => ?_
      exact Leads.pure fun b _ honly => ⟨hpart, honly, fun h => absurd h htag⟩
    · rw [if_neg hset]
      exact Leads.pure fun b _ heq => ⟨hpart, hpre b heq, fun h => absurd h htag⟩

/-- Going through entries parts them into what merge keys bring in and the rest. -/
lemma leads_partEntries (hroot : root.IsNumbered) {fuel : Nat} (info : NodeInfo)
    {entries : List (Node × Node)} (hkeys : ∀ e ∈ entries, e.1.Within root)
    (h : ∀ m ∈ (Node.mapping info entries).merges, Expands root scope (expandWithin fuel) m)
    (merged kept : List (Node × Node)) :
    Leads root (fun b => b.ExpandsOnly root scope) (entries.foldlM (fun (merged, kept) entry => do
      let tag := (← MonadState.get).tagOf entry.1
      if tag = Tag.merge then
        return (merged ++ (← mergedEntries (expandWithin fuel) info entry.2), kept)
      else
        if tag = Tag.value then modify fun b => { b with retagged := entry.1.id :: b.retagged }
        return (merged, kept ++ [entry])) (merged, kept))
      fun parted b => parted = (merged ++ Node.offersOfMerged entries,
        kept ++ entries.filter fun e => decide (e.1.tag ≠ Tag.merge)) ∧
        b.ExpandsOnly root scope ∧ ∀ m ∈ (Node.mapping info entries).merges, b.IsExpanded m := by
  induction entries generalizing merged kept with
  | nil => exact Leads.pure fun _ _ honly => ⟨by simp [Node.offersOfMerged], honly, nofun⟩
  | cons e rest ih =>
      obtain ⟨hkey, hrest⟩ := List.forall_mem_cons.mp hkeys
      obtain ⟨k, v⟩ := e
      have hmerges : ∀ m, m ∈ (Node.mapping info ((k, v) :: rest)).merges ↔
          k.tag = Tag.merge ∧ m ∈ v.mergeItems ∨ m ∈ (Node.mapping info rest).merges := by
        simp [Node.mem_merges]
      have hfirst : k.tag = Tag.merge →
          ∀ m ∈ v.mergeItems, Expands root scope (expandWithin fuel) m :=
        fun htag m hm => h m ((hmerges m).mpr (Or.inl ⟨htag, hm⟩))
      have hlater := ih hrest fun m hm => h m ((hmerges m).mpr (Or.inr hm))
      rw [List.foldlM_cons]
      refine (leads_partEntry hroot info hkey hfirst merged kept).bind fun parted => Leads.assume ?_
      rintro rfl
      refine ((hlater _ _).keep (fun b => k.tag = Tag.merge → ∀ m ∈ v.mergeItems, b.IsExpanded m)
        fun _ hextends h htag m hm => (h htag m hm).mono hextends).imp (fun _ h => h) ?_
      rintro parted b _ ⟨⟨rfl, honly, hall⟩, hone⟩
      have hfilter : ((k, v) :: rest).filter (fun e => decide (e.1.tag ≠ Tag.merge)) =
          [(k, v)].filter (fun e => decide (e.1.tag ≠ Tag.merge)) ++
            rest.filter fun e => decide (e.1.tag ≠ Tag.merge) := by
        rw [← List.filter_append, List.singleton_append]
      rw [Node.offersOfMerged, hfilter, ← List.append_assoc, ← List.append_assoc]
      refine ⟨rfl, honly, fun m hm => ?_⟩
      rcases (hmerges m).mp hm with ⟨htag, hm⟩ | hm
      · exact hone htag m hm
      · exact hall m hm

/-- The entries of a mapping, whether it was expanded before or not, part into what its merge keys
bring in and what is kept. -/
lemma leads_parted (hroot : root.IsNumbered) {fuel : Nat} {info : NodeInfo}
    {own : List (Node × Node)} (hn : (Node.mapping info own).Within root)
    (h : ∀ m ∈ (Node.mapping info own).merges, Expands root scope (expandWithin fuel) m)
    {b : Builder} (hb : b.IsSound root) (honly : b.ExpandsOnly root scope) :
    Leads root (fun b' => b' = b) ((b.entriesOf info.id own).foldlM (fun (merged, kept) entry => do
        let tag := (← MonadState.get).tagOf entry.1
        if tag = Tag.merge then
          return (merged ++ (← mergedEntries (expandWithin fuel) info entry.2), kept)
        else
          if tag = Tag.value then modify fun b => { b with retagged := entry.1.id :: b.retagged }
          return (merged, kept ++ [entry])) ([], []))
      fun parted b' => parted.1 ++ parted.2 = (Node.mapping info own).offers ∧
        b'.ExpandsOnly root scope ∧ ∀ m ∈ (Node.mapping info own).merges, b'.IsExpanded m := by
  cases hget : b.expanded.get? info.id with
  | none =>
      have hown : b.entriesOf info.id own = own := by rw [Builder.entriesOf, hget, Option.getD_none]
      rw [hown]
      refine (leads_partEntries hroot info (fun e he => hn.part (Node.mem_parts_of_mem info he).1)
        h [] []).imp (fun _ h => h ▸ honly) ?_
      rintro parted b' - ⟨rfl, honly', hmerged⟩
      exact ⟨by rw [Node.offers, List.nil_append, List.nil_append], honly', hmerged⟩
  | some es =>
      -- the mapping was expanded before, and then those that it merges were so as well
      have hmerged := hb.merged _ hn (Builder.isExpanded_of_get? hget)
      have hoffers : b.entriesOf info.id own = (Node.mapping info own).offers := by
        rw [Builder.entriesOf, hget, Option.getD_some, hb.eq_offers hroot hn hget]
      rw [hoffers]
      have hplain : ∀ e ∈ (Node.mapping info own).offers, e.1.tag ≠ Tag.merge := fun e he =>
        Node.tag_ne_merge_of_mem_offers he
      have hnone : ∀ m ∈ (Node.mapping info (Node.mapping info own).offers).merges,
          Expands root scope (expandWithin fuel) m := by
        intro m hm
        rw [Node.merges_of_forall_ne hplain] at hm
        cases hm
      refine ((leads_partEntries hroot info (fun e he => (hn.of_mem_offers he).1) hnone [] []).keep
        (fun b => ∀ m ∈ (Node.mapping info own).merges, b.IsExpanded m)
        fun _ hextends h m hm => (h m hm).mono hextends).imp ?_ ?_
      · rintro _ rfl
        exact ⟨honly, hmerged⟩
      · rintro parted b' - ⟨⟨rfl, honly', -⟩, hmerged'⟩
        have hsame : (Node.mapping info (Node.mapping info own).offers).offers =
            (Node.mapping info own).offers := Node.offers_of_forall_ne hplain
        exact ⟨hsame, honly', hmerged'⟩

/-- **Expanding a mapping** returns what it offers and remembers it, whatever was expanded before;
and no others are expanded than those that are merged into it. -/
lemma leads_expandWithin (hroot : root.IsNumbered)
    (hdown : ∀ n m : Node, scope n → m ∈ n.merges → scope m) (fuel : Nat) {n : Node}
    (hn : n.Within root) (hscope : scope n) : Expands root scope (expandWithin fuel) n := by
  induction fuel generalizing n with
  | zero => exact fun _ _ _ => Leads.throw _
  | succ fuel ih =>
      rintro info own rfl
      unfold expandWithin
      refine Leads.get_bind fun b hb honly => ?_
      have hmerges : ∀ m ∈ (Node.mapping info own).merges,
          Expands root scope (expandWithin fuel) m :=
        fun m hm => ih (hn.of_mem_merges hm) (hdown _ m hscope hm)
      refine (leads_parted hroot hn hmerges hb honly).bind ?_
      rintro ⟨merged, kept⟩
      refine Leads.assume fun hoffers => ?_
      dsimp only at hoffers ⊢
      rw [hoffers]
      exact (leads_remember hroot hn hscope).bind fun _ => Leads.pure fun _ _ h => ⟨rfl, h.1, h.2⟩

/-- Expanding a mapping gives what it offers, and expands nothing outside of the scope. -/
lemma leads_expand (hroot : root.IsNumbered)
    (hdown : ∀ n m : Node, scope n → m ∈ n.merges → scope m) {info : NodeInfo}
    {own : List (Node × Node)} (hn : (Node.mapping info own).Within root)
    (hscope : scope (.mapping info own)) :
    Leads root (fun b => b.ExpandsOnly root scope) (expand info own) fun es b =>
      es = (Node.mapping info own).offers ∧ b.ExpandsOnly root scope ∧
        b.expanded.get? info.id = some es :=
  leads_expandWithin hroot hdown (info.id + 1) hn hscope info own rfl

/-! ### Meeting -/

/-- The value of a node with a scalar tag is one that the node admits. -/
lemma admits_of_scalarValue (hroot : root.IsNumbered) {b : Builder} (hb : b.IsSound root) {n : Node}
    (hn : n.Within root) (htag : Scalar.tags.contains (b.tagOf n) = true) {v : Value}
    (h : b.scalarValue n = .ok v) : n.Admits v := by
  obtain ⟨text, htext, h⟩ := bind_eq_ok.mp h
  have hconstruct : Scalar.construct (b.tagOf n) text n.id n.start = .ok v := by
    split_ifs at h
    · cases h
    · exact h
  obtain ⟨hleaf, hsays⟩ := Scalar.leaf_of_construct hconstruct
  have hmem : b.tagOf n ∈ Scalar.tags := by simpa using htag
  have hplain : b.tagOf n ∉ collectionTags ∧ b.tagOf n ≠ Tag.merge :=
    (by decide : ∀ tag ∈ Scalar.tags, tag ∉ collectionTags ∧ tag ≠ Tag.merge) _ hmem
  refine ⟨?_, ?_, hleaf, ?_⟩
  · rw [← hb.contains_tagOf hroot hn]
    simpa using hplain.1
  · rw [Ne, ← hb.tagOf_eq_iff hroot hn Tag.merge (by decide) (by decide)]
    exact hplain.2
  · rintro info written s rfl hs
    change Except.ok written = Except.ok text at htext
    cases htext
    exact hsays s hs

/-- A collection that is new is put into the queue. -/
lemma leads_queue {n : Node} (hn : n.Within root) (htag : n.tag ∈ collectionTags) {b : Builder}
    (hnew : n.id ∉ b.met) :
    Leads root (fun b' => b' = b) (set { b with met := n.id :: b.met, waiting := b.waiting ++ [n] })
      fun _ b => b.HasMet n := by
  rintro _ u b' hb rfl heq
  cases heq
  refine ⟨⟨hb.retagged, hb.expanded, hb.merged, hb.scalars, ?_,
    List.nodup_cons.mpr ⟨hnew, hb.nodup⟩, ?_⟩,
    ⟨⟨fun _ h => h, fun h => h, fun h => h, fun _ h => List.mem_cons_of_mem _ h⟩,
      fun _ h => List.mem_append_left _ h, ?_, ?_⟩, Or.inl List.mem_cons_self⟩
  · intro id hid
    rcases List.mem_cons.mp hid with rfl | hid
    · exact ⟨n, hn, rfl, htag⟩
    · exact hb.met id hid
  · intro m hm
    rcases List.mem_append.mp hm with hm | hm
    · exact hb.waiting m hm
    · rw [List.mem_singleton.mp hm]
      exact ⟨hn, htag⟩
  · intro id hid
    rcases List.mem_cons.mp hid with rfl | hid
    · exact Or.inr ⟨n, by simp, rfl⟩
    · exact Or.inl hid
  · simp only [List.length_cons, List.length_append, List.length_nil]
    omega

/-- A scalar that is new gets its value. -/
lemma leads_assign (hroot : root.IsNumbered) {n : Node} (hn : n.Within root) {b : Builder}
    (htag : Scalar.tags.contains (b.tagOf n) = true) (hnew : b.scalars.lookup n.id = none) :
    Leads root (fun b' => b' = b) (do
      let value ← liftM (b.scalarValue n)
      set { b with scalars := (n.id, value) :: b.scalars }) fun _ b => b.HasMet n := by
  rintro _ u b' hb rfl heq
  rw [StateT.run_bind] at heq
  obtain ⟨⟨v, b₁⟩, hlift, heq⟩ := bind_eq_ok.mp heq
  obtain ⟨v', hvalue, hlift⟩ := bind_eq_ok.mp hlift
  cases hlift
  cases heq
  have hadmits : n.Admits v := admits_of_scalarValue hroot hb hn htag hvalue
  refine ⟨⟨hb.retagged, hb.expanded, hb.merged, ?_, hb.met, hb.nodup, hb.waiting⟩,
    ⟨⟨fun _ h => h, fun h => h, ?_,
    fun _ h => h⟩, fun _ h => h, fun _ h => Or.inl h, rfl⟩, Or.inr ?_⟩
  · intro id w hget
    rw [List.lookup_cons] at hget
    split at hget
    · rename_i hid
      cases hget
      exact ⟨n, hn, (by simpa using hid : id = n.id).symm, hadmits⟩
    · exact hb.scalars hget
  · intro id w hget
    rw [List.lookup_cons]
    split
    · rename_i hid
      rw [(by simpa using hid : id = n.id), hnew] at hget
      cases hget
    · exact hget
  · simp

/-- **Meeting a node** gives it a value or puts it into the queue. -/
lemma leads_meetNode (hroot : root.IsNumbered) {n : Node} (hn : n.Within root) :
    Leads root (fun _ => True) (meetNode n) fun _ b => b.HasMet n := by
  unfold meetNode
  refine Leads.get_bind fun b hb _ => ?_
  dsimp only
  by_cases hknown : (b.met.contains n.id || (b.scalars.lookup n.id).isSome) = true
  · rw [if_pos hknown]
    refine Leads.pure ?_
    rintro _ _ rfl
    simpa [Builder.HasMet] using hknown
  rw [if_neg hknown]
  simp only [Bool.or_eq_true, List.contains_iff_mem, not_or, Bool.not_eq_true,
    Option.isSome_eq_false_iff, Option.isNone_iff_eq_none] at hknown
  obtain ⟨hmet, hscalar⟩ := hknown
  split_ifs with hcollection hscalars
  · exact leads_queue hn ((hb.contains_tagOf hroot hn).mp hcollection) hmet
  · exact leads_assign hroot hn hscalars hscalar
  · exact Leads.throw _

/-- Meeting entries meets keys and values, and the keys are no collections. -/
lemma leads_meetEntries (hroot : root.IsNumbered) (info : NodeInfo) {entries : List (Node × Node)}
    (hentries : ∀ e ∈ entries, e.1.Within root ∧ e.2.Within root) :
    Leads root (fun _ => True) (meetEntries info entries) fun _ b =>
      ∀ e ∈ entries, b.HasMet e.1 ∧ b.HasMet e.2 ∧ e.1.tag ∉ collectionTags := by
  induction entries with
  | nil => exact Leads.pure fun _ _ _ _ he => absurd he List.not_mem_nil
  | cons e rest ih =>
      obtain ⟨⟨hkey, hvalue⟩, hrest⟩ := List.forall_mem_cons.mp hentries
      obtain ⟨k, v⟩ := e
      unfold meetEntries
      refine (leads_meetNode hroot hkey).bind fun _ => Leads.get_bind fun b hb hmet => ?_
      dsimp only
      split_ifs with hcollection
      · exact Leads.throw_bind _
      · have hplain : k.tag ∉ collectionTags :=
          fun h => hcollection ((hb.contains_tagOf hroot hkey).mpr h)
        have hfirst := (leads_meetNode hroot hvalue).keep (fun b => b.HasMet k) fun _ hextends hk =>
          hk.mono hextends
        have hboth : Leads root (fun b' => b' = b) (meetNode v) fun _ b => b.HasMet v ∧
            b.HasMet k := by
          refine hfirst.imp ?_ fun _ _ _ h => h
          rintro _ rfl
          exact ⟨trivial, hmet⟩
        refine hboth.bind fun _ => ?_
        have hlater := (ih hrest).keep (fun b => b.HasMet v ∧ b.HasMet k) fun _ hextends h =>
          ⟨h.1.mono hextends, h.2.mono hextends⟩
        refine hlater.imp (fun _ h => ⟨trivial, h⟩) ?_
        rintro _ b' _ ⟨hall, hv, hk⟩ e he
        rcases List.mem_cons.mp he with rfl | he
        · exact ⟨hk, hv, hplain⟩
        · exact hall e he

end Build

/-! ## Collections that are filled -/

/-- The texts of the keys that are scalars, in order. -/
def keyTexts (entries : List (Node × Node)) : List String :=
  entries.filterMap fun e =>
    match e.1 with
    | .scalar _ text => some text
    | _ => none

/-- Fewer entries have fewer texts of keys, in the same order. -/
lemma keyTexts_sublist {entries entries' : List (Node × Node)} (h : entries.Sublist entries') :
    (keyTexts entries).Sublist (keyTexts entries') := h.filterMap _

section written

variable {info kinfo : NodeInfo} {value : Node} {text : String} {rest : List (Node × Node)}

/-- A key that is a scalar comes in with its text. -/
lemma keyTexts_written_scalar (h : (Node.scalar kinfo text).tag ≠ Tag.merge) :
    keyTexts (Node.mapping info ((.scalar kinfo text, value) :: rest)).written =
      text :: keyTexts (Node.mapping info rest).written := by
  rw [Node.written, List.filter_cons, if_pos (decide_eq_true h)]
  rfl

/-- A merge key or a collection does not come in. -/
lemma keyTexts_written_skip {e : Node × Node}
    (h : e.1.tag = Tag.merge ∨ ∀ kinfo text value, e ≠ (.scalar kinfo text, value)) :
    keyTexts (Node.mapping info (e :: rest)).written =
      keyTexts (Node.mapping info rest).written := by
  rw [Node.written, List.filter_cons]
  split_ifs with hkeep
  · obtain ⟨key, value⟩ := e
    cases key with
    | scalar kinfo text =>
        exact absurd rfl (h.resolve_left (of_decide_eq_true hkeep) kinfo text value)
    | _ => rfl
  · rfl

end written

namespace Build

variable {b : Builder} (info : NodeInfo) {entries : List (Node × Node)} {seen : List String}

/-- No key is repeated exactly if the texts of keys, merge keys aside, are different and have not
been seen. -/
lemma repeatedKey?_eq_none_iff
    (hmerge : ∀ e ∈ entries, b.tagOf e.1 = Tag.merge ↔ e.1.tag = Tag.merge) :
    repeatedKey? b seen entries = none ↔
      (keyTexts (Node.mapping info entries).written).Nodup ∧
        ∀ text ∈ keyTexts (Node.mapping info entries).written, text ∉ seen := by
  fun_induction repeatedKey? b seen entries with
  | case1 seen => exact ⟨fun _ => ⟨List.nodup_nil, nofun⟩, fun _ => rfl⟩
  | case2 seen kinfo text value rest hkey ih =>
      obtain ⟨hfirst, hrest⟩ := List.forall_mem_cons.mp hmerge
      rw [keyTexts_written_skip (Or.inl (hfirst.mp hkey))]
      exact ih hrest
  | case3 seen kinfo text value rest hkey hseen =>
      obtain ⟨hfirst, -⟩ := List.forall_mem_cons.mp hmerge
      have htag : (Node.scalar kinfo text).tag ≠ Tag.merge := fun h => hkey (hfirst.mpr h)
      rw [keyTexts_written_scalar htag]
      refine ⟨nofun, ?_⟩
      rintro ⟨-, hnew⟩
      exact absurd (List.contains_iff_mem.mp hseen) (hnew text List.mem_cons_self)
  | case4 seen kinfo text value rest hkey hseen ih =>
      obtain ⟨hfirst, hrest⟩ := List.forall_mem_cons.mp hmerge
      have htag : (Node.scalar kinfo text).tag ≠ Tag.merge := fun h => hkey (hfirst.mpr h)
      have hnew : text ∉ seen := by simpa using hseen
      rw [keyTexts_written_scalar htag, ih hrest, List.nodup_cons, List.forall_mem_cons]
      constructor
      · rintro ⟨hnodup, hall⟩
        exact ⟨⟨fun hmem => hall text hmem List.mem_cons_self, hnodup⟩, hnew,
          fun other hother hmem => hall other hother (List.mem_cons_of_mem text hmem)⟩
      · rintro ⟨⟨hfresh, hnodup⟩, -, hall⟩
        refine ⟨hnodup, fun other hother hmem => ?_⟩
        rcases List.mem_cons.mp hmem with rfl | hmem
        · exact hfresh hother
        · exact hall other hother hmem
  | case5 seen e rest hkind ih =>
      rw [keyTexts_written_skip (Or.inr hkind)]
      exact ih (List.forall_mem_cons.mp hmerge).2

/-- A key that is repeated has been seen, or there are two with its text. -/
lemma duplicate_of_repeatedKey? {text : String} {mark : Mark}
    (hmerge : ∀ e ∈ entries, b.tagOf e.1 = Tag.merge ↔ e.1.tag = Tag.merge)
    (h : repeatedKey? b seen entries = some (text, mark)) :
    text ∈ seen ∧ text ∈ keyTexts (Node.mapping info entries).written ∨
      List.Duplicate text (keyTexts (Node.mapping info entries).written) := by
  fun_induction repeatedKey? b seen entries with
  | case1 seen => cases h
  | case2 seen kinfo own value rest hkey ih =>
      obtain ⟨hfirst, hrest⟩ := List.forall_mem_cons.mp hmerge
      rw [keyTexts_written_skip (Or.inl (hfirst.mp hkey))]
      exact ih hrest h
  | case3 seen kinfo own value rest hkey hseen =>
      obtain ⟨hfirst, -⟩ := List.forall_mem_cons.mp hmerge
      have htag : (Node.scalar kinfo own).tag ≠ Tag.merge := fun h => hkey (hfirst.mpr h)
      rw [keyTexts_written_scalar htag]
      cases h
      exact Or.inl ⟨List.contains_iff_mem.mp hseen, List.mem_cons_self⟩
  | case4 seen kinfo own value rest hkey hseen ih =>
      obtain ⟨hfirst, hrest⟩ := List.forall_mem_cons.mp hmerge
      have htag : (Node.scalar kinfo own).tag ≠ Tag.merge := fun h => hkey (hfirst.mpr h)
      rw [keyTexts_written_scalar htag]
      rcases ih hrest h with ⟨hmem, hlater⟩ | hlater
      · rcases List.mem_cons.mp hmem with rfl | hmem
        · exact Or.inr hlater.duplicate_cons_self
        · exact Or.inl ⟨hmem, List.mem_cons_of_mem own hlater⟩
      · exact Or.inr (hlater.duplicate_cons own)
  | case5 seen e rest hkind ih =>
      rw [keyTexts_written_skip (Or.inr hkind)]
      exact ih (List.forall_mem_cons.mp hmerge).2 h

end Build

namespace Builder

/-- A mapping with one entry, where both its key and its value have been met. -/
def HasMetPair (b : Builder) (item : Node) : Prop :=
  ∃ info own k v, item = .mapping info own ∧ item.offers = [(k, v)] ∧
  b.entriesOf info.id own = [(k, v)] ∧ b.HasMet k ∧ b.HasMet v

/-- A collection has been filled: its parts have been met. The keys of a mapping are no collections,
and those that are written in it have different texts, if this is what the schema asks for. -/
inductive Filled (b : Builder) (schema : Schema) : Node → Prop
  | mapping {info : NodeInfo} {own : List (Node × Node)} (tag : info.tag = Tag.map)
      (expanded : b.expanded.get? info.id = some (Node.mapping info own).offers)
      (entries : ∀ e ∈ (Node.mapping info own).offers,
        b.HasMet e.1 ∧ b.HasMet e.2 ∧ e.1.tag ∉ collectionTags)
      (keys : schema.positions = true → (keyTexts (Node.mapping info own).written).Nodup) :
      b.Filled schema (.mapping info own)
  | sequence {info : NodeInfo} {items : List Node} (tag : info.tag = Tag.seq)
      (items_met : ∀ item ∈ items, b.HasMet item) : b.Filled schema (.sequence info items)
  | pairs {info : NodeInfo} {items : List Node} (tag : info.tag = Tag.omap ∨ info.tag = Tag.pairs)
      (items_met : ∀ item ∈ items, b.HasMetPair item) : b.Filled schema (.sequence info items)

variable {b b' : Builder} {schema : Schema} {root n : Node}

/-- The entries of a mapping that are already what it offers stay. -/
lemma Remembers.entriesOf_eq (hextends : b.Remembers b') (hroot : root.IsNumbered)
    (hb' : b'.IsSound root) {info : NodeInfo} {own : List (Node × Node)}
    (hn : (Node.mapping info own).Within root)
    (h : b.entriesOf info.id own = (Node.mapping info own).offers) :
    b'.entriesOf info.id own = (Node.mapping info own).offers := by
  unfold entriesOf at h ⊢
  cases hget : b'.expanded.get? info.id with
  | some es => exact hb'.eq_offers hroot hn hget
  | none =>
      cases hold : b.expanded.get? info.id with
      | some es => exact absurd (hextends.expanded hold) (by simp [hget])
      | none =>
          rw [hold] at h
          exact h

/-- A mapping of one entry keeps it. -/
lemma HasMetPair.mono (hroot : root.IsNumbered) (hb' : b'.IsSound root) (hextends : b.Remembers b')
    (hn : n.Within root) (h : b.HasMetPair n) : b'.HasMetPair n := by
  obtain ⟨info, own, k, v, rfl, hoffers, hentries, hk, hv⟩ := h
  refine ⟨info, own, k, v, rfl, hoffers, ?_, hk.mono hextends, hv.mono hextends⟩
  exact (hextends.entriesOf_eq hroot hb' hn (hentries.trans hoffers.symm)).trans hoffers

/-- What is filled stays filled. -/
lemma Filled.mono (hroot : root.IsNumbered) (hb' : b'.IsSound root) (hextends : b.Remembers b')
    (hn : n.Within root) (h : b.Filled schema n) : b'.Filled schema n := by
  cases h with
  | mapping tag expanded entries keys =>
      refine .mapping tag (hextends.expanded expanded) (fun e he => ?_) keys
      obtain ⟨hk, hv, hplain⟩ := entries e he
      exact ⟨hk.mono hextends, hv.mono hextends, hplain⟩
  | sequence tag items_met =>
      exact .sequence tag fun item hitem => (items_met item hitem).mono hextends
  | pairs tag items_met =>
      refine .pairs tag fun item hitem => ?_
      exact (items_met item hitem).mono hroot hb' hextends (hn.part hitem)

end Builder

namespace Build

variable {root : Node} {schema : Schema}

/-- To fill a mapping is to meet its entries, once the look at its keys has found nothing; what is
no mapping is refused. -/
lemma leads_fillMapping_of_mapping {pre : Builder → Prop} {post : Unit → Builder → Prop} {n : Node}
    (h : ∀ info own, n = .mapping info own → ∀ b : Builder, b.IsSound root → pre b →
      (schema.positions = true → repeatedKey? b [] (b.entriesOf info.id own) = none) →
        Leads root (fun b' => b' = b) (do meetEntries info (← expand info own)) post) :
    Leads root pre (fillMapping schema n) post := by
  cases n with
  | scalar info text =>
      unfold fillMapping
      dsimp only
      split_ifs
      · exact Leads.throw_bind _
      · exact Leads.throw _
  | sequence info items =>
      unfold fillMapping
      dsimp only
      split_ifs
      · exact Leads.throw_bind _
      · exact Leads.throw _
  | mapping info own =>
      unfold fillMapping
      refine Leads.get_bind fun b hb hpre => ?_
      dsimp only
      split_ifs with hpositions
      · split
        · exact Leads.throw_bind _
        · rename_i hnone
          exact h info own rfl b hb hpre fun _ => hnone
      · exact h info own rfl b hb hpre fun hasked => absurd hasked hpositions

/-- Filling a mapping. -/
lemma leads_fillMapping (hroot : root.IsNumbered) {n : Node} (hn : n.Within root)
    (htag : n.tag = Tag.map) :
    Leads root (fun _ => True) (fillMapping schema n) fun _ b => b.Filled schema n := by
  refine leads_fillMapping_of_mapping fun info own heq b hb _ hlook => ?_
  subst heq
  have hkeys : schema.positions = true → (keyTexts (Node.mapping info own).written).Nodup := by
    intro hpositions
    have hlooked := ((repeatedKey?_eq_none_iff info fun e he => ?_).mp (hlook hpositions)).1
    · -- what was looked at are the written entries, or merged ones come on top of them
      rcases hb.entriesOf_cases hroot hn with heq | heq
      · rwa [heq] at hlooked
      · rw [heq, Node.written_offers] at hlooked
        exact hlooked.sublist (keyTexts_sublist (Node.mapping info own).written_sublist_offers)
    · have hkey := (hb.within_of_mem_entriesOf hroot hn he).1
      exact hb.tagOf_eq_iff hroot hkey Tag.merge (by decide) (by decide)
  have hexpand : Leads root (fun b' => b' = b) (expand info own) fun es b =>
      es = (Node.mapping info own).offers ∧ b.expanded.get? info.id = some es :=
    (leads_expand hroot (fun _ _ _ _ => trivial) hn trivial).imp (fun _ _ _ _ _ => trivial)
      fun _ _ _ h => ⟨h.1, h.2.2⟩
  refine hexpand.bind fun entries => ?_
  rintro b u b' hb ⟨rfl, hget⟩ hrun
  have hmeet := leads_meetEntries hroot info fun e he => hn.of_mem_offers he
  obtain ⟨hb', hextends, hmet⟩ := hmeet b u b' hb trivial hrun
  exact ⟨hb', hextends, .mapping htag (hextends.expanded hget) hmet hkeys⟩

/-- Filling a sequence. -/
lemma leads_fillSequence (hroot : root.IsNumbered) {n : Node} (hn : n.Within root)
    (htag : n.tag = Tag.seq) :
    Leads root (fun _ => True) (fillSequence n) fun _ b => b.Filled schema n := by
  cases n with
  | scalar info text => exact Leads.throw _
  | mapping info own => exact Leads.throw _
  | sequence info items =>
      have hitems : Leads root (fun _ => True) (items.forM meetNode) fun _ b =>
          ∀ item ∈ items, b.HasMet item := by
        apply Leads.forM
        · exact fun item _ _ _ _ hextends hmet => hmet.mono hextends
        · exact fun item hitem => leads_meetNode hroot (hn.part hitem)
      exact hitems.imp (fun _ h => h) fun _ _ _ hmet => .sequence htag hmet

/-- A mapping of one entry offers it, if its key can be met. -/
lemma offers_of_entriesOf (hroot : root.IsNumbered) {b : Builder} (hb : b.IsSound root)
    {info : NodeInfo} {own : List (Node × Node)} (hn : (Node.mapping info own).Within root)
    {k v : Node} (hentries : b.entriesOf info.id own = [(k, v)]) (hk : k.tag ≠ Tag.merge) :
    (Node.mapping info own).offers = [(k, v)] := by
  rcases hb.entriesOf_cases hroot hn with heq | heq
  · rw [heq] at hentries
    subst hentries
    exact Node.offers_of_forall_ne (by simpa using hk)
  · rw [← heq, hentries]

/-- An item of a list of pairs has one entry, and its key and its value are met. -/
lemma leads_meetPair (hroot : root.IsNumbered) {item : Node} (hitem : item.Within root)
    (info : NodeInfo) (ordered : Bool) : Leads root (fun _ => True) (do
      match item with
      | .mapping iinfo own =>
        match (← MonadState.get).entriesOf iinfo.id own with
        | [(key, value)] =>
          meetNode key
          meetNode value
        | entries => throw (.within (.pairsSize ordered entries.length) info.start iinfo.start)
      | _ => throw (.within (.pairsItem ordered item.kind) info.start item.start)) fun _ b =>
      b.HasMetPair item := by
  cases item with
  | scalar iinfo text => exact Leads.throw _
  | sequence iinfo items => exact Leads.throw _
  | mapping iinfo own =>
      refine Leads.get_bind fun b hb _ => ?_
      split
      · rename_i k v hentries
        have hparts : k.Within root ∧ v.Within root :=
          hb.within_of_mem_entriesOf hroot hitem (hentries ▸ List.mem_singleton_self (k, v))
        rintro _ u b' - rfl hrun
        rw [StateT.run_bind] at hrun
        obtain ⟨⟨_, b₁⟩, hfirst, hsecond⟩ := bind_eq_ok.mp hrun
        obtain ⟨hb₁, hextends₁, hk⟩ := leads_meetNode hroot hparts.1 _ _ _ hb trivial hfirst
        obtain ⟨hb', hextends, hv⟩ := leads_meetNode hroot hparts.2 _ _ _ hb₁ trivial hsecond
        have hoffers :=
          offers_of_entriesOf hroot hb hitem hentries (hb₁.tag_ne_merge hroot hparts.1 hk)
        have hall := hextends₁.trans hextends
        refine ⟨hb', hall, iinfo, own, k, v, rfl, hoffers, ?_, hk.mono hextends.toRemembers, hv⟩
        exact (hall.entriesOf_eq hroot hb' hitem (hentries.trans hoffers.symm)).trans hoffers
      · exact Leads.throw _

/-- Filling a list of pairs. -/
lemma leads_fillPairs (hroot : root.IsNumbered) {n : Node} (hn : n.Within root)
    (htag : n.tag = Tag.omap ∨ n.tag = Tag.pairs) (ordered : Bool) :
    Leads root (fun _ => True) (fillPairs ordered n) fun _ b => b.Filled schema n := by
  cases n with
  | scalar info text => exact Leads.throw _
  | mapping info own => exact Leads.throw _
  | sequence info items =>
      refine Leads.imp
        (Leads.forM ?_ fun item hitem => leads_meetPair hroot (hn.part hitem) info ordered)
        (fun _ h => h) fun _ _ _ hmet => .pairs htag hmet
      exact fun item hitem _ _ hb' hextends hmet => hmet.mono hroot hb' hextends (hn.part hitem)

/-- **Filling a collection** meets its parts. -/
lemma leads_fill (hroot : root.IsNumbered) {n : Node} (hn : n.Within root)
    (htag : n.tag ∈ collectionTags) :
    Leads root (fun _ => True) (fill schema n) fun _ b => b.Filled schema n := by
  refine Leads.get_bind fun b hb _ => ?_
  dsimp only
  split_ifs with hmap hseq
  · have hown := (hb.tagOf_eq_iff hroot hn Tag.map (by decide) (by decide)).mp hmap
    exact (leads_fillMapping hroot hn hown).imp (fun _ _ => trivial) fun _ _ _ h => h
  · have hown := (hb.tagOf_eq_iff hroot hn Tag.seq (by decide) (by decide)).mp hseq
    exact (leads_fillSequence hroot hn hown).imp (fun _ _ => trivial) fun _ _ _ h => h
  · have hmap' : n.tag ≠ Tag.map := fun h =>
      hmap ((hb.tagOf_eq_iff hroot hn Tag.map (by decide) (by decide)).mpr h)
    have hseq' : n.tag ≠ Tag.seq := fun h =>
      hseq ((hb.tagOf_eq_iff hroot hn Tag.seq (by decide) (by decide)).mpr h)
    have hown : n.tag = Tag.omap ∨ n.tag = Tag.pairs := by
      simpa [collectionTags, hmap', hseq'] using htag
    exact (leads_fillPairs hroot hn hown _).imp (fun _ _ => trivial) fun _ _ _ h => h

/-- Every collection that was met is filled or waits. -/
def IsPending (schema : Schema) (root : Node) (b : Builder) : Prop :=
  ∀ n : Node, n.Within root → n.id ∈ b.met → n ∈ b.waiting ∨ b.Filled schema n

/-- When no collection waits, all that were met are filled. -/
lemma IsPending.filled {b : Builder} (hpending : IsPending schema root b)
    (hnone : b.waiting = []) (n : Node)
    (hn : n.Within root) (hmet : n.id ∈ b.met) : b.Filled schema n := by
  rcases hpending n hn hmet with hwaits | hfilled
  · rw [hnone] at hwaits
    cases hwaits
  · exact hfilled

/-- **One round**: the collection whose turn it is gets filled, and the others wait on. -/
lemma isPending_of_fill (hroot : root.IsNumbered) {b b' : Builder} {n : Node}
    {rest : List Node} {u : Unit}
    (hb : b.IsSound root) (hpending : IsPending schema root b) (hwaiting : b.waiting = n :: rest)
    (hrun : (fill schema n).run { b with waiting := rest } = .ok (u, b')) :
    b'.IsSound root ∧ b.Remembers b' ∧ IsPending schema root b' ∧
      b'.met.length + b.waiting.length = b.met.length + b'.waiting.length + 1 := by
  obtain ⟨hn, htag⟩ := hb.waiting n (hwaiting ▸ List.mem_cons_self)
  have hpopped : Builder.IsSound { b with waiting := rest } root :=
    ⟨hb.retagged, hb.expanded, hb.merged, hb.scalars, hb.met, hb.nodup, fun m hm =>
      hb.waiting m (hwaiting ▸ List.mem_cons_of_mem n hm)⟩
  obtain ⟨hb', hextends, hfilled⟩ := leads_fill hroot hn htag _ _ _ hpopped trivial hrun
  have hremembers : b.Remembers b' :=
    ⟨hextends.retagged, hextends.expanded, hextends.scalars, hextends.met⟩
  refine ⟨hb', hremembers, ?_, ?_⟩
  · intro m hm hmet
    rcases hextends.fresh m.id hmet with hold | ⟨k, hk, heq⟩
    · rcases hpending m hm hold with hwaits | hfilled'
      · rw [hwaiting] at hwaits
        rcases List.mem_cons.mp hwaits with rfl | hwaits
        · exact Or.inr hfilled
        · exact Or.inl (hextends.waiting hwaits)
      · exact Or.inr (hfilled'.mono hroot hb' hremembers hm)
    · rw [← hroot.eq_of_id (hb'.waiting k hk).1 hm heq]
      exact Or.inl hk
  · have hcount : b'.met.length + rest.length = b.met.length + b'.waiting.length := hextends.count
    rw [hwaiting, List.length_cons]
    omega

section runs

variable {b : Builder} {n : Node}

/-- A node with the tag of mappings is filled as one. -/
lemma run_fill_of_map (hmap : b.tagOf n = Tag.map) :
    (fill schema n).run b = (fillMapping schema n).run b := by
  change (if b.tagOf n = Tag.map then _ else _ : Build Unit).run b = _
  rw [if_pos hmap]

/-- What is no mapping is filled in the same way under every schema. -/
lemma run_fill_of_not_map {schema' : Schema} (hmap : b.tagOf n ≠ Tag.map) :
    (fill schema n).run b = (fill schema' n).run b := by
  change (if b.tagOf n = Tag.map then _ else _ : Build Unit).run b =
    (if b.tagOf n = Tag.map then _ else _ : Build Unit).run b
  rw [if_neg hmap, if_neg hmap]

/-- Where nothing waits, nothing is filled. -/
lemma run_fillAll_of_nil {rounds : Nat} (hwaiting : b.waiting = []) :
    (fillAll schema (rounds + 1)).run b = .ok ((), b) := by
  unfold fillAll
  simp only [StateT.run_bind, StateT.run_get, pure_bind, hwaiting]
  rfl

/-- Otherwise the first collection that waits is filled, and then the others. -/
lemma run_fillAll_of_cons {rounds : Nat} {rest : List Node} (hwaiting : b.waiting = n :: rest) :
    (fillAll schema (rounds + 1)).run b = (do
      let r ← (fill schema n).run { b with waiting := rest }
      (fillAll schema rounds).run r.2) := by
  conv => lhs; unfold fillAll
  simp only [StateT.run_bind, StateT.run_get, pure_bind, hwaiting]
  rfl

end runs

/-- **Filling goes on until no collection waits**, if there is a round for each number that is not
yet met. -/
lemma filled_of_fillAll (hroot : root.IsNumbered) {rounds : Nat} {b b' : Builder} {u : Unit}
    (hb : b.IsSound root) (hpending : IsPending schema root b)
    (hrounds : root.id + 1 + b.waiting.length ≤ rounds + b.met.length)
    (hrun : (fillAll schema rounds).run b = .ok (u, b')) :
    b'.IsSound root ∧ b.Remembers b' ∧ b'.waiting = [] ∧
      ∀ n : Node, n.Within root → n.id ∈ b'.met → b'.Filled schema n := by
  induction rounds generalizing b with
  | zero =>
      obtain rfl : b = b' := by
        cases hrun
        rfl
      have hle := hb.length_met_le hroot
      have hnone : b.waiting = [] := List.length_eq_zero_iff.mp (by omega)
      exact ⟨hb, Builder.Remembers.refl b, hnone, hpending.filled hnone⟩
  | succ rounds ih =>
      cases hwaiting : b.waiting with
      | nil =>
          rw [run_fillAll_of_nil hwaiting] at hrun
          obtain rfl : b = b' := by
            cases hrun
            rfl
          exact ⟨hb, Builder.Remembers.refl b, hwaiting, hpending.filled hwaiting⟩
      | cons n rest =>
          rw [run_fillAll_of_cons hwaiting] at hrun
          obtain ⟨⟨_, b₁⟩, hfill, hrun⟩ := bind_eq_ok.mp hrun
          obtain ⟨hb₁, hkept, hpending₁, hcount⟩ :=
            isPending_of_fill hroot hb hpending hwaiting hfill
          obtain ⟨hb', hremembers, hall⟩ := ih hb₁ hpending₁ (by omega) hrun
          exact ⟨hb', hkept.trans hremembers, hall⟩

end Build

/-- The builder of a tree comes from meeting the root and then filling what waits. -/
lemma Builder.ofRoot_of_meetNode {schema : Schema} {root : Node} {b : Builder}
    (hmeet : (Build.meetNode root).run {} = .ok ((), b)) : ofRoot schema root = (do
      let r ← (Build.fillAll schema root.reach).run b
      return r.2) := by
  unfold ofRoot
  rw [StateT.run_bind, hmeet]
  rfl

/-- A builder of a root has met the root and then filled what was waiting. -/
lemma Builder.exists_of_ofRoot {schema : Schema} {root : Node} {b : Builder}
    (h : ofRoot schema root = .ok b) :
    ∃ b₁, (Build.meetNode root).run {} = .ok ((), b₁) ∧
      (Build.fillAll schema root.reach).run b₁ = .ok ((), b) := by
  obtain ⟨⟨_, b'⟩, hrun, h⟩ := bind_eq_ok.mp h
  cases h
  rw [StateT.run_bind] at hrun
  obtain ⟨⟨_, b₁⟩, hmeet, hrun⟩ := bind_eq_ok.mp hrun
  exact ⟨b₁, hmeet, hrun⟩

/-- A builder of a tree has met its root, and filled every collection that it met, so that none
waits. -/
structure Builder.IsComplete (b : Builder) (schema : Schema) (root : Node) :
    Prop extends b.IsSound root where
  root_met : b.HasMet root
  none_waits : b.waiting = []
  filled : ∀ n : Node, n.Within root → n.id ∈ b.met → b.Filled schema n

/-- **The builder of a tree that was composed is complete.** -/
theorem Builder.isComplete_of_ofRoot {schema : Schema} {root : Node} {b : Builder}
    (hroot : root.IsNumbered) (h : ofRoot schema root = .ok b) : b.IsComplete schema root := by
  obtain ⟨b₁, hfirst, hrun⟩ := exists_of_ofRoot h
  obtain ⟨hb₁, hextends, hmet⟩ :=
    Build.leads_meetNode hroot (Node.Within.refl root) _ _ _ (isSound_empty root) trivial hfirst
  have hpending : Build.IsPending schema root b₁ := by
    intro n hn hid
    rcases hextends.fresh n.id hid with hold | ⟨k, hk, heq⟩
    · cases hold
    · rw [← hroot.eq_of_id (hb₁.waiting k hk).1 hn heq]
      exact Or.inl hk
  have hrounds : root.id + 1 + b₁.waiting.length ≤ root.reach + b₁.met.length := by
    have hcount : b₁.met.length + 0 = 0 + b₁.waiting.length := hextends.count
    unfold Node.reach
    omega
  obtain ⟨hb, hremembers, hnone, hfilled⟩ := Build.filled_of_fillAll hroot hb₁ hpending hrounds hrun
  exact ⟨hb, hmet.mono hremembers, hnone, hfilled⟩

end Yaml

end PipelineAudit
