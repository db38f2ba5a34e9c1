import Mathlib.Data.Set.Insert
import Mathlib.Logic.Relation
import PipelineAudit.Proofs.Assoc
import PipelineAudit.Proofs.Workflow.Document
import PipelineAudit.Yaml.Node.Compose

/-!
# The numbers of nodes

A node that an alias refers to occurs in several places of a tree, and only its number tells that it
is one node. So two things have to be true of the numbers of the nodes in a tree that was composed
from a text (`Yaml.Node.IsNumbered`): a node's number is greater than those of the nodes it is made
of, and nodes with the same number are equal.

While nodes are read, all of them that were made so far form a pool from which new ones are built
and in which the anchors point (`Yaml.Composer.Holds`). A reader that starts with a pool ends with a
larger one, which holds what it returns (`Yaml.Compose.Stocks`): this is shown for every reader by
the way in which it is put together from others, and for those that call each other by induction on
the fuel (`Yaml.Compose.stocked`).
-/

namespace PipelineAudit

namespace Yaml

/-! ## Parts of nodes -/

namespace Node

/-- The nodes that a node is made of: its items, or its keys and values. -/
def parts : Node → List Node
  | scalar _ _ => []
  | sequence _ items => items
  | mapping _ entries => entries.flatMap fun e => [e.1, e.2]

/-- The keys and values of entries are parts of their mapping. -/
lemma mem_parts_of_mem (info : NodeInfo) {entries : List (Node × Node)} {e : Node × Node}
    (he : e ∈ entries) :
    e.1 ∈ (mapping info entries).parts ∧ e.2 ∈ (mapping info entries).parts := by
  constructor <;> exact List.mem_flatMap.mpr ⟨e, he, by simp⟩

/-- A node occurs in a tree, at the top or further down. -/
def Within (n root : Node) : Prop := Relation.ReflTransGen (fun m n => m ∈ n.parts) n root

/-- A tree occurs in itself. -/
lemma Within.refl (root : Node) : root.Within root := Relation.ReflTransGen.refl

/-- The parts of a node of a tree occur in the tree. -/
lemma Within.part {m n root : Node} (hn : n.Within root) (hm : m ∈ n.parts) : m.Within root :=
  Relation.ReflTransGen.head hm hn

/-- The numbers of the nodes in a tree grow from the leaves to the root and tell the nodes apart. -/
structure IsNumbered (root : Node) : Prop where
  lt_of_part : ∀ {m n : Node}, n.Within root → m ∈ n.parts → m.id < n.id
  eq_of_id : ∀ {m n : Node}, m.Within root → n.Within root → m.id = n.id → m = n

/-- The root has the greatest number. -/
lemma IsNumbered.id_le {n root : Node} (h : root.IsNumbered) (hn : n.Within root) :
    n.id ≤ root.id := by
  induction hn using Relation.ReflTransGen.head_induction_on with
  | refl => exact Nat.le_refl _
  | head hpart hrest ih => exact Nat.le_of_lt (Nat.lt_of_lt_of_le (h.lt_of_part hrest hpart) ih)

end Node

/-! ## Pools of nodes -/

/-- A pool holds all nodes that were made so far, with their parts. -/
structure Composer.Holds (st : Composer) (pool : Set Node) : Prop where
  anchors : ∀ {name mark n}, st.anchors.get? name = some (mark, some n) → n ∈ pool
  lt_nextId : ∀ {n}, n ∈ pool → n.id < st.nextId
  part : ∀ {m n}, n ∈ pool → m ∈ n.parts → m ∈ pool ∧ m.id < n.id
  eq_of_id : ∀ {m n}, m ∈ pool → n ∈ pool → m.id = n.id → m = n

/-- A tree in a pool is numbered. -/
lemma Composer.Holds.isNumbered {st : Composer} {pool : Set Node} {root : Node} (h : st.Holds pool)
    (hroot : root ∈ pool) : root.IsNumbered := by
  have hmem : ∀ {n : Node}, n.Within root → n ∈ pool := by
    intro n hn
    induction hn using Relation.ReflTransGen.head_induction_on with
    | refl => exact hroot
    | head hpart _ ih => exact (h.part ih hpart).1
  exact ⟨fun hn hm => (h.part (hmem hn) hm).2, fun hm hn heq => h.eq_of_id (hmem hm) (hmem hn) heq⟩

/-- What only moves on in the tokens keeps the pool. -/
lemma Composer.Holds.congr {st st' : Composer} {pool : Set Node} (h : st.Holds pool)
    (hanchors : st'.anchors = st.anchors) (hnext : st'.nextId = st.nextId) : st'.Holds pool :=
  ⟨fun hget => h.anchors (hanchors ▸ hget), fun hn => hnext ▸ h.lt_nextId hn, h.part, h.eq_of_id⟩

/-- A new node that is made from those of a pool can be added to it. -/
lemma Composer.Holds.add {st : Composer} {pool : Set Node} (h : st.Holds pool) {n : Node}
    (hid : n.id = st.nextId) (hparts : ∀ m ∈ n.parts, m ∈ pool) :
    ({ st with nextId := st.nextId + 1 } : Composer).Holds (insert n pool) where
  anchors hget := Or.inr (h.anchors hget)
  lt_nextId := by
    rintro m (rfl | hm)
    · exact Nat.lt_succ_of_le (Nat.le_of_eq hid)
    · exact Nat.lt_succ_of_lt (h.lt_nextId hm)
  part := by
    rintro m k (rfl | hk) hm
    · exact ⟨Or.inr (hparts m hm), hid ▸ h.lt_nextId (hparts m hm)⟩
    · exact ⟨Or.inr (h.part hk hm).1, (h.part hk hm).2⟩
  eq_of_id := by
    rintro m k (rfl | hm) (rfl | hk) heq
    · rfl
    · exact absurd (h.lt_nextId hk) (by omega)
    · exact absurd (h.lt_nextId hm) (by omega)
    · exact h.eq_of_id hm hk heq

/-- An anchor can be set to a node of the pool, or left open. -/
lemma Composer.Holds.anchor {st : Composer} {pool : Set Node} (h : st.Holds pool) {name : String}
    {mark : Mark} {n? : Option Node} (hn : ∀ n, n? = some n → n ∈ pool) :
    ({ st with anchors := st.anchors.insert name (mark, n?) } : Composer).Holds pool where
  anchors := by
    intro name' mark' n hget
    rw [Assoc.get?_insert] at hget
    split_ifs at hget
    · cases hget
      exact hn n rfl
    · exact h.anchors hget
  lt_nextId := h.lt_nextId
  part := h.part
  eq_of_id := h.eq_of_id

namespace Compose

variable {α β : Type}

/-! ## Readers that only move on -/

/-- A reader leaves anchors and numbers as they are. -/
def IsCalm (x : Compose α) : Prop :=
  ∀ st a st', x.run st = .ok (a, st') → st'.anchors = st.anchors ∧ st'.nextId = st.nextId

/-- Returning leaves anchors and numbers alone. -/
lemma IsCalm.pure (a : α) : IsCalm (Pure.pure a) := by
  intro st a' st' h
  cases h
  exact ⟨rfl, rfl⟩

/-- So does failing. -/
lemma IsCalm.throw (e : Error) : IsCalm (throw e : Compose α) := by
  intro st a st' h
  cases h

/-- So does looking at the state. -/
lemma IsCalm.get : IsCalm (MonadState.get : Compose Composer) := by
  intro st a st' h
  cases h
  exact ⟨rfl, rfl⟩

/-- So does a change of other parts of the state. -/
lemma IsCalm.modify {f : Composer → Composer}
    (h : ∀ st, (f st).anchors = st.anchors ∧ (f st).nextId = st.nextId) :
    IsCalm (modify f : Compose Unit) := by
  intro st a st' heq
  cases heq
  exact h st

/-- Two calm readers in a row are calm. -/
lemma IsCalm.bind {x : Compose α} {f : α → Compose β} (hx : IsCalm x) (hf : ∀ a, IsCalm (f a)) :
    IsCalm (x >>= f) := by
  intro st b st' h
  obtain ⟨⟨a, st₁⟩, hfirst, h⟩ := bind_eq_ok.mp h
  obtain ⟨hanchors, hnext⟩ := hx st a st₁ hfirst
  obtain ⟨hanchors', hnext'⟩ := hf a st₁ b st' h
  exact ⟨hanchors'.trans hanchors, hnext'.trans hnext⟩

/-- Looking at the next token is calm. -/
lemma isCalm_peek : IsCalm peek := by
  refine IsCalm.get.bind fun st => ?_
  split
  · exact IsCalm.pure _
  · exact IsCalm.throw _

/-- Moving past it is. -/
lemma isCalm_advance : IsCalm advance := IsCalm.modify fun _ => ⟨rfl, rfl⟩

/-- Taking it is. -/
lemma isCalm_next : IsCalm next :=
  isCalm_peek.bind fun t => isCalm_advance.bind fun _ => IsCalm.pure t

/-- Taking it on a condition is. -/
lemma isCalm_nextIf (kind : TokenKind) : IsCalm (nextIf kind) := by
  refine isCalm_peek.bind fun t => ?_
  split_ifs
  · exact isCalm_advance.bind fun _ => IsCalm.pure _
  · exact IsCalm.pure _

/-- Asking for its kind is. -/
lemma isCalm_atAny (kinds : List TokenKind) : IsCalm (atAny kinds) :=
  isCalm_peek.bind fun _ => IsCalm.pure _

/-- The properties of a node, with the handle of its tag looked up among those that are known. -/
def resolvedTag (start : Mark) : Option String × Option (Option String × String) × Mark →
    Compose Properties
  | (anchor, rawTag, tagMark) =>
    match rawTag with
    | none => return ⟨anchor, none, start⟩
    | some (none, suffix) => return ⟨anchor, some suffix, start⟩
    | some (some handle, suffix) => do
      match (← MonadState.get).handles.get? handle with
      | some head => return ⟨anchor, some (head ++ suffix), start⟩
      | none => throw (.within (.undefinedHandle handle) start tagMark)

/-- Resolving a tag is. -/
lemma isCalm_resolvedTag (start : Mark)
    (x : Option String × Option (Option String × String) × Mark) :
    IsCalm (resolvedTag start x) := by
  obtain ⟨anchor, rawTag, tagMark⟩ := x
  dsimp only [resolvedTag]
  split
  · exact IsCalm.pure _
  · exact IsCalm.pure _
  · refine IsCalm.get.bind fun st => ?_
    split
    · exact IsCalm.pure _
    · exact IsCalm.throw _

/-- Anchors and tags are read before anything is made of them. -/
lemma isCalm_properties : IsCalm properties := by
  refine isCalm_peek.bind fun first => ?_
  split
  · refine isCalm_advance.bind fun _ => isCalm_peek.bind fun t => ?_
    split
    · exact isCalm_advance.bind fun _ => (IsCalm.pure _).bind (isCalm_resolvedTag first.start)
    · exact (IsCalm.pure _).bind (isCalm_resolvedTag first.start)
  · refine isCalm_advance.bind fun _ => isCalm_peek.bind fun t => ?_
    split
    · exact isCalm_advance.bind fun _ => (IsCalm.pure _).bind (isCalm_resolvedTag first.start)
    · exact (IsCalm.pure _).bind (isCalm_resolvedTag first.start)
  · exact (IsCalm.pure _).bind (isCalm_resolvedTag first.start)

/-! ## Readers that make nodes -/

/-- From a pool that holds some nodes, a reader comes to a larger one that also holds what it
returns. -/
def Stocks (need : List Node) (x : Compose α) (held : α → List Node) : Prop :=
  ∀ st a st' pool, st.Holds pool → (∀ n ∈ need, n ∈ pool) → x.run st = .ok (a, st') →
    ∃ pool', pool ⊆ pool' ∧ st'.Holds pool' ∧ ∀ n ∈ held a, n ∈ pool'

variable {need : List Node} {held : α → List Node} {held' : β → List Node}

/-- What is in the pool may be returned. -/
lemma Stocks.pure {a : α} (h : held a ⊆ need) : Stocks need (Pure.pure a) held := by
  intro st a' st' pool hpool hneed heq
  cases heq
  exact ⟨pool, subset_rfl, hpool, fun n hn => hneed n (h hn)⟩

/-- A failure returns nothing. -/
lemma Stocks.throw (e : Error) : Stocks need (throw e : Compose α) held := by
  intro st a st' pool _ _ h
  cases h

/-- The pool goes on growing, and what was read stays in it. -/
lemma Stocks.bind {x : Compose α} {f : α → Compose β} (hx : Stocks need x held)
    (hf : ∀ a, Stocks (need ++ held a) (f a) held') : Stocks need (x >>= f) held' := by
  intro st b st' pool hpool hneed h
  obtain ⟨⟨a, st₁⟩, hfirst, h⟩ := bind_eq_ok.mp h
  obtain ⟨pool₁, hsub, hpool₁, hheld⟩ := hx st a st₁ pool hpool hneed hfirst
  have hneed₁ : ∀ n ∈ need ++ held a, n ∈ pool₁ := by
    intro n hn
    rcases List.mem_append.mp hn with hn | hn
    · exact hsub (hneed n hn)
    · exact hheld n hn
  obtain ⟨pool₂, hsub₂, hpool₂, hheld₂⟩ := hf a st₁ b st' pool₁ hpool₁ hneed₁ h
  exact ⟨pool₂, hsub.trans hsub₂, hpool₂, hheld₂⟩

/-- A reader that only moves on needs no look at the pool. -/
lemma IsCalm.bind_stocks {x : Compose α} {f : α → Compose β} (hx : IsCalm x)
    (hf : ∀ a, Stocks need (f a) held') : Stocks need (x >>= f) held' := by
  intro st b st' pool hpool hneed h
  obtain ⟨⟨a, st₁⟩, hfirst, h⟩ := bind_eq_ok.mp h
  obtain ⟨hanchors, hnext⟩ := hx st a st₁ hfirst
  exact hf a st₁ b st' pool (hpool.congr hanchors hnext) hneed h

/-- Opening an anchor leaves it without a node. -/
lemma stocks_openAnchor (p : Properties) : Stocks need (openAnchor p) fun _ => [] := by
  unfold openAnchor
  split
  · exact Stocks.pure (List.nil_subset _)
  · refine IsCalm.get.bind_stocks fun st => ?_
    split
    · exact Stocks.throw _
    · intro st a st' pool hpool _ h
      cases h
      exact ⟨pool, subset_rfl, hpool.anchor nofun, nofun⟩

/-- Opening an anchor before something is read. -/
lemma stocks_openAnchor_bind (p : Properties) {f : Unit → Compose β}
    (hf : ∀ a, Stocks need (f a) held') : Stocks need (openAnchor p >>= f) held' := by
  refine (stocks_openAnchor p).bind fun a => ?_
  rw [List.append_nil]
  exact hf a

/-- Closing an anchor sets it to the node. -/
lemma stocks_closeAnchor (p : Properties) {n : Node} (hn : n ∈ need) :
    Stocks need (closeAnchor p n) fun m => [m] := by
  unfold closeAnchor
  split
  · exact Stocks.pure (by simpa using hn)
  · intro st a st' pool hpool hneed h
    cases h
    have hmem : n ∈ pool := hneed n hn
    refine ⟨pool, subset_rfl, hpool.anchor ?_, ?_⟩
    · rintro m ⟨⟩
      exact hmem
    · simpa using hmem

/-- A node with the next number is new. -/
lemma stocks_freshId_bind {f : Nat → Node} (hid : ∀ i, (f i).id = i)
    (hparts : ∀ i, (f i).parts ⊆ need) {g : Node → Compose β}
    (hg : ∀ n, n ∈ need ++ [n] → Stocks (need ++ [n]) (g n) held') :
    Stocks need (do g (f (← freshId))) held' := by
  intro st b st' pool hpool hneed h
  rw [StateT.run_bind] at h
  obtain ⟨⟨i, st₁⟩, hfresh, h⟩ := bind_eq_ok.mp h
  cases hfresh
  have hadd := hpool.add (hid st.nextId) fun m hm => hneed m (hparts _ hm)
  have hneed' : ∀ n ∈ need ++ [f st.nextId], n ∈ insert (f st.nextId) pool := by
    intro n hn
    rcases List.mem_append.mp hn with hn | hn
    · exact Or.inr (hneed n hn)
    · exact Or.inl (List.mem_singleton.mp hn)
  obtain ⟨pool', hsub, hpool', hheld⟩ := hg (f st.nextId) (by simp) _ b st' _ hadd hneed' h
  exact ⟨pool', (Set.subset_insert _ _).trans hsub, hpool', hheld⟩

/-- A node is made and its anchor is set. -/
lemma stocks_close {f : Nat → Node} (p : Properties) (hid : ∀ i, (f i).id = i)
    (hparts : ∀ i, (f i).parts ⊆ need) :
    Stocks need (do closeAnchor p (f (← freshId))) fun n => [n] :=
  stocks_freshId_bind hid hparts fun _ hn => stocks_closeAnchor p hn

/-- A scalar gets into the pool. -/
lemma stocks_scalar (schema : Schema) (p : Properties) (text : String) (isPlain : Bool) :
    Stocks need (scalar schema p text isPlain) fun n => [n] :=
  stocks_openAnchor_bind p fun _ => stocks_close p (fun _ => rfl) fun _ => List.nil_subset _

/-- So does one that is not written. -/
lemma stocks_emptyScalar (schema : Schema) (mark : Mark) :
    Stocks need (emptyScalar schema mark) fun n => [n] := stocks_scalar schema _ "" true

/-- A node that may be left out. -/
lemma stocks_orEmpty {schema : Schema} {x : Compose Node} (hx : ∀ need, Stocks need x fun n => [n])
    (kinds : List TokenKind) (mark : Mark) {f : Node → Compose β}
    (hf : ∀ n, Stocks (need ++ [n]) (f n) held') :
    Stocks need (do
      if ← atAny kinds then f (← emptyScalar schema mark)
      else f (← x)) held' := by
  refine (isCalm_atAny kinds).bind_stocks fun isEmpty => ?_
  split_ifs
  · exact (stocks_emptyScalar schema mark).bind hf
  · exact (hx need).bind hf

/-! ## Readers that call each other -/

/-- The nodes of entries. -/
def nodesOf (entries : List (Node × Node)) : List Node := entries.flatMap fun e => [e.1, e.2]

/-- The readers of nested nodes, with an amount of fuel, return nodes of the pool. -/
structure Stocked (schema : Schema) (fuel : Nat) : Prop where
  node : ∀ need block indentless, Stocks need (node schema fuel block indentless) fun n => [n]
  blockItems : ∀ need opened, Stocks need (blockItems schema fuel opened) fun items => items
  indentlessItems : ∀ need, Stocks need (indentlessItems schema fuel) fun items => items
  blockEntries : ∀ need opened, Stocks need (blockEntries schema fuel opened) nodesOf
  flowItems : ∀ need opened isFirst,
    Stocks need (flowItems schema fuel opened isFirst) fun items => items
  flowPair : ∀ need, Stocks need (flowPair schema fuel) fun n => [n]
  flowEntries : ∀ need opened isFirst, Stocks need (flowEntries schema fuel opened isFirst) nodesOf

section step

variable {schema : Schema} {fuel : Nat}

/-- A sequence is made after its items. -/
lemma stocks_sequence (p : Properties) {x : Compose (List Node)}
    (hx : Stocks need x fun items => items) : Stocks need (do
      let items ← x
      closeAnchor p (.sequence ⟨← freshId, p.explicitTag?.getD Tag.seq, p.start⟩ items)) fun n =>
        [n] :=
  hx.bind fun items => stocks_close p (fun _ => rfl) fun _ => List.subset_append_right need items

/-- A mapping is made after its entries. -/
lemma stocks_mapping (p : Properties) {x : Compose (List (Node × Node))}
    (hx : Stocks need x nodesOf) : Stocks need (do
      let entries ← x
      closeAnchor p (.mapping ⟨← freshId, p.explicitTag?.getD Tag.map, p.start⟩ entries)) fun n =>
        [n] :=
  hx.bind fun _ => stocks_close p (fun _ => rfl) fun _ => List.subset_append_right need _

/-- A node gets into the pool if the nodes in it do. -/
lemma stocks_node (h : Stocked schema fuel) (block indentless : Bool) :
    Stocks need (node schema (fuel + 1) block indentless) fun n => [n] := by
  unfold node
  refine isCalm_peek.bind_stocks fun first => ?_
  split
  · -- an alias stands for a node that is in the pool
    refine isCalm_advance.bind_stocks fun _ => ?_
    intro st a st' pool hpool _ hrun
    rw [StateT.run_bind] at hrun
    obtain ⟨⟨st₁, st₂⟩, hget, hrun⟩ := bind_eq_ok.mp hrun
    cases hget
    dsimp only at hrun
    split at hrun
    · rename_i hanchor
      cases hrun
      exact ⟨pool, subset_rfl, hpool, by simpa using hpool.anchors hanchor⟩
    · cases hrun
  · refine isCalm_properties.bind_stocks fun p => isCalm_peek.bind_stocks fun t => ?_
    split
    · exact stocks_openAnchor_bind p fun _ => stocks_sequence p (h.indentlessItems need)
    · exact isCalm_advance.bind_stocks fun _ => stocks_scalar schema p _ _
    · exact stocks_openAnchor_bind p fun _ => isCalm_advance.bind_stocks fun _ =>
        stocks_sequence p (h.flowItems need _ _)
    · exact stocks_openAnchor_bind p fun _ => isCalm_advance.bind_stocks fun _ =>
        stocks_mapping p (h.flowEntries need _ _)
    · exact stocks_openAnchor_bind p fun _ => isCalm_advance.bind_stocks fun _ =>
        stocks_sequence p (h.blockItems need _)
    · exact stocks_openAnchor_bind p fun _ => isCalm_advance.bind_stocks fun _ =>
        stocks_mapping p (h.blockEntries need _)
    · split_ifs
      · exact stocks_scalar schema p _ _
      · exact Stocks.throw _

/-- Items after a first one. -/
lemma stocks_consItem {n : Node} {x : Compose (List Node)} (hn : n ∈ need)
    (hx : Stocks need x fun items => items) :
    Stocks need (do return n :: (← x)) fun items => items := by
  refine hx.bind fun items => Stocks.pure ?_
  intro m hm
  rcases List.mem_cons.mp hm with rfl | hm
  · exact List.mem_append_left _ hn
  · exact List.mem_append_right _ hm

/-- Entries after a first one. -/
lemma stocks_consEntry {key value : Node} {x : Compose (List (Node × Node))} (hkey : key ∈ need)
    (hvalue : value ∈ need) (hx : Stocks need x nodesOf) :
    Stocks need (do return (key, value) :: (← x)) nodesOf := by
  refine hx.bind fun entries => Stocks.pure ?_
  intro m hm
  rw [nodesOf, List.flatMap_cons] at hm
  simp only [List.cons_append, List.nil_append, List.mem_cons] at hm
  rcases hm with rfl | rfl | hm
  · exact List.mem_append_left _ hkey
  · exact List.mem_append_left _ hvalue
  · exact List.mem_append_right _ hm

/-- The items of a block sequence get into the pool. -/
lemma stocks_blockItems (h : Stocked schema fuel) (opened : Mark) :
    Stocks need (blockItems schema (fuel + 1) opened) fun items => items := by
  unfold blockItems
  refine isCalm_next.bind_stocks fun t => ?_
  split
  · apply stocks_orEmpty fun need => h.node need _ _
    exact fun n => stocks_consItem (by simp) (h.blockItems _ opened)
  · exact Stocks.pure (List.nil_subset _)
  · exact Stocks.throw _

/-- So do those of one that is not indented. -/
lemma stocks_indentlessItems (h : Stocked schema fuel) :
    Stocks need (indentlessItems schema (fuel + 1)) fun items => items := by
  unfold indentlessItems
  refine (isCalm_nextIf _).bind_stocks fun t? => ?_
  split
  · apply stocks_orEmpty fun need => h.node need _ _
    exact fun n => stocks_consItem (by simp) (h.indentlessItems _)
  · exact Stocks.pure (List.nil_subset _)

/-- A value that may be left out, with or without its indicator. -/
lemma stocks_value {x : Compose Node} (hx : ∀ need, Stocks need x fun n => [n])
    (kinds : List TokenKind) {f : Node → Compose β} (hf : ∀ n, Stocks (need ++ [n]) (f n) held') :
    Stocks need (do
      match ← nextIf .value with
      | some v => if ← atAny kinds then f (← emptyScalar schema v.stop) else f (← x)
      | none => f (← emptyScalar schema (← peek).start)) held' := by
  refine (isCalm_nextIf _).bind_stocks fun v? => ?_
  split
  · exact stocks_orEmpty hx kinds _ hf
  · exact isCalm_peek.bind_stocks fun t => (stocks_emptyScalar schema t.start).bind hf

/-- So do the entries of a block mapping. -/
lemma stocks_blockEntries (h : Stocked schema fuel) (opened : Mark) :
    Stocks need (blockEntries schema (fuel + 1) opened) nodesOf := by
  unfold blockEntries
  refine isCalm_next.bind_stocks fun t => ?_
  split
  · apply stocks_orEmpty fun need => h.node need _ _
    intro key
    apply stocks_value fun need => h.node need _ _
    exact fun value => stocks_consEntry (by simp) (by simp) (h.blockEntries _ opened)
  · exact Stocks.pure (List.nil_subset _)
  · exact Stocks.throw _

/-- So does a single entry in a flow sequence. -/
lemma stocks_flowPair (h : Stocked schema fuel) :
    Stocks need (flowPair schema (fuel + 1)) fun n => [n] := by
  unfold flowPair
  refine isCalm_next.bind_stocks fun t => ?_
  apply stocks_orEmpty fun need => h.node need _ _
  intro key
  apply stocks_value fun need => h.node need _ _
  intro value
  apply stocks_freshId_bind (fun _ => rfl)
  · simp [Node.parts]
  · exact fun n _ => Stocks.pure (by simp)

/-- The items of a flow sequence from where one may start. -/
def flowItem (schema : Schema) (fuel : Nat) (opened : Mark) : Compose (List Node) := do
  let t ← peek
  match t.kind with
  | .key =>
    let item ← flowPair schema fuel
    return item :: (← flowItems schema fuel opened false)
  | .flowSequenceEnd =>
    advance
    return []
  | _ =>
    let item ← node schema fuel false false
    return item :: (← flowItems schema fuel opened false)

/-- So does an item of a flow sequence, with those behind it. -/
lemma stocks_flowItem (h : Stocked schema fuel) (opened : Mark) :
    Stocks need (flowItem schema fuel opened) fun items => items := by
  refine isCalm_peek.bind_stocks fun t => ?_
  split
  · exact (h.flowPair need).bind fun n => stocks_consItem (by simp) (h.flowItems _ opened false)
  · exact isCalm_advance.bind_stocks fun _ => Stocks.pure (List.nil_subset _)
  · exact (h.node need _ _).bind fun n => stocks_consItem (by simp) (h.flowItems _ opened false)

/-- So do all items of a flow sequence. -/
lemma stocks_flowItems (h : Stocked schema fuel) (opened : Mark) (isFirst : Bool) :
    Stocks need (flowItems schema (fuel + 1) opened isFirst) fun items => items := by
  unfold flowItems
  refine (isCalm_nextIf _).bind_stocks fun ended => ?_
  split_ifs
  · exact Stocks.pure (List.nil_subset _)
  · refine isCalm_next.bind_stocks fun t => ?_
    split_ifs
    · exact (IsCalm.throw _).bind_stocks fun _ => stocks_flowItem h opened
    · exact stocks_flowItem h opened
  · exact stocks_flowItem h opened

/-- The entries of a flow mapping from where one may start. -/
def flowEntry (schema : Schema) (fuel : Nat) (opened : Mark) : Compose (List (Node × Node)) := do
  let t ← peek
  match t.kind with
  | .key =>
    advance
    let key ←
      if ← atAny [.value, .flowEntry, .flowMappingEnd] then emptyScalar schema t.stop
      else node schema fuel false false
    let value ←
      match ← nextIf .value with
      | some v =>
        if ← atAny [.flowEntry, .flowMappingEnd] then emptyScalar schema v.stop
        else node schema fuel false false
      | none => emptyScalar schema (← peek).start
    return (key, value) :: (← flowEntries schema fuel opened false)
  | .flowMappingEnd =>
    advance
    return []
  | _ =>
    let key ← node schema fuel false false
    let value ← emptyScalar schema (← peek).start
    return (key, value) :: (← flowEntries schema fuel opened false)

/-- So does an entry of a flow mapping, with those behind it. -/
lemma stocks_flowEntry (h : Stocked schema fuel) (opened : Mark) :
    Stocks need (flowEntry schema fuel opened) nodesOf := by
  refine isCalm_peek.bind_stocks fun t => ?_
  split
  · refine isCalm_advance.bind_stocks fun _ => ?_
    apply stocks_orEmpty fun need => h.node need _ _
    intro key
    apply stocks_value fun need => h.node need _ _
    exact fun value => stocks_consEntry (by simp) (by simp) (h.flowEntries _ opened false)
  · exact isCalm_advance.bind_stocks fun _ => Stocks.pure (List.nil_subset _)
  · refine (h.node need _ _).bind fun key => isCalm_peek.bind_stocks fun t => ?_
    refine (stocks_emptyScalar schema t.start).bind fun value => ?_
    exact stocks_consEntry (by simp) (by simp) (h.flowEntries _ opened false)

/-- So do all entries of a flow mapping. -/
lemma stocks_flowEntries (h : Stocked schema fuel) (opened : Mark) (isFirst : Bool) :
    Stocks need (flowEntries schema (fuel + 1) opened isFirst) nodesOf := by
  unfold flowEntries
  refine (isCalm_nextIf _).bind_stocks fun ended => ?_
  split_ifs
  · exact Stocks.pure (List.nil_subset _)
  · refine isCalm_next.bind_stocks fun t => ?_
    split_ifs
    · exact (IsCalm.throw _).bind_stocks fun _ => stocks_flowEntry h opened
    · exact stocks_flowEntry h opened
  · exact stocks_flowEntry h opened

end step

/-- **The readers of nested nodes** return nodes of the pool, whatever the fuel. -/
lemma stocked (schema : Schema) (fuel : Nat) : Stocked schema fuel := by
  induction fuel with
  | zero =>
      exact ⟨fun _ _ _ => Stocks.throw _, fun _ _ => Stocks.throw _, fun _ => Stocks.throw _,
        fun _ _ => Stocks.throw _, fun _ _ _ => Stocks.throw _, fun _ => Stocks.throw _,
        fun _ _ _ => Stocks.throw _⟩
  | succ fuel ih =>
      exact ⟨fun _ => stocks_node ih, fun _ => stocks_blockItems ih,
        fun _ => stocks_indentlessItems ih,
        fun _ => stocks_blockEntries ih, fun _ => stocks_flowItems ih, fun _ => stocks_flowPair ih,
        fun _ => stocks_flowEntries ih⟩

/-! ## Documents -/

/-- Looking for a directive is calm. -/
lemma isCalm_atDirective : IsCalm atDirective := by
  refine isCalm_peek.bind fun t => ?_
  split
  · exact IsCalm.pure _
  · exact IsCalm.pure _

/-- Passing ends of documents is. -/
lemma isCalm_skipDocumentEnds (fuel : Nat) : IsCalm (skipDocumentEnds fuel) := by
  induction fuel with
  | zero => exact IsCalm.pure ()
  | succ fuel ih =>
      refine (isCalm_nextIf _).bind fun t? => ?_
      split_ifs
      · exact ih
      · exact IsCalm.pure ()

/-- Setting handles is. -/
lemma isCalm_setHandles (f : Composer → Assoc String String) :
    IsCalm (modify fun st => { st with handles := f st } : Compose Unit) :=
  IsCalm.modify fun _ => ⟨rfl, rfl⟩

/-- Passing directives is. -/
lemma isCalm_directives (fuel : Nat) (versioned : Bool) : IsCalm (directives fuel versioned) := by
  induction fuel generalizing versioned with
  | zero => exact IsCalm.pure ()
  | succ fuel ih =>
      refine isCalm_peek.bind fun t => ?_
      split
      · refine isCalm_advance.bind fun _ => ?_
        split
        · split_ifs
          · exact (IsCalm.throw _).bind fun _ => (IsCalm.throw _).bind fun _ => ih true
          · exact (IsCalm.throw _).bind fun _ => ih true
          · exact (IsCalm.throw _).bind fun _ => ih true
          · exact ih true
        · refine IsCalm.get.bind fun st => ?_
          split_ifs
          · exact (IsCalm.throw _).bind fun _ => (isCalm_setHandles _).bind fun _ => ih _
          · exact (isCalm_setHandles _).bind fun _ => ih _
        · exact ih _
      · exact IsCalm.pure ()

/-- What comes before an announced document makes no nodes. -/
lemma isCalm_announcedDocument? (schema : Schema) (fuel : Nat) :
    IsCalm (announcedDocument? schema fuel) := by
  refine (isCalm_skipDocumentEnds fuel).bind fun _ => isCalm_peek.bind fun first => ?_
  split_ifs
  · exact IsCalm.pure none
  · refine (isCalm_setHandles _).bind fun _ => (isCalm_directives fuel false).bind fun _ =>
      (isCalm_setHandles _).bind fun _ => isCalm_next.bind fun t => ?_
    split_ifs
    · exact (IsCalm.throw _).bind fun _ => IsCalm.pure _
    · exact IsCalm.pure _

/-- A reader returns only what has a property. -/
def Returns (x : Compose α) (p : α → Prop) : Prop := ∀ st a st', x.run st = .ok (a, st') → p a

/-- What has the property may be returned. -/
lemma Returns.pure {p : α → Prop} {a : α} (h : p a) : Returns (Pure.pure a) p := by
  intro st a' st' heq
  cases heq
  exact h

/-- Only the last reader returns something. -/
lemma Returns.bind {x : Compose α} {f : α → Compose β} {p : β → Prop} (h : ∀ a, Returns (f a) p) :
    Returns (x >>= f) p := by
  intro st b st' hrun
  obtain ⟨⟨a, st₁⟩, -, hrun⟩ := bind_eq_ok.mp hrun
  exact h a st₁ b st' hrun

/-- The content of an announced document is a node of the pool. -/
lemma returns_announcedDocument? (schema : Schema) (fuel : Nat) :
    Returns (announcedDocument? schema fuel) fun found => ∀ mark content,
      found = some (mark, content) → ∀ need, Stocks need content fun n => [n] := by
  refine Returns.bind fun _ => Returns.bind fun first => ?_
  split_ifs
  · exact Returns.pure nofun
  · refine Returns.bind fun _ => Returns.bind fun _ => Returns.bind fun _ =>
      Returns.bind fun t => ?_
    have hcontent : ∀ {found : Mark × Compose Node}, found = (first.start, do
        if (← atDirective) || (← atAny [.documentStart, .documentEnd, .streamEnd]) then
          emptyScalar schema (← peek).start
        else node schema fuel true false) → ∀ mark content, some found = some (mark, content) →
          ∀ need, Stocks need content fun n => [n] := by
      rintro _ rfl mark content ⟨⟩ need
      refine isCalm_atDirective.bind_stocks fun directed =>
        (isCalm_atAny _).bind_stocks fun ended => ?_
      split_ifs
      · exact isCalm_peek.bind_stocks fun t => stocks_emptyScalar schema t.start
      · exact (stocked schema fuel).node need true false
    split_ifs
    · exact Returns.bind fun _ => Returns.pure (hcontent rfl)
    · exact Returns.pure (hcontent rfl)

/-- A reader that only moves on, and what is known of its result. -/
lemma IsCalm.bind_stocks_of {x : Compose α} {f : α → Compose β} {p : α → Prop} (hx : IsCalm x)
    (hp : Returns x p) (hf : ∀ a, p a → Stocks need (f a) held') : Stocks need (x >>= f) held' := by
  intro st b st' pool hpool hneed h
  obtain ⟨⟨a, st₁⟩, hfirst, h⟩ := bind_eq_ok.mp h
  obtain ⟨hanchors, hnext⟩ := hx st a st₁ hfirst
  exact hf a (hp st a st₁ hfirst) st₁ b st' pool (hpool.congr hanchors hnext) hneed h

/-- What comes after a document: nothing but its end, and no other document. -/
def documentEnd (schema : Schema) (fuel : Nat) (root : Node) : Compose (Option Node) := do
  let _ ← nextIf .documentEnd
  match ← announcedDocument? schema fuel with
  | none => return some root
  | some (mark, _) => throw (.within .anotherDocument root.start mark)

/-- What comes after a document is read without making nodes. -/
lemma stocks_documentEnd {root : Node} (schema : Schema) (fuel : Nat) (hroot : root ∈ need) :
    Stocks need (documentEnd schema fuel root) Option.toList := by
  refine (isCalm_nextIf _).bind_stocks fun _ =>
    (isCalm_announcedDocument? schema fuel).bind_stocks ?_
  intro found
  split
  · exact Stocks.pure (by simpa using hroot)
  · exact Stocks.throw _

/-- A document is a node of the pool. -/
lemma stocks_document (schema : Schema) (fuel : Nat) :
    Stocks need (document schema fuel) Option.toList := by
  unfold document
  refine isCalm_atDirective.bind_stocks fun directed => (isCalm_atAny _).bind_stocks fun ended => ?_
  dsimp only
  split_ifs
  · refine (isCalm_setHandles _).bind_stocks fun _ => ?_
    refine ((stocked schema fuel).node need true false).bind fun root => ?_
    rw [pure_bind]
    exact stocks_documentEnd schema fuel (by simp)
  · refine (isCalm_announcedDocument? schema fuel).bind_stocks_of
      (returns_announcedDocument? schema fuel) fun found hfound => ?_
    split
    · rw [pure_bind]
      exact Stocks.pure (List.nil_subset _)
    · refine (hfound _ _ rfl need).bind fun root => ?_
      rw [pure_bind]
      exact stocks_documentEnd schema fuel (by simp)

end Compose

/-- What a passage is composed of is read from its tokens. -/
lemma Node.exists_run_of_parse {schema : Schema} {passage : Passage} {root? : Option Node}
    (h : Node.parse schema passage = .ok root?) : ∃ fuel st, (Compose.document schema fuel).run
      { tokens := (Token.scan passage).tokens, failure := (Token.scan passage).failure } =
        .ok (root?, st) := by
  unfold Node.parse at h
  dsimp only at h
  obtain ⟨⟨found, st⟩, hrun, rfl⟩ := map_eq_ok.mp h
  exact ⟨_, st, hrun⟩

/-- **The numbers of a tree that was composed** grow from the leaves to the root and tell the nodes
apart. -/
theorem Node.isNumbered_of_parse {schema : Schema} {passage : Passage} {root : Node}
    (h : Node.parse schema passage = .ok (some root)) : root.IsNumbered := by
  obtain ⟨fuel, st, hrun⟩ := exists_run_of_parse h
  have hstart : ∀ tokens failure, (⟨tokens, failure, [], [], 0⟩ : Composer).Holds ∅ := fun _ _ =>
    ⟨nofun, nofun, nofun, nofun⟩
  have hdocument : Compose.Stocks [] (Compose.document schema fuel) Option.toList :=
    Compose.stocks_document schema fuel
  obtain ⟨pool, -, hpool, hheld⟩ := hdocument _ _ st ∅ (hstart _ _) nofun hrun
  exact hpool.isNumbered (hheld root (by simp))

end Yaml

end PipelineAudit
