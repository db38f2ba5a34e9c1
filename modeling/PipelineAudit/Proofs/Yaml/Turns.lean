import PipelineAudit.Proofs.Yaml.Position
import PipelineAudit.Proofs.Yaml.Reading

/-!
# Turns

Collections are filled one after another: the root first, and every other one in the order in which
they are met. Which turn a collection gets does not depend on what the filling does, and is told
from the tree alone (`Yaml.Node.turns`). The collections that have values of their own get one turn
each, and no others do (`Yaml.Node.mem_turns_iff`).

Merge keys do not keep to the turns. When a mapping is filled, those that are merged into it are
expanded along with it, whether their turns have come or not. What has been expanded at a turn is
told by the turns before it (`Yaml.Builder.Follows`): the mappings that have been filled, and those
that are merged into them, directly or through others. `Yaml.Builder.Follows.of_fill` takes this
relation through one turn.
-/

namespace PipelineAudit

namespace Yaml

namespace Node

/-! ## The order of the tree -/

/-- Puts a node into a queue, if it is a collection that is new there. A queue has the numbers of
the nodes that have been put into it, and the nodes that still wait. -/
def enqueue (queue : List Nat × List Node) (n : Node) : List Nat × List Node :=
  if n.tag ∈ collectionTags ∧ n.id ∉ queue.1 then (n.id :: queue.1, queue.2 ++ [n]) else queue

/-- The collections in the order in which they leave a queue, each one followed in it by those that
make up its value. -/
def turnsFrom : Nat → List Nat × List Node → List Node
  | 0, _ => []
  | _ + 1, (_, []) => []
  | rounds + 1, (met, n :: rest) => n :: turnsFrom rounds (n.loadedParts.foldl enqueue (met, rest))

/-- The collections of a tree in the order of their turns. -/
def turns (root : Node) : List Node := turnsFrom root.reach (enqueue ([], []) root)

/-- A mapping is one of some mappings, or merged into one of them. -/
def IsReachedFrom (done : List Node) (m : Node) : Prop :=
  ∃ n ∈ done, n.tag = Tag.map ∧ Relation.ReflTransGen (fun m n => m ∈ n.merges) m n

/-- A mapping has been merged into one whose turn came before its own. -/
def IsMergedBefore (earlier : List Node) (m : Node) : Prop :=
  ∃ n ∈ earlier, n.tag = Tag.map ∧ m.IsMergedInto n

/-- What is merged into a node that is reached is reached. -/
lemma IsReachedFrom.of_mem_merges {done : List Node} {m n : Node} (hn : n.IsReachedFrom done)
    (hm : m ∈ n.merges) : m.IsReachedFrom done := by
  obtain ⟨k, hk, htag, hn⟩ := hn
  exact ⟨k, hk, htag, hn.head hm⟩

/-- What is reached stays so when more is done. -/
lemma IsReachedFrom.mono {done done' : List Node} {m : Node} (hm : m.IsReachedFrom done)
    (h : done ⊆ done') : m.IsReachedFrom done' := by
  obtain ⟨k, hk, hreached⟩ := hm
  exact ⟨k, h hk, hreached⟩

/-- Of a mapping that is not among those whose turns came before, the two notions are the same. -/
lemma isReachedFrom_iff_of_notMem {done : List Node} {m : Node} (hm : m ∉ done) :
    m.IsReachedFrom done ↔ m.IsMergedBefore done := by
  refine exists_congr fun n => and_congr_right fun hn => and_congr_right fun _ => ?_
  rw [Relation.reflTransGen_iff_eq_or_transGen]
  refine or_iff_right fun heq => hm ?_
  rwa [← heq]

/-- What has left a queue and what waits in it are the nodes that have been put into it, in
order. -/
def IsQueueAfter (done : List Node) (queue : List Nat × List Node) : Prop :=
  (done ++ queue.2).map id = queue.1.reverse

/-- The queue stays one when a node is put in. -/
lemma IsQueueAfter.enqueue {done : List Node} {queue : List Nat × List Node}
    (h : IsQueueAfter done queue) (n : Node) : IsQueueAfter done (enqueue queue n) := by
  unfold Node.enqueue
  split_ifs
  · unfold IsQueueAfter at h ⊢
    rw [← List.append_assoc, List.map_append, h, List.reverse_cons]
    rfl
  · exact h

/-- So it does when nodes are. -/
lemma IsQueueAfter.foldl_enqueue {done : List Node} {queue : List Nat × List Node}
    (h : IsQueueAfter done queue) (ns : List Node) :
    IsQueueAfter done (ns.foldl Node.enqueue queue) := by
  induction ns generalizing queue with
  | nil => exact h
  | cons n rest ih => exact ih (h.enqueue n)

end Node

/-! ## The queue of a builder -/

namespace Builder

/-- The collections that have been met and those that wait. -/
def queue (b : Builder) : List Nat × List Node := (b.met, b.waiting)

end Builder

namespace Build

variable {α : Type} {root : Node} {pre : Builder → Prop} {scope : Node → Prop}

/-- Meeting a node keeps what depends neither on the values of scalars nor on the queue. -/
lemma keeps_meetNode_of {p : Builder → Prop}
    (h : ∀ b scalars met waiting, p b →
      p { b with scalars := scalars, met := met, waiting := waiting })
    (n : Node) : Keeps p (meetNode n) := by
  intro b u b' hb hrun
  rw [meetNode, StateT.run_bind] at hrun
  obtain ⟨⟨_, _⟩, hget, hrun⟩ := bind_eq_ok.mp hrun
  cases hget
  dsimp only at hrun
  split_ifs at hrun
  · cases hrun
    exact hb
  · cases hrun
    exact h b _ _ _ hb
  · obtain ⟨⟨v, b₁⟩, hvalue, hrun⟩ := bind_eq_ok.mp hrun
    obtain ⟨v', -, hvalue⟩ := bind_eq_ok.mp hvalue
    cases hvalue
    cases hrun
    exact h b _ _ _ hb
  · cases hrun

/-- **Meeting a node** puts it into the queue. -/
lemma leads_enqueue (hroot : root.IsNumbered) {n : Node} (hn : n.Within root)
    (queue : List Nat × List Node) :
    Leads root (fun b => b.queue = queue) (meetNode n) fun _ b =>
      b.queue = Node.enqueue queue n := by
  refine (leads_meetNode hroot hn).of_run ?_
  rintro b u b' hb rfl hrun
  have hcollection := hb.contains_tagOf hroot hn
  rw [meetNode, StateT.run_bind] at hrun
  obtain ⟨⟨_, _⟩, hget, hrun⟩ := bind_eq_ok.mp hrun
  cases hget
  dsimp only at hrun
  unfold Node.enqueue
  split_ifs at hrun with hknown htag
  · cases hrun
    rw [if_neg]
    rintro ⟨htag, hnew⟩
    rcases hb.of_hasMet hroot hn (by simpa [Builder.HasMet] using hknown)
        with ⟨hmet, -⟩ | ⟨v, -, hadmits⟩
    · exact hnew hmet
    · exact hadmits.not_collection htag
  · cases hrun
    have hnew : n.id ∉ b.met := by
      simp only [Bool.or_eq_true, List.contains_iff_mem, not_or] at hknown
      exact hknown.1
    rw [if_pos ⟨hcollection.mp htag, hnew⟩]
    rfl
  · obtain ⟨⟨v, b₁⟩, hvalue, hrun⟩ := bind_eq_ok.mp hrun
    obtain ⟨v', -, hvalue⟩ := bind_eq_ok.mp hvalue
    cases hvalue
    cases hrun
    rw [if_neg fun h => htag (hcollection.mpr h.1)]
    rfl
  · cases hrun

/-- Meeting entries puts their keys and values into the queue. -/
lemma leads_enqueueEntries (hroot : root.IsNumbered) (info : NodeInfo)
    {entries : List (Node × Node)} (hentries : ∀ e ∈ entries, e.1.Within root ∧ e.2.Within root)
    (queue : List Nat × List Node) :
    Leads root (fun b => b.queue = queue) (meetEntries info entries) fun _ b =>
      b.queue = (Node.ofEntries entries).foldl Node.enqueue queue := by
  induction entries generalizing queue with
  | nil => exact Leads.pure fun _ _ h => h
  | cons e rest ih =>
      obtain ⟨⟨hkey, hvalue⟩, hrest⟩ := List.forall_mem_cons.mp hentries
      obtain ⟨k, v⟩ := e
      unfold meetEntries
      refine (leads_enqueue hroot hkey queue).bind fun _ => Leads.get_bind fun b _ hqueue => ?_
      dsimp only
      split_ifs
      · exact Leads.throw_bind _
      · refine ((leads_enqueue hroot hvalue (Node.enqueue queue k)).imp ?_ fun _ _ _ h => h).bind
            fun _ =>
          ih hrest _
        rintro _ rfl
        exact hqueue

/-- Steps on the items of a list put into the queue what each of them does. -/
lemma Leads.forM_enqueue {f : Node → Build Unit} {parts : Node → List Node} {items : List Node}
    (h : ∀ n ∈ items, ∀ queue, Leads root (fun b => b.queue = queue) (f n) fun _ b =>
      b.queue = (parts n).foldl Node.enqueue queue) (queue : List Nat × List Node) :
    Leads root (fun b => b.queue = queue) (items.forM f) fun _ b =>
      b.queue = (items.flatMap parts).foldl Node.enqueue queue := by
  induction items generalizing queue with
  | nil => exact Leads.pure fun _ _ h => h
  | cons n rest ih =>
      obtain ⟨hfirst, hrest⟩ := List.forall_mem_cons.mp h
      rw [List.flatMap_cons, List.foldl_append]
      exact (hfirst queue).bind fun _ => ih hrest _

/-- **Filling a mapping** puts its parts into the queue, and expands only what is merged into it. -/
lemma leads_turn_mapping {schema : Schema} (hroot : root.IsNumbered)
    (hdown : ∀ n m : Node, scope n → m ∈ n.merges → scope m) {n : Node} (hn : n.Within root)
    (htag : n.tag = Tag.map) (hscope : scope n) (queue : List Nat × List Node) :
    Leads root (fun b => b.queue = queue ∧ b.ExpandsOnly root scope)
      (fillMapping schema n) fun _ b =>
      b.queue = n.loadedParts.foldl Node.enqueue queue ∧ b.ExpandsOnly root scope := by
  refine leads_fillMapping_of_mapping fun info own heq b₀ _ hpre _ => ?_
  subst heq
  have hqueue : Keeps (fun b => b.queue = queue) (expand info own) :=
    keeps_expandWithin (fun _ _ _ h => h) _ info own
  have honly : ∀ entries, Keeps (fun b => b.ExpandsOnly root scope) (meetEntries info entries) :=
    keeps_meetEntries (keeps_meetNode_of fun _ _ _ _ h => h) info
  have hexpand := (leads_expand hroot hdown hn hscope).keeps hqueue
  refine (hexpand.imp (fun b' (hb' : b' = b₀) => hb' ▸ hpre.symm) fun _ _ _ h => h).bind
    fun entries => ?_
  rintro b u b' hb ⟨⟨rfl, hscoped, -⟩, hq⟩ hrun
  have hmeet :=
    (leads_enqueueEntries hroot info (fun e he => hn.of_mem_offers he) queue).keeps (honly _)
  obtain ⟨hb', hextends, hreached⟩ := hmeet b u b' hb ⟨hq, hscoped⟩ hrun
  rw [Node.loadedParts_mapping (show info.tag = Tag.map from htag)]
  exact ⟨hb', hextends, hreached⟩

/-- Filling a sequence puts its items into the queue. -/
lemma leads_turn_sequence (hroot : root.IsNumbered) {n : Node} (hn : n.Within root)
    (htag : n.tag = Tag.seq) (queue : List Nat × List Node) :
    Leads root (fun b => b.queue = queue) (fillSequence n) fun _ b =>
      b.queue = n.loadedParts.foldl Node.enqueue queue := by
  cases n with
  | scalar info text => exact Leads.throw _
  | mapping info own => exact Leads.throw _
  | sequence info items =>
      have hitems : ∀ item ∈ items, ∀ queue,
          Leads root (fun b => b.queue = queue) (meetNode item) fun _ b =>
          b.queue = [item].foldl Node.enqueue queue :=
            fun item hitem => leads_enqueue hroot (hn.part hitem)
      have hall := Leads.forM_enqueue hitems queue
      rw [List.flatMap_singleton'] at hall
      rw [Node.loadedParts_sequence (show info.tag = Tag.seq from htag)]
      exact hall

/-- Filling a list of pairs puts the keys and values of its items into the queue. -/
lemma leads_turn_pairs (hroot : root.IsNumbered) {n : Node} (hn : n.Within root)
    (htag : n.tag = Tag.omap ∨ n.tag = Tag.pairs) (ordered : Bool) (queue : List Nat × List Node) :
    Leads root (fun b => b.queue = queue) (fillPairs ordered n) fun _ b =>
      b.queue = n.loadedParts.foldl Node.enqueue queue := by
  cases n with
  | scalar info text => exact Leads.throw _
  | mapping info own => exact Leads.throw _
  | sequence info items =>
      rw [Node.loadedParts_pairs (show info.tag = Tag.omap ∨ info.tag = Tag.pairs from htag)]
      refine Leads.forM_enqueue (fun item hitem queue => ?_) queue
      have hwithin : item.Within root := hn.part hitem
      cases item with
      | scalar iinfo text => exact Leads.throw _
      | sequence iinfo items => exact Leads.throw _
      | mapping iinfo own =>
          refine Leads.get_bind fun b hb hqueue => ?_
          split
          · rename_i k v hentries
            have hparts : k.Within root ∧ v.Within root :=
              hb.within_of_mem_entriesOf hroot hwithin (hentries ▸ List.mem_singleton_self (k, v))
            have hpair : Leads root (fun b => b.queue = queue)
                (do meetNode k; meetNode v) fun _ b =>
                b.queue = [k, v].foldl Node.enqueue queue :=
              (leads_enqueue hroot hparts.1 queue).bind fun _ => leads_enqueue hroot hparts.2 _
            rintro _ u b' - rfl hrun
            have hmet := hrun
            rw [StateT.run_bind] at hmet
            obtain ⟨⟨_, b₁⟩, hfirst, -⟩ := bind_eq_ok.mp hmet
            obtain ⟨hb₁, -, hk⟩ := leads_meetNode hroot hparts.1 _ _ _ hb trivial hfirst
            have hoffers :=
              offers_of_entriesOf hroot hb hwithin hentries (hb₁.tag_ne_merge hroot hparts.1 hk)
            rw [hoffers]
            exact hpair _ _ _ hb hqueue hrun
          · exact Leads.throw _

/-- **A turn** puts the parts of a collection into the queue, and expands only what is merged into
it. -/
lemma leads_turn {schema : Schema} (hroot : root.IsNumbered)
    (hdown : ∀ n m : Node, scope n → m ∈ n.merges → scope m) {n : Node} (hn : n.Within root)
    (htag : n.tag ∈ collectionTags) (hscope : n.tag = Tag.map → scope n)
    (queue : List Nat × List Node) :
    Leads root (fun b => b.queue = queue ∧ b.ExpandsOnly root scope) (fill schema n) fun _ b =>
      b.queue = n.loadedParts.foldl Node.enqueue queue ∧ b.ExpandsOnly root scope := by
  have hmeet : ∀ m, Keeps (fun b => b.ExpandsOnly root scope) (meetNode m) :=
    keeps_meetNode_of fun _ _ _ _ h => h
  refine Leads.get_bind fun b hb hpre => ?_
  have hpre' : ∀ b', b' = b → b'.queue = queue ∧ b'.ExpandsOnly root scope :=
    fun _ heq => heq ▸ hpre
  dsimp only
  split_ifs with hmap hseq
  · have hown := (hb.tagOf_eq_iff hroot hn Tag.map (by decide) (by decide)).mp hmap
    exact (leads_turn_mapping hroot hdown hn hown (hscope hown) queue).imp hpre' fun _ _ _ h => h
  · have hown := (hb.tagOf_eq_iff hroot hn Tag.seq (by decide) (by decide)).mp hseq
    exact ((leads_turn_sequence hroot hn hown queue).keeps (keeps_fillSequence hmeet n)).imp hpre'
      fun _ _ _ h => h
  · have hown : n.tag = Tag.omap ∨ n.tag = Tag.pairs := by
      rw [hb.tagOf_eq_iff hroot hn Tag.map (by decide) (by decide)] at hmap
      rw [hb.tagOf_eq_iff hroot hn Tag.seq (by decide) (by decide)] at hseq
      simpa [collectionTags, hmap, hseq] using htag
    exact ((leads_turn_pairs hroot hn hown _ queue).keeps (keeps_fillPairs hmeet _ n)).imp hpre'
      fun _ _ _ h => h

end Build

/-! ## What has been expanded at a turn -/

namespace Builder

/-- A builder is at a turn of a tree: some collections have had their turns, and of the mappings, it
has expanded those that are reached from these by merging. -/
structure Follows (b : Builder) (root : Node) (done : List Node) : Prop extends b.IsSound root where
  within : ∀ n ∈ done, n.Within root
  queued : Node.IsQueueAfter done b.queue
  expanded_of_mem : ∀ n ∈ done, n.tag = Tag.map → b.IsExpanded n
  expands_only : b.ExpandsOnly root (Node.IsReachedFrom done)

variable {b b' : Builder} {root m n : Node} {done rest : List Node} {schema : Schema}

/-- The mappings that have been expanded are those that are reached from earlier ones. -/
lemma Follows.isExpanded_iff (h : b.Follows root done) (hm : m.Within root) :
    b.IsExpanded m ↔ m.IsReachedFrom done := by
  refine ⟨h.expands_only m hm, ?_⟩
  rintro ⟨n, hn, htag, hreached⟩
  clear hm
  have hboth : m.Within root ∧ b.IsExpanded m := by
    induction hreached using Relation.ReflTransGen.head_induction_on with
    | refl => exact ⟨h.within n hn, h.expanded_of_mem n hn htag⟩
    | head hmerges _ ih => exact ⟨ih.1.of_mem_merges hmerges, h.merged _ ih.1 ih.2 _ hmerges⟩
  exact hboth.2

/-- The collection whose turn it is has had none before. -/
lemma Follows.notMem (h : b.Follows root done) (hwaiting : b.waiting = n :: rest) : n ∉ done := by
  have hids : (done ++ b.waiting).map Node.id = b.met.reverse := h.queued
  have hnodup := hids ▸ List.nodup_reverse.mpr h.nodup
  rw [hwaiting, List.map_append, List.map_cons, List.nodup_append] at hnodup
  exact fun hmem => hnodup.2.2 n.id (List.mem_map_of_mem hmem) n.id List.mem_cons_self rfl

/-- **The entries of a mapping at its turn** are those that it offers if it was merged before, and
otherwise those that are written. -/
lemma Follows.entriesOf_eq (h : b.Follows root done) (hroot : root.IsNumbered) {info : NodeInfo}
    {own : List (Node × Node)} (hwaiting : b.waiting = .mapping info own :: rest) :
    (Node.IsMergedBefore done (.mapping info own) →
        b.entriesOf info.id own = (Node.mapping info own).offers) ∧
      (¬Node.IsMergedBefore done (.mapping info own) → b.entriesOf info.id own = own) := by
  have hn := (h.waiting _ (hwaiting ▸ List.mem_cons_self)).1
  have hexpanded := h.isExpanded_iff hn
  rw [Node.isReachedFrom_iff_of_notMem (h.notMem hwaiting)] at hexpanded
  rw [← hexpanded]
  unfold entriesOf IsExpanded
  change ((b.expanded.get? info.id).isSome = true → _) ∧
    (¬(b.expanded.get? info.id).isSome = true → _)
  cases hget : b.expanded.get? info.id with
  | none => exact ⟨nofun, fun _ => rfl⟩
  | some es => exact ⟨fun _ => h.eq_offers hroot hn hget, fun hnone => absurd rfl hnone⟩

/-- **One turn**: the collection has had its turn, and its parts have been put into the queue. -/
lemma Follows.of_fill (h : b.Follows root done) (hroot : root.IsNumbered)
    (hwaiting : b.waiting = n :: rest)
    {u : Unit} (hrun : (Build.fill schema n).run { b with waiting := rest } = .ok (u, b')) :
    b'.Follows root (done ++ [n]) ∧ b'.queue = n.loadedParts.foldl Node.enqueue (b.met, rest) := by
  obtain ⟨hn, htag⟩ := h.waiting n (hwaiting ▸ List.mem_cons_self)
  have hpopped : IsSound { b with waiting := rest } root :=
    ⟨h.retagged, h.expanded, h.merged, h.scalars, h.met, h.nodup, fun m hm =>
      h.waiting m (hwaiting ▸ List.mem_cons_of_mem n hm)⟩
  have hdown : ∀ m k : Node, m.IsReachedFrom (done ++ [n]) → k ∈ m.merges →
      k.IsReachedFrom (done ++ [n]) :=
    fun m k hm hk => hm.of_mem_merges hk
  have hself : n.tag = Tag.map → n.IsReachedFrom (done ++ [n]) :=
    fun hmap => ⟨n, by simp, hmap, .refl⟩
  have honly : ExpandsOnly { b with waiting := rest } root (Node.IsReachedFrom (done ++ [n])) :=
    fun m hm hexpanded => (h.expands_only m hm hexpanded).mono (List.subset_append_left _ _)
  obtain ⟨-, -, hqueue, honly'⟩ :=
    Build.leads_turn hroot hdown hn htag hself (b.met, rest) _ _ _ hpopped ⟨rfl, honly⟩ hrun
  obtain ⟨hb', hextends, hfilled⟩ := Build.leads_fill hroot hn htag _ _ _ hpopped trivial hrun
  have hold : Node.IsQueueAfter (done ++ [n]) (b.met, rest) := by
    have hids : (done ++ b.waiting).map Node.id = b.met.reverse := h.queued
    rwa [hwaiting, ← List.singleton_append, ← List.append_assoc] at hids
  refine ⟨⟨hb', ?_, hqueue ▸ hold.foldl_enqueue _, ?_, honly'⟩, hqueue⟩
  · rw [List.forall_mem_append, List.forall_mem_singleton]
    exact ⟨h.within, hn⟩
  · rw [List.forall_mem_append, List.forall_mem_singleton]
    refine ⟨fun m hm hmap => ?_, fun hmap => ?_⟩
    · have hexpanded : IsExpanded { b with waiting := rest } m := h.expanded_of_mem m hm hmap
      exact hexpanded.mono hextends.toRemembers
    · cases hfilled with
      | mapping tag expanded => exact isExpanded_of_get? expanded
      | sequence tag => exact absurd (tag.symm.trans hmap) (by decide)
      | pairs tag =>
          rcases tag with tag | tag
          · exact absurd (tag.symm.trans hmap) (by decide)
          · exact absurd (tag.symm.trans hmap) (by decide)

/-- When a root has been met, no collection has had its turn. -/
lemma follows_of_meetNode (hroot : root.IsNumbered) {u : Unit}
    (hrun : (Build.meetNode root).run {} = .ok (u, b)) :
    b.Follows root [] ∧ b.queue = Node.enqueue ([], []) root := by
  have hempty : ({} : Builder).ExpandsOnly root (Node.IsReachedFrom []) := nofun
  obtain ⟨hb, -, -⟩ :=
    Build.leads_meetNode hroot (Node.Within.refl root) _ _ _ (isSound_empty root) trivial hrun
  obtain ⟨-, -, hqueue⟩ :=
    Build.leads_enqueue hroot (Node.Within.refl root) _ _ _ _ (isSound_empty root) rfl hrun
  have hkeeps : Build.Keeps (fun b => b.ExpandsOnly root (Node.IsReachedFrom []))
      (Build.meetNode root) :=
    Build.keeps_meetNode_of (fun _ _ _ _ h => h) root
  have hfirst : Node.IsQueueAfter [] (queue {}) := rfl
  exact ⟨⟨hb, nofun, hqueue ▸ hfirst.enqueue root, nofun, hkeeps _ _ _ hempty hrun⟩, hqueue⟩

end Builder

/-! ## Who gets a turn -/

namespace Builder

variable {b b' : Builder} {root : Node} {done : List Node} {schema : Schema}

/-- **All turns**: filling goes through the turns that the tree tells. -/
lemma Follows.of_fillAll (h : b.Follows root done) (hroot : root.IsNumbered) {rounds : Nat}
    {u : Unit} (hrun : (Build.fillAll schema rounds).run b = .ok (u, b')) :
    b'.Follows root (done ++ Node.turnsFrom rounds b.queue) := by
  induction rounds generalizing b done with
  | zero =>
      cases hrun
      rwa [Node.turnsFrom, List.append_nil]
  | succ rounds ih =>
      cases hwaiting : b.waiting with
      | nil =>
          rw [Build.run_fillAll_of_nil hwaiting] at hrun
          cases hrun
          rwa [queue, hwaiting, Node.turnsFrom, List.append_nil]
      | cons n rest =>
          rw [Build.run_fillAll_of_cons hwaiting] at hrun
          obtain ⟨⟨_, b₁⟩, hfill, hlater⟩ := bind_eq_ok.mp hrun
          obtain ⟨h₁, hqueue⟩ := h.of_fill hroot hwaiting hfill
          have hall := ih h₁ hlater
          rw [List.append_assoc, List.singleton_append, hqueue] at hall
          rwa [queue, hwaiting, Node.turnsFrom]

/-- The builder of a tree has gone through all its turns. -/
lemma follows_of_ofRoot (hroot : root.IsNumbered) (h : ofRoot schema root = .ok b) :
    b.Follows root root.turns := by
  obtain ⟨b₁, hmeet, hrun⟩ := exists_of_ofRoot h
  obtain ⟨hfollows, hqueue⟩ := follows_of_meetNode hroot hmeet
  rw [Node.turns, ← hqueue]
  exact hfollows.of_fillAll hroot hrun

end Builder

namespace Node

variable {m n root : Node} {queue : List Nat × List Node}

/-- What waits in a queue has been put into it, and is a collection. -/
lemma mem_foldl_enqueue {ns : List Node} (h : m ∈ (ns.foldl enqueue queue).2) :
    m ∈ queue.2 ∨ m ∈ ns ∧ m.tag ∈ collectionTags := by
  induction ns generalizing queue with
  | nil => exact Or.inl h
  | cons n rest ih =>
      rcases ih h with hold | ⟨hrest, htag⟩
      · unfold enqueue at hold
        split_ifs at hold with hnew
        · rcases List.mem_append.mp hold with hold | hself
          · exact Or.inl hold
          · rw [List.mem_singleton.mp hself]
            exact Or.inr ⟨List.mem_cons_self, hnew.1⟩
        · exact Or.inl hold
      · exact Or.inr ⟨List.mem_cons_of_mem n hrest, htag⟩

/-- The nodes that have a turn are loaded collections, if those in the queue are. -/
lemma isLoaded_of_mem_turnsFrom {rounds : Nat} (hn : n ∈ turnsFrom rounds queue)
    (hqueue : ∀ m ∈ queue.2, m.IsLoaded root ∧ m.tag ∈ collectionTags) :
    n.IsLoaded root ∧ n.tag ∈ collectionTags := by
  induction rounds generalizing queue with
  | zero => cases hn
  | succ rounds ih =>
      obtain ⟨met, waiting⟩ := queue
      cases waiting with
      | nil => cases hn
      | cons k rest =>
          obtain ⟨hfirst, hrest⟩ := List.forall_mem_cons.mp hqueue
          rcases List.mem_cons.mp hn with rfl | hn
          · exact hfirst
          · refine ih hn fun m hm => ?_
            rcases mem_foldl_enqueue hm with hold | ⟨hpart, htag⟩
            · exact hrest m hold
            · exact ⟨hfirst.1.part hpart, htag⟩

/-- **Who gets a turn.** In a tree that can be filled, the collections that have values of their own
get a turn, and each of them gets one. -/
theorem mem_turns_iff {schema : Schema} {b : Builder} (hroot : root.IsNumbered)
    (h : Builder.ofRoot schema root = .ok b) :
    root.turns.Nodup ∧ ∀ n, n ∈ root.turns ↔ n.IsLoaded root ∧ n.tag ∈ collectionTags := by
  have hfollows := Builder.follows_of_ofRoot hroot h
  have hcomplete := Builder.isComplete_of_ofRoot hroot h
  have hids : root.turns.map Node.id = b.met.reverse := by
    have hqueued : (root.turns ++ b.waiting).map Node.id = b.met.reverse := hfollows.queued
    rwa [hcomplete.none_waits, List.append_nil] at hqueued
  refine ⟨?_, fun n => ⟨fun hn => ?_, fun ⟨hn, htag⟩ => ?_⟩⟩
  · exact List.Nodup.of_map Node.id (hids ▸ List.nodup_reverse.mpr hcomplete.nodup)
  · refine isLoaded_of_mem_turnsFrom hn fun m hm => ?_
    have hm : m ∈ ([root].foldl enqueue ([], [])).2 := hm
    rcases mem_foldl_enqueue hm with hnone | ⟨hself, htag⟩
    · cases hnone
    · rw [List.mem_singleton.mp hself] at htag ⊢
      exact ⟨.refl, htag⟩
  · rcases hcomplete.of_hasMet hroot hn.within (hcomplete.hasMet hroot hn)
        with ⟨hmet, -⟩ | ⟨v, -, hadmits⟩
    · have hmem : n.id ∈ root.turns.map Node.id := hids ▸ List.mem_reverse.mpr hmet
      obtain ⟨m, hm, heq⟩ := List.mem_map.mp hmem
      rwa [← hroot.eq_of_id (hfollows.within m hm) hn.within heq]
    · exact absurd htag hadmits.not_collection

end Node

end Yaml

end PipelineAudit
