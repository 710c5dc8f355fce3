import Mathlib.Data.List.Basic
import TreeDiff.Script.Linked

/-!
# Chains of nodes with several owners

A node is given up with its last owner, so that it matters that every node knows how many owners it
has. They are the links that are held from outside, by places of a shelf for example, and the links
of other nodes.

* `Nodes.chain_induction`: induction along a chain.
* `Nodes.entries_congr`: nodes that agree along a chain yield the same entries.
* `Nodes.Owned`: every node counts its owners rightly, for given links from outside. No node is left
  when no such link is (`Nodes.Owned.get?_eq_none`).
* `Nodes.Intact`: links from outside have been kept: the nodes count their owners rightly for them,
  and their chains yield what they have yielded.
* `Nodes.share_intact`, `Nodes.disown_intact`, `Nodes.giveUp_intact`, `Nodes.advance_intact`: what
  changes of a single node keep.
* `Nodes.release_intact`, `Nodes.takeEdits_intact`, `Nodes.takeEdits_edits`: what giving up a script
  keeps, and what is handed over.
* `Nodes.prepend_spec`, `Nodes.prepend_overflow`: a script with one more edit, or none.
-/

namespace TreeDiff.Nodes

variable {δ : Type} {ns ns' ns'' : Nodes δ} {i j : Nat} {node : Node δ} {link : Option Nat}
  {links links' : List (Option Nat)}

/-! ## Nodes after a change -/

theorem get?_change {f : Node δ → Option (Node δ)}
    {hf : ∀ node node', f node = some node' → node'.rest = node.rest} :
    (ns.change i f hf).get? j = if i = j then (ns.get? j).bind f else ns.get? j := by
  unfold get? change
  rw [Array.getElem?_modify]
  split
  · cases ns.cells[j]? <;> rfl
  · rfl

theorem get?_recount {f : Nat → Nat} :
    (ns.recount i f).get? j = (ns.get? j).map fun node =>
      { node with owners := if i = j then f node.owners else node.owners } := by
  unfold recount
  rw [get?_change]
  split
  · cases ns.get? j <;> rfl
  · simp

theorem get?_share :
    (ns.share link).get? j = (ns.get? j).map fun node =>
      { node with owners := node.owners + if link = some j then 1 else 0 } := by
  cases link with
  | none => simp [share]
  | some i =>
    rw [share, get?_recount]
    by_cases hij : i = j <;> simp [hij]

theorem get?_giveUp : (ns.giveUp i).get? j = if i = j then none else ns.get? j := by
  unfold giveUp
  rw [get?_change, Option.bind_fun_none]

theorem get?_add {d : δ} {c : Nat} {rest : Linked} :
    (ns.add d c rest).get? j = if j = ns.cells.size then
      some ⟨d, c, { rest with first := rest.first.filter (· < ns.cells.size) }, 1⟩
      else ns.get? j := by
  unfold get? add
  rw [Array.getElem?_push]
  split <;> rfl

theorem lt_size_of_get? (h : ns.get? i = some node) : i < ns.cells.size := by
  have hcell := ns.get?_eq_some_iff.1 h
  exact (Array.getElem?_eq_some_iff.1 hcell).1

/-! ## The entries of a chain -/

/-- Induction along a chain. -/
@[elab_as_elim]
theorem chain_induction {motive : Option Nat → Prop} (ns : Nodes δ) (link : Option Nat)
    (none : motive none) (lost : ∀ i, ns.get? i = Option.none → motive (some i))
    (node : ∀ i node, ns.get? i = some node → motive node.rest.first → motive (some i)) :
    motive link := by
  induction h : height link using Nat.strongRecOn generalizing link with
  | _ n ih =>
    subst h
    cases link with
    | none => exact none
    | some i =>
      cases hget : ns.get? i with
      | none => exact lost i hget
      | some m => exact node i m hget (ih _ (ns.height_rest_lt hget) _ rfl)

theorem walk_lost {passed : Array (δ × Nat)} (h : ns.get? i = none) :
    ns.walk passed (some i) = passed := by
  rw [walk]
  split <;> simp_all

theorem walk_node {passed : Array (δ × Nat)} (h : ns.get? i = some node) :
    ns.walk passed (some i) = ns.walk (passed.push (node.edit, node.cumulative)) node.rest.first := by
  rw [walk]
  split <;> simp_all

theorem walk_eq_append (passed : Array (δ × Nat)) (link : Option Nat) :
    ns.walk passed link = passed ++ ns.walk #[] link := by
  induction link using chain_induction ns generalizing passed with
  | none => simp [walk]
  | lost i h => simp [walk_lost h]
  | node i node h ih =>
    rw [walk_node h, walk_node h, ih, ih (Array.push #[] _)]
    simp

@[simp] theorem entries_none : ns.entries none = [] := by simp [entries, walk]

theorem entries_lost (h : ns.get? i = none) : ns.entries (some i) = [] := by
  simp [entries, walk_lost h]

theorem entries_node (h : ns.get? i = some node) :
    ns.entries (some i) = (node.edit, node.cumulative) :: ns.entries node.rest.first := by
  unfold entries
  rw [walk_node h, walk_eq_append]
  simp

theorem total_eq (l : Linked) : ns.total l = (ns.script l).total := by
  unfold total script Script.total
  cases l.first with
  | none => simp
  | some i =>
    cases h : ns.get? i with
    | none => simp [h, entries_lost h]
    | some node => simp [h, entries_node h]

/-- Nodes that agree along a chain, but for their owners, yield the same entries. -/
theorem entries_congr (p : Option Nat → Prop)
    (hrest : ∀ i node, p (some i) → ns.get? i = some node → p node.rest.first)
    (hget : ∀ i, p (some i) → (ns'.get? i).map (fun node => { node with owners := 0 }) =
      (ns.get? i).map fun node => { node with owners := 0 })
    (h : p link) : ns'.entries link = ns.entries link := by
  induction link using chain_induction ns with
  | none => simp
  | lost i hlost =>
    have hlost' := hget i h
    simp only [hlost, Option.map_none, Option.map_eq_none_iff] at hlost'
    rw [entries_lost hlost, entries_lost hlost']
  | node i node hnode ih =>
    have hnode' := hget i h
    simp only [hnode, Option.map_some, Option.map_eq_some_iff, Node.mk.injEq] at hnode'
    obtain ⟨node', hnode', hedit, hcumulative, hrest', -⟩ := hnode'
    rw [entries_node hnode, entries_node hnode', hedit, hcumulative, hrest',
      ih (hrest i node h hnode)]

@[simp] theorem entries_recount (f : Nat → Nat) :
    (ns.recount i f).entries link = ns.entries link := by
  refine entries_congr (fun _ => True) (fun _ _ _ _ => trivial) (fun j _ => ?_) trivial
  rw [get?_recount, Option.map_map]
  rfl

@[simp] theorem entries_share (link' : Option Nat) :
    (ns.share link').entries link = ns.entries link := by
  cases link' with
  | none => rfl
  | some i => exact entries_recount _

/-! ## Owners -/

/-- The links of all nodes. -/
def rests (ns : Nodes δ) : List (Option Nat) :=
  ns.cells.toList.map (·.bind fun node => node.rest.first)

theorem getElem?_rests :
    ns.rests[i]? = ns.cells[i]?.map (·.bind fun node => node.rest.first) := by
  simp [rests]

theorem exists_node_of_mem_rests (h : some i ∈ ns.rests) :
    ∃ j node, ns.get? j = some node ∧ node.rest.first = some i := by
  obtain ⟨j, hj⟩ := List.mem_iff_getElem?.1 h
  simp only [getElem?_rests, Option.map_eq_some_iff, Option.bind_eq_some_iff] at hj
  obtain ⟨_, hcell, node, rfl, hrest⟩ := hj
  exact ⟨j, node, ns.get?_eq_some_iff.2 hcell, hrest⟩

theorem rest_mem_rests (h : ns.get? i = some node) : node.rest.first ∈ ns.rests := by
  refine List.mem_of_getElem? (i := i) ?_
  simp [getElem?_rests, ns.get?_eq_some_iff.1 h]

theorem rests_recount (f : Nat → Nat) : (ns.recount i f).rests = ns.rests := by
  apply List.ext_getElem?
  intro j
  simp only [getElem?_rests, recount, change, Array.getElem?_modify]
  split
  · rw [Option.map_map]
    congr 1
    ext1 cell
    cases cell <;> rfl
  · rfl

theorem rests_share : (ns.share link).rests = ns.rests := by
  cases link with
  | none => rfl
  | some i => exact rests_recount _

theorem rests_giveUp : (ns.giveUp i).rests = ns.rests.set i none := by
  apply List.ext_getElem?
  intro j
  rw [List.getElem?_set, getElem?_rests, getElem?_rests]
  simp only [giveUp, change, Array.getElem?_modify]
  by_cases hij : i = j
  · subst hij
    by_cases hi : i < ns.cells.size <;> simp [hi, rests]
  · simp [hij]

theorem count_link (link : Option Nat) (links : List (Option Nat)) (j : Nat) :
    (link :: links).count (some j) = links.count (some j) + if link = some j then 1 else 0 := by
  simp [List.count_cons]

/-- The links of the nodes that are left, and the link of the node that is given up. -/
theorem count_rests (h : ns.get? i = some node) (j : Nat) :
    ns.rests.count (some j) =
      (ns.giveUp i).rests.count (some j) + if node.rest.first = some j then 1 else 0 := by
  have hrest : ns.rests[i]? = some node.rest.first := by
    simp [getElem?_rests, ns.get?_eq_some_iff.1 h]
  obtain ⟨hi, hrest⟩ := List.getElem?_eq_some_iff.1 hrest
  rw [rests_giveUp, List.count_set hi, hrest]
  by_cases hj : node.rest.first = some j
  · have hpos := List.count_pos_iff.2 (hj ▸ rest_mem_rests h)
    simp [hj]
    omega
  · simp [hj]

/-- Every node counts its owners rightly, for given links from outside. -/
structure Owned (ns : Nodes δ) (links : List (Option Nat)) : Prop where
  /-- A node is owned by links from outside and by other nodes. -/
  counted : ∀ i, (ns.get? i).elim 0 Node.owners = links.count (some i) + ns.rests.count (some i)
  /-- A node without an owner has been given up. -/
  pos : ∀ i node, ns.get? i = some node → 0 < node.owners

theorem Owned.of_count (h : ns.Owned links)
    (hcount : ∀ i, links'.count (some i) = links.count (some i)) : ns.Owned links' where
  counted i := by rw [h.counted i, hcount]
  pos := h.pos

theorem owned_empty (h : ∀ i, some i ∉ links) : (empty : Nodes δ).Owned links where
  counted i := by simp [empty, get?, rests, List.count_eq_zero.2 (h i)]
  pos i node hnode := by simp [empty, get?] at hnode

/-- A node to which there is a link is there. -/
theorem Owned.exists_node (h : ns.Owned links) (hmem : some i ∈ links ++ ns.rests) :
    ∃ node, ns.get? i = some node := by
  have hpos := List.count_pos_iff.2 hmem
  rw [List.count_append, ← h.counted i] at hpos
  cases hget : ns.get? i with
  | none => simp [hget] at hpos
  | some node => exact ⟨node, rfl⟩

theorem Owned.get?_ne_none (h : ns.Owned links) (hmem : some i ∈ links ++ ns.rests) :
    ns.get? i ≠ none := by
  obtain ⟨node, hnode⟩ := h.exists_node hmem
  simp [hnode]

/-- When no link from outside is left, no node is. -/
theorem Owned.get?_eq_none (h : ns.Owned links) (hlinks : ∀ i, some i ∉ links) (i : Nat) :
    ns.get? i = none := by
  induction hbelow : ns.cells.size - i using Nat.strongRecOn generalizing i with
  | _ n ih =>
    cases hnode : ns.get? i with
    | none => rfl
    | some node =>
      have hpos := h.pos i node hnode
      have hi := h.counted i
      simp [hnode, List.count_eq_zero.2 (hlinks i)] at hi
      -- its owner is a later node, and the later nodes are given up
      have hmem : some i ∈ ns.rests := List.count_pos_iff.1 (by omega)
      obtain ⟨j, owner, howner, hrest⟩ := exists_node_of_mem_rests hmem
      have hij := ns.lt_of_get? howner hrest
      have hj := lt_size_of_get? howner
      rw [ih _ (by omega) j rfl] at howner
      cases howner

/-! ## Changes that keep links -/

/-- Links from outside have been kept. -/
structure Intact (ns ns' : Nodes δ) (links : List (Option Nat)) : Prop where
  owned : ns'.Owned links
  entries : ∀ link ∈ links, ns'.entries link = ns.entries link

theorem Intact.trans (h : ns.Intact ns' links) (h' : ns'.Intact ns'' links')
    (hsub : links' ⊆ links) : ns.Intact ns'' links' where
  owned := h'.owned
  entries link hlink := (h'.entries link hlink).trans (h.entries link (hsub hlink))

/-- One more link like one that is there. -/
theorem share_intact (h : ns.Owned links) (hmem : link ∈ links ++ ns.rests) :
    ns.Intact (ns.share link) (link :: links) := by
  refine ⟨⟨fun j => ?_, fun j node' hnode' => ?_⟩, fun _ _ => entries_share _⟩
  · have hj := h.counted j
    rw [rests_share, get?_share, count_link]
    cases hget : ns.get? j with
    | none =>
      have hne : link ≠ some j := by
        rintro rfl
        exact h.get?_ne_none hmem hget
      simpa [hget, hne] using hj
    | some node =>
      simp [hget] at hj ⊢
      omega
  · rw [get?_share, Option.map_eq_some_iff] at hnode'
    obtain ⟨node, hnode, rfl⟩ := hnode'
    exact Nat.add_pos_left (h.pos j node hnode) _

/-- One of several links to a node is given up. -/
theorem disown_intact (h : ns.Owned (some i :: links)) (hnode : ns.get? i = some node)
    (hone : node.owners ≠ 1) : ns.Intact (ns.recount i (· - 1)) links := by
  refine ⟨⟨fun j => ?_, fun j node' hnode' => ?_⟩, fun _ _ => entries_recount _⟩
  · have hj := h.counted j
    rw [rests_recount, get?_recount]
    rw [count_link] at hj
    by_cases hij : i = j
    · subst hij
      simp [hnode] at hj ⊢
      omega
    · simp only [hij, if_false, Option.some.injEq, Nat.add_zero] at hj ⊢
      simpa using hj
  · rw [get?_recount, Option.map_eq_some_iff] at hnode'
    obtain ⟨old, hold, rfl⟩ := hnode'
    have hpos := h.pos j old hold
    by_cases hij : i = j
    · subst hij
      obtain rfl := Option.some.inj (hnode.symm.trans hold)
      simp
      omega
    · simpa [hij] using hpos

/-- No chain but its own runs through a node to which no node links. -/
theorem entries_giveUp (hrests : some i ∉ ns.rests) (hlink : link ≠ some i) :
    (ns.giveUp i).entries link = ns.entries link := by
  refine entries_congr (· ≠ some i) (fun j node _ hnode hrest => ?_) (fun j hj => ?_) hlink
  · exact hrests (hrest ▸ rest_mem_rests hnode)
  · have hij : i ≠ j := by
      rintro rfl
      exact hj rfl
    rw [get?_giveUp, if_neg hij]

/-- The only link to a node is given up with the node, for the link to the node after it. -/
theorem giveUp_intact (h : ns.Owned (some i :: links)) (hnode : ns.get? i = some node)
    (hone : node.owners = 1) : ns.Intact (ns.giveUp i) (node.rest.first :: links) := by
  have hi := h.counted i
  rw [hnode, count_link] at hi
  simp [hone] at hi
  have hlinks : some i ∉ links := List.count_eq_zero.1 (by omega)
  have hrests : some i ∉ ns.rests := List.count_eq_zero.1 (by omega)
  refine ⟨⟨fun j => ?_, fun j node' hnode' => ?_⟩, fun link hlink => entries_giveUp hrests ?_⟩
  · have hj := h.counted j
    have hcount := count_rests hnode j
    rw [get?_giveUp]
    rw [count_link] at hj ⊢
    by_cases hij : i = j
    · subst hij
      simp [hnode, hone] at hj ⊢
      omega
    · simp [hij] at hj ⊢
      omega
  · rw [get?_giveUp] at hnode'
    split at hnode'
    · cases hnode'
    · exact h.pos j node' hnode'
  · rintro rfl
    rcases List.mem_cons.1 hlink with hrest | hlink
    · exact hrests (hrest ▸ rest_mem_rests hnode)
    · exact hlinks hlink

/-- A link is given up for a link to the node after it. -/
theorem advance_intact (h : ns.Owned (some i :: links)) (hnode : ns.get? i = some node) :
    ns.Intact (ns.advance i node) (node.rest.first :: links) := by
  unfold advance
  split
  · next hone => exact giveUp_intact h hnode hone
  · next hone =>
    have hshared : ns.Intact (ns.share node.rest.first) (node.rest.first :: some i :: links) :=
      share_intact h (List.mem_append_right _ (rest_mem_rests hnode))
    have hswapped : (ns.share node.rest.first).Owned (some i :: node.rest.first :: links) :=
      hshared.owned.of_count fun j => (List.Perm.swap _ _ _).count_eq _
    have hrest : node.rest.first ≠ some i := by
      intro hrest
      exact Nat.lt_irrefl i (ns.lt_of_get? hnode hrest)
    have hnode' : (ns.share node.rest.first).get? i = some node := by
      simp [get?_share, hnode, hrest]
    exact ⟨(disown_intact hswapped hnode' hone).owned, by simp⟩

/-- The link of a script without an edit leads nowhere. -/
theorem Owned.entries_eq_nil_iff (h : ns.Owned links) (hmem : link ∈ links) :
    ns.entries link = [] ↔ link = none := by
  cases link with
  | none => simp
  | some i =>
    obtain ⟨node, hnode⟩ := h.exists_node (List.mem_append_left _ hmem)
    simp [entries_node hnode]

/-! ## Giving up scripts -/

/-- A link is given up. -/
theorem release_intact (h : ns.Owned (link :: links)) : ns.Intact (ns.release link) links := by
  fun_induction release ns link with
  | case1 ns => exact ⟨h.of_count fun i => by simp, fun _ _ => rfl⟩
  | case2 ns i hlost => exact absurd hlost (h.get?_ne_none (by simp))
  | case3 ns i node hnode hone ih =>
    have hgiven := giveUp_intact h hnode hone
    exact hgiven.trans (ih hgiven.owned) (List.subset_cons_self _ _)
  | case4 ns i node hnode hone => exact disown_intact h hnode hone

theorem drain_intact (passed : Array δ) (h : ns.Owned (link :: links)) :
    ns.Intact (drain passed ns link).2 links := by
  fun_induction drain passed ns link with
  | case1 passed ns => exact ⟨h.of_count fun i => by simp, fun _ _ => rfl⟩
  | case2 passed ns i hlost => exact absurd hlost (h.get?_ne_none (by simp))
  | case3 passed ns i node hnode ih =>
    have hadvanced := advance_intact h hnode
    exact hadvanced.trans (ih hadvanced.owned) (List.subset_cons_self _ _)

/-- The edits of the chain are handed over, whoever else owns its nodes. -/
theorem drain_edits (passed : Array δ) (h : ns.Owned (link :: links)) :
    (drain passed ns link).1.toList = passed.toList ++ (ns.entries link).map Prod.fst := by
  fun_induction drain passed ns link with
  | case1 passed ns => simp
  | case2 passed ns i hlost => simp [entries_lost hlost]
  | case3 passed ns i node hnode ih =>
    have hadvanced := advance_intact h hnode
    rw [ih hadvanced.owned, entries_node hnode, hadvanced.entries _ List.mem_cons_self]
    simp

theorem takeEdits_intact {l : Linked} (h : ns.Owned (l.first :: links)) :
    ns.Intact (ns.takeEdits l).2 links :=
  drain_intact #[] h

theorem takeEdits_edits {l : Linked} (h : ns.Owned (l.first :: links)) :
    (ns.takeEdits l).1 = (ns.entries l.first).map Prod.fst :=
  drain_edits #[] h

/-! ## Scripts with one more edit -/

theorem rests_add {d : δ} {c : Nat} {rest : Linked} :
    (ns.add d c rest).rests = ns.rests ++ [rest.first.filter (· < ns.cells.size)] := by
  simp [rests, add]

/-- The chain of a link to a node that is there does not run through a new one. -/
theorem entries_add {d : δ} {c : Nat} {rest : Linked}
    (hlink : ∀ j, link = some j → j < ns.cells.size) :
    (ns.add d c rest).entries link = ns.entries link := by
  refine entries_congr (fun link => ∀ j, link = some j → j < ns.cells.size) ?_ ?_ hlink
  · intro i node hi hnode j hj
    have hij := ns.lt_of_get? hnode hj
    have hi := hi i rfl
    omega
  · intro i hi
    have hi := hi i rfl
    rw [get?_add, if_neg (by omega)]

/-- One more node, in front of the nodes that a link leads to. -/
theorem add_spec {d : δ} {c : Nat} {rest : Linked} (h : ns.Owned (rest.first :: links)) :
    (ns.add d c rest).Owned (some ns.cells.size :: links) ∧
      (∀ link ∈ rest.first :: links, (ns.add d c rest).entries link = ns.entries link) ∧
      (ns.add d c rest).entries (some ns.cells.size) = (d, c) :: ns.entries rest.first := by
  have hlt : ∀ {j}, some j ∈ rest.first :: links → j < ns.cells.size := by
    intro j hj
    obtain ⟨node, hnode⟩ := h.exists_node (List.mem_append_left _ hj)
    exact lt_size_of_get? hnode
  have hfilter : rest.first.filter (· < ns.cells.size) = rest.first := by
    cases hfirst : rest.first with
    | none => rfl
    | some j => simpa using hlt (by simp [hfirst])
  have hkept : ∀ link ∈ rest.first :: links,
      (ns.add d c rest).entries link = ns.entries link := by
    intro link hlink
    apply entries_add
    rintro j rfl
    exact hlt hlink
  refine ⟨⟨fun j => ?_, fun j node hnode => ?_⟩, hkept, ?_⟩
  · have hj := h.counted j
    rw [get?_add, rests_add, hfilter, List.count_append, count_link]
    rw [count_link] at hj
    by_cases hnew : j = ns.cells.size
    · have hlost : ns.get? j = none := by simp [get?, hnew]
      simp [hlost, ← hnew, count_link] at hj ⊢
      omega
    · have hne : ns.cells.size ≠ j := fun h => hnew h.symm
      simp [hnew, hne, count_link] at hj ⊢
      omega
  · rw [get?_add] at hnode
    split at hnode
    · cases hnode
      exact Nat.one_pos
    · exact h.pos j node hnode
  · rw [entries_node (by rw [get?_add, if_pos rfl]), hfilter, hkept _ List.mem_cons_self]

theorem size_share : (ns.share link).cells.size = ns.cells.size := by
  cases link with
  | none => rfl
  | some i => simp [share, recount, change]

/-- A script with one more edit shares the nodes of the shorter one, which stays as it is. -/
theorem prepend_spec {ceiling c : Nat} {d : δ} {l : Linked} (h : ns.Owned links)
    (hl : l.first ∈ links) (hle : c + ns.total l ≤ ceiling) :
    ∃ l' ns', prepend ceiling d c l ns = .ok l' ns' ∧ l'.length = l.length + 1 ∧
      ns'.script l' = (ns.script l).cons d c ∧ ns'.Owned (l'.first :: links) ∧
      ∀ link ∈ links, ns'.entries link = ns.entries link := by
  have hshared := share_intact h (List.mem_append_left _ hl)
  obtain ⟨howned, hkept, hentries⟩ := add_spec (d := d) (c := c + ns.total l) hshared.owned
  rw [size_share] at howned hentries
  refine ⟨⟨some ns.cells.size, l.length + 1⟩, (ns.share l.first).add d (c + ns.total l) l,
    ?_, rfl, ?_, howned, ?_⟩
  · unfold prepend
    rw [addCosts_eq_ok_iff.2 ⟨hle, rfl⟩]
  · rw [script, hentries, entries_share, total_eq]
    rfl
  · intro link hlink
    rw [hkept link (List.mem_cons_of_mem _ hlink), entries_share]

/-- An edit whose cost would lie above the ceiling is not put in front of a script. -/
theorem prepend_overflow {ceiling c : Nat} {d : δ} {l : Linked} (h : ceiling < c + ns.total l) :
    prepend ceiling d c l ns = .error .costOverflow ns := by
  unfold prepend
  rw [addCosts_eq_error_iff.2 ⟨h, rfl⟩]

end TreeDiff.Nodes
