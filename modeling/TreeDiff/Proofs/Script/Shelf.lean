import TreeDiff.Proofs.Script.Linked
import TreeDiff.Proofs.Script.Prices
import TreeDiff.Script.Shelf

/-!
# A shelf and its ledger

A ledger says what the places of a shelf should hold: for each filled place, the edits that have been
put in front of one another, the last one first, each with its own cost. It knows of no nodes, links
or annotations. A shelf follows its ledger through all actions.

* `Ledger`, `Ledger.next`, `Ledger.run`: the ledger after an action or several.
* `Shelf.Shows`: what the script at a place shows of the edits in the ledger.
* `Shelf.Follows`: what a shelf shows of its ledger, and how it answers the next action.
* `Shelf.Accounted`: the invariant.
* `Shelf.Step`, `Shelf.Accounted.step`: what an action can do. It keeps the invariant
  (`Shelf.Step.accounted`) and the scripts at other places (`Shelf.Step.kept`).
* `Shelf.run_follows`: a shelf follows its ledger after all actions.
* `Shelf.run_vacant`: no node is left when all places are empty.
-/

namespace TreeDiff

variable {δ : Type}

/-! ## Places -/

namespace Places

variable {α : Type} {places : Places α} {a : α} {place p : Nat}

theorem get?_put : (places.put a).get? p = if p = places.length then some a else places.get? p := by
  unfold get? put
  rw [List.getElem?_append]
  by_cases hlt : p < places.length
  · simp [hlt, Nat.ne_of_lt hlt]
  · by_cases heq : p = places.length
    · simp [heq]
    · have hne : p - places.length ≠ 0 := by omega
      simp [hlt, heq, hne]

theorem get?_vacate : (places.vacate place).get? p = if p = place then none else places.get? p := by
  unfold get? vacate
  rw [List.getElem?_set]
  by_cases heq : p = place
  · subst heq
    by_cases hlt : p < places.length <;> simp [hlt]
  · simp [heq, Ne.symm heq]

/-- A place that is empty need not be emptied. -/
theorem vacate_eq_self (h : places.get? place = none) : places.vacate place = places := by
  apply List.ext_getElem?
  intro p
  rw [vacate, List.getElem?_set]
  by_cases heq : place = p
  · subst heq
    by_cases hlt : place < places.length <;> simp_all [get?]
  · simp [heq]

theorem lt_length_of_get? (h : places.get? p = some a) : p < places.length := by
  simp only [get?, Option.join_eq_some_iff] at h
  exact (List.getElem?_eq_some_iff.1 h).1

theorem mem_of_get? (h : places.get? p = some a) : some a ∈ places := by
  simp only [get?, Option.join_eq_some_iff] at h
  exact List.mem_of_getElem? h

end Places

/-! ## Ledgers -/

/-- What the places of a shelf should hold: edits with their own costs, first to last. -/
abbrev Ledger (δ : Type) : Type := Places (List (δ × Nat))

/-- The ledger after an action. -/
def Ledger.next (ceiling : Nat) (ledger : Ledger δ) : Shelf.Action δ → Ledger δ
  | .empty => ledger.put []
  | .prepend place d c =>
    match ledger.get? place with
    | none => ledger
    | some ps => if c + ownCost ps ≤ ceiling then ledger.put ((d, c) :: ps) else ledger
  | .clone place =>
    match ledger.get? place with
    | none => ledger
    | some ps => ledger.put ps
  | .take place => ledger.vacate place
  | .drop place => ledger.vacate place

/-- The ledger after some actions. -/
def Ledger.run (ceiling : Nat) (ledger : Ledger δ) (actions : List (Shelf.Action δ)) : Ledger δ :=
  actions.foldl (Ledger.next ceiling) ledger

namespace Shelf

/-- The action empties the place. -/
def Action.Empties (place : Nat) : Action δ → Prop
  | .take p => p = place
  | .drop p => p = place
  | _ => False

/-- What a script of linked nodes shows of edits with their own costs. -/
structure Shows (ceiling : Nat) (nodes : Nodes δ) (l : Linked) (ps : List (δ × Nat)) : Prop where
  edits : (nodes.entries l.first).map Prod.fst = ps.map Prod.fst
  length : (nodes.entries l.first).length = l.length
  /-- An annotation is the exact cost from there on. -/
  annotation : ∀ k entry, (nodes.entries l.first)[k]? = some entry → entry.2 = ownCost (ps.drop k)
  ceiling : ∀ entry ∈ nodes.entries l.first, entry.2 ≤ ceiling
  total : nodes.total l = (nodes.entries l.first).head?.elim 0 Prod.snd
  isEmpty : l.isEmpty ↔ l.length = 0

/-- A shelf shows what its ledger says, and answers the next action accordingly. -/
structure Follows (ceiling : Nat) (shelf : Shelf δ) (ledger : Ledger δ) : Prop where
  length : shelf.places.length = ledger.length
  shows : ∀ place, Option.Rel (Shows ceiling shelf.nodes)
    (shelf.places.get? place) (ledger.get? place)
  /-- An edit is put in front of a script if and only if the exact cost allows for it. Otherwise
  the shelf stays as it is. -/
  prepend : ∀ place d c ps, ledger.get? place = some ps →
    if c + ownCost ps ≤ ceiling then
      ∃ after, act ceiling (.prepend place d c) shelf = .ok (.filled shelf.places.length) after
    else act ceiling (.prepend place d c) shelf = .error .costOverflow shelf
  /-- A script that is taken out hands over the edits that it has shown. -/
  take : ∀ place l, shelf.places.get? place = some l → ∃ after,
    act ceiling (.take place) shelf =
      .ok (.edits ((shelf.nodes.entries l.first).map Prod.fst)) after
  /-- A script stays as it is until its place is emptied. -/
  kept : ∀ action place l, shelf.places.get? place = some l → ¬ action.Empties place →
    (next ceiling shelf action).places.get? place = some l ∧
      (next ceiling shelf action).nodes.entries l.first = shelf.nodes.entries l.first

/-! ## The invariant -/

variable {ceiling : Nat} {shelf : Shelf δ} {ledger : Ledger δ} {nodes nodes' : Nodes δ} {l : Linked}
  {ps : List (δ × Nat)} {place : Nat}

/-- The links that the places of a shelf hold. -/
def links (places : Places Linked) : List (Option Nat) := places.map (·.bind Linked.first)

/-- A script of linked nodes is the exact script of edits with their own costs. -/
structure Holds (ceiling : Nat) (nodes : Nodes δ) (l : Linked) (ps : List (δ × Nat)) : Prop where
  script : nodes.script l = .ofPrices ps
  length : l.length = ps.length
  cost : ownCost ps ≤ ceiling

/-- The nodes of a shelf know their owners, and its places hold what the ledger says. -/
structure Accounted (ceiling : Nat) (shelf : Shelf δ) (ledger : Ledger δ) : Prop where
  owned : shelf.nodes.Owned (links shelf.places)
  length : shelf.places.length = ledger.length
  holds : ∀ place, Option.Rel (Holds ceiling shelf.nodes)
    (shelf.places.get? place) (ledger.get? place)

theorem first_mem_links {places : Places Linked} (h : places.get? place = some l) :
    l.first ∈ links places :=
  List.mem_map.2 ⟨some l, Places.mem_of_get? h, rfl⟩

theorem links_put (places : Places Linked) (l : Linked) :
    links (places.put l) = links places ++ [l.first] := by
  simp [links, Places.put]

theorem count_links_vacate {places : Places Linked} (h : places.get? place = some l) (i : Nat) :
    (l.first :: links (places.vacate place)).count (some i) = (links places).count (some i) := by
  have hlt := Places.lt_length_of_get? h
  have hmem := first_mem_links h
  have hplace : places[place] = some l := by
    simpa [Places.get?, List.getElem?_eq_getElem hlt] using h
  rw [Nodes.count_link]
  unfold links Places.vacate at *
  rw [List.map_set, List.count_set (by simpa using hlt)]
  by_cases hfirst : l.first = some i
  · have hpos := List.count_pos_iff.2 (hfirst ▸ hmem)
    simp [hplace, hfirst]
    omega
  · simp [hplace, hfirst]

theorem Holds.of_entries (h : Holds ceiling nodes l ps)
    (hentries : nodes'.entries l.first = nodes.entries l.first) : Holds ceiling nodes' l ps where
  script := by rw [← h.script, Nodes.script, Nodes.script, hentries]
  length := h.length
  cost := h.cost

theorem Holds.total (h : Holds ceiling nodes l ps) : nodes.total l = ownCost ps := by
  rw [Nodes.total_eq, h.script, Script.total_ofPrices, ownCost]

theorem Holds.entries (h : Holds ceiling nodes l ps) :
    nodes.entries l.first = (Script.ofPrices ps).entries :=
  congrArg Script.entries h.script

/-! ## One action -/

/-- What an action can do to a shelf and its ledger. -/
inductive Step (ceiling : Nat) (shelf : Shelf δ) (ledger : Ledger δ) (action : Action δ) :
    Shelf δ → Ledger δ → Prop
  | put (nodes : Nodes δ) (l : Linked) (ps : List (δ × Nat))
      (owned : nodes.Owned (l.first :: links shelf.places))
      (kept : ∀ link ∈ links shelf.places, nodes.entries link = shelf.nodes.entries link)
      (holds : Holds ceiling nodes l ps) :
      Step ceiling shelf ledger action ⟨nodes, shelf.places.put l⟩ (ledger.put ps)
  | vacate (nodes : Nodes δ) (place : Nat) (empties : action.Empties place)
      (intact : shelf.nodes.Intact nodes (links (shelf.places.vacate place))) :
      Step ceiling shelf ledger action ⟨nodes, shelf.places.vacate place⟩ (ledger.vacate place)
  | same : Step ceiling shelf ledger action shelf ledger

theorem withScript_none (h : shelf.places.get? place = none)
    (f : Linked → Attempt (Shelf δ) (Answer δ)) :
    withScript place f shelf = .ok .nothing shelf := by
  simp [withScript, h]

theorem withScript_some (h : shelf.places.get? place = some l)
    (f : Linked → Attempt (Shelf δ) (Answer δ)) : withScript place f shelf = f l shelf := by
  simp [withScript, h]

theorem remove_none (h : shelf.places.get? place = none)
    (give : Linked → Nodes δ → Answer δ × Nodes δ) :
    remove place give shelf = .ok .nothing shelf :=
  withScript_none h _

theorem remove_some (h : shelf.places.get? place = some l)
    (give : Linked → Nodes δ → Answer δ × Nodes δ) :
    remove place give shelf = .ok (give l shelf.nodes).1
      ⟨(give l shelf.nodes).2, shelf.places.vacate place⟩ :=
  withScript_some h _

theorem act_prepend (h : shelf.places.get? place = some l) (d : δ) (c : Nat) :
    act ceiling (.prepend place d c) shelf =
      match Nodes.prepend ceiling d c l shelf.nodes with
      | .ok l' nodes => .ok (.filled shelf.places.length) ⟨nodes, shelf.places.put l'⟩
      | .error e nodes => .error e ⟨nodes, shelf.places⟩ := by
  rw [act, withScript_some h]
  simp only [bind, EStateM.bind, onNodes]
  cases Nodes.prepend ceiling d c l shelf.nodes <;> rfl

theorem act_clone (h : shelf.places.get? place = some l) :
    act ceiling (.clone place) shelf =
      .ok (.filled shelf.places.length) ⟨shelf.nodes.share l.first, shelf.places.put l⟩ := by
  rw [act, withScript_some h]
  rfl

theorem act_take : act ceiling (.take place : Action δ) = remove place fun l nodes =>
    (.edits (nodes.takeEdits l).1, (nodes.takeEdits l).2) := rfl

theorem act_drop : act ceiling (.drop place : Action δ) = remove place fun l nodes =>
    (.nothing, nodes.release l.first) := rfl

/-- The link of a place that is emptied is no longer one of the links of the places. -/
theorem Accounted.owned_vacate (h : Accounted ceiling shelf ledger)
    (hl : shelf.places.get? place = some l) :
    shelf.nodes.Owned (l.first :: links (shelf.places.vacate place)) :=
  h.owned.of_count (count_links_vacate hl)

/-- A place of a shelf and of its ledger. -/
theorem Accounted.holds_or_empty (h : Accounted ceiling shelf ledger) (place : Nat) :
    shelf.places.get? place = none ∧ ledger.get? place = none ∨
      ∃ l ps, shelf.places.get? place = some l ∧ ledger.get? place = some ps ∧
        Holds ceiling shelf.nodes l ps := by
  have hplace := h.holds place
  cases hl : shelf.places.get? place <;> cases hps : ledger.get? place <;>
    rw [hl, hps] at hplace <;> cases hplace
  · exact .inl ⟨rfl, rfl⟩
  · exact .inr ⟨_, _, rfl, rfl, ‹_›⟩

theorem Accounted.step_prepend (h : Accounted ceiling shelf ledger) (place : Nat) (d : δ) (c : Nat) :
    Step ceiling shelf ledger (.prepend place d c) (next ceiling shelf (.prepend place d c))
      (ledger.next ceiling (.prepend place d c)) := by
  obtain ⟨hl, hps⟩ | ⟨l, ps, hl, hps, hholds⟩ := h.holds_or_empty place
  · simp only [next, act, withScript_none hl, Ledger.next, hps]
    exact .same
  · simp only [next, act_prepend hl, Ledger.next, hps, ← hholds.total]
    by_cases hle : c + shelf.nodes.total l ≤ ceiling
    · obtain ⟨l', nodes, heq, hlength, hscript, howned, hkept⟩ :=
        Nodes.prepend_spec (d := d) h.owned (first_mem_links hl) hle
      rw [heq, if_pos hle]
      refine .put nodes l' _ howned hkept ⟨?_, ?_, ?_⟩
      · rw [hscript, hholds.script]
        rfl
      · rw [hlength, hholds.length, List.length_cons]
      · rw [hholds.total] at hle
        rwa [ownCost_cons]
    · rw [Nodes.prepend_overflow (by omega), if_neg hle]
      exact .same

theorem Accounted.step_clone (h : Accounted ceiling shelf ledger) (place : Nat) :
    Step ceiling shelf ledger (.clone place) (next ceiling shelf (.clone place))
      (ledger.next ceiling (.clone place)) := by
  obtain ⟨hl, hps⟩ | ⟨l, ps, hl, hps, hholds⟩ := h.holds_or_empty place
  · simp only [next, act, withScript_none hl, Ledger.next, hps]
    exact .same
  · simp only [next, act_clone hl, Ledger.next, hps]
    have hshared := Nodes.share_intact h.owned (List.mem_append_left _ (first_mem_links hl))
    refine .put _ l ps hshared.owned (fun _ _ => Nodes.entries_share _) ?_
    exact hholds.of_entries (Nodes.entries_share _)

/-- Emptying a place, whatever is done with its script. -/
theorem Accounted.step_remove (h : Accounted ceiling shelf ledger) {action : Action δ}
    {give : Linked → Nodes δ → Answer δ × Nodes δ}
    (hact : act ceiling action = remove place give)
    (hledger : ledger.next ceiling action = ledger.vacate place) (hempties : action.Empties place)
    (hgive : ∀ l links, shelf.nodes.Owned (l.first :: links) →
      shelf.nodes.Intact (give l shelf.nodes).2 links) :
    Step ceiling shelf ledger action (next ceiling shelf action) (ledger.next ceiling action) := by
  rw [hledger]
  obtain ⟨hl, hps⟩ | ⟨l, ps, hl, hps, -⟩ := h.holds_or_empty place
  · rw [Places.vacate_eq_self hps, next, hact, remove_none hl]
    exact .same
  · rw [next, hact, remove_some hl]
    exact .vacate _ place hempties (hgive l _ (h.owned_vacate hl))

theorem Accounted.step (h : Accounted ceiling shelf ledger) (action : Action δ) :
    Step ceiling shelf ledger action (next ceiling shelf action) (ledger.next ceiling action) := by
  cases action with
  | empty =>
    refine .put shelf.nodes .empty [] ?_ (fun _ _ => rfl) ⟨?_, rfl, Nat.zero_le _⟩
    · exact h.owned.of_count fun i => by simp [Linked.empty]
    · simp [Nodes.script, Linked.empty, Script.empty]
  | prepend place d c => exact h.step_prepend place d c
  | clone place => exact h.step_clone place
  | take place =>
    exact h.step_remove act_take rfl rfl fun l links howned => Nodes.takeEdits_intact howned
  | drop place =>
    exact h.step_remove act_drop rfl rfl fun l links howned => Nodes.release_intact howned

variable {action : Action δ} {after : Shelf δ} {ledger' : Ledger δ}

/-- An action keeps the scripts of all places but the one that it empties. -/
theorem Step.kept (hstep : Step ceiling shelf ledger action after ledger')
    (hl : shelf.places.get? place = some l) (hempties : ¬ action.Empties place) :
    after.places.get? place = some l ∧
      after.nodes.entries l.first = shelf.nodes.entries l.first := by
  cases hstep with
  | put nodes l' ps owned kept holds =>
    have hlt := Places.lt_length_of_get? hl
    refine ⟨?_, kept _ (first_mem_links hl)⟩
    rw [Places.get?_put, if_neg (by omega), hl]
  | vacate nodes place' hplace' intact =>
    have hne : place ≠ place' := by
      rintro rfl
      exact hempties hplace'
    have hkept : (shelf.places.vacate place').get? place = some l := by
      rw [Places.get?_vacate, if_neg hne, hl]
    exact ⟨hkept, intact.entries _ (first_mem_links hkept)⟩
  | same => exact ⟨hl, rfl⟩

/-- What a place holds does not change with nodes that its script does not have. -/
theorem Accounted.holds_of_entries (h : Accounted ceiling shelf ledger)
    (hentries : ∀ l, shelf.places.get? place = some l →
      nodes.entries l.first = shelf.nodes.entries l.first) :
    Option.Rel (Holds ceiling nodes) (shelf.places.get? place) (ledger.get? place) := by
  obtain ⟨hl, hps⟩ | ⟨l, ps, hl, hps, hholds⟩ := h.holds_or_empty place
  · rw [hl, hps]
    exact .none
  · rw [hl, hps]
    exact .some (hholds.of_entries (hentries l hl))

/-- An action keeps the invariant. -/
theorem Step.accounted (hstep : Step ceiling shelf ledger action after ledger')
    (h : Accounted ceiling shelf ledger) : Accounted ceiling after ledger' := by
  cases hstep with
  | put nodes l ps owned kept holds =>
    refine ⟨owned.of_count fun i => ?_, ?_, fun place => ?_⟩
    · rw [links_put, (List.perm_append_singleton _ _).count_eq]
    · simp [Places.put, h.length]
    · rw [Places.get?_put, Places.get?_put, ← h.length]
      split
      · exact .some holds
      · exact h.holds_of_entries fun l hl => kept _ (first_mem_links hl)
  | vacate nodes place empties intact =>
    refine ⟨intact.owned, ?_, fun place' => ?_⟩
    · simp [Places.vacate, h.length]
    · rw [Places.get?_vacate, Places.get?_vacate]
      split
      · exact .none
      · next hne =>
        refine h.holds_of_entries fun l hl => intact.entries _ ?_
        have hkept : (shelf.places.vacate place).get? place' = some l := by
          rw [Places.get?_vacate, if_neg hne, hl]
        exact first_mem_links hkept
  | same => exact h

theorem accounted_empty (ceiling : Nat) : Accounted ceiling (empty : Shelf δ) [] where
  owned := Nodes.owned_empty nofun
  length := rfl
  holds _ := .none

/-- The invariant holds after all actions. -/
theorem Accounted.run (h : Accounted ceiling shelf ledger) (actions : List (Action δ)) :
    Accounted ceiling (Shelf.run ceiling shelf actions) (ledger.run ceiling actions) := by
  induction actions generalizing shelf ledger with
  | nil => exact h
  | cons action actions ih => exact ih ((h.step action).accounted h)

/-! ## What a shelf shows -/

theorem Accounted.shows (h : Accounted ceiling shelf ledger)
    (hl : shelf.places.get? place = some l) (hholds : Holds ceiling shelf.nodes l ps) :
    Shows ceiling shelf.nodes l ps := by
  have hentries := hholds.entries
  have hlength : (shelf.nodes.entries l.first).length = l.length := by
    rw [hentries, Script.length_ofPrices, hholds.length]
  refine ⟨?_, hlength, ?_, ?_, ?_, ?_⟩
  · rw [hentries]
    exact Script.edits_ofPrices ps
  · intro k entry hentry
    rw [hentries, Script.getElem?_ofPrices, Option.map_eq_some_iff] at hentry
    obtain ⟨p, -, rfl⟩ := hentry
    rfl
  · intro entry hentry
    rw [hentries] at hentry
    exact Nat.le_trans (Script.snd_le_of_mem_ofPrices hentry) hholds.cost
  · rw [Nodes.total_eq, Nodes.script, Script.total]
    cases shelf.nodes.entries l.first <;> rfl
  · have hnil := h.owned.entries_eq_nil_iff (first_mem_links hl)
    rw [← hlength, List.length_eq_zero_iff, hnil, Linked.isEmpty, Option.isNone_iff_eq_none]

theorem Accounted.act_prepend_eq (h : Accounted ceiling shelf ledger)
    (hps : ledger.get? place = some ps) (d : δ) (c : Nat) :
    if c + ownCost ps ≤ ceiling then
      ∃ after, act ceiling (.prepend place d c) shelf = .ok (.filled shelf.places.length) after
    else act ceiling (.prepend place d c) shelf = .error .costOverflow shelf := by
  obtain ⟨-, hnone⟩ | ⟨l, _, hl, hps', hholds⟩ := h.holds_or_empty place
  · rw [hps] at hnone
    cases hnone
  · obtain rfl := Option.some.inj (hps.symm.trans hps')
    rw [act_prepend hl, ← hholds.total]
    split
    · next hle =>
      obtain ⟨l', nodes, heq, -⟩ := Nodes.prepend_spec (d := d) h.owned (first_mem_links hl) hle
      rw [heq]
      exact ⟨_, rfl⟩
    · rw [Nodes.prepend_overflow (by omega)]

theorem Accounted.act_take_eq (h : Accounted ceiling shelf ledger)
    (hl : shelf.places.get? place = some l) :
    ∃ after, act ceiling (.take place) shelf =
      .ok (.edits ((shelf.nodes.entries l.first).map Prod.fst)) after := by
  rw [act_take, remove_some hl, Nodes.takeEdits_edits (h.owned_vacate hl)]
  exact ⟨_, rfl⟩

theorem Accounted.follows (h : Accounted ceiling shelf ledger) :
    Follows ceiling shelf ledger where
  length := h.length
  shows place := by
    obtain ⟨hl, hps⟩ | ⟨l, ps, hl, hps, hholds⟩ := h.holds_or_empty place <;> rw [hl, hps]
    · exact .none
    · exact .some (h.shows hl hholds)
  prepend place d c ps hps := h.act_prepend_eq hps d c
  take place l hl := h.act_take_eq hl
  kept action place l hl hempties := (h.step action).kept hl hempties

/-- **A shelf follows its ledger.** After all actions, each script shows the edits that have been put
in front of one another, with the exact costs of its rests, and no action changes the script of a
place that it does not empty. -/
theorem run_follows (ceiling : Nat) (actions : List (Action δ)) :
    Follows ceiling (run ceiling empty actions) (Ledger.run ceiling [] actions) := by
  have haccounted := (accounted_empty ceiling).run actions
  exact haccounted.follows

/-- Two scripts with a common end: one more edit would cost too much, and the second script stays
when the first one is taken out. -/
theorem run_follows_common_end :
    let shelf : Shelf Nat := run 10 empty
      [.empty, .prepend 0 7 1, .prepend 1 8 1, .prepend 1 9 4]
    act 10 (.prepend 3 8 6) shelf = .error .costOverflow shelf ∧
      (next 10 shelf (.take 2)).nodes.entries (some 2) = [(9, 5), (7, 1)] := by
  intro shelf
  have hfollows := run_follows 10
    [.empty, .prepend 0 7 1, .prepend 1 8 1, .prepend 1 9 4]
  constructor
  · have hprepend := hfollows.prepend 3 8 6 [(9, 4), (7, 1)] (by decide)
    rwa [if_neg (by decide)] at hprepend
  · have hkept := hfollows.kept (.take 2) 3 ⟨some 2, 2⟩ (by decide) (by simp [Action.Empties])
    rw [hkept.2]
    decide +kernel

/-- When all places are empty, no node is left. -/
theorem run_vacant (ceiling : Nat) (actions : List (Action δ))
    (hvacant : ∀ place, (run ceiling empty actions).places.get? place = none) (i : Nat) :
    (run ceiling empty actions).nodes.get? i = none := by
  have haccounted := (accounted_empty ceiling).run actions
  refine haccounted.owned.get?_eq_none (fun j hj => ?_) i
  obtain ⟨place, hmem, hplace⟩ := List.mem_map.1 hj
  obtain ⟨l, rfl, -⟩ := Option.bind_eq_some_iff.1 hplace
  obtain ⟨p, hp⟩ := List.mem_iff_getElem?.1 hmem
  have hl : (run ceiling empty actions).places.get? p = some l := by simp [Places.get?, hp]
  rw [hvacant p] at hl
  cases hl

end Shelf

end TreeDiff
