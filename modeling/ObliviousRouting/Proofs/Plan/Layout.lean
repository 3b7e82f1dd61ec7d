import Mathlib.Data.Finset.Card
import Mathlib.Data.Finset.Dedup
import Mathlib.Data.Finset.Option
import ObliviousRouting.Plan.Layout
import ObliviousRouting.Proofs.Pass.Place
import ObliviousRouting.Proofs.Plan.FreeSlots

/-!
# The targets of a grouped plan

There is a slot for each edge: the groups have their sources, and the edges that repeat a source are no
more than the slots that are no source. No slot is taken twice, so with the slots that are numbered at the
end every row is the target of one slot, and the first edge of a group is reached from its source.
-/

namespace ObliviousRouting

namespace Target

theorem row?_eq_none {t : Target} : t.row? = none ↔ t = discard := by
  rw [row?]
  split
  · next h => exact iff_of_true rfl h
  · next h => exact iff_of_false (Option.some_ne_none _) h

theorem filterMap_set {targets : List Target} {s i : Nat} {t : Target}
    (hs : targets[s]? = some discard) (ht : t.row? = some i) :
    ((targets.set s t).filterMap row?).Perm (i :: targets.filterMap row?) := by
  obtain ⟨hlt, hget⟩ := List.getElem?_eq_some_iff.1 hs
  have hsplit : targets.filterMap row? =
      (targets.take s).filterMap row? ++ (targets.drop (s + 1)).filterMap row? := by
    conv => lhs; rw [← List.take_append_drop s targets, List.drop_eq_getElem_cons hlt, hget]
    rw [List.filterMap_append, List.filterMap_cons_none rfl]
  rw [List.set_eq_take_append_cons_drop, if_pos hlt, List.filterMap_append, List.filterMap_cons_some ht,
    hsplit]
  exact List.perm_middle

theorem count_discard (targets : List Target) :
    (targets.filterMap row?).length + targets.count discard = targets.length := by
  induction targets with
  | nil => rfl
  | cons t targets ih =>
    by_cases ht : t = discard
    · rw [ht, List.filterMap_cons_none rfl, List.count_cons_self, List.length_cons]
      omega
    · obtain ⟨d, hd⟩ := Option.ne_none_iff_exists'.1 (mt row?_eq_none.1 ht)
      rw [List.filterMap_cons_some hd, List.count_cons_of_ne ht, List.length_cons, List.length_cons]
      omega

theorem ofRow_of_row? {t : Target} {d : Nat} (h : t.row? = some d) : ofRow d = t := by
  rw [row?] at h
  split at h
  · cases h
  · cases h
    rw [ofRow, UInt32.ofNat_toNat]

/-- Targets none of which is to be discarded are those of their rows. -/
theorem map_ofRow_filterMap {targets : List Target}
    (h : (targets.filterMap row?).length = targets.length) :
    (targets.filterMap row?).map ofRow = targets := by
  induction targets with
  | nil => rfl
  | cons t targets ih =>
    cases ht : t.row? with
    | none =>
      have hle := List.length_filterMap_le row? targets
      rw [List.filterMap_cons_none ht, List.length_cons] at h
      omega
    | some d =>
      rw [List.filterMap_cons_some ht, List.length_cons, List.length_cons] at h
      rw [List.filterMap_cons_some ht, List.map_cons, ih (Nat.succ_inj.1 h), ofRow_of_row? ht]

theorem ofRow_inj {i j : Nat} (hi : i < rowLimit) (hj : j < rowLimit) (h : ofRow i = ofRow j) : i = j := by
  have hrow := congrArg row? h
  rw [row?_ofRow hi, row?_ofRow hj] at hrow
  exact Option.some.inj hrow

theorem ofRow_ne_discard {i : Nat} (h : i < rowLimit) : ofRow i ≠ discard := by
  intro heq
  have hrow := row?_ofRow h
  rw [heq] at hrow
  cases hrow

theorem nodup_map_ofRow {n : Nat} (h : n < rowLimit) : ((List.range n).map ofRow).Nodup := by
  refine List.nodup_range.map_on fun i hi j hj heq => ?_
  rw [List.mem_range] at hi hj
  exact ofRow_inj (Nat.lt_trans hi h) (Nat.lt_trans hj h) heq

end Target

namespace Plan

open Target

/-! ### The slots of the edges -/

/-- The slot of its source for the first edge of a group, and the next free slot for every further one. -/
def edgeSlots : (previous? : Option Nat) → List Edge → (free : List Nat) → List Nat
  | _, [], _ => []
  | previous?, e :: rest, free =>
    if previous? = some e.source then
      match free with
      | [] => []
      | s :: free => s :: edgeSlots (some e.source) rest free
    else e.source :: edgeSlots (some e.source) rest free

def repeats : (previous? : Option Nat) → List Edge → Nat
  | _, [] => 0
  | previous?, e :: rest =>
    (if previous? = some e.source then 1 else 0) + repeats (some e.source) rest

variable {edges : List Edge} {free : List Nat} {previous? : Option Nat}

theorem le_of_sortedEdges_cons {e : Edge} (h : SortedEdges (e :: edges)) :
    ∀ a ∈ some e.source, ∀ e' ∈ edges, a ≤ e'.source := by
  rintro a ⟨⟩
  exact (List.pairwise_cons.1 h).1

theorem length_edgeSlots (h : repeats previous? edges ≤ free.length) :
    (edgeSlots previous? edges free).length = edges.length := by
  induction edges generalizing previous? free with
  | nil => rfl
  | cons e edges ih =>
    rw [repeats] at h
    simp only [edgeSlots]
    split
    · next heq =>
      rw [if_pos heq] at h
      cases free with
      | nil => rw [List.length_nil] at h; omega
      | cons s free =>
        rw [List.length_cons] at h
        rw [List.length_cons, List.length_cons, ih (by omega)]
    · next hne =>
      rw [if_neg hne] at h
      rw [List.length_cons, List.length_cons, ih (by omega)]

/-- Slots are free slots, or sources of groups that are still to come. -/
theorem mem_edgeSlots {x : Nat} (hsorted : SortedEdges edges)
    (hprevious : ∀ a ∈ previous?, ∀ e ∈ edges, a ≤ e.source)
    (hx : x ∈ edgeSlots previous? edges free) :
    x ∈ free ∨ x ∈ edges.map Edge.source ∧ ∀ a ∈ previous?, a < x := by
  induction edges generalizing previous? free with
  | nil => cases hx
  | cons e edges ih =>
    have hnext := le_of_sortedEdges_cons hsorted
    simp only [edgeSlots] at hx
    split at hx
    · next heq =>
      cases free with
      | nil => cases hx
      | cons s free =>
        rcases List.mem_cons.1 hx with rfl | hx
        · exact .inl List.mem_cons_self
        · rcases ih hsorted.of_cons hnext hx with hfree | ⟨hsource, hlt⟩
          · exact .inl (List.mem_cons_of_mem _ hfree)
          · refine .inr ⟨List.mem_cons_of_mem _ hsource, fun a ha => ?_⟩
            rw [heq] at ha
            exact hlt a ha
    · next hne =>
      have hbefore : ∀ a ∈ previous?, a < e.source := by
        rintro a ⟨⟩
        exact Nat.lt_of_le_of_ne (hprevious a rfl e List.mem_cons_self) fun heq => hne (heq ▸ rfl)
      rcases List.mem_cons.1 hx with rfl | hx
      · exact .inr ⟨List.mem_cons_self, hbefore⟩
      · refine (ih hsorted.of_cons hnext hx).imp_right fun ⟨hsource, hlt⟩ => ?_
        exact ⟨List.mem_cons_of_mem _ hsource,
          fun a ha => Nat.lt_trans (hbefore a ha) (hlt e.source rfl)⟩

theorem nodup_edgeSlots (hsorted : SortedEdges edges)
    (hprevious : ∀ a ∈ previous?, ∀ e ∈ edges, a ≤ e.source) (hfree : free.Nodup)
    (hdisjoint : ∀ s ∈ free, s ∉ edges.map Edge.source) : (edgeSlots previous? edges free).Nodup := by
  induction edges generalizing previous? free with
  | nil => exact List.nodup_nil
  | cons e edges ih =>
    have hnext := le_of_sortedEdges_cons hsorted
    have hrest {l : List Nat} (hl : l ⊆ free) : ∀ s ∈ l, s ∉ edges.map Edge.source :=
      fun s hs hin => hdisjoint s (hl hs) (List.mem_cons_of_mem _ hin)
    simp only [edgeSlots]
    split
    · cases free with
      | nil => exact List.nodup_nil
      | cons s free =>
        have hsub := List.subset_cons_self s free
        rw [List.nodup_cons] at hfree ⊢
        refine ⟨fun hin => ?_, ih hsorted.of_cons hnext hfree.2 (hrest hsub)⟩
        rcases mem_edgeSlots hsorted.of_cons hnext hin with hin | ⟨hin, -⟩
        · exact hfree.1 hin
        · exact hdisjoint s List.mem_cons_self (List.mem_cons_of_mem _ hin)
    · rw [List.nodup_cons]
      refine ⟨fun hin => ?_, ih hsorted.of_cons hnext hfree (hrest (List.Subset.refl free))⟩
      rcases mem_edgeSlots hsorted.of_cons hnext hin with hin | ⟨-, hlt⟩
      · exact hdisjoint _ hin List.mem_cons_self
      · exact absurd (hlt e.source rfl) (Nat.lt_irrefl _)

/-- The source of the edge before edge `k`. -/
def sourceBefore? (previous? : Option Nat) (edges : List Edge) : Nat → Option Nat
  | 0 => previous?
  | k + 1 => (edges[k]?).map Edge.source

/-- The first edge of a group has the slot of its source. -/
theorem getElem?_edgeSlots (h : repeats previous? edges ≤ free.length) {k : Nat} {e : Edge}
    (he : edges[k]? = some e) (hfirst : sourceBefore? previous? edges k ≠ some e.source) :
    (edgeSlots previous? edges free)[k]? = some e.source := by
  induction edges generalizing previous? free k with
  | nil => cases he
  | cons e' edges ih =>
    rw [repeats] at h
    cases k with
    | zero =>
      rw [List.getElem?_cons_zero, Option.some.injEq] at he
      subst he
      rw [sourceBefore?] at hfirst
      simp only [edgeSlots]
      rw [if_neg hfirst, List.getElem?_cons_zero]
    | succ k =>
      rw [List.getElem?_cons_succ] at he
      have hfirst' : sourceBefore? (some e'.source) edges k ≠ some e.source := by
        cases k with
        | zero => exact hfirst
        | succ k => exact hfirst
      simp only [edgeSlots]
      split
      · next heq =>
        rw [if_pos heq] at h
        cases free with
        | nil => rw [List.length_nil] at h; omega
        | cons s free =>
          rw [List.length_cons] at h
          exact ih (by omega) he hfirst'
      · next hne =>
        rw [if_neg hne] at h
        exact ih (by omega) he hfirst'

/-! ### Enough slots -/

theorem repeats_add_card_le (previous? : Option Nat) (edges : List Edge) :
    repeats previous? edges + ((edges.map Edge.source).toFinset \ previous?.toFinset).card ≤
      edges.length := by
  induction edges generalizing previous? with
  | nil => simp [repeats]
  | cons e edges ih =>
    have hrest := ih (some e.source)
    rw [repeats, List.map_cons, List.toFinset_cons, List.length_cons]
    generalize (edges.map Edge.source).toFinset = sources at hrest ⊢
    rw [Option.toFinset_some] at hrest
    split
    · next heq =>
      have hsub : insert e.source sources \ previous?.toFinset ⊆ sources \ {e.source} := by
        rw [heq, Option.toFinset_some]
        intro s hs
        simp only [Finset.mem_sdiff, Finset.mem_insert, Finset.mem_singleton] at hs ⊢
        exact ⟨hs.1.resolve_left hs.2, hs.2⟩
      have hcard := Finset.card_le_card hsub
      omega
    · have hsub : insert e.source sources \ previous?.toFinset ⊆
          insert e.source (sources \ {e.source}) := by
        intro s hs
        simp only [Finset.mem_sdiff, Finset.mem_insert, Finset.mem_singleton] at hs ⊢
        by_cases heq : s = e.source
        · exact .inl heq
        · exact .inr ⟨hs.1.resolve_left heq, heq⟩
      have hcard := Nat.le_trans (Finset.card_le_card hsub) (Finset.card_insert_le _ _)
      omega

/-- The slots that are no source are enough for the edges that repeat one. -/
theorem repeats_le (edges : List Edge) {bound : Nat} (hbound : edges.length ≤ bound) :
    repeats none edges ≤ (freeSlots edges 0 bound).length := by
  have hcount := repeats_add_card_le none edges
  rw [Option.toFinset_none, Finset.sdiff_empty] at hcount
  have htaken : ((List.range' 0 (bound - 0)).filter fun s => s ∈ edges.map Edge.source).length ≤
      (edges.map Edge.source).toFinset.card := by
    rw [← List.toFinset_card_of_nodup (List.Nodup.filter _ List.nodup_range')]
    apply Finset.card_le_card
    intro s hs
    rw [List.mem_toFinset, List.mem_filter, decide_eq_true_eq] at hs
    rw [List.mem_toFinset]
    exact hs.2
  have hsplit := List.length_eq_length_filter_add (l := List.range' 0 (bound - 0))
    (fun s => decide (s ∈ edges.map Edge.source))
  simp only [← decide_not] at hsplit
  rw [← freeSlots, List.length_range'] at hsplit
  omega

/-! ### Handing out targets -/

/-- Gives the slots the rows from number `i` on. -/
def assign (i : Nat) : (slots : List Nat) → List Target → List Target
  | [], targets => targets
  | s :: slots, targets => assign (i + 1) slots (targets.set s (.ofRow i))

section Assign

variable {slots : List Nat} {targets : List Target} {i : Nat}

@[simp] theorem length_assign (i : Nat) (slots : List Nat) (targets : List Target) :
    (assign i slots targets).length = targets.length := by
  induction slots generalizing i targets with
  | nil => rfl
  | cons s slots ih => rw [assign, ih, List.length_set]

theorem getElem?_assign_of_not_mem {s : Nat} (h : s ∉ slots) :
    (assign i slots targets)[s]? = targets[s]? := by
  induction slots generalizing i targets with
  | nil => rfl
  | cons s' slots ih =>
    rw [List.mem_cons, not_or] at h
    rw [assign, ih h.2, List.getElem?_set_ne (Ne.symm h.1)]

theorem getElem?_assign (hnodup : slots.Nodup) {k s : Nat} (hk : slots[k]? = some s)
    (hs : s < targets.length) : (assign i slots targets)[s]? = some (.ofRow (i + k)) := by
  induction slots generalizing i k targets with
  | nil => cases hk
  | cons s' slots ih =>
    rw [List.nodup_cons] at hnodup
    rw [assign]
    cases k with
    | zero =>
      rw [List.getElem?_cons_zero, Option.some.injEq] at hk
      subst hk
      rw [getElem?_assign_of_not_mem hnodup.1, List.getElem?_set_self hs, Nat.add_zero]
    | succ k =>
      rw [List.getElem?_cons_succ] at hk
      rw [ih hnodup.2 hk (by rwa [List.length_set]), Nat.add_assoc, Nat.add_comm 1]

theorem filterMap_assign (hnodup : slots.Nodup) (hlt : i + slots.length ≤ Target.rowLimit)
    (hfree : ∀ s ∈ slots, targets[s]? = some .discard) :
    ((assign i slots targets).filterMap row?).Perm
      (List.range' i slots.length ++ targets.filterMap row?) := by
  induction slots generalizing i targets with
  | nil => exact .refl _
  | cons s slots ih =>
    rw [List.nodup_cons] at hnodup
    rw [List.forall_mem_cons] at hfree
    rw [List.length_cons] at hlt ⊢
    have hrest : ∀ s' ∈ slots, (targets.set s (.ofRow i))[s']? = some .discard := by
      intro s' hs'
      have hne : s ≠ s' := fun heq => hnodup.1 (heq ▸ hs')
      rw [List.getElem?_set_ne hne]
      exact hfree.2 s' hs'
    have hset := filterMap_set hfree.1 (row?_ofRow (i := i) (by omega))
    rw [assign, List.range'_succ]
    exact (ih hnodup.2 (by omega) hrest).trans ((hset.append_left _).trans List.perm_middle)

@[simp] theorem length_numberRest (i : Nat) (targets : List Target) :
    (numberRest i targets).length = targets.length := by
  induction targets generalizing i with
  | nil => rfl
  | cons t targets ih =>
    rw [numberRest]
    split <;> rw [List.length_cons, ih, List.length_cons]

theorem getElem?_numberRest {s : Nat} {t : Target} (hs : targets[s]? = some t) (ht : t ≠ .discard) :
    (numberRest i targets)[s]? = some t := by
  induction targets generalizing i s with
  | nil => cases hs
  | cons u targets ih =>
    rw [numberRest]
    cases s with
    | zero =>
      rw [List.getElem?_cons_zero, Option.some.injEq] at hs
      subst hs
      rw [if_neg ht, List.getElem?_cons_zero]
    | succ s =>
      rw [List.getElem?_cons_succ] at hs
      split <;> rw [List.getElem?_cons_succ, ih hs]

theorem filterMap_numberRest (targets : List Target)
    (hlt : i + targets.count .discard ≤ Target.rowLimit) :
    ((numberRest i targets).filterMap row?).Perm
      (targets.filterMap row? ++ List.range' i (targets.count .discard)) := by
  induction targets generalizing i with
  | nil => exact .refl _
  | cons t targets ih =>
    rw [numberRest]
    by_cases ht : t = .discard
    · subst ht
      rw [List.count_cons_self] at hlt ⊢
      rw [if_pos rfl, List.filterMap_cons_some (row?_ofRow (i := i) (by omega)),
        List.filterMap_cons_none rfl, List.range'_succ]
      exact ((ih (by omega)).cons i).trans List.perm_middle.symm
    · obtain ⟨d, hd⟩ := Option.ne_none_iff_exists'.1 (mt row?_eq_none.1 ht)
      rw [List.count_cons_of_ne ht] at hlt ⊢
      rw [if_neg ht, List.filterMap_cons_some hd, List.filterMap_cons_some hd, List.cons_append]
      exact (ih hlt).cons d

end Assign

/-! ### The targets of the source slots -/

/-- What a plan answers when it is asked for a free slot. -/
def slotAnswer : Option Nat → Except PlanError Nat
  | some s => .ok s
  | none => .error .noFreeSlot

/-- The search of a plan gives the next free slot, if there is one. -/
theorem nextFree_eq {p : Plan} (hsorted : SortedEdges p.edges) (hpassed : p.cursor.Passed p.edges)
    (hlimit : p.selectRows ≤ indexLimit) :
    ∃ cursor, p.nextFree =
        (slotAnswer (freeSlots p.edges p.cursor.slot p.selectRows).head?, { p with cursor }) ∧
      cursor.Passed p.edges ∧
      freeSlots p.edges cursor.slot p.selectRows = (freeSlots p.edges p.cursor.slot p.selectRows).tail := by
  obtain ⟨hslot, hpassed', hrest⟩ := SlotCursor.next_spec hsorted p.selectRows hpassed
  refine ⟨(p.cursor.next p.edges p.selectRows).2, ?_, hpassed', hrest⟩
  cases hfree : freeSlots p.edges p.cursor.slot p.selectRows with
  | nil =>
    rw [hfree] at hslot
    simp only [nextFree, hslot, List.head?_nil, slotAnswer]
  | cons s free =>
    have hmem : s ∈ freeSlots p.edges p.cursor.slot p.selectRows := hfree ▸ List.mem_cons_self
    have hlt : s < indexLimit := Nat.lt_of_lt_of_le (mem_freeSlots.1 hmem).1.2 hlimit
    rw [hfree] at hslot
    simp only [nextFree, hslot, List.head?_cons, if_pos hlt, slotAnswer]

theorem assignSlots_eq {p : Plan} (i : Nat) (previous? : Option Nat) (targets : List Target)
    (hsorted : SortedEdges p.edges) (hpassed : p.cursor.Passed p.edges)
    (hlimit : p.selectRows ≤ indexLimit) (hlength : targets.length = p.selectRows)
    (hsources : ∀ e ∈ edges, e.source < p.selectRows)
    (henough : repeats previous? edges ≤ (freeSlots p.edges p.cursor.slot p.selectRows).length) :
    ∃ cursor, assignSlots edges i previous? p targets =
      .ok (assign i (edgeSlots previous? edges (freeSlots p.edges p.cursor.slot p.selectRows)) targets,
        { p with cursor }) := by
  induction edges generalizing i previous? p targets with
  | nil => exact ⟨p.cursor, rfl⟩
  | cons e edges ih =>
    rw [List.forall_mem_cons] at hsources
    rw [repeats] at henough
    simp only [assignSlots, edgeSlots]
    split
    · next heq =>
      rw [if_pos heq] at henough
      cases hfree : freeSlots p.edges p.cursor.slot p.selectRows with
      | nil =>
        rw [hfree, List.length_nil] at henough
        omega
      | cons s free =>
        rw [hfree, List.length_cons] at henough
        obtain ⟨cursor, hnext, hpassed', hrest⟩ := nextFree_eq hsorted hpassed hlimit
        rw [hfree] at hnext hrest
        change freeSlots ({ p with cursor } : Plan).edges ({ p with cursor } : Plan).cursor.slot
          ({ p with cursor } : Plan).selectRows = free at hrest
        have hmem : s ∈ freeSlots p.edges p.cursor.slot p.selectRows := hfree ▸ List.mem_cons_self
        have hlt : s < targets.length := hlength ▸ (mem_freeSlots.1 hmem).1.2
        obtain ⟨cursor', hassign⟩ := ih (p := { p with cursor }) (i + 1) (some e.source)
          (targets.set s (.ofRow i)) hsorted hpassed' hlimit
          (by rw [List.length_set, hlength]; rfl) hsources.2 (by rw [hrest]; omega)
        rw [hrest] at hassign
        rw [hnext]
        exact ⟨cursor', (if_pos hlt).trans hassign⟩
    · next hne =>
      rw [if_neg hne] at henough
      have hlt : e.source < targets.length := hlength ▸ hsources.1
      obtain ⟨cursor', hassign⟩ := ih (i + 1) (some e.source)
        (targets.set e.source (.ofRow i)) hsorted hpassed hlimit
        (by rw [List.length_set, hlength]) hsources.2 (by omega)
      exact ⟨cursor', (if_pos hlt).trans hassign⟩

/-- Handing out targets does not change how many slots there are. -/
theorem length_of_assignSlots {p q : Plan} {i : Nat} {targets targets' : List Target}
    (h : assignSlots edges i previous? p targets = .ok (targets', q)) : targets'.length = targets.length := by
  induction edges generalizing i previous? p targets with
  | nil =>
    cases h
    rfl
  | cons e edges ih =>
    simp only [assignSlots] at h
    generalize (if previous? = some e.source then p.nextFree else (.ok e.source, p)) = found at h
    obtain ⟨answer, p'⟩ := found
    cases answer with
    | error e => cases h
    | ok slot =>
      change (if slot < targets.length then _ else _) = _ at h
      split at h
      · rw [ih h, List.length_set]
      · cases h

theorem length_of_selectTargets {p q : Plan} {targets : List Target}
    (h : p.selectTargets = .ok (targets, q)) : targets.length = p.selectRows := by
  rw [selectTargets] at h
  cases hassign : assignSlots p.edges 0 none p.rewind (List.replicate p.selectRows .discard) with
  | error stop =>
    rw [hassign] at h
    cases h
  | ok assigned =>
    rw [hassign] at h
    cases h
    rw [length_numberRest, length_of_assignSlots hassign, List.length_replicate]

section Spec

variable {p : Plan}

/-- The slots that the edges of a plan take if none has been taken before. -/
abbrev slots (p : Plan) : List Nat := edgeSlots none p.edges (freeSlots p.edges 0 p.selectRows)

theorem length_edges_le (p : Plan) : p.edges.length ≤ p.selectRows := Nat.le_max_right ..

/-- There are free slots for all edges that repeat a source. -/
theorem repeats_le_length_freeSlots (p : Plan) :
    repeats none p.edges ≤ (freeSlots p.edges 0 p.selectRows).length :=
  repeats_le p.edges p.length_edges_le

theorem length_slots (p : Plan) : p.slots.length = p.edges.length :=
  length_edgeSlots p.repeats_le_length_freeSlots

theorem nodup_slots (hsorted : SortedEdges p.edges) : p.slots.Nodup := by
  have hnone : ∀ a ∈ (none : Option Nat), ∀ e ∈ p.edges, a ≤ e.source := fun a ha => nomatch ha
  exact nodup_edgeSlots hsorted hnone nodup_freeSlots fun s hs => (mem_freeSlots.1 hs).2

theorem lt_of_mem_slots (hsorted : SortedEdges p.edges) (hsources : ∀ e ∈ p.edges, e.source < p.sourceRows)
    {s : Nat} (hs : s ∈ p.slots) : s < p.selectRows := by
  have hnone : ∀ a ∈ (none : Option Nat), ∀ e ∈ p.edges, a ≤ e.source := fun a ha => nomatch ha
  rcases mem_edgeSlots hsorted hnone hs with hfree | ⟨hsource, -⟩
  · exact (mem_freeSlots.1 hfree).1.2
  · obtain ⟨e, he, rfl⟩ := List.mem_map.1 hsource
    exact Nat.lt_of_lt_of_le (hsources e he) (Nat.le_max_left ..)

/-- An edge that does not repeat a source takes the slot of its source. -/
theorem getElem?_slots {i : Nat} {e : Edge} (he : p.edges[i]? = some e) (hfirst : ¬ p.RepeatsAt i) :
    p.slots[i]? = some e.source := by
  apply getElem?_edgeSlots p.repeats_le_length_freeSlots he
  cases i with
  | zero => exact fun h => nomatch h
  | succ i =>
    intro heq
    apply hfirst
    obtain ⟨hi, -⟩ := List.getElem?_eq_some_iff.1 he
    refine ⟨Nat.succ_pos i, hi, ?_⟩
    rw [sourceAt?, sourceAt?, he]
    exact heq

/-- Slots that got the first rows hold these and nothing else. -/
theorem filterMap_assign_blank {slots : List Nat} {count : Nat} (hnodup : slots.Nodup)
    (hbelow : ∀ s ∈ slots, s < count) (hlimit : slots.length ≤ Target.rowLimit) :
    ((assign 0 slots (List.replicate count .discard)).filterMap row?).Perm
      (List.range' 0 slots.length) := by
  have hrows := filterMap_assign (i := 0) hnodup
    (by omega) fun s hs => by rw [List.getElem?_replicate, if_pos (hbelow s hs)]
  have hblank : (List.replicate count Target.discard).filterMap row? = [] := by
    rw [List.filterMap_replicate_of_none row?_discard]
  rwa [hblank, List.append_nil] at hrows

theorem count_assign {slots : List Nat} {count : Nat} (hnodup : slots.Nodup)
    (hbelow : ∀ s ∈ slots, s < count) (hlimit : slots.length ≤ Target.rowLimit) :
    slots.length + (assign 0 slots (List.replicate count .discard)).count .discard = count := by
  have hcount := count_discard (assign 0 slots (List.replicate count .discard))
  rwa [(filterMap_assign_blank hnodup hbelow hlimit).length_eq, List.length_range', length_assign,
    List.length_replicate] at hcount

/-- Slots that got the first rows, and then all others, are the slots of all rows. -/
theorem filterMap_numberRest_assign {slots : List Nat} {count : Nat} (hnodup : slots.Nodup)
    (hbelow : ∀ s ∈ slots, s < count) (hle : slots.length ≤ count) (hlimit : count ≤ Target.rowLimit) :
    ((numberRest slots.length (assign 0 slots (List.replicate count .discard))).filterMap row?).Perm
      (List.range count) := by
  have hrows := filterMap_assign_blank hnodup hbelow (Nat.le_trans hle hlimit)
  have hcount := count_assign hnodup hbelow (Nat.le_trans hle hlimit)
  have hrest := filterMap_numberRest (i := slots.length)
    (assign 0 slots (List.replicate count .discard)) (by omega)
  have hall (n : Nat) (hn : slots.length + n = count) :
      List.range' 0 slots.length ++ List.range' slots.length n = List.range count := by
    rw [List.range_eq_range', ← hn, ← List.range'_append_1, Nat.zero_add]
  rw [← hall _ hcount]
  exact hrest.trans (hrows.append_right _)

/-- The targets of all slots: the edges give theirs to their slots, and the rest is numbered on. -/
def slotTargets (p : Plan) : List Target :=
  numberRest p.edges.length (assign 0 (edgeSlots none p.edges (freeSlots p.edges 0 p.selectRows))
    (List.replicate p.selectRows .discard))

@[simp] theorem length_slotTargets (p : Plan) : p.slotTargets.length = p.selectRows := by
  rw [slotTargets, length_numberRest, length_assign, List.length_replicate]

theorem selectTargets_eq (hsorted : SortedEdges p.edges)
    (hsources : ∀ e ∈ p.edges, e.source < p.sourceRows) (hlimit : p.selectRows ≤ indexLimit) :
    ∃ cursor, p.selectTargets = .ok (p.slotTargets, { p with cursor }) := by
  have hsources' : ∀ e ∈ p.edges, e.source < p.selectRows :=
    fun e he => Nat.lt_of_lt_of_le (hsources e he) (Nat.le_max_left ..)
  obtain ⟨cursor, hassign⟩ := assignSlots_eq (p := p.rewind) 0 none
    (List.replicate p.selectRows .discard) hsorted (SlotCursor.passed_start _) hlimit
    (List.length_replicate ..) hsources' p.repeats_le_length_freeSlots
  change assignSlots p.edges 0 none p.rewind (List.replicate p.selectRows .discard) =
    .ok (assign 0 p.slots (List.replicate p.selectRows .discard), { p with cursor }) at hassign
  refine ⟨cursor, ?_⟩
  simp only [selectTargets, hassign]
  rfl

theorem filterMap_slotTargets (hsorted : SortedEdges p.edges)
    (hsources : ∀ e ∈ p.edges, e.source < p.sourceRows) (hlimit : p.selectRows ≤ Target.rowLimit) :
    (p.slotTargets.filterMap row?).Perm (List.range p.selectRows) := by
  have hlength := p.length_slots
  rw [slotTargets, ← hlength]
  exact filterMap_numberRest_assign (nodup_slots hsorted) (fun s => lt_of_mem_slots hsorted hsources)
    (hlength.trans_le p.length_edges_le) hlimit

/-- An edge is the target of its slot. -/
theorem getElem?_slotTargets (hsorted : SortedEdges p.edges)
    (hsources : ∀ e ∈ p.edges, e.source < p.sourceRows) (hlimit : p.selectRows ≤ Target.rowLimit) {i s : Nat}
    (hi : p.slots[i]? = some s) : p.slotTargets[s]? = some (.ofRow i) := by
  have hedges := p.length_edges_le
  have hs : s < p.selectRows := lt_of_mem_slots hsorted hsources (List.mem_of_getElem? hi)
  have htarget : (assign 0 p.slots (List.replicate p.selectRows .discard))[s]? = some (.ofRow (0 + i)) :=
    getElem?_assign (nodup_slots hsorted) hi (by rwa [List.length_replicate])
  rw [Nat.zero_add] at htarget
  obtain ⟨hlt, -⟩ := List.getElem?_eq_some_iff.1 hi
  rw [length_slots] at hlt
  exact getElem?_numberRest htarget (ofRow_ne_discard (by omega))

/-- Every row is the target of one slot, and the first edge of a group is that of its source. -/
theorem selectTargets_spec (hsorted : SortedEdges p.edges)
    (hsources : ∀ e ∈ p.edges, e.source < p.sourceRows) (hlt : p.selectRows < Target.rowLimit) :
    ∃ targets cursor, p.selectTargets = .ok (targets, { p with cursor }) ∧
      targets.length = p.selectRows ∧ (targets.filterMap row?).Perm (List.range p.selectRows) ∧
      ∀ i e, p.edges[i]? = some e → ¬ p.RepeatsAt i → targets[e.source]? = some (.ofRow i) := by
  obtain ⟨cursor, hselect⟩ := selectTargets_eq hsorted hsources (Nat.le_of_lt (Nat.lt_trans hlt (by decide)))
  refine ⟨p.slotTargets, cursor, hselect, length_slotTargets p,
    filterMap_slotTargets hsorted hsources (Nat.le_of_lt hlt), fun i e he hnot => ?_⟩
  exact getElem?_slotTargets hsorted hsources (Nat.le_of_lt hlt) (getElem?_slots he hnot)

end Spec

end Plan

end ObliviousRouting
