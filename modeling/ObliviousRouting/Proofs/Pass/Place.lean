import ObliviousRouting.Pass.Roles
import ObliviousRouting.Proofs.BatchSize.Batches
import ObliviousRouting.Proofs.RowBuffer.Rows

/-!
# Placing shares

Shares are written one after the other, each into the row that its target names. No two targets name the
same row, so the order does not matter: a row that is named gets the share of the target that names it,
and all other rows stay as they are.
-/

namespace ObliviousRouting

open Bytes

/-! ### Targets -/

namespace Target

theorem row?_ofRow {i : Nat} (h : i < rowLimit) : (ofRow i).row? = some i := by
  have hword : (UInt32.ofNat i).toNat = i := by
    rw [UInt32.toNat_ofNat', Nat.mod_eq_of_lt]
    simp only [rowLimit] at h
    omega
  rw [row?, if_neg, ofRow, hword]
  intro heq
  have htoNat := congrArg (fun t => t.word.toNat) heq
  simp only [ofRow, hword, discard, rowLimit] at htoNat h
  rw [htoNat] at h
  exact absurd h (by decide)

@[simp] theorem row?_discard : discard.row? = none := rfl

theorem rowLimit_lt_bufferLimit : rowLimit < Size.bufferLimit := by decide

/-- Rows that targets can name can be counted, and cut into batches of any size. -/
theorem lt_limit {n : Nat} (h : n < rowLimit) : n < Size.limit := by
  have hlimit := rowLimit_lt_bufferLimit
  rw [Size.limit_eq]
  omega

theorem fits_of_lt {size : BatchSize} {n : Nat} (h : n < rowLimit) (hbatch : size.rows < Size.limit) :
    size.Fits n :=
  ⟨hbatch, Nat.le_of_lt (Nat.lt_trans h rowLimit_lt_bufferLimit)⟩

theorem distinct_cons {t : Target} {targets : List Target} :
    Distinct (t :: targets) ↔ (∀ d, t.row? = some d → ∀ u ∈ targets, u.row? ≠ some d) ∧
      Distinct targets := by
  cases h : t.row? with
  | none =>
    rw [Distinct, List.filterMap_cons_none h]
    exact ⟨fun hrest => ⟨fun _ hd => (nomatch hd), hrest⟩, And.right⟩
  | some d =>
    rw [Distinct, List.filterMap_cons_some h, List.nodup_cons]
    constructor
    · rintro ⟨hnot, hrest⟩
      refine ⟨fun e he u hu hrow => ?_, hrest⟩
      cases he
      exact hnot (List.mem_filterMap.2 ⟨u, hu, hrow⟩)
    · rintro ⟨hall, hrest⟩
      refine ⟨fun hmem => ?_, hrest⟩
      obtain ⟨u, hu, hrow⟩ := List.mem_filterMap.1 hmem
      exact hall d rfl u hu hrow

theorem Distinct.perm {targets targets' : List Target} (h : Distinct targets)
    (hperm : targets'.Perm targets) : Distinct targets' :=
  (hperm.filterMap row?).nodup_iff.2 h

end Target

namespace Pass

/-- Every target that names a row names one below `rows`. -/
def Within (targets : List Target) (rows : Nat) : Prop :=
  ∀ t ∈ targets, ∀ d, t.row? = some d → d < rows

instance (targets : List Target) (rows : Nat) : Decidable (Within targets rows) :=
  inferInstanceAs (Decidable (∀ t ∈ targets, ∀ d ∈ t.row?, d < rows))

theorem Within.mono {targets targets' : List Target} {rows : Nat} (h : Within targets rows)
    (hsub : targets' ⊆ targets) : Within targets' rows :=
  fun t ht => h t (hsub ht)

theorem checkTargets_eq_ok {targets : List Target} {rows : Nat} (h : Within targets rows) :
    checkTargets targets rows = .ok () := by
  have hnone : ((targets.filterMap Target.row?).find? fun d => rows ≤ d) = none := by
    rw [List.find?_eq_none]
    intro d hd
    obtain ⟨t, ht, hrow⟩ := List.mem_filterMap.1 hd
    have hlt := h t ht d hrow
    simpa using hlt
  rw [checkTargets, hnone]

theorem checkRows_eq_ok {rows : Nat} (h : rows < Target.rowLimit) : checkRows rows = .ok () :=
  if_pos h

/-! ### Placing -/

variable {mode : Mode}

/-- What placing shares makes of the rows of a buffer. -/
def placed (mode : Mode) (rows : List Bytes) : List (Target × Bytes) → List Bytes
  | [] => rows
  | (target, share) :: rest =>
    match target.row? with
    | some d => placed mode (rows.modify d (mode.apply · share)) rest
    | none => placed mode rows rest

@[simp] theorem length_placed (rows : List Bytes) (pairs : List (Target × Bytes)) :
    (placed mode rows pairs).length = rows.length := by
  induction pairs generalizing rows with
  | nil => rfl
  | cons pair pairs ih =>
    obtain ⟨t, share⟩ := pair
    rw [placed]
    split
    · rw [ih, List.length_modify]
    · exact ih rows

/-- A row that no target names stays as it is. -/
theorem placed_of_not_named {rows : List Bytes} {pairs : List (Target × Bytes)} {d : Nat}
    (h : ∀ pair ∈ pairs, pair.1.row? ≠ some d) : (placed mode rows pairs)[d]? = rows[d]? := by
  induction pairs generalizing rows with
  | nil => rfl
  | cons pair pairs ih =>
    obtain ⟨t, share⟩ := pair
    rw [List.forall_mem_cons] at h
    rw [placed]
    split
    · next e he =>
      have hne : e ≠ d := fun heq => h.1 (heq ▸ he)
      rw [ih h.2, List.getElem?_modify_ne _ _ hne]
    · exact ih h.2

/-- A row that one target names gets the share of that target. -/
theorem placed_of_named {rows : List Bytes} {pairs : List (Target × Bytes)} {t : Target}
    {share : Bytes} {d : Nat} (hdist : Target.Distinct (pairs.map Prod.fst))
    (hmem : (t, share) ∈ pairs) (hrow : t.row? = some d) :
    (placed mode rows pairs)[d]? = rows[d]?.map (mode.apply · share) := by
  induction pairs generalizing rows with
  | nil => cases hmem
  | cons pair pairs ih =>
    obtain ⟨u, share'⟩ := pair
    rw [List.map_cons, Target.distinct_cons] at hdist
    rw [placed]
    rcases List.mem_cons.1 hmem with heq | hmem
    · cases heq
      rw [hrow]
      simp only
      rw [placed_of_not_named, List.getElem?_modify_eq, Option.map_eq_map]
      intro pair hpair
      exact hdist.1 d hrow pair.1 (List.mem_map_of_mem hpair)
    · split
      · next e he =>
        have hne : e ≠ d := by
          rintro rfl
          exact hdist.1 e he t (List.mem_map_of_mem (f := Prod.fst) hmem) hrow
        rw [ih hdist.2 hmem, List.getElem?_modify_ne _ _ hne]
      · exact ih hdist.2 hmem

theorem place_append (b : RowBuffer) (pairs pairs' : List (Target × Bytes)) :
    place mode b (pairs ++ pairs') = place mode b pairs >>= fun c => place mode c pairs' := by
  induction pairs generalizing b with
  | nil => rfl
  | cons pair pairs ih =>
    obtain ⟨t, share⟩ := pair
    simp only [List.cons_append, place]
    cases t.row? with
    | none => exact ih b
    | some d =>
      simp only
      cases b.write mode d share with
      | error e => rfl
      | ok c => exact ih c

/-- The buffer that placing shares leaves. -/
def placement (mode : Mode) (b : RowBuffer) (pairs : List (Target × Bytes)) : RowBuffer :=
  match place mode b pairs with
  | .ok c => c
  | .error _ => b

section Placement

variable {b : RowBuffer} {width : Nat} {rows : List Bytes} {pairs : List (Target × Bytes)}

theorem place_eq_ok (mode : Mode) (h : b.Holds width rows) (hwithin : Within (pairs.map Prod.fst) rows.length)
    (hshares : Uniform width (pairs.map Prod.snd)) :
    place mode b pairs = .ok (placement mode b pairs) ∧
      (placement mode b pairs).Holds width (placed mode rows pairs) := by
  suffices hplace : ∃ c, place mode b pairs = .ok c ∧ c.Holds width (placed mode rows pairs) by
    obtain ⟨c, hc, hrows⟩ := hplace
    rw [placement, hc]
    exact ⟨rfl, hrows⟩
  induction pairs generalizing b rows with
  | nil => exact ⟨b, rfl, h⟩
  | cons pair pairs ih =>
    obtain ⟨t, share⟩ := pair
    rw [List.map_cons, Uniform.cons_iff] at hshares
    have hrest : Within (pairs.map Prod.fst) rows.length :=
      hwithin.mono (List.subset_cons_self _ _)
    simp only [place, placed]
    cases hrow : t.row? with
    | none => exact ih h hrest hshares.2
    | some d =>
      have hd : d < rows.length := hwithin t List.mem_cons_self d hrow
      obtain ⟨c, hc, hrows⟩ := h.write mode hd hshares.1
      simp only [hc]
      exact ih hrows (by rwa [List.length_modify]) hshares.2

/-- Placing one batch goes on from what the batches before it have left. -/
theorem place_batch (mode : Mode) (h : b.Holds width rows) (hwithin : Within (pairs.map Prod.fst) rows.length)
    (hshares : Uniform width (pairs.map Prod.snd)) (size : BatchSize) (k : Nat) :
    place mode (placement mode b (pairs.take (k * size.step))) (size.batch pairs k) =
      .ok (placement mode b (pairs.take ((k + 1) * size.step))) := by
  have hupto (n : Nat) : place mode b (pairs.take n) = .ok (placement mode b (pairs.take n)) := by
    apply (place_eq_ok mode h _ _).1
    · exact hwithin.mono (List.map_subset _ (List.take_subset _ _))
    · exact hshares.mono (List.map_subset _ (List.take_subset _ _))
  have hnext := hupto ((k + 1) * size.step)
  rw [BatchSize.take_succ_mul_step, place_append, hupto, ← BatchSize.take_succ_mul_step] at hnext
  exact hnext

/-- A buffer has as many rows after some batches as before. -/
theorem holds_placement_take (mode : Mode) (h : b.Holds width rows)
    (hwithin : Within (pairs.map Prod.fst) rows.length)
    (hshares : Uniform width (pairs.map Prod.snd)) (n : Nat) :
    (placement mode b (pairs.take n)).Holds width (placed mode rows (pairs.take n)) := by
  apply (place_eq_ok mode h _ _).2
  · exact hwithin.mono (List.map_subset _ (List.take_subset _ _))
  · exact hshares.mono (List.map_subset _ (List.take_subset _ _))

end Placement

end Pass

end ObliviousRouting
