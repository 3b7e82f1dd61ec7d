import ObliviousRouting.Proofs.Switching.Logs
import ObliviousRouting.Proofs.Switching.Privacy

/-!
# Where the source rows flow

The owner's rows travel to the helper in the batches of the pass that selects. Where sources may be
repeated, the helper hides its share in the pairs that it offers to the planner and goes on with a fresh
one; where they may not, it passes its share on to the owner when it scatters. Two runs that differ in the
source rows only differ in these batches at most, and one party of each kind of run ends with a share that
has nothing to do with the source rows.
-/

namespace ObliviousRouting

/-- Two logs with the same phases, whose messages differ in some phases at most. -/
def AlikeBut (P : String → Prop) (l l' : List (String × Bytes)) : Prop :=
  List.Forall₂ (fun x y => x.1 = y.1 ∧ (P x.1 ∨ x.2 = y.2)) l l'

namespace AlikeBut

variable {P : String → Prop} {l l' k k' : List (String × Bytes)}

theorem refl (P : String → Prop) (l : List (String × Bytes)) : AlikeBut P l l :=
  List.forall₂_same.2 fun _ _ => ⟨rfl, .inr rfl⟩

theorem of_eq (P : String → Prop) (h : l = l') : AlikeBut P l l' := h ▸ refl P l

theorem append (h : AlikeBut P l l') (h' : AlikeBut P k k') : AlikeBut P (l ++ k) (l' ++ k') :=
  List.rel_append h h'

theorem batchLog {phase : String} (h : P phase) {n n' : Nat} (hn : n = n') (size : BatchSize)
    (message message' : Nat → Bytes) :
    AlikeBut P (batchLog phase n size message) (batchLog phase n' size message') := by
  subst hn
  apply List.forall₂_map_left_iff.2
  apply List.forall₂_map_right_iff.2
  exact List.forall₂_same.2 fun _ _ => ⟨rfl, .inl h⟩

end AlikeBut

namespace Switching.Run

/-- The batches in which something of the source rows travels from one part to another. -/
def CarriesRows (kind : Kind) (a b : Part) (phase : String) : Prop :=
  (a = .owner ∧ b = .helper ∧ phase = "select") ∨
    match kind with
    | .general => a = .helper ∧ b = .planner ∧ phase = "duplicate"
    | .permutation => a = .helper ∧ b = .owner ∧ phase = "scatter"

variable {x : Expansion} {r : Run} {s s₁ s₂ : Setting} {source : RowBuffer} {m₁ m₂ : Mesh}

/-! ### The logs -/

section Logs

variable {data : Storage} {hdvd : r.source.stride ∣ data.size} (h : r.Ready s)
  (h' : (r.withSource ⟨data, r.source.stride, hdvd⟩).Ready s)
include h h'

theorem alike_selectingLog (kind : Kind) (a b : Part) : AlikeBut (CarriesRows kind a b)
    (r.selectingLog x s a b) ((r.withSource ⟨data, r.source.stride, hdvd⟩).selectingLog x s a b) := by
  by_cases hrows : a = .owner ∧ b = .helper
  · obtain ⟨rfl, rfl⟩ := hrows
    exact .batchLog (.inl ⟨rfl, rfl, rfl⟩) (h.length_slots.trans h'.length_slots.symm) _ _ _
  · apply AlikeBut.of_eq
    cases a <;> cases b <;>
      first
      | rfl
      | exact absurd ⟨rfl, rfl⟩ hrows

omit h h' in
theorem alike_copyingLog (kind : Kind) (a b : Part) : AlikeBut (CarriesRows kind a b)
    (r.copyingLog x s kind a b)
    ((r.withSource ⟨data, r.source.stride, hdvd⟩).copyingLog x s kind a b) := by
  cases kind with
  | permutation => exact .refl _ _
  | general =>
    by_cases hrows : a = .helper ∧ b = .planner
    · obtain ⟨rfl, rfl⟩ := hrows
      exact .append (.refl _ _) (.batchLog (.inr ⟨rfl, rfl, rfl⟩) rfl _ _ _)
    · apply AlikeBut.of_eq
      cases a <;> cases b <;>
        first
        | rfl
        | exact absurd ⟨rfl, rfl⟩ hrows

theorem alike_scatteringLog (a b : Part) : AlikeBut (CarriesRows r.kind a b)
    (r.scatteringLog x s a b)
    ((r.withSource ⟨data, r.source.stride, hdvd⟩).scatteringLog x s a b) := by
  have hlength : (r.copied' x s r.kind).length =
      ((r.withSource ⟨data, r.source.stride, hdvd⟩).copied' x s r.kind).length :=
    (h.length_copied' _).trans (h'.length_copied' _).symm
  by_cases hrows : a = .helper ∧ b = .owner
  · obtain ⟨rfl, rfl⟩ := hrows
    cases hkind : r.kind with
    | permutation =>
      have hcarries : CarriesRows .permutation .helper .owner "scatter" := .inr ⟨rfl, rfl, rfl⟩
      exact .batchLog hcarries hlength _ _ _
    | general =>
      -- the helper's share is a fresh one
      apply AlikeBut.of_eq
      simp only [scatteringLog, withSource, hkind]
      rfl
  · apply AlikeBut.of_eq
    cases a <;> cases b <;>
      first
      | rfl
      | exact absurd ⟨rfl, rfl⟩ hrows

theorem alike_log (hsize : (RowBuffer.mk data r.source.stride hdvd).size = r.source.size) (a b : Part) :
    AlikeBut (CarriesRows r.kind a b) (r.log x s a b)
      ((r.withSource ⟨data, r.source.stride, hdvd⟩).log x s a b) := by
  have hshape : r.shape = (r.withSource ⟨data, r.source.stride, hdvd⟩).shape := by
    rw [shape, ← hsize]
    rfl
  refine .append (.of_eq _ ?_) (.append (alike_selectingLog h h' _ a b)
    (.append (alike_copyingLog _ a b) (alike_scatteringLog h h' a b)))
  rw [greetingLog, greetingLog, hshape]

end Logs

/-! ### What is left -/

section Leaves

variable {data : Storage} {hdvd : r.source.stride ∣ data.size} {copied₁ copied₂ : List Bytes}
  (h₁ : r.Leaves x s s₁ copied₁)
  (h₂ : (r.withSource ⟨data, r.source.stride, hdvd⟩).Leaves x s s₂ copied₂)
include h₁ h₂

/-- The owner collects shares that are fresh, if copies may have to be made. -/
theorem Leaves.owner_dest_eq (hkind : r.kind = .general) : s₁.owner.dest = s₂.owner.dest := by
  have hholds₁ := h₁.owner_holds
  have hholds₂ : s₂.owner.dest.Holds r.source.stride (Scatter.ownerRows x (plannerTape s r.kind)
      (r.helperTape x s r.kind) r.plan.group r.mode'
      ((r.withSource ⟨data, r.source.stride, hdvd⟩).copied' x s r.kind) s.owner.dest.toList
      r.source.stride) := h₂.owner_holds
  rw [hkind] at hholds₁ hholds₂
  exact hholds₁.eq hholds₂

/-- The planner is left with masks, if no copies have to be made. -/
theorem Leaves.planner_dest_eq (hkind : r.kind = .permutation) : s₁.planner.dest = s₂.planner.dest := by
  have hmade₁ := h₁.made
  have hmade₂ : (r.withSource ⟨data, r.source.stride, hdvd⟩).Copied x s copied₂ r.kind := h₂.made
  rw [hkind] at hmade₁ hmade₂
  have hcopied : copied₁ = copied₂ := Eq.trans hmade₁ (Eq.symm hmade₂)
  subst hcopied
  exact h₁.planner_holds.eq h₂.planner_holds

end Leaves

/-- With everything else unchanged, other source rows change the batches in which rows travel at most, and
one of the two shares of the routed rows does not depend on them. -/
theorem rows_flow (h : r.Admitted s) (hstride : source.stride = r.source.stride)
    (hsize : source.size = r.source.size) (hrun₁ : r.Succeeds s s₁ m₁)
    (hrun₂ : (r.withSource source).Succeeds s s₂ m₂) :
    (∀ a b : Part, a ≠ b → AlikeBut (CarriesRows r.kind a b)
      (m₁.traffic (r.parties.of a) (r.parties.of b)) (m₂.traffic (r.parties.of a) (r.parties.of b))) ∧
    (r.kind = .general → s₁.owner.dest = s₂.owner.dest) ∧
    (r.kind = .permutation → s₁.planner.dest = s₂.planner.dest) := by
  have h' := h.withSource hstride hsize
  obtain ⟨data, stride, hdvd⟩ := source
  subst hstride
  obtain ⟨hready, -, ⟨copied₁, hleaves₁⟩, -⟩ := hrun₁.leaves h
  obtain ⟨hready', -, ⟨copied₂, hleaves₂⟩, -⟩ := hrun₂.leaves h'
  refine ⟨fun a b hne => ?_, hleaves₁.owner_dest_eq hleaves₂, hleaves₁.planner_dest_eq hleaves₂⟩
  have htraffic₂ : m₂.traffic (r.parties.of a) (r.parties.of b) = _ := hrun₂.traffic_eq h' hne
  rw [hrun₁.traffic_eq h hne, htraffic₂]
  exact alike_log hready hready' hsize a b

/-- Copying one of two other rows leaves the owner with the same share, and exchanging them leaves the
planner with the same one. -/
theorem rows_flow_of_pairs :
    (∃ s₁ s₂ m₁ m₂, copyRun.Succeeds pairSetting s₁ m₁ ∧
      (copyRun.withSource (pair 8 9)).Succeeds pairSetting s₂ m₂ ∧ s₁.owner.dest = s₂.owner.dest ∧
        AlikeBut (CarriesRows .general .helper .planner) (m₁.traffic 2 0) (m₂.traffic 2 0)) ∧
    ∃ s₁ s₂ m₁ m₂, swapRun.Succeeds pairSetting s₁ m₁ ∧
      (swapRun.withSource (pair 8 9)).Succeeds pairSetting s₂ m₂ ∧
        s₁.planner.dest = s₂.planner.dest := by
  have hstride : (pair 8 9).stride = (pair 5 6).stride := rfl
  have hsize : (pair 8 9).size = (pair 5 6).size := rfl
  obtain ⟨s₁, m₁, hcopy₁⟩ := fits_copyRun.succeeds (by decide)
  obtain ⟨s₂, m₂, hcopy₂⟩ := (fits_copyRun.withSource hstride hsize).succeeds (by decide)
  obtain ⟨t₁, n₁, hswap₁⟩ := fits_swapRun.succeeds (by decide)
  obtain ⟨t₂, n₂, hswap₂⟩ := (fits_swapRun.withSource hstride hsize).succeeds (by decide)
  obtain ⟨hlogs, howner, -⟩ := rows_flow fits_copyRun.admitted hstride hsize hcopy₁ hcopy₂
  obtain ⟨-, -, hplanner⟩ := rows_flow fits_swapRun.admitted hstride hsize hswap₁ hswap₂
  exact ⟨⟨s₁, s₂, m₁, m₂, hcopy₁, hcopy₂, howner rfl, hlogs .helper .planner (by decide)⟩,
    ⟨t₁, t₂, n₁, n₂, hswap₁, hswap₂, hplanner rfl⟩⟩

end Switching.Run

end ObliviousRouting
