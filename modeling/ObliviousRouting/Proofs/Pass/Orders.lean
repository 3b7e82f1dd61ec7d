import Mathlib.MeasureTheory.Constructions.Pi
import Mathlib.Probability.Distributions.Uniform
import ObliviousRouting.Proofs.Keystream.Lawful
import ObliviousRouting.Proofs.Pass.Hiding

/-!
# Every order is equally likely

Each position is exchanged with itself or with a later one, up to the end of the whole list and not only of
its batch. So there are as many ways to draw as there are orders, and each order comes of exactly one of them:
independent draws that are uniform make the order uniform. Cutting the exchanges into batches changes nothing,
and a batch that has had its turn stays where it is, so what is sent of it is what the order says in the end.
-/

namespace ObliviousRouting

open MeasureTheory
open scoped ENNReal

/-- For each position of a list of `n`, that position or a later one. -/
abbrev Draws (n : Nat) := (i : Fin n) → {j : Fin n // i ≤ j}

namespace Draws

variable {n : Nat}

def partners (d : Draws n) : List Nat := List.ofFn fun i => (d i : Fin n).val

theorem length_partners (d : Draws n) : d.partners.length = n := List.length_ofFn

theorem admissible_iff {i : Nat} {partners : List Nat} : Admissible n i partners ↔
    ∀ k (hk : k < partners.length), i + k ≤ partners[k] ∧ partners[k] < n := by
  induction partners generalizing i with
  | nil => simp [Admissible]
  | cons j partners ih =>
    rw [Admissible, ih]
    constructor
    · rintro ⟨hfirst, hrest⟩ (_ | k) hk
      · exact hfirst
      · have hnext := hrest k (Nat.lt_of_succ_lt_succ hk)
        rw [List.getElem_cons_succ]
        omega
    · intro h
      refine ⟨h 0 (Nat.zero_lt_succ _), fun k hk => ?_⟩
      have hnext := h (k + 1) (Nat.succ_lt_succ hk)
      rw [List.getElem_cons_succ] at hnext
      omega

theorem admissible_partners (d : Draws n) : Admissible n 0 d.partners := by
  rw [admissible_iff]
  intro k hk
  have hpartner : d.partners[k] = (d ⟨k, d.length_partners ▸ hk⟩ : Fin n) := List.getElem_ofFn ..
  rw [hpartner, Nat.zero_add]
  exact ⟨(d ⟨k, _⟩).2, (d _).1.2⟩

theorem partners_injective : Function.Injective (partners (n := n)) := by
  intro d d' h
  funext i
  exact Subtype.ext (Fin.ext (congrFun (List.ofFn_injective h) i))

theorem exists_partners_eq {partners : List Nat} (hlength : partners.length = n)
    (hadm : Admissible n 0 partners) : ∃ d : Draws n, d.partners = partners := by
  subst hlength
  rw [admissible_iff] at hadm
  have hbounds (i : Fin partners.length) := hadm i i.2
  simp only [Nat.zero_add] at hbounds
  exact ⟨fun i => ⟨⟨partners[i], (hbounds i).2⟩, (hbounds i).1⟩, List.ofFn_getElem⟩

/-! ### Orders -/

theorem existsUnique_order {l : List (Fin n)} (h : l.Perm (List.finRange n)) :
    ∃! order : Equiv.Perm (Fin n), List.ofFn order = l := by
  have hlength : l.length = n := h.length_eq.trans (List.length_finRange ..)
  obtain ⟨f, rfl⟩ : ∃ f : Fin n → Fin n, List.ofFn f = l := by
    refine ⟨fun i => l[i], List.ext_getElem (by rw [List.length_ofFn, hlength]) fun k hk hk' => ?_⟩
    rw [List.getElem_ofFn]
    rfl
  have hinj : Function.Injective f := List.nodup_ofFn.1 (h.nodup_iff.2 (List.nodup_finRange n))
  refine ⟨.ofBijective f (Finite.injective_iff_bijective.1 hinj), rfl, fun order horder => ?_⟩
  exact Equiv.ext (congrFun (List.ofFn_injective horder))

/-- The places of a list of `n`, as they are before they are exchanged. -/
def places (n : Nat) : Array (Fin n) := (List.finRange n).toArray

theorem size_places (n : Nat) : (places n).size = n := by
  rw [places, List.size_toArray, List.length_finRange]

/-- The draws of a shuffle correspond to the orders that it leaves. -/
theorem exists_equiv_orders (n : Nat) : ∃ order : Draws n ≃ Equiv.Perm (Fin n),
    ∀ d, exchangeAll (places n) 0 d.partners = .ok (List.ofFn (order d)).toArray := by
  apply exists_equiv_of_existsUnique
    (r := fun (d : Draws n) (order : Equiv.Perm (Fin n)) =>
      exchangeAll (places n) 0 d.partners = .ok (List.ofFn order).toArray)
  · intro d
    have hadm : Admissible (places n).size 0 d.partners := by
      rw [size_places]
      exact d.admissible_partners
    obtain ⟨ys, hys, hperm, -⟩ := exists_exchangeAll (places n) hadm
    obtain ⟨order, horder, honly⟩ := existsUnique_order hperm.toList
    refine ⟨order, hys.trans (by rw [horder]), fun order' horder' => honly order' ?_⟩
    rw [hys] at horder'
    rw [Except.ok.inj horder']
  · intro order
    have hperm : (List.ofFn order).Perm (List.finRange n) := by
      rw [List.ofFn_eq_map]
      exact order.map_finRange_perm
    have hnodup : (places n).toList.Nodup := List.nodup_finRange n
    obtain ⟨partners, ⟨⟨hlength, hadm⟩, hall⟩, honly⟩ := existsUnique_exchangeAll (Nat.zero_le _) hnodup
      (List.perm_iff_toArray_perm.1 hperm) fun _ hk => absurd hk (Nat.not_lt_zero _)
    rw [size_places] at hlength hadm honly
    obtain ⟨d, rfl⟩ := exists_partners_eq hlength hadm
    exact ⟨d, hall, fun d' hd' =>
      partners_injective (honly d'.partners ⟨⟨d'.length_partners, d'.admissible_partners⟩, hd'⟩)⟩

/-! ### Draws at random -/

/-- Independent draws, each of them uniform. -/
noncomputable def uniform (n : Nat) : Measure (Draws n) :=
  .pi fun i => (PMF.uniformOfFintype {j : Fin n // i ≤ j}).toMeasure

theorem uniform_singleton (d : Draws n) : uniform n {d} = (Fintype.card (Draws n) : ℝ≥0∞)⁻¹ := by
  rw [uniform, Measure.pi_singleton, Fintype.card_pi, Nat.cast_prod, ENNReal.prod_inv_distrib]
  · apply Finset.prod_congr rfl
    intro i _
    rw [PMF.toMeasure_apply_singleton _ _ (measurableSet_singleton _), PMF.uniformOfFintype_apply]
  · exact fun i _ j _ _ => .inr (ENNReal.natCast_ne_top _)

/-- If each order comes of exactly one way to draw, then all are equally likely. -/
theorem uniform_order (order : Draws n ≃ Equiv.Perm (Fin n)) (o : Equiv.Perm (Fin n)) :
    uniform n {d | order d = o} = (n.factorial : ℝ≥0∞)⁻¹ := by
  have hone : {d | order d = o} = {order.symm o} := by
    ext d
    exact order.eq_symm_apply.symm
  rw [hone, uniform_singleton, Fintype.card_congr order, Fintype.card_perm, Fintype.card_fin]

end Draws

/-! ### Batch by batch -/

/-- What is left of a list after the exchanges of the first `m` batches. -/
def exchangeBatches {α : Type} (size : BatchSize) (partners : List Nat) (xs : Array α) : (m : Nat) → Checked (Array α)
  | 0 => .ok xs
  | m + 1 => do
    let ys ← exchangeBatches size partners xs m
    exchangeAll ys (m * size.step) (size.batch partners m)

theorem exchangeBatches_eq {α : Type} (size : BatchSize) (partners : List Nat) (xs : Array α) (m : Nat) :
    exchangeBatches size partners xs m = exchangeAll xs 0 (partners.take (m * size.step)) := by
  induction m with
  | zero => rw [Nat.zero_mul, List.take_zero, exchangeBatches, exchangeAll]
  | succ m ih =>
    rw [exchangeBatches, ih, BatchSize.take_succ_mul_step, exchangeAll_append, List.length_take, Nat.zero_add]
    congr 1
    funext ys
    rcases Nat.le_total (m * size.step) partners.length with hle | hle
    · rw [Nat.min_eq_left hle]
    · -- there is nothing left to exchange
      rw [BatchSize.batch, List.drop_of_length_le hle, List.take_nil]
      rfl

variable {n : Nat} {d : Draws n} {order : Equiv.Perm (Fin n)}

namespace Blinding

variable {x : Blinding} (hx : x.Lawful) (hpartners : x.partners n = d.partners)
  (horder : exchangeAll (Draws.places n) 0 d.partners = .ok (List.ofFn order).toArray)
include hx hpartners

theorem exchangeBatches_places (size : BatchSize) (m : Nat) :
    exchangeBatches size d.partners (Draws.places n) m = .ok (x.shuffledTo (List.finRange n) (m * size.step)) := by
  have htake := (exchangeAll_take hx (List.finRange n) (m * size.step)).1
  rw [List.length_finRange, hpartners] at htake
  rw [exchangeBatches_eq, Draws.places, htake]

include horder

theorem shuffle_finRange : x.shuffle (List.finRange n) = List.ofFn order := by
  have hall := (exchangeAll_take hx (List.finRange n) n).1
  rw [List.length_finRange, hpartners, List.take_of_length_le (Nat.le_of_eq d.length_partners)] at hall
  rw [shuffle, List.length_finRange, Except.ok.inj (hall.symm.trans horder)]

/-- A list is shuffled to an order, whatever its elements are. -/
theorem shuffle_eq_ofFn {α : Type} {l : List α} (hl : l.length = n) (a : α) :
    x.shuffle l = List.ofFn fun i => l.getD (order i) a := by
  have hlist : (List.finRange n).map (fun i : Fin n => l.getD i a) = l := by
    apply List.ext_getElem
    · rw [List.length_map, List.length_finRange, hl]
    · intro k hk hk'
      rw [List.getElem_map, List.getElem_finRange]
      exact List.getD_eq_getElem ..
  have hmap := shuffle_map hx (List.finRange n) fun i => l.getD i a
  rw [hlist, shuffle_finRange hx hpartners horder, List.map_ofFn] at hmap
  exact hmap

end Blinding

namespace Pass

/-- What draws make of a pass, batch by batch: they bring its rows and targets to the given order. -/
structure Brings (size : BatchSize) (d : Draws n) (order : Equiv.Perm (Fin n)) : Prop where
  ends : exchangeBatches size d.partners (Draws.places n) (size.count n) = .ok (List.ofFn order).toArray
  /-- A batch that has had its turn is that of the order, and stays so. -/
  settles (k m : Nat) : k < m → ∃ xs, exchangeBatches size d.partners (Draws.places n) m = .ok xs ∧
    size.batch xs.toList k = size.batch (List.ofFn order) k
  /-- Sender and router send their batches in that order. -/
  sends (width : Nat) (x : Sending) (blinding : Blinding) (collector : Nat) (phase : String) :
    blinding.Lawful → blinding.partners n = d.partners → x.Fits n width → n < Target.rowLimit →
      size.rows < Size.limit → x.view blinding collector size phase =
        ((List.range (size.count n)).map fun k => (collector, phase, (size.batch (List.zipWith Bytes.xor
            (List.ofFn fun i => x.data.rowAt (order i)) (blinding.masks n width)) k).flatten),
          (List.range (size.count n)).map fun k => (collector, phase, Target.codec.encodeList
            (size.batch (List.ofFn fun i => x.targets.getD (order i) .discard) k)))

/-- Draws with no masks. -/
def unmasked (d : Draws n) : Choice n 0 where
  partners := d.partners
  masks := List.replicate n []
  length_partners := d.length_partners
  admissible := d.admissible_partners
  table := ⟨List.length_replicate, .replicate rfl n⟩

theorem brings (size : BatchSize)
    (horder : exchangeAll (Draws.places n) 0 d.partners = .ok (List.ofFn order).toArray) : Brings size d order where
  ends := by
    rw [exchangeBatches_eq, BatchSize.take_count_mul_step d.length_partners, horder]
  settles k m h := by
    have hx := (unmasked d).lawful
    have hpartners := (unmasked d).partners_blinding
    refine ⟨_, Blinding.exchangeBatches_places hx hpartners size m, ?_⟩
    rw [Blinding.batch_shuffledTo_of_lt hx _ size h, Blinding.shuffle_finRange hx hpartners horder]
  sends width x blinding collector phase hx hpartners hfits hrows hsize := by
    by_cases h : NoBatch n
    · rcases h with rfl | hle
      · rw [hfits.view_of_noBatch (.inl rfl), BatchSize.count_zero]
        rfl
      · omega
    · have hdata : x.data.toList.length = n := by rw [RowBuffer.length_toList, hfits.data_size]
      rw [hfits.view_eq hx h hsize]
      simp only [rowsMessage, targetsMessage, maskedRows, hdata,
        Blinding.shuffle_eq_ofFn hx hpartners horder hdata [],
        Blinding.shuffle_eq_ofFn hx hpartners horder hfits.length_targets .discard]
      rfl

/-- Every order of a list comes of exactly one way to draw, whatever the batches are, and so does every order of the
rows that sender and router send. If the draws are independent and uniform, then all orders are equally likely.
What a seed gives are such draws. -/
theorem draws_give_each_order_once (n : Nat) : ∃ order : Draws n ≃ Equiv.Perm (Fin n),
    (∀ size d, Brings size d (order d)) ∧
    (∀ o, Draws.uniform n {d | order d = o} = (n.factorial : ℝ≥0∞)⁻¹) ∧
    ∀ seed, ∃ d : Draws n, d.partners = (Blinding.ofSeed seed).partners n := by
  obtain ⟨order, horder⟩ := Draws.exists_equiv_orders n
  refine ⟨order, fun size d => brings size (horder d), Draws.uniform_order order, fun seed => ?_⟩
  have hx := Blinding.lawful_ofSeed seed
  exact Draws.exists_partners_eq (hx.length_partners n) (hx.admissible n)

/-- Two rows that are exchanged, in batches of one. -/
theorem draws_give_each_order_once_of_two : ∃ (order : Draws 2 ≃ Equiv.Perm (Fin 2)) (c : Choice 2 1) (d : Draws 2),
    c.partners = d.partners ∧ Sending.first.Fits 2 1 ∧ Sending.first.view c.blinding 2 ⟨1⟩ "t" =
      ((List.range 2).map fun k => (2, "t", (BatchSize.batch ⟨1⟩ (List.zipWith Bytes.xor
          (List.ofFn fun i => Sending.first.data.rowAt (order d i)) c.masks) k).flatten),
        (List.range 2).map fun k => (2, "t", Target.codec.encodeList
          (BatchSize.batch ⟨1⟩ (List.ofFn fun i => Sending.first.targets.getD (order d i) .discard) k))) := by
  have hfits : Sending.first.Fits 2 1 := by constructor <;> decide
  obtain ⟨order, hbrings, -⟩ := draws_give_each_order_once 2
  let d : Draws 2 := fun _ => ⟨1, by omega⟩
  let c : Choice 2 1 := ⟨d.partners, [[5], [9]], d.length_partners, d.admissible_partners, ⟨rfl, by simp [Bytes.Uniform]⟩⟩
  have hsends := (hbrings ⟨1⟩ d).sends 1 Sending.first c.blinding 2 "t" c.lawful c.partners_blinding hfits (by decide)
    (by decide)
  rw [c.masks_blinding] at hsends
  exact ⟨order, c, d, rfl, hfits, hsends⟩

end Pass

end ObliviousRouting
