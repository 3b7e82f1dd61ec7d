import ObliviousRouting.Pass.Roles
import ObliviousRouting.Proofs.BatchSize.Batches
import ObliviousRouting.Proofs.Bytes.Rows

/-!
# Shuffles

A shuffle swaps each position in turn with itself or with a later one. So it is a rearrangement, it does
not look at what it rearranges, and a position that has had its turn is not touched again. This is why a
batch can be sent as soon as its positions have had theirs: it already is a part of the shuffled list.
-/

namespace ObliviousRouting

variable {α β : Type}

/-- From position `i` on, each position of a list of `n` is swapped with itself or with a later one. -/
def Admissible (n : Nat) : (i : Nat) → (partners : List Nat) → Prop
  | _, [] => True
  | i, j :: partners => (i ≤ j ∧ j < n) ∧ Admissible n (i + 1) partners

theorem admissible_append {n i : Nat} {partners partners' : List Nat} :
    Admissible n i (partners ++ partners') ↔
      Admissible n i partners ∧ Admissible n (i + partners.length) partners' := by
  induction partners generalizing i with
  | nil => simp [Admissible]
  | cons j partners ih =>
    simp only [List.cons_append, Admissible, ih, List.length_cons, and_assoc]
    rw [Nat.add_assoc, Nat.add_comm 1]

/-! ### Exchanging in turn -/

theorem exchangeAll_append (xs : Array α) (i : Nat) (partners partners' : List Nat) :
    exchangeAll xs i (partners ++ partners') =
      exchangeAll xs i partners >>= fun ys => exchangeAll ys (i + partners.length) partners' := by
  induction partners generalizing xs i with
  | nil => rfl
  | cons j partners ih =>
    simp only [List.cons_append, exchangeAll, List.length_cons]
    cases exchange xs i j with
    | error e => rfl
    | ok ys =>
      change exchangeAll ys (i + 1) (partners ++ partners') = exchangeAll ys (i + 1) partners >>= _
      rw [ih, Nat.add_assoc, Nat.add_comm 1]

theorem exchange_map (f : α → β) (xs : Array α) (i j : Nat) :
    exchange (xs.map f) i j = (exchange xs i j).map (Array.map f) := by
  simp only [exchange, Array.size_map]
  split
  · next h =>
    simp only [Except.map]
    congr 1
    apply Array.ext
    · simp only [Array.size_swap, Array.size_map]
    · intro k _ _
      simp only [Array.getElem_swap, Array.getElem_map]
      split
      · rfl
      · split <;> rfl
  · rfl

/-- What is exchanged does not matter. -/
theorem exchangeAll_map (f : α → β) (xs : Array α) (i : Nat) (partners : List Nat) :
    exchangeAll (xs.map f) i partners = (exchangeAll xs i partners).map (Array.map f) := by
  induction partners generalizing xs i with
  | nil => rfl
  | cons j partners ih =>
    simp only [exchangeAll, exchange_map]
    cases exchange xs i j with
    | error e => rfl
    | ok ys => exact ih ys (i + 1)

theorem exists_exchangeAll (xs : Array α) {i : Nat} {partners : List Nat}
    (h : Admissible xs.size i partners) :
    ∃ ys, exchangeAll xs i partners = .ok ys ∧ ys.Perm xs ∧ ∀ k < i, ys[k]? = xs[k]? := by
  induction partners generalizing xs i with
  | nil => exact ⟨xs, rfl, .refl xs, fun _ _ => rfl⟩
  | cons j partners ih =>
    obtain ⟨⟨hij, hj⟩, hrest⟩ := h
    have hplaces : i < xs.size ∧ j < xs.size := ⟨Nat.lt_of_le_of_lt hij hj, hj⟩
    obtain ⟨ys, hys, hperm, hbefore⟩ := ih (xs.swap i j hplaces.1 hplaces.2) (i := i + 1)
      (by rwa [Array.size_swap])
    refine ⟨ys, ?_, hperm.trans (Array.swap_perm hplaces.1 hplaces.2), ?_⟩
    · rw [exchangeAll, exchange, dif_pos hplaces]
      exact hys
    · intro k hk
      rw [hbefore k (by omega), Array.getElem?_swap, if_neg (by omega), if_neg (by omega)]

/-! ### The shuffle of a blinding -/

namespace Blinding

/-- What both parties of a pass rely on: there is a partner for each position and a mask for each row. -/
structure Lawful (x : Blinding) : Prop where
  length_partners (n : Nat) : (x.partners n).length = n
  admissible (n : Nat) : Admissible n 0 (x.partners n)
  length_masks (n width : Nat) : (x.masks n width).length = n
  uniform_masks (n width : Nat) : Bytes.Uniform width (x.masks n width)

/-- A list of which the first `m` positions have had their turn. -/
def shuffledTo (x : Blinding) (l : List α) (m : Nat) : Array α :=
  match exchangeAll l.toArray 0 ((x.partners l.length).take m) with
  | .ok xs => xs
  | .error _ => l.toArray

def shuffle (x : Blinding) (l : List α) : List α := (x.shuffledTo l l.length).toList

theorem shuffledTo_zero_mul (x : Blinding) (l : List α) (n : Nat) : x.shuffledTo l (0 * n) = l.toArray := by
  rw [Nat.zero_mul]
  rfl

variable {x : Blinding} (hx : x.Lawful) (l : List α)
include hx

theorem exchangeAll_take (m : Nat) :
    exchangeAll l.toArray 0 ((x.partners l.length).take m) = .ok (x.shuffledTo l m) ∧
      (x.shuffledTo l m).Perm l.toArray := by
  have hadm := hx.admissible l.length
  rw [← List.take_append_drop m (x.partners l.length), admissible_append] at hadm
  obtain ⟨ys, hys, hperm, -⟩ := exists_exchangeAll l.toArray (by simpa using hadm.1)
  rw [shuffledTo, hys]
  exact ⟨rfl, hperm⟩

theorem shuffle_perm : (x.shuffle l).Perm l :=
  (exchangeAll_take hx l l.length).2.toList

theorem length_shuffle : (x.shuffle l).length = l.length := (shuffle_perm hx l).length_eq

theorem size_shuffledTo (m : Nat) : (x.shuffledTo l m).size = l.length := by
  rw [(exchangeAll_take hx l m).2.size_eq, List.size_toArray]

/-- Later turns leave the first positions alone. -/
theorem take_shuffledTo (m : Nat) :
    (x.shuffledTo l m).toList.take m = (x.shuffle l).take m := by
  have hadm := hx.admissible l.length
  have hlength : (x.partners l.length).take l.length = x.partners l.length := by
    rw [List.take_of_length_le (Nat.le_of_eq (hx.length_partners _))]
  have hall := (exchangeAll_take hx l l.length).1
  rw [hlength, ← List.take_append_drop m (x.partners l.length), exchangeAll_append,
    (exchangeAll_take hx l m).1] at hall
  rw [← List.take_append_drop m (x.partners l.length), admissible_append] at hadm
  obtain ⟨ys, hys, -, hbefore⟩ := exists_exchangeAll (x.shuffledTo l m)
    (by rw [size_shuffledTo hx]; exact hadm.2)
  have hsame : ys = x.shuffledTo l l.length := Except.ok.inj (hys.symm.trans hall)
  apply List.ext_getElem?
  intro k
  rw [List.getElem?_take, List.getElem?_take]
  split
  · next hk =>
    rw [shuffle, ← hsame, Array.getElem?_toList, Array.getElem?_toList]
    rcases Nat.lt_or_ge k l.length with hlt | hge
    · rw [hbefore k]
      rw [List.length_take, hx.length_partners]
      omega
    · rw [Array.getElem?_eq_none, Array.getElem?_eq_none]
      · rw [hsame, size_shuffledTo hx]
        exact hge
      · rw [size_shuffledTo hx]
        exact hge
  · rfl

theorem shuffle_map (f : α → β) : x.shuffle (l.map f) = (x.shuffle l).map f := by
  have h := (exchangeAll_take hx (l.map f) l.length).1
  have hmap := exchangeAll_map f l.toArray 0 ((x.partners l.length).take l.length)
  rw [(exchangeAll_take hx l l.length).1, List.map_toArray] at hmap
  rw [List.length_map, hmap] at h
  have hsame := congrArg Array.toList (Except.ok.inj h)
  rw [Array.toList_map] at hsame
  rw [shuffle, shuffle, List.length_map, hsame]

/-- Lists that belong together are shuffled alike. -/
theorem shuffle_zip {l' : List β} (h : l.length = l'.length) :
    x.shuffle (l.zip l') = (x.shuffle l).zip (x.shuffle l') := by
  have hfst := shuffle_map hx (l.zip l') Prod.fst
  have hsnd := shuffle_map hx (l.zip l') Prod.snd
  rw [List.map_fst_zip (Nat.le_of_eq h)] at hfst
  rw [List.map_snd_zip (Nat.le_of_eq h.symm)] at hsnd
  rw [hfst, hsnd]
  exact List.zip_of_prod rfl rfl

/-! ### Batch by batch -/

variable (size : BatchSize)

theorem exchangeAll_batch {k : Nat} (hk : k < size.count l.length) :
    exchangeAll (x.shuffledTo l (k * size.step)) (k * size.step)
      (size.batch (x.partners l.length) k) = .ok (x.shuffledTo l ((k + 1) * size.step)) := by
  have hlt := BatchSize.lt_count_iff.1 hk
  have hnext := (exchangeAll_take hx l ((k + 1) * size.step)).1
  rw [BatchSize.take_succ_mul_step, exchangeAll_append, (exchangeAll_take hx l _).1, Nat.zero_add,
    List.length_take, hx.length_partners, Nat.min_eq_left (Nat.le_of_lt hlt)] at hnext
  exact hnext

/-- Once its positions have had their turns, a batch is that of the shuffled list. -/
theorem batch_shuffledTo_of_lt {k m : Nat} (h : k < m) :
    size.batch (x.shuffledTo l (m * size.step)).toList k = size.batch (x.shuffle l) k := by
  have hle : k * size.step + size.step ≤ m * size.step := by
    rw [← Nat.succ_mul]
    exact Nat.mul_le_mul_right _ h
  have htake := congrArg (List.take (k * size.step + size.step)) (take_shuffledTo hx l (m * size.step))
  rw [List.take_take, List.take_take, Nat.min_eq_left hle] at htake
  exact BatchSize.batch_of_take_eq htake

theorem batch_shuffledTo (k : Nat) :
    size.batch (x.shuffledTo l ((k + 1) * size.step)).toList k = size.batch (x.shuffle l) k :=
  batch_shuffledTo_of_lt hx l size (Nat.lt_succ_self k)

/-- What is cut out of a list for a batch, once its positions have had their turns. -/
theorem part_shuffledTo (k : Nat) :
    BatchSize.part (x.shuffledTo l ((k + 1) * size.step)).toList (k * size.step)
      (min (k * size.step + size.step) l.length) = size.batch (x.shuffle l) k := by
  have hlength : (x.shuffledTo l ((k + 1) * size.step)).toList.length = l.length := by
    rw [Array.length_toList, size_shuffledTo hx]
  rw [BatchSize.part_eq_batch hlength, batch_shuffledTo hx]

end Blinding

end ObliviousRouting
