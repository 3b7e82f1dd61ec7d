import ObliviousRouting.Proofs.BatchSize.Batches
import ObliviousRouting.Proofs.Bytes.Rows
import ObliviousRouting.Reveal.Roles

/-!
# What a reveal reveals

A blinded choice points to the place at which the wanted row stands after the exchange, so the choosing
party asks for the pad of just that row and takes it off. What is left of the other row is hidden by a
pad that it has not asked for.
-/

namespace ObliviousRouting.Reveal

open Bytes

/-- Of each pair of rows, the second one where the choice is set and the first one elsewhere. -/
def pick (choices : List Bool) (rows₀ rows₁ : List Bytes) : List Bytes :=
  List.zipWith (fun choice (pair : Bytes × Bytes) => if choice then pair.2 else pair.1) choices
    (rows₀.zip rows₁)

variable {choices flips : List Bool} {rows₀ rows₁ pads₀ pads₁ : List Bytes} {width n : Nat}

theorem pick_cons (choice : Bool) (row₀ row₁ : Bytes) :
    pick (choice :: choices) (row₀ :: rows₀) (row₁ :: rows₁) =
      (if choice then row₁ else row₀) :: pick choices rows₀ rows₁ := rfl

theorem length_pick (hchoices : choices.length = n) (h₀ : rows₀.length = n) (h₁ : rows₁.length = n) :
    (pick choices rows₀ rows₁).length = n := by
  rw [pick, List.length_zipWith, List.length_zip, hchoices, h₀, h₁, Nat.min_self, Nat.min_self]

theorem getElem_pick {i : Nat} (hi : i < (pick choices rows₀ rows₁).length) (hc : i < choices.length)
    (h₀ : i < rows₀.length) (h₁ : i < rows₁.length) :
    (pick choices rows₀ rows₁)[i] = if choices[i] then rows₁[i] else rows₀[i] := by
  simp only [pick, List.getElem_zipWith, List.getElem_zip]

theorem getElem?_pick {i : Nat} {choice : Bool} {row₀ row₁ : Bytes} (hchoice : choices[i]? = some choice)
    (h₀ : rows₀[i]? = some row₀) (h₁ : rows₁[i]? = some row₁) :
    (pick choices rows₀ rows₁)[i]? = some (if choice then row₁ else row₀) := by
  have hpair : (rows₀.zip rows₁)[i]? = some (row₀, row₁) := List.getElem?_zip_eq_some.2 ⟨h₀, h₁⟩
  rw [pick, List.getElem?_zipWith, hchoice, hpair]

theorem uniform_pick (h₀ : Uniform width rows₀) (h₁ : Uniform width rows₁) :
    Uniform width (pick choices rows₀ rows₁) := by
  intro row hrow
  obtain ⟨i, hi, rfl⟩ := List.mem_iff_getElem.1 hrow
  have hlength := hi
  rw [pick, List.length_zipWith, List.length_zip] at hlength
  rw [getElem_pick hi (by omega) (by omega) (by omega)]
  split
  · exact h₁.getElem _
  · exact h₀.getElem _

theorem batch_pick (size : BatchSize) (k : Nat) :
    size.batch (pick choices rows₀ rows₁) k =
      pick (size.batch choices k) (size.batch rows₀ k) (size.batch rows₁ k) := by
  rw [pick, BatchSize.batch_zipWith, BatchSize.batch_zip, pick]

/-- The blinded choice finds the wanted row in the exchanged pair. -/
theorem pick_blind (hflips : flips.length = choices.length) (h₀ : rows₀.length = choices.length)
    (h₁ : rows₁.length = choices.length) :
    pick (blindChoices choices flips) (pick flips rows₀ rows₁) (pick flips rows₁ rows₀) =
      pick choices rows₀ rows₁ := by
  induction choices generalizing flips rows₀ rows₁ with
  | nil => rfl
  | cons choice choices ih =>
    obtain ⟨flip, flips, rfl⟩ := List.exists_cons_of_length_eq_add_one hflips
    obtain ⟨row₀, rows₀, rfl⟩ := List.exists_cons_of_length_eq_add_one h₀
    obtain ⟨row₁, rows₁, rfl⟩ := List.exists_cons_of_length_eq_add_one h₁
    rw [pick_cons, pick_cons, pick_cons, blindChoices, List.zipWith_cons_cons, pick_cons, ← blindChoices,
      ih (Nat.succ_inj.1 hflips) (Nat.succ_inj.1 h₀) (Nat.succ_inj.1 h₁)]
    cases choice <;> cases flip <;> rfl

/-- The pads that were asked for are those on the rows that the choices find. -/
theorem pick_xor_pick (h₀ : rows₀.length = n) (h₁ : rows₁.length = n) (hpads₀ : pads₀.length = n)
    (hpads₁ : pads₁.length = n) (hchoices : choices.length = n) :
    List.zipWith Bytes.xor
        (pick choices (List.zipWith Bytes.xor rows₀ pads₀) (List.zipWith Bytes.xor rows₁ pads₁))
        (pick choices pads₀ pads₁) =
      pick choices rows₀ rows₁ := by
  induction n generalizing choices rows₀ rows₁ pads₀ pads₁ with
  | zero =>
    rw [List.eq_nil_of_length_eq_zero hchoices]
    rfl
  | succ n ih =>
    obtain ⟨choice, choices, rfl⟩ := List.exists_cons_of_length_eq_add_one hchoices
    obtain ⟨row₀, rows₀, rfl⟩ := List.exists_cons_of_length_eq_add_one h₀
    obtain ⟨row₁, rows₁, rfl⟩ := List.exists_cons_of_length_eq_add_one h₁
    obtain ⟨pad₀, pads₀, rfl⟩ := List.exists_cons_of_length_eq_add_one hpads₀
    obtain ⟨pad₁, pads₁, rfl⟩ := List.exists_cons_of_length_eq_add_one hpads₁
    simp only [List.zipWith_cons_cons, pick_cons,
      ih (Nat.succ_inj.1 h₀) (Nat.succ_inj.1 h₁) (Nat.succ_inj.1 hpads₀) (Nat.succ_inj.1 hpads₁)
        (Nat.succ_inj.1 hchoices)]
    cases choice <;> simp only [if_true, if_false, Bool.false_eq_true, xor_xor_cancel]

/-! ### Strings of rows -/

theorem select_flatten (h₀ : Uniform width rows₀) (h₁ : Uniform width rows₁) (hwidth : 0 < width) :
    select choices rows₀.flatten rows₁.flatten width = (pick choices rows₀ rows₁).flatten := by
  rw [select, Nat.max_eq_left hwidth, h₀.chunks_flatten hwidth, h₁.chunks_flatten hwidth,
    List.flatMap_def, pick, List.map_zip_eq_zipWith]
  rfl

/-- The rows of what is selected from any two strings of bytes. -/
theorem chunks_select (choices : List Bool) (a b : Bytes) (width : Nat) :
    (select choices a b width).chunks (max width 1) =
      pick choices (a.chunks (max width 1)) (b.chunks (max width 1)) := by
  have hrows : select choices a b width =
      (pick choices (a.chunks (max width 1)) (b.chunks (max width 1))).flatten := by
    rw [select, List.flatMap_def, pick, List.map_zip_eq_zipWith]
    rfl
  rw [hrows]
  exact (uniform_pick (uniform_chunks a) (uniform_chunks b)).chunks_flatten (Nat.le_max_right width 1)

/-- Rows that are masked by a string of bytes. -/
theorem xor_flatten_chunks (h : Uniform width rows₀) (hwidth : 0 < width) {pad : Bytes}
    (hpad : pad.length = rows₀.length * width) :
    Bytes.xor rows₀.flatten pad = (List.zipWith Bytes.xor rows₀ (pad.chunks width)).flatten := by
  have hdvd : width ∣ pad.length := hpad ▸ Nat.dvd_mul_left ..
  have hcount : rows₀.length = (pad.chunks width).length := by
    rw [length_chunks, hpad, Nat.mul_div_cancel _ hwidth]
  rw [← h.xor_flatten (uniform_chunks pad) hcount, flatten_chunks hdvd]

section Batch

variable {pad₀ pad₁ : Bytes}

theorem length_maskPairs (hflips : flips.length = n) (h₀ : rows₀.length = n) (h₁ : rows₁.length = n)
    (huniform₀ : Uniform width rows₀) (huniform₁ : Uniform width rows₁) (hwidth : 0 < width) :
    (maskPairs flips rows₀.flatten rows₁.flatten pad₀ pad₁ width).length = 2 * (n * width) := by
  rw [maskPairs, select_flatten huniform₀ huniform₁ hwidth, select_flatten huniform₁ huniform₀ hwidth,
    List.length_append, length_xor, length_xor, (uniform_pick huniform₀ huniform₁).length_flatten,
    (uniform_pick huniform₁ huniform₀).length_flatten, length_pick hflips h₀ h₁,
    length_pick hflips h₁ h₀, Nat.two_mul]

theorem chosenPads_eq (hpad₀ : width ∣ pad₀.length) (hpad₁ : width ∣ pad₁.length) (hwidth : 0 < width) :
    chosenPads choices pad₀ pad₁ width =
      (pick choices (pad₀.chunks width) (pad₁.chunks width)).flatten := by
  rw [chosenPads, ← select_flatten (uniform_chunks pad₀) (uniform_chunks pad₁) hwidth,
    flatten_chunks hpad₀, flatten_chunks hpad₁]

theorem length_chosenPads (hchoices : choices.length = n) (hpad₀ : pad₀.length = n * width)
    (hpad₁ : pad₁.length = n * width) (hwidth : 0 < width) :
    (chosenPads choices pad₀ pad₁ width).length = n * width := by
  have hcount {pad : Bytes} (hpad : pad.length = n * width) : (pad.chunks width).length = n := by
    rw [length_chunks, hpad, Nat.mul_div_cancel _ hwidth]
  rw [chosenPads_eq (hpad₀ ▸ Nat.dvd_mul_left ..) (hpad₁ ▸ Nat.dvd_mul_left ..) hwidth,
    (uniform_pick (uniform_chunks pad₀) (uniform_chunks pad₁)).length_flatten,
    length_pick hchoices (hcount hpad₀) (hcount hpad₁)]

/-- The choosing party gets the wanted rows of a batch. -/
theorem unmask_maskPairs (hchoices : choices.length = n) (hflips : flips.length = n)
    (h₀ : rows₀.length = n) (h₁ : rows₁.length = n) (huniform₀ : Uniform width rows₀)
    (huniform₁ : Uniform width rows₁) (hpad₀ : pad₀.length = n * width)
    (hpad₁ : pad₁.length = n * width) (hwidth : 0 < width) :
    unmask (blindChoices choices flips)
        ((maskPairs flips rows₀.flatten rows₁.flatten pad₀ pad₁ width).take (n * width))
        ((maskPairs flips rows₀.flatten rows₁.flatten pad₀ pad₁ width).drop (n * width))
        (chosenPads (blindChoices choices flips) pad₀ pad₁ width) width =
      (pick choices rows₀ rows₁).flatten := by
  have hexchanged₀ := length_pick hflips h₀ h₁
  have hexchanged₁ := length_pick hflips h₁ h₀
  have hblinded : (blindChoices choices flips).length = n := by
    rw [blindChoices, List.length_zipWith, hchoices, hflips, Nat.min_self]
  have hcount {pad : Bytes} (hpad : pad.length = n * width) : (pad.chunks width).length = n := by
    rw [length_chunks, hpad, Nat.mul_div_cancel _ hwidth]
  have hmasked₀ := xor_flatten_chunks (uniform_pick huniform₀ huniform₁) hwidth
    (hexchanged₀.symm ▸ hpad₀)
  have hmasked₁ := xor_flatten_chunks (uniform_pick huniform₁ huniform₀) hwidth
    (hexchanged₁.symm ▸ hpad₁)
  have hhalf : (Bytes.xor (pick flips rows₀ rows₁).flatten pad₀).length = n * width := by
    rw [length_xor, (uniform_pick huniform₀ huniform₁).length_flatten, hexchanged₀]
  rw [maskPairs, select_flatten huniform₀ huniform₁ hwidth, select_flatten huniform₁ huniform₀ hwidth,
    List.take_left' hhalf, List.drop_left' hhalf, hmasked₀, hmasked₁, unmask,
    select_flatten ((uniform_pick huniform₀ huniform₁).zipWith_xor _)
      ((uniform_pick huniform₁ huniform₀).zipWith_xor _) hwidth,
    chosenPads_eq (hpad₀ ▸ Nat.dvd_mul_left ..) (hpad₁ ▸ Nat.dvd_mul_left ..) hwidth]
  rw [(uniform_pick ((uniform_pick huniform₀ huniform₁).zipWith_xor _)
      ((uniform_pick huniform₁ huniform₀).zipWith_xor _)).xor_flatten
      (uniform_pick (uniform_chunks pad₀) (uniform_chunks pad₁)),
    pick_xor_pick hexchanged₀ hexchanged₁ (hcount hpad₀) (hcount hpad₁) hblinded,
    pick_blind (hflips.trans hchoices.symm) (h₀.trans hchoices.symm) (h₁.trans hchoices.symm)]
  rw [length_pick hblinded (hcount hpad₀) (hcount hpad₁), length_pick hblinded]
  · rw [List.length_zipWith, hexchanged₀, hcount hpad₀, Nat.min_self]
  · rw [List.length_zipWith, hexchanged₁, hcount hpad₁, Nat.min_self]

end Batch

end ObliviousRouting.Reveal
