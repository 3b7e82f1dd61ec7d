import ObliviousRouting.Proofs.Reveal.Views
import ObliviousRouting.Proofs.Switching.Duplicate

/-!
# What the copies hide

The planner learns one row of each pair that the helper offers, and it has asked for the pad of that row
only. A fresh row hides the helper's own row, or the fresh row before it where a copy is made. So for any
own rows there is one list of fresh rows, and one of pads, with which the planner sees just what it sees.
-/

namespace ObliviousRouting.Switching.Duplicate

open Bytes Reveal

variable {n width : Nat} {copies flips : List Bool}
  {own fresh learned own' fresh' pads₀ pads₁ pads₀' pads₁' : List Bytes}

/-- The fresh rows with which given rows are learned: each of them follows from the one before it, or from
the helper's own row. -/
def freshFor (before : Bytes) : List Bool → (learned own : List Bytes) → List Bytes
  | copy :: copies, row :: learned, mine :: own =>
    let fresh := row.xor (if copy then before else mine)
    fresh :: freshFor fresh copies learned own
  | _, _, _ => []

theorem table_freshFor (hcopies : copies.length = n) (hlearned : Table n width learned)
    (hown : own.length = n) (before : Bytes) : Table n width (freshFor before copies learned own) := by
  induction n generalizing copies learned own before with
  | zero =>
    rw [List.eq_nil_of_length_eq_zero hcopies]
    exact ⟨rfl, .nil⟩
  | succ n ih =>
    obtain ⟨copy, copies, rfl⟩ := List.exists_cons_of_length_eq_add_one hcopies
    obtain ⟨row, learned, rfl⟩ := List.exists_cons_of_length_eq_add_one hlearned.length_eq
    obtain ⟨mine, own, rfl⟩ := List.exists_cons_of_length_eq_add_one hown
    rw [Table.cons_iff] at hlearned
    rw [freshFor, Table.cons_iff, length_xor]
    exact ⟨hlearned.1, ih (Nat.succ_inj.1 hcopies) hlearned.2 (Nat.succ_inj.1 hown) _⟩

/-- Given rows are learned with these fresh rows and no other ones. -/
theorem pick_eq_iff (before : Bytes) (hcopies : copies.length = n) (hlearned : learned.length = n)
    (hown : Table n width own) (hfresh : Table n width fresh) (hbefore : before.length = width) :
    pick copies (firstRows own fresh) (List.zipWith Bytes.xor fresh ((before :: fresh).take fresh.length)) =
      learned ↔ fresh = freshFor before copies learned own := by
  induction n generalizing copies learned own fresh before with
  | zero =>
    rw [List.eq_nil_of_length_eq_zero hcopies, List.eq_nil_of_length_eq_zero hlearned,
      List.eq_nil_of_length_eq_zero hfresh.length_eq]
    exact iff_of_true rfl rfl
  | succ n ih =>
    obtain ⟨copy, copies, rfl⟩ := List.exists_cons_of_length_eq_add_one hcopies
    obtain ⟨row, learned, rfl⟩ := List.exists_cons_of_length_eq_add_one hlearned
    obtain ⟨mine, own, rfl⟩ := List.exists_cons_of_length_eq_add_one hown.length_eq
    obtain ⟨new, fresh, rfl⟩ := List.exists_cons_of_length_eq_add_one hfresh.length_eq
    rw [Table.cons_iff] at hown hfresh
    have hrest := ih new (Nat.succ_inj.1 hcopies) (Nat.succ_inj.1 hlearned) hown.2 hfresh.2
      hfresh.1
    have hfirst : (if copy then new.xor before else mine.xor new) = row ↔
        new = row.xor (if copy then before else mine) := by
      cases copy with
      | true => exact xor_eq_iff
      | false =>
        have hcomm : mine.xor new = new.xor mine := Bytes.xor_comm (hown.1.trans hfresh.1.symm)
        simp only [Bool.false_eq_true, if_false, hcomm]
        exact xor_eq_iff
    rw [firstRows, List.zipWith_cons_cons, List.length_cons, List.take_succ_cons, List.zipWith_cons_cons,
      pick_cons, List.cons.injEq, freshFor, List.cons.injEq, hfirst, ← firstRows, hrest]
    constructor
    · rintro ⟨hnew, hrows⟩
      exact ⟨hnew, hnew ▸ hrows⟩
    · rintro ⟨hnew, hrows⟩
      exact ⟨hnew, hnew ▸ hrows⟩

theorem table_firstRows (hown : Table n width own) (hfresh : Table n width fresh) :
    Table n width (firstRows own fresh) := hown.zipWith_xor hfresh

theorem table_secondRows (hfresh : Table n width fresh) : Table n width (secondRows width fresh) :=
  ⟨length_secondRows hfresh.length_eq, hfresh.uniform.zipWith_xor _⟩

/-- What the planner is sent, as rows: both masked rows of each pair, and one pad. -/
def seen (width : Nat) (copies flips : List Bool) (own fresh pads₀ pads₁ : List Bytes) :
    List Bytes × List Bytes × List Bytes :=
  (maskedRows flips (firstRows own fresh) (secondRows width fresh) pads₀,
    maskedRows flips (secondRows width fresh) (firstRows own fresh) pads₁,
    pick (blindChoices copies flips) pads₀ pads₁)

/-- The pads with which given masked rows are seen. -/
def padsFor (flips : List Bool) (masked rows rows' : List Bytes) : List Bytes :=
  List.zipWith Bytes.xor masked (pick flips rows rows')

/-- For any own rows there are fresh rows and pads with which the planner sees the same, and no others. -/
theorem seen_eq_iff (hcopies : copies.length = n) (hflips : flips.length = n) (hown : Table n width own)
    (hfresh : Table n width fresh) (hpads₀ : Table n width pads₀) (hpads₁ : Table n width pads₁)
    (hown' : Table n width own') (hfresh' : Table n width fresh') (hpads₀' : Table n width pads₀')
    (hpads₁' : Table n width pads₁') :
    seen width copies flips own' fresh' pads₀' pads₁' = seen width copies flips own fresh pads₀ pads₁ ↔
      fresh' = freshFor (zeros width) copies
          (pick copies (firstRows own fresh) (secondRows width fresh)) own' ∧
        pads₀' = padsFor flips (seen width copies flips own fresh pads₀ pads₁).1 (firstRows own' fresh')
          (secondRows width fresh') ∧
        pads₁' = padsFor flips (seen width copies flips own fresh pads₀ pads₁).2.1
          (secondRows width fresh') (firstRows own' fresh') := by
  have h₀ := table_firstRows hown hfresh
  have h₁ := table_secondRows hfresh
  rw [seen, seen, Prod.mk.injEq, Prod.mk.injEq,
    view_eq_iff hcopies hflips h₀ h₁ hpads₀ hpads₁ (table_firstRows hown' hfresh')
      (table_secondRows hfresh') hpads₀' hpads₁',
    ← pick_eq_iff (zeros width) hcopies (length_pick hcopies h₀.length_eq h₁.length_eq) hown' hfresh'
      (length_zeros width)]
  rfl

/-- For any own rows there is one choice of fresh rows and pads with which the planner sees the same. -/
theorem exists_seen_eq_iff (hcopies : copies.length = n) (hflips : flips.length = n)
    (hown : Table n width own) (hfresh : Table n width fresh) (hpads₀ : Table n width pads₀)
    (hpads₁ : Table n width pads₁) (hown' : Table n width own') :
    ∃ rows rows₀ rows₁, Table n width rows ∧ Table n width rows₀ ∧ Table n width rows₁ ∧
      ∀ {fresh' pads₀' pads₁'}, Table n width fresh' → Table n width pads₀' → Table n width pads₁' →
        (seen width copies flips own' fresh' pads₀' pads₁' =
            seen width copies flips own fresh pads₀ pads₁ ↔
          fresh' = rows ∧ pads₀' = rows₀ ∧ pads₁' = rows₁) := by
  have h₀ := table_firstRows hown hfresh
  have h₁ := table_secondRows hfresh
  have hrows := table_freshFor hcopies (h₀.pick hcopies h₁) hown'.length_eq (zeros width)
  have h₀' := table_firstRows hown' hrows
  have h₁' := table_secondRows hrows
  refine ⟨_, _, _, hrows, (table_maskedRows hflips h₀ h₁ hpads₀).zipWith_xor (h₀'.pick hflips h₁'),
    (table_maskedRows hflips h₁ h₀ hpads₁).zipWith_xor (h₁'.pick hflips h₀'),
    fun hfresh' hpads₀' hpads₁' => ?_⟩
  rw [seen_eq_iff hcopies hflips hown hfresh hpads₀ hpads₁ hown' hfresh' hpads₀' hpads₁']
  constructor
  · rintro ⟨rfl, hpads⟩
    exact ⟨rfl, hpads⟩
  · rintro ⟨rfl, hpads⟩
    exact ⟨rfl, hpads⟩

end ObliviousRouting.Switching.Duplicate
