import ObliviousRouting.Proofs.Bytes.Bits
import ObliviousRouting.Proofs.Reveal.Views

/-!
# What a reveal hides

The choosing party is sent the masked rows of both messages, and the pads that it has asked for. Messages in
which it wants the same rows look alike behind them: for any pads on the one there is just one choice of pads
on the other with which it is sent the same. The serving party is sent choices behind flip bits, and there
is just one list of flip bits with which other choices are the same to it.
-/

namespace ObliviousRouting.Reveal

open Bytes

variable {n width : Nat}

/-- A string of `n` rows. -/
abbrev RowString (n width : Nat) := List.Vector UInt8 (n * width)

namespace RowString

def rows (s : RowString n width) : List Bytes := pieces width n s.toList

theorem table_rows (s : RowString n width) : Table n width s.rows := table_pieces s.toList_length

theorem flatten_rows (s : RowString n width) : s.rows.flatten = s.toList :=
  flatten_pieces_of_length s.toList_length

def ofRows {rows : List Bytes} (h : Table n width rows) : RowString n width :=
  ⟨rows.flatten, h.length_flatten⟩

/-- A string is given by its rows. -/
theorem rows_eq_iff {s : RowString n width} {rows : List Bytes} (h : Table n width rows) :
    s.rows = rows ↔ s = ofRows h := by
  rw [RowString.rows, pieces_eq_iff s.toList_length h]
  exact ⟨fun heq => Subtype.ext heq, fun heq => congrArg List.Vector.toList heq⟩

theorem getElem_rows (s : RowString n width) {i : Nat} (hi : i < s.rows.length) :
    s.rows[i] = (s.toList.drop (i * width)).take width := getElem_pieces hi

end RowString

/-- Two strings of rows: the messages between which there is a choice, or the pads on them. -/
@[ext] structure Pair (n width : Nat) where
  first : RowString n width
  second : RowString n width

/-- The row that is wanted of the two with number `i`. -/
def Pair.wanted (m : Pair n width) (choices : List.Vector Bool n) (i : Fin n) : Bytes :=
  let chosen := if choices.get i then m.second else m.first
  (chosen.toList.drop (i * width)).take width

/-- All that the choosing party is sent: the masked rows, and the pads that it has asked for. -/
def view (choices flips : List.Vector Bool n) (m pads : Pair n width) : Bytes × Bytes :=
  (maskPairs flips.toList m.first.toList m.second.toList pads.first.toList pads.second.toList width,
    chosenPads (blindChoices choices.toList flips.toList) pads.first.toList pads.second.toList width)

/-- All that the serving party is sent. -/
def request (choices flips : List.Vector Bool n) : Bytes :=
  Bits.pack (blindChoices choices.toList flips.toList)

/-! ### The choosing party -/

section Choosing

variable (choices flips : List.Vector Bool n) (m m' pads pads' : Pair n width)

theorem length_picked : (pick choices.toList m.first.rows m.second.rows).length = n :=
  length_pick choices.toList_length m.first.table_rows.length_eq m.second.table_rows.length_eq

theorem getElem?_picked (i : Fin n) :
    (pick choices.toList m.first.rows m.second.rows)[i.val]? = some (m.wanted choices i) := by
  have hpicked : i.val < (pick choices.toList m.first.rows m.second.rows).length := by
    rw [length_picked]
    exact i.isLt
  have hchoice : i.val < choices.toList.length := by
    rw [List.Vector.toList_length]
    exact i.isLt
  have hrow (s : RowString n width) : i.val < s.rows.length := by
    rw [s.table_rows.length_eq]
    exact i.isLt
  have hget : choices.get i = choices.toList[i.val] := rfl
  rw [List.getElem?_eq_getElem hpicked, getElem_pick _ hchoice (hrow _) (hrow _), Pair.wanted, hget]
  split
  · rw [RowString.getElem_rows]
  · rw [RowString.getElem_rows]

/-- The wanted rows are those that the choices pick. -/
theorem wanted_eq_iff : (∀ i, m'.wanted choices i = m.wanted choices i) ↔
    pick choices.toList m'.first.rows m'.second.rows = pick choices.toList m.first.rows m.second.rows := by
  constructor
  · intro h
    apply List.ext_getElem?
    intro i
    rcases Nat.lt_or_ge i n with hi | hi
    · rw [getElem?_picked choices m' ⟨i, hi⟩, getElem?_picked choices m ⟨i, hi⟩, h]
    · rw [List.getElem?_eq_none (by rwa [length_picked]), List.getElem?_eq_none (by rwa [length_picked])]
  · intro h i
    apply Option.some.inj
    rw [← getElem?_picked, ← getElem?_picked, h]

/-- The masked rows for one value of the blinded choice, and for the other one. -/
abbrev maskedFirst : List Bytes := maskedRows flips.toList m.first.rows m.second.rows pads.first.rows

abbrev maskedSecond : List Bytes := maskedRows flips.toList m.second.rows m.first.rows pads.second.rows

theorem table_maskedFirst : Table n width (maskedFirst flips m pads) :=
  table_maskedRows flips.toList_length m.first.table_rows m.second.table_rows pads.first.table_rows

theorem table_maskedSecond : Table n width (maskedSecond flips m pads) :=
  table_maskedRows flips.toList_length m.second.table_rows m.first.table_rows pads.second.table_rows

/-- The pads with which other messages look like given ones. -/
def padsFor : Pair n width where
  first := .ofRows ((table_maskedFirst flips m pads).zipWith_xor
    (m'.first.table_rows.pick flips.toList_length m'.second.table_rows))
  second := .ofRows ((table_maskedSecond flips m pads).zipWith_xor
    (m'.second.table_rows.pick flips.toList_length m'.first.table_rows))

theorem view_eq (hwidth : 0 < width) : view choices flips m pads =
    ((maskedFirst flips m pads).flatten ++ (maskedSecond flips m pads).flatten,
      (pick (blindChoices choices.toList flips.toList) pads.first.rows pads.second.rows).flatten) := by
  rw [view, chosenPads, ← m.first.flatten_rows, ← m.second.flatten_rows, ← pads.first.flatten_rows,
    ← pads.second.flatten_rows, maskPairs_flatten flips.toList_length m.first.table_rows m.second.table_rows
      pads.first.table_rows pads.second.table_rows hwidth,
    select_flatten pads.first.table_rows.uniform pads.second.table_rows.uniform hwidth]

/-- The choosing party is sent the same if it is sent the same rows. -/
theorem view_eq_iff_rows (hwidth : 0 < width) : view choices flips m' pads' = view choices flips m pads ↔
    maskedFirst flips m' pads' = maskedFirst flips m pads ∧
      maskedSecond flips m' pads' = maskedSecond flips m pads ∧
        pick (blindChoices choices.toList flips.toList) pads'.first.rows pads'.second.rows =
          pick (blindChoices choices.toList flips.toList) pads.first.rows pads.second.rows := by
  have hblinded := length_blindChoices choices.toList_length flips.toList_length
  have hasked (pads : Pair n width) := pads.first.table_rows.pick hblinded pads.second.table_rows
  have htable := table_maskedFirst flips m pads
  have htable' := table_maskedFirst flips m' pads'
  rw [view_eq _ _ _ _ hwidth, view_eq _ _ _ _ hwidth, Prod.mk.injEq]
  constructor
  · intro h
    obtain ⟨hfirst, hsecond⟩ := List.append_inj h.1 (htable'.length_flatten.trans htable.length_flatten.symm)
    exact ⟨htable'.flatten_inj htable hfirst,
      (table_maskedSecond flips m' pads').flatten_inj (table_maskedSecond flips m pads) hsecond,
      (hasked pads').flatten_inj (hasked pads) h.2⟩
  · intro h
    exact ⟨congrArg₂ (fun a b => a.flatten ++ b.flatten) h.1 h.2.1, congrArg List.flatten h.2.2⟩

/-- The choosing party is sent the same if and only if it wants the same rows, and the pads make up for the
other ones. -/
theorem view_eq_view_iff (hwidth : 0 < width) : view choices flips m' pads' = view choices flips m pads ↔
    (∀ i, m'.wanted choices i = m.wanted choices i) ∧ pads' = padsFor flips m m' pads := by
  have hfirst := RowString.rows_eq_iff (s := pads'.first) ((table_maskedFirst flips m pads).zipWith_xor
    (m'.first.table_rows.pick flips.toList_length m'.second.table_rows))
  have hsecond := RowString.rows_eq_iff (s := pads'.second) ((table_maskedSecond flips m pads).zipWith_xor
    (m'.second.table_rows.pick flips.toList_length m'.first.table_rows))
  rw [view_eq_iff_rows _ _ _ _ _ _ hwidth, wanted_eq_iff, Pair.ext_iff, padsFor, ← hfirst, ← hsecond]
  exact view_eq_iff choices.toList_length flips.toList_length m.first.table_rows m.second.table_rows
    pads.first.table_rows pads.second.table_rows m'.first.table_rows m'.second.table_rows
    pads'.first.table_rows pads'.second.table_rows

end Choosing

/-! ### The serving party -/

/-- The serving party is sent the same if and only if the flip bits make up for the other choices. -/
theorem request_eq_request_iff (choices choices' flips flips' : List.Vector Bool n) :
    request choices' flips' = request choices flips ↔
      flips' = otherFlips choices.toList_length choices'.toList_length flips := by
  have hother := blindChoices_otherFlips choices.toList_length choices'.toList_length flips
  constructor
  · intro h
    have hlength := length_blindChoices choices'.toList_length flips'.toList_length
    have hlength' := length_blindChoices choices.toList_length flips.toList_length
    have hblinded := Bits.eq_of_pack_eq (hlength.trans hlength'.symm) h
    apply (blind choices'.toList choices'.toList_length).injective
    exact Subtype.ext (hblinded.trans hother.symm)
  · rintro rfl
    exact congrArg Bits.pack hother

/-! ### Both parties -/

/-- The choosing party cannot tell messages apart in which it wants the same rows: for any pads on the one
there is one choice of pads on the other with which it is sent the same, and for messages in which it wants
other rows there is none. The serving party cannot tell choices apart: for any flip bits behind the one there
is one list of flip bits behind the other with which it is sent the same. -/
theorem hides_unwanted_rows_and_choices (hwidth : 1 ≤ width) :
    (∀ (choices flips : List.Vector Bool n) (m m' pads : Pair n width),
      (∀ i, m'.wanted choices i = m.wanted choices i) ↔
        ∃! pads', view choices flips m' pads' = view choices flips m pads) ∧
    ∀ choices choices' flips : List.Vector Bool n, ∃! flips', request choices' flips' = request choices flips := by
  constructor
  · intro choices flips m m' pads
    simp only [view_eq_view_iff _ _ _ _ _ _ hwidth]
    constructor
    · intro hwanted
      exact ⟨padsFor flips m m' pads, ⟨hwanted, rfl⟩, fun _ hview => hview.2⟩
    · intro hunique
      exact hunique.exists.elim fun _ hview => hview.1
  · intro choices choices' flips
    simp only [request_eq_request_iff]
    exact existsUnique_eq

/-- Three rows of two bytes in each of two messages. -/
def offered : Pair 3 2 := ⟨⟨[1, 2, 3, 4, 5, 6], rfl⟩, ⟨[7, 8, 9, 10, 11, 12], rfl⟩⟩

/-- The same where the second, the first and again the second row of a pair is wanted. -/
def lookalike : Pair 3 2 := ⟨⟨[0, 0, 3, 4, 0, 0], rfl⟩, ⟨[7, 8, 0, 0, 11, 12], rfl⟩⟩

theorem hides_unwanted_rows_and_choices_of_three :
    let choices : List.Vector Bool 3 := ⟨[true, false, true], rfl⟩
    let others : List.Vector Bool 3 := ⟨[false, false, true], rfl⟩
    let flips : List.Vector Bool 3 := ⟨[true, true, false], rfl⟩
    let pads : Pair 3 2 := ⟨⟨[20, 21, 22, 23, 24, 25], rfl⟩, ⟨[30, 31, 32, 33, 34, 35], rfl⟩⟩
    1 ≤ 2 ∧ (∀ i, lookalike.wanted choices i = offered.wanted choices i) ∧
      (∃! pads', view choices flips lookalike pads' = view choices flips offered pads) ∧
        ∃! flips', request others flips' = request choices flips := by
  intro choices others flips pads
  have hwidth : 1 ≤ 2 := by decide
  have hwanted : ∀ i, lookalike.wanted choices i = offered.wanted choices i := by decide
  have hhides := hides_unwanted_rows_and_choices (n := 3) hwidth
  exact ⟨hwidth, hwanted, (hhides.1 _ _ _ _ _).1 hwanted, hhides.2 _ _ _⟩

end ObliviousRouting.Reveal
