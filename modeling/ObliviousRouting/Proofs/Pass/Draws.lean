import Mathlib.Data.List.Nodup
import Mathlib.Data.List.Perm.Basic
import Mathlib.Logic.Equiv.Basic
import ObliviousRouting.Proofs.Pass.Courses
import ObliviousRouting.Proofs.Reveal.Views

/-!
# Draws and orders

The draws of a shuffle say in which order it leaves a list, and each order is left by exactly one choice
of draws: the element that ends at a position decides what the position is swapped with. So if the draws
are free, a list of different elements can be brought to any order, and if the masks of the shuffled rows
are free too, then to any masked rows. What is shuffled and masked is hidden by this: some other choice
makes the same out of any other rows.
-/

namespace ObliviousRouting

variable {α β : Type}

/-- Where each side of a relation has exactly one partner on the other side, the sides correspond. -/
theorem exists_equiv_of_existsUnique {r : α → β → Prop} (h : ∀ a, ∃! b, r a b) (h' : ∀ b, ∃! a, r a b) :
    ∃ e : α ≃ β, ∀ a, r a (e a) := by
  choose f hf hunique using h
  have hbijective : Function.Bijective f := by
    rw [Function.bijective_iff_existsUnique]
    intro b
    obtain ⟨a, ha, honly⟩ := h' b
    refine ⟨a, (hunique a b ha).symm, fun a' ha' => honly a' ?_⟩
    rw [← ha']
    exact hf a'
  exact ⟨.ofBijective f hbijective, hf⟩

/-! ### Each order is reached exactly once -/

theorem admissible_range' {n i k : Nat} (h : i + k ≤ n) : Admissible n i (List.range' i k) := by
  induction k generalizing i with
  | zero => trivial
  | succ k ih => exact ⟨⟨Nat.le_refl i, by omega⟩, ih (by omega)⟩

theorem exchange_eq_ok {xs : Array α} {i j : Nat} (hi : i < xs.size) (hj : j < xs.size) :
    exchange xs i j = .ok (xs.swap i j hi hj) := by
  rw [exchange, dif_pos ⟨hi, hj⟩]

section Swap

variable {xs : Array α} {i j : Nat} (hij : i ≤ j) (hj : j < xs.size)
include hij

theorem getElem?_swap_of_lt {k : Nat} (hk : k < i) :
    (xs.swap i j (Nat.lt_of_le_of_lt hij hj) hj)[k]? = xs[k]? := by
  rw [Array.getElem?_swap, if_neg (by omega), if_neg (by omega)]

theorem getElem?_swap_self : (xs.swap i j (Nat.lt_of_le_of_lt hij hj) hj)[i]? = xs[j]? := by
  rw [Array.getElem?_swap]
  split
  · next heq =>
    subst heq
    exact (Array.getElem?_eq_getElem hj).symm
  · rw [if_pos rfl, Array.getElem?_eq_getElem hj]

end Swap

/-- Different elements are at different places. -/
theorem eq_of_getElem?_eq {xs : Array α} (hnodup : xs.toList.Nodup) {i j : Nat} (hi : i < xs.size)
    (h : xs[i]? = xs[j]?) : i = j := by
  rw [← Array.getElem?_toList, ← Array.getElem?_toList] at h
  exact (List.getElem?_inj (by rwa [Array.length_toList]) hnodup).1 h

/-- A position that has had its turn holds what was at the place that it was swapped with. -/
theorem getElem?_of_exchangeAll_cons {xs ys : Array α} {i j : Nat} {partners : List Nat}
    (hadm : Admissible xs.size i (j :: partners)) (h : exchangeAll xs i (j :: partners) = .ok ys) :
    ys[i]? = xs[j]? := by
  obtain ⟨⟨hij, hj⟩, hrest⟩ := hadm
  have hi : i < xs.size := Nat.lt_of_le_of_lt hij hj
  have hrest' : Admissible (xs.swap i j hi hj).size (i + 1) partners := by rwa [Array.size_swap]
  rw [exchangeAll, exchange_eq_ok hi hj] at h
  obtain ⟨zs, hzs, -, hbefore⟩ := exists_exchangeAll (xs.swap i j hi hj) hrest'
  have hsame : zs = ys := Except.ok.inj (hzs.symm.trans h)
  rw [← hsame, hbefore i (Nat.lt_succ_self i), getElem?_swap_self hij hj]

/-- The element that is to end at position `i` is at a place that has not had its turn. -/
theorem exists_partner {xs ys : Array α} {i : Nat} (hi : i < xs.size) (hnodup : xs.toList.Nodup)
    (hperm : ys.Perm xs) (hbefore : ∀ k < i, ys[k]? = xs[k]?) :
    ∃ j, (i ≤ j ∧ j < xs.size) ∧ ys[i]? = xs[j]? := by
  have hi' : i < ys.size := hperm.size_eq ▸ hi
  obtain ⟨j, hj, hget⟩ := Array.mem_iff_getElem.1 (hperm.mem_iff.1 (Array.getElem_mem hi'))
  have hplace : ys[i]? = xs[j]? := by
    rw [Array.getElem?_eq_getElem hi', Array.getElem?_eq_getElem hj, hget]
  refine ⟨j, ⟨Nat.le_of_not_lt fun hlt => ?_, hj⟩, hplace⟩
  have hnodup' : ys.toList.Nodup := hperm.toList.nodup_iff.2 hnodup
  have hsame := eq_of_getElem?_eq hnodup' hi' (hplace.trans (hbefore j hlt).symm)
  omega

/-- Different elements are brought to a given order by exactly one choice of partners, as far as it
leaves alone the positions that have had their turn. -/
theorem existsUnique_exchangeAll {xs ys : Array α} {i : Nat} (hi : i ≤ xs.size)
    (hnodup : xs.toList.Nodup) (hperm : ys.Perm xs) (hbefore : ∀ k < i, ys[k]? = xs[k]?) :
    ∃! partners : List Nat, (partners.length = xs.size - i ∧ Admissible xs.size i partners) ∧
      exchangeAll xs i partners = .ok ys := by
  -- on the number of positions that have not had their turn
  induction hn : xs.size - i generalizing xs i with
  | zero =>
    have hsame : xs = ys := by
      apply Array.ext_getElem?
      intro k
      rcases Nat.lt_or_ge k i with hlt | hge
      · exact (hbefore k hlt).symm
      · rw [Array.getElem?_eq_none (by omega), Array.getElem?_eq_none]
        rw [hperm.size_eq]
        omega
    refine ⟨[], ⟨⟨rfl, trivial⟩, by rw [hsame, exchangeAll]⟩, ?_⟩
    rintro partners ⟨⟨hlength, -⟩, -⟩
    exact List.eq_nil_of_length_eq_zero hlength
  | succ n ih =>
    have hlt : i < xs.size := by omega
    obtain ⟨j, ⟨hij, hj⟩, hget⟩ := exists_partner hlt hnodup hperm hbefore
    have hswap := Array.swap_perm hlt hj
    have hsize : (xs.swap i j hlt hj).size = xs.size := Array.size_swap ..
    have hbefore' : ∀ k < i + 1, ys[k]? = (xs.swap i j hlt hj)[k]? := by
      intro k hk
      rcases Nat.lt_succ_iff_lt_or_eq.1 hk with hk | rfl
      · rw [getElem?_swap_of_lt hij hj hk, hbefore k hk]
      · rw [getElem?_swap_self hij hj, hget]
    obtain ⟨partners, ⟨⟨hlength, hadm⟩, hall⟩, honly⟩ := ih (by omega)
      (hswap.toList.nodup_iff.2 hnodup) (hperm.trans hswap.symm) hbefore' (by omega)
    rw [hsize] at hadm
    refine ⟨j :: partners, ⟨⟨by rw [List.length_cons, hlength], ⟨hij, hj⟩, hadm⟩, ?_⟩, ?_⟩
    · rw [exchangeAll, exchange_eq_ok hlt hj]
      exact hall
    · rintro (_ | ⟨j', partners'⟩) ⟨⟨hlength', hadm'⟩, hall'⟩
      · exact absurd hlength' (Nat.succ_ne_zero n).symm
      · have hsame : j' = j := eq_of_getElem?_eq hnodup hadm'.1.2
          ((getElem?_of_exchangeAll_cons hadm' hall').symm.trans hget)
        subst hsame
        rw [exchangeAll, exchange_eq_ok hlt hj] at hall'
        rw [honly partners' ⟨⟨Nat.succ_inj.1 hlength', by rw [hsize]; exact hadm'.2⟩, hall'⟩]

/-! ### Free draws and masks -/

/-- Draws for a list of `n` rows, and a mask of the given width for each of them. -/
@[ext]
structure Choice (n width : Nat) where
  partners : List Nat
  masks : List Bytes
  length_partners : partners.length = n
  admissible : Admissible n 0 partners
  table : Bytes.Table n width masks

namespace Choice

variable {n width : Nat}

/-- For no rows there is nothing to choose. -/
theorem eq_of_zero (h : n = 0) (c c' : Choice n width) : c = c' := by
  subst h
  apply Choice.ext
  · rw [List.eq_nil_of_length_eq_zero c.length_partners, List.eq_nil_of_length_eq_zero c'.length_partners]
  · rw [List.eq_nil_of_length_eq_zero c.table.length_eq, List.eq_nil_of_length_eq_zero c'.table.length_eq]

/-- Every position is swapped with itself, and all bytes of the masks are alike. -/
def flat (b : UInt8) : Choice n width where
  partners := List.range n
  masks := List.replicate n (List.replicate width b)
  length_partners := List.length_range
  admissible := List.range_eq_range' ▸ admissible_range' (Nat.le_of_eq (Nat.zero_add n))
  table := ⟨List.length_replicate, .replicate List.length_replicate n⟩

/-- For rows that have bytes there is more than one choice. -/
theorem exists_ne (hn : n ≠ 0) (hwidth : width ≠ 0) (c : Choice n width) : ∃ c' : Choice n width, c' ≠ c := by
  by_contra hall
  have hsame : (flat 0 : Choice n width) = flat 1 := by
    rw [not_exists_not.1 hall (flat 0), not_exists_not.1 hall (flat 1)]
  have hmasks : List.replicate n (List.replicate width (0 : UInt8)) =
      List.replicate n (List.replicate width 1) := congrArg Choice.masks hsame
  rw [List.replicate_right_inj hn, List.replicate_right_inj hwidth] at hmasks
  exact absurd hmasks (by decide)

/-- The blinding that stands for a choice. Lists of other lengths are left as they are. -/
def blinding (c : Choice n width) : Blinding where
  partners rows := if rows = n then c.partners else List.range rows
  masks rows stride := if rows = n ∧ stride = width then c.masks else
    List.replicate rows (Bytes.zeros stride)

theorem lawful (c : Choice n width) : c.blinding.Lawful where
  length_partners rows := by
    simp only [blinding]
    split
    · next h => rw [c.length_partners, h]
    · exact List.length_range
  admissible rows := by
    simp only [blinding]
    split
    · next h =>
      rw [h]
      exact c.admissible
    · rw [List.range_eq_range']
      exact admissible_range' (Nat.le_of_eq (Nat.zero_add rows))
  length_masks rows stride := by
    simp only [blinding]
    split
    · next h => rw [c.table.length_eq, h.1]
    · exact List.length_replicate
  uniform_masks rows stride := by
    simp only [blinding]
    split
    · next h =>
      rw [h.2]
      exact c.table.uniform
    · exact Bytes.Uniform.replicate (Bytes.length_zeros stride) rows

theorem partners_blinding (c : Choice n width) : c.blinding.partners n = c.partners := if_pos rfl

theorem masks_blinding (c : Choice n width) : c.blinding.masks n width = c.masks := if_pos ⟨rfl, rfl⟩

theorem exchangeAll_partners (c : Choice n width) {l : List α} (h : l.length = n) :
    exchangeAll l.toArray 0 c.partners = .ok (c.blinding.shuffle l).toArray := by
  have hall := (Blinding.exchangeAll_take c.lawful l l.length).1
  rw [h, c.partners_blinding, List.take_of_length_le (Nat.le_of_eq c.length_partners)] at hall
  rw [hall, Blinding.shuffle, h]

theorem table_shuffle (c : Choice n width) {rows : List Bytes} (hrows : Bytes.Table n width rows) :
    Bytes.Table n width (c.blinding.shuffle rows) :=
  ⟨(Blinding.length_shuffle c.lawful rows).trans hrows.length_eq,
    hrows.uniform.mono (Blinding.shuffle_perm c.lawful rows).subset⟩

theorem maskedRows_eq (c : Choice n width) {rows : List Bytes} (hrows : Bytes.Table n width rows) :
    Pass.maskedRows c.blinding rows width = List.zipWith Bytes.xor (c.blinding.shuffle rows) c.masks := by
  rw [Pass.maskedRows, hrows.length_eq, c.masks_blinding]

theorem shuffle_eq_iff (c : Choice n width) {l order : List α} (h : l.length = n) :
    c.blinding.shuffle l = order ↔ exchangeAll l.toArray 0 c.partners = .ok order.toArray := by
  rw [c.exchangeAll_partners h, Except.ok.injEq]
  exact ⟨congrArg List.toArray, List.toArray_inj⟩

theorem shuffle_congr {c c' : Choice n width} (hpartners : c'.partners = c.partners) {l : List α}
    (h : l.length = n) : c'.blinding.shuffle l = c.blinding.shuffle l := by
  rw [c'.shuffle_eq_iff h, hpartners]
  exact c.exchangeAll_partners h

/-- Different labels get to a given order, and rows to given masked rows, by exactly one choice. -/
theorem existsUnique_shuffle {labels order : List α} (hlength : labels.length = n) (hnodup : labels.Nodup)
    (hperm : order.Perm labels) {rows masked : List Bytes} (hrows : Bytes.Table n width rows)
    (hmasked : Bytes.Table n width masked) :
    ∃! c : Choice n width, c.blinding.shuffle labels = order ∧
      Pass.maskedRows c.blinding rows width = masked := by
  have hperm' : order.toArray.Perm labels.toArray := List.perm_iff_toArray_perm.1 hperm
  obtain ⟨partners, ⟨⟨hpartners, hadm⟩, hall⟩, honly⟩ := existsUnique_exchangeAll
    (Nat.zero_le labels.toArray.size) hnodup hperm' fun _ hk => absurd hk (Nat.not_lt_zero _)
  rw [List.size_toArray, hlength, Nat.sub_zero] at hpartners
  rw [List.size_toArray, hlength] at hadm honly
  -- the draws are fixed by the order of the labels, and then the masks by the masked rows
  let drawn : Choice n width := ⟨partners, rows, hpartners, hadm, hrows⟩
  have hshuffled := drawn.table_shuffle hrows
  have hmasks := hmasked.zipWith_xor hshuffled
  let chosen : Choice n width := ⟨partners, _, hpartners, hadm, hmasks⟩
  refine ⟨chosen, ⟨?_, ?_⟩, ?_⟩
  · rw [shuffle_eq_iff _ hlength]
    exact hall
  · have hsame : chosen.blinding.shuffle rows = drawn.blinding.shuffle rows :=
      shuffle_congr rfl hrows.length_eq
    calc Pass.maskedRows _ rows width
      _ = List.zipWith Bytes.xor _ _ := maskedRows_eq _ hrows
      _ = List.zipWith Bytes.xor (drawn.blinding.shuffle rows) _ := congrArg (List.zipWith _ · _) hsame
      _ = masked := (hshuffled.zipWith_xor_eq_iff hmasks hmasked).2 rfl
  · rintro c ⟨horder, hrest⟩
    rw [c.shuffle_eq_iff hlength] at horder
    have hsame : c.partners = partners := honly c.partners
      ⟨⟨by rw [c.length_partners, Nat.sub_zero], c.admissible⟩, horder⟩
    rw [c.maskedRows_eq hrows, shuffle_congr (c := drawn) hsame hrows.length_eq,
      hshuffled.zipWith_xor_eq_iff c.table hmasked] at hrest
    exact Choice.ext hsame hrest

/-- What a choice makes of rows and different labels, exactly one other choice makes of other rows and
another order of the labels. -/
theorem existsUnique_shuffle_eq (c : Choice n width) {labels labels' : List α}
    (hlength : labels.length = n) (hnodup : labels.Nodup) (hperm : labels'.Perm labels)
    {rows rows' : List Bytes} (hrows : Bytes.Table n width rows) (hrows' : Bytes.Table n width rows') :
    ∃! c' : Choice n width, c'.blinding.shuffle labels' = c.blinding.shuffle labels ∧
      Pass.maskedRows c'.blinding rows' width = Pass.maskedRows c.blinding rows width := by
  apply existsUnique_shuffle (hperm.length_eq.trans hlength) (hperm.nodup_iff.2 hnodup)
    ((Blinding.shuffle_perm c.lawful labels).trans hperm.symm) hrows'
  rw [c.maskedRows_eq hrows]
  exact (c.table_shuffle hrows).zipWith_xor c.table

end Choice

/-! ### Labels that are repeated -/

/-- A choice for rows and labels corresponds to one for other rows and another order of the labels, such
that both make the same of what they are for. -/
theorem exists_equiv_shuffle_eq {n width : Nat} {labels labels' : List α} (hlength : labels.length = n)
    (hperm : labels'.Perm labels) {rows rows' : List Bytes} (hrows : Bytes.Table n width rows)
    (hrows' : Bytes.Table n width rows') :
    ∃ e : Choice n width ≃ Choice n width, ∀ c,
      (e c).blinding.shuffle labels' = c.blinding.shuffle labels ∧
        Pass.maskedRows (e c).blinding rows' width = Pass.maskedRows c.blinding rows width := by
  -- equal labels are told apart by their positions
  let names := labels.zipIdx
  have hnames : names.map Prod.fst = labels := List.zipIdx_map_fst 0 labels
  have hnodup : names.Nodup := by
    apply List.Nodup.of_map Prod.snd
    rw [List.zipIdx_map_snd]
    exact List.nodup_range'
  have hcount : names.length = n := by rw [List.length_zipIdx, hlength]
  rw [← hnames] at hperm
  obtain ⟨names', hnames', hperm⟩ := (congrFun₂ (List.eq_map_comp_perm Prod.fst) labels' names).mpr hperm
  have hcount' := hperm.length_eq.trans hcount
  have hnodup' := hperm.nodup_iff.2 hnodup
  obtain ⟨e, he⟩ := exists_equiv_of_existsUnique
    (r := fun c c' : Choice n width => c'.blinding.shuffle names' = c.blinding.shuffle names ∧
      Pass.maskedRows c'.blinding rows' width = Pass.maskedRows c.blinding rows width)
    (fun c => c.existsUnique_shuffle_eq hcount hnodup hperm hrows hrows')
    (fun c' => by
      have h := c'.existsUnique_shuffle_eq hcount' hnodup' hperm.symm hrows' hrows
      simpa only [eq_comm] using h)
  refine ⟨e, fun c => ⟨?_, (he c).2⟩⟩
  rw [hnames', Blinding.shuffle_map (e c).lawful, (he c).1, ← Blinding.shuffle_map c.lawful, hnames]

end ObliviousRouting
