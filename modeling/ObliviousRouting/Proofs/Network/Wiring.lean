import Mathlib.Data.Option.Defs
import Mathlib.Data.List.Basic
import ObliviousRouting.Mesh.Wiring
import ObliviousRouting.Proofs.Network.Histories

/-!
# A mesh is wired as it should be

Both halves of a link are entered under the right numbers: where one end sends to another one, that one receives
from it, and no other two ends share the link. Each end has halves for all ends but itself. So it makes no difference
whether messages are found by looking up a link, or by the pair of ends that they go between, as in a mesh: both
give the same answers at every turn, also when ends drop their halves.
-/

namespace ObliviousRouting.Wiring

variable {w : Wiring} {n : Nat}

/-! ### Laying links -/

/-- All tables have room for so many ends. -/
structure Square (w : Wiring) (n : Nat) : Prop where
  length_ends : w.ends.length = n
  length_senders : ∀ halves ∈ w.ends, halves.senders.length = n
  length_receivers : ∀ halves ∈ w.ends, halves.receivers.length = n

theorem join_getElem?_set {l : List (Option Nat)} {i : Nat} (hi : i < l.length) (k j : Nat) :
    (l.set i (some k))[j]?.join = if j = i then some k else l[j]?.join := by
  rw [List.getElem?_set, if_pos hi]
  by_cases hj : j = i
  · simp [hj]
  · rw [if_neg (Ne.symm hj), if_neg hj]

theorem half?_connect {table : Halves → List (Option Nat)} (entry : Nat → Nat → Nat)
    (hadd : ∀ halves other sender receiver,
      table (halves.add other sender receiver) = (table halves).set other (some (entry sender receiver)))
    (hends : w.ends.length = n) (htable : ∀ halves ∈ w.ends, (table halves).length = n) {a b : Nat} (hab : a ≠ b)
    (ha : a < n) (hb : b < n) (c d : Nat) :
    (w.connect a b).half? table c d =
      if c = a ∧ d = b then some (entry w.links (w.links + 1))
      else if c = b ∧ d = a then some (entry (w.links + 1) w.links)
      else w.half? table c d := by
  simp only [half?, connect, List.getElem?_modify]
  cases hc : w.ends[c]? with
  | none =>
    have hge : n ≤ c := hends ▸ List.getElem?_eq_none_iff.1 hc
    rw [if_neg (by omega), if_neg (by omega)]
    rfl
  | some halves =>
    have hlength := htable halves (List.mem_of_getElem? hc)
    by_cases hca : a = c
    · subst hca
      simp [hab, Ne.symm hab, hadd, join_getElem?_set, hlength, hb]
    · by_cases hcb : b = c
      · subst hcb
        simp [hab, Ne.symm hab, hadd, join_getElem?_set, hlength, ha]
      · simp [hca, hcb, Ne.symm hca, Ne.symm hcb]

/-- The links between some pairs of ends are laid. -/
structure Laid (w : Wiring) (n : Nat) (pairs : List (Nat × Nat)) : Prop where
  square : w.Square n
  /-- Where one end sends to another one, that one receives from it. -/
  receiver?_eq (a b : Nat) : w.receiver? b a = w.sender? a b
  lt_links {a b k : Nat} : w.sender? a b = some k → k < w.links
  /-- No two ends share a link with two others. -/
  sender?_inj {a b c d k : Nat} : w.sender? a b = some k → w.sender? c d = some k → a = c ∧ b = d
  isSome_iff (a b : Nat) : (w.sender? a b).isSome ↔ (a, b) ∈ pairs ∨ (b, a) ∈ pairs

theorem Square.connect (h : w.Square n) (a b : Nat) : (w.connect a b).Square n := by
  have hmodify {P : Halves → Prop} (hadd : ∀ halves other sender receiver, P halves →
      P (halves.add other sender receiver)) (hall : ∀ halves ∈ w.ends, P halves) :
      ∀ halves ∈ (w.connect a b).ends, P halves := by
    intro halves hmem
    obtain ⟨c, hc⟩ := List.getElem?_of_mem hmem
    simp only [Wiring.connect, List.getElem?_modify] at hc
    cases hold : w.ends[c]? with
    | none => simp [hold] at hc
    | some old =>
      have hP := hall old (List.mem_of_getElem? hold)
      rw [hold] at hc
      simp only [Option.map_eq_map, Option.map_some, Option.some.injEq] at hc
      subst hc
      split <;> split
      · exact hadd _ _ _ _ (hadd _ _ _ _ hP)
      · exact hadd _ _ _ _ hP
      · exact hadd _ _ _ _ hP
      · exact hP
  refine ⟨?_, hmodify ?_ h.length_senders, hmodify ?_ h.length_receivers⟩
  · rw [Wiring.connect, List.length_modify, List.length_modify, h.length_ends]
  · exact fun _ _ _ _ hlength => List.length_set.trans hlength
  · exact fun _ _ _ _ hlength => List.length_set.trans hlength

theorem Square.sender?_connect (h : w.Square n) {a b : Nat} (hab : a ≠ b) (ha : a < n) (hb : b < n) (c d : Nat) :
    (w.connect a b).sender? c d = if c = a ∧ d = b then some w.links
      else if c = b ∧ d = a then some (w.links + 1) else w.sender? c d :=
  half?_connect (fun sender _ => sender) (fun _ _ _ _ => rfl) h.length_ends h.length_senders hab ha hb c d

theorem Square.receiver?_connect (h : w.Square n) {a b : Nat} (hab : a ≠ b) (ha : a < n) (hb : b < n) (c d : Nat) :
    (w.connect a b).receiver? c d = if c = a ∧ d = b then some (w.links + 1)
      else if c = b ∧ d = a then some w.links else w.receiver? c d :=
  half?_connect (fun _ receiver => receiver) (fun _ _ _ _ => rfl) h.length_ends h.length_receivers hab ha hb
    c d

theorem Laid.connect {pairs : List (Nat × Nat)} (h : w.Laid n pairs) {a b : Nat} (hab : a ≠ b) (ha : a < n)
    (hb : b < n) : (w.connect a b).Laid n (pairs ++ [(a, b)]) where
  square := h.square.connect a b
  receiver?_eq c d := by
    rw [h.square.receiver?_connect hab ha hb, h.square.sender?_connect hab ha hb, h.receiver?_eq]
    grind
  lt_links {c d k} hk := by
    rw [h.square.sender?_connect hab ha hb] at hk
    have hold := h.lt_links (a := c) (b := d) (k := k)
    change k < w.links + 2
    grind
  sender?_inj {c d e f k} hk hk' := by
    rw [h.square.sender?_connect hab ha hb] at hk hk'
    have hlt := h.lt_links (a := c) (b := d) (k := k)
    have hlt' := h.lt_links (a := e) (b := f) (k := k)
    have hinj := h.sender?_inj (a := c) (b := d) (c := e) (d := f) (k := k)
    grind
  isSome_iff c d := by
    have hold := h.isSome_iff c d
    rw [h.square.sender?_connect hab ha hb, List.mem_append, List.mem_append, List.mem_singleton, List.mem_singleton]
    grind

/-- Every pair of ends, in the order in which their links are laid. -/
def pairs (n : Nat) : List (Nat × Nat) :=
  (List.range n).flatMap fun a => (List.range' (a + 1) (n - (a + 1))).map fun b => (a, b)

theorem mem_pairs {a b : Nat} : (a, b) ∈ pairs n ↔ a < b ∧ b < n := by
  simp only [pairs, List.mem_flatMap, List.mem_map, List.mem_range, List.mem_range'_1, Prod.mk.injEq]
  constructor
  · rintro ⟨a, ha, b, hb, rfl, rfl⟩
    omega
  · intro h
    exact ⟨a, by omega, b, by omega, rfl, rfl⟩

theorem channels_eq (n : Nat) : channels n =
    (pairs n).foldl (fun w pair => w.connect pair.1 pair.2) { ends := .replicate n (.none n) } := by
  simp only [channels, pairs, List.foldl_flatMap, List.foldl_map]

theorem half?_replicate (table : Halves → List (Option Nat)) (htable : table (.none n) = .replicate n none)
    (a b : Nat) : ({ ends := .replicate n (.none n) } : Wiring).half? table a b = none := by
  simp only [half?, List.getElem?_replicate]
  split
  · rw [Option.bind_some, htable, List.getElem?_replicate]
    split <;> rfl
  · rfl

theorem laid_none (n : Nat) : ({ ends := .replicate n (.none n) } : Wiring).Laid n [] := by
  have hsender := half?_replicate (n := n) Halves.senders rfl
  have hreceiver := half?_replicate (n := n) Halves.receivers rfl
  constructor
  · constructor <;> simp [Halves.none]
  · intro a b
    rw [receiver?, sender?, hsender, hreceiver]
  · intro a b k h
    rw [sender?, hsender] at h
    cases h
  · intro a b c d k h
    rw [sender?, hsender] at h
    cases h
  · intro a b
    rw [sender?, hsender]
    simp

theorem Laid.foldl {before after : List (Nat × Nat)} (h : w.Laid n before)
    (hafter : ∀ pair ∈ after, pair.1 < pair.2 ∧ pair.2 < n) :
    (after.foldl (fun w pair => w.connect pair.1 pair.2) w).Laid n (before ++ after) := by
  induction after generalizing w before with
  | nil => rwa [List.append_nil]
  | cons pair after ih =>
    rw [List.forall_mem_cons] at hafter
    have hnext := h.connect (a := pair.1) (b := pair.2) (by omega) (by omega) (by omega)
    rw [List.append_cons]
    exact ih hnext hafter.2

theorem laid_channels (n : Nat) : (channels n).Laid n (pairs n) := by
  rw [channels_eq]
  exact (laid_none n).foldl fun pair h => mem_pairs.1 h

/-! ### The halves of one end -/

theorem half?_eq_none (table : Halves → List (Option Nat)) {place : Nat} (hplace : w.ends[place]? = none)
    (other : Nat) : w.half? table place other = none := by
  rw [half?, hplace]
  rfl

theorem some_mem_table_iff (table : Halves → List (Option Nat)) {place : Nat} {halves : Halves}
    (hplace : w.ends[place]? = some halves) (k : Nat) :
    some k ∈ table halves ↔ ∃ other, w.half? table place other = some k := by
  simp [half?, hplace, List.mem_iff_getElem?, Option.join_eq_some_iff]

section

variable {pairs : List (Nat × Nat)} (h : w.Laid n pairs) {place a b k : Nat} {halves : Halves}
  (hplace : w.ends[place]? = some halves) (hk : w.sender? a b = some k)
include h hplace hk

/-- An end sends on its own links only. -/
theorem Laid.mem_senders_iff : some k ∈ halves.senders ↔ a = place := by
  rw [some_mem_table_iff Halves.senders hplace]
  constructor
  · rintro ⟨other, hother⟩
    exact (h.sender?_inj hk hother).1
  · rintro rfl
    exact ⟨b, hk⟩

/-- An end receives on the links to it only. -/
theorem Laid.mem_receivers_iff : some k ∈ halves.receivers ↔ b = place := by
  rw [some_mem_table_iff Halves.receivers hplace]
  constructor
  · rintro ⟨other, hother⟩
    exact (h.sender?_inj hk ((h.receiver?_eq other place).symm.trans hother)).2
  · rintro rfl
    exact ⟨a, (h.receiver?_eq a b).trans hk⟩

end

/-! ### The wiring and the mesh -/

/-- The tables stay as they are when messages pass and ends leave. -/
theorem Laid.congr {w' : Wiring} {pairs : List (Nat × Nat)} (h : w.Laid n pairs) (hends : w'.ends = w.ends)
    (hlinks : w'.links = w.links) : w'.Laid n pairs := by
  have hsender : w'.sender? = w.sender? := by
    funext a b
    rw [sender?, half?, hends]
    rfl
  have hreceiver : w'.receiver? = w.receiver? := by
    funext a b
    rw [receiver?, half?, hends]
    rfl
  constructor
  · exact ⟨hends ▸ h.square.length_ends, hends ▸ h.square.length_senders, hends ▸ h.square.length_receivers⟩
  · exact hsender ▸ hreceiver ▸ h.receiver?_eq
  · exact hsender ▸ hlinks ▸ h.lt_links
  · exact hsender ▸ h.sender?_inj
  · exact hsender ▸ h.isSome_iff

/-- What is wired between some ends, and the mesh that it stands for. -/
structure Matches (w : Wiring) (m : Mesh) : Prop where
  laid : w.Laid m.parties (pairs m.parties)
  carriage_eq : m.carriage = .reliable
  capacity_eq : w.capacity = m.capacity
  queue_eq {a b k : Nat} : w.sender? a b = some k → w.queue k = m.queue a b
  mem_unsent {a b k : Nat} : w.sender? a b = some k → (k ∈ w.unsent ↔ a ∈ m.gone)
  mem_unreceived {a b k : Nat} : w.sender? a b = some k → (k ∈ w.unreceived ↔ b ∈ m.gone)

/-- Both give the same answer, or both have the other end wait. -/
def Agree {β : Type} : Option (β × Wiring) → Option (β × Mesh) → Prop :=
  Option.Rel fun x y => x.1 = y.1 ∧ x.2.Matches y.2

/-- Laying links puts no message on a link, and drops no half. -/
theorem foldl_connect_unchanged (l : List (Nat × Nat)) (w : Wiring) :
    (l.foldl (fun w pair => w.connect pair.1 pair.2) w).capacity = w.capacity ∧
      (l.foldl (fun w pair => w.connect pair.1 pair.2) w).queue = w.queue ∧
      (l.foldl (fun w pair => w.connect pair.1 pair.2) w).unsent = w.unsent ∧
      (l.foldl (fun w pair => w.connect pair.1 pair.2) w).unreceived = w.unreceived := by
  induction l generalizing w with
  | nil => exact ⟨rfl, rfl, rfl, rfl⟩
  | cons pair l ih => exact ih (w.connect pair.1 pair.2)

theorem matches_channels (n : Nat) : (channels n).Matches { parties := n } := by
  have hbare := foldl_connect_unchanged (pairs n) { ends := .replicate n (.none n) }
  rw [← channels_eq] at hbare
  obtain ⟨hcapacity, hqueue, hunsent, hunreceived⟩ := hbare
  constructor
  · exact laid_channels n
  · rfl
  · exact hcapacity
  · intro a b k _
    rw [hqueue]
  · intro a b k _
    rw [hunsent]
    simp
  · intro a b k _
    rw [hunreceived]
    simp

namespace Matches

variable {m : Mesh} (h : w.Matches m)
include h

theorem isSome_iff (a b : Nat) : (w.sender? a b).isSome ↔ m.Linked a b := by
  rw [h.laid.isSome_iff, mem_pairs, mem_pairs, Mesh.Linked]
  omega

theorem sender?_eq_none {a b : Nat} (hlink : ¬ m.Linked a b) : w.sender? a b = none := by
  rwa [← h.isSome_iff, Bool.not_eq_true, Option.isSome_eq_false_iff, Option.isNone_iff_eq_none] at hlink

theorem exists_sender? {a b : Nat} (hlink : m.Linked a b) : ∃ k, w.sender? a b = some k :=
  Option.isSome_iff_exists.1 ((h.isSome_iff a b).2 hlink)

theorem note (t : Sending) : w.Matches (m.note t) :=
  ⟨h.laid, h.carriage_eq, h.capacity_eq, h.queue_eq, h.mem_unsent, h.mem_unreceived⟩

/-- The messages on a link are replaced. -/
theorem setQueue {a b k : Nat} (hk : w.sender? a b = some k) (messages : List Bytes) :
    (w.setQueue k messages).Matches (m.setQueue a b messages) where
  laid := h.laid.congr rfl rfl
  carriage_eq := h.carriage_eq
  capacity_eq := h.capacity_eq
  queue_eq {c d l} hl := by
    have hold := h.queue_eq hl
    change (if l = k then messages else w.queue l) = if c = a ∧ d = b then messages else m.queue c d
    by_cases hlink : c = a ∧ d = b
    · obtain ⟨rfl, rfl⟩ := hlink
      rw [if_pos (Option.some.inj (hl.symm.trans hk)), if_pos ⟨rfl, rfl⟩]
    · rw [if_neg hlink, if_neg, hold]
      rintro rfl
      exact hlink (h.laid.sender?_inj hl hk)
  mem_unsent hl := h.mem_unsent hl
  mem_unreceived hl := h.mem_unreceived hl

theorem send (a b : Nat) (phase : String) (message : Bytes) :
    Agree (w.send a b message) (m.send a b phase message) := by
  rw [Mesh.send_eq_of_reliable h.carriage_eq]
  by_cases hlink : m.Linked a b
  · obtain ⟨k, hk⟩ := h.exists_sender? hlink
    simp only [Wiring.send, hk, h.mem_unreceived hk, h.capacity_eq, h.queue_eq hk]
    rw [if_pos hlink]
    split_ifs
    · exact .some ⟨rfl, h.note _⟩
    · exact .none
    · exact .some ⟨rfl, (h.note _).setQueue hk _⟩
  · simp only [Wiring.send, h.sender?_eq_none hlink]
    rw [if_neg hlink]
    exact .some ⟨rfl, h.note _⟩

theorem receive (b a : Nat) : Agree (w.receive b a) (m.receive b a) := by
  have hlinked : m.Linked b a ↔ m.Linked a b := by
    simp only [Mesh.Linked]
    omega
  by_cases hlink : m.Linked a b
  · obtain ⟨k, hk⟩ := h.exists_sender? hlink
    have hreceiver : w.receiver? b a = some k := (h.laid.receiver?_eq a b).trans hk
    simp only [Wiring.receive, Mesh.receive, hreceiver, h.queue_eq hk]
    rw [if_neg (not_not_intro (hlinked.2 hlink))]
    cases m.queue a b with
    | nil =>
      simp only [h.mem_unsent hk]
      split_ifs
      · exact .some ⟨rfl, h⟩
      · exact .none
    | cons message rest => exact .some ⟨rfl, h.setQueue hk rest⟩
  · have hreceiver : w.receiver? b a = none := (h.laid.receiver?_eq a b).trans (h.sender?_eq_none hlink)
    simp only [Wiring.receive, Mesh.receive, hreceiver]
    rw [if_pos (mt hlinked.1 hlink)]
    exact .some ⟨rfl, h⟩

theorem drop (place : Nat) : (w.drop place).Matches (m.drop place) := by
  rw [Wiring.drop]
  cases hplace : w.ends[place]? with
  | none =>
    -- nobody holds such halves
    refine ⟨h.laid, h.carriage_eq, h.capacity_eq, h.queue_eq, fun {a b k} hk => ?_, fun {a b k} hk => ?_⟩
    · have hne : a ≠ place := by
        rintro rfl
        rw [sender?, half?_eq_none _ hplace] at hk
        cases hk
      simp [Mesh.drop, h.mem_unsent hk, hne]
    · have hne : b ≠ place := by
        rintro rfl
        rw [← h.laid.receiver?_eq, receiver?, half?_eq_none _ hplace] at hk
        cases hk
      simp [Mesh.drop, h.mem_unreceived hk, hne]
  | some halves =>
    refine ⟨h.laid.congr rfl rfl, h.carriage_eq, h.capacity_eq, h.queue_eq, fun {a b k} hk => ?_,
      fun {a b k} hk => ?_⟩
    · have hown := h.laid.mem_senders_iff hplace hk
      simp [Mesh.drop, hown, h.mem_unsent hk]
    · have hown := h.laid.mem_receivers_iff hplace hk
      simp [Mesh.drop, hown, h.mem_unreceived hk]

end Matches

end ObliviousRouting.Wiring
