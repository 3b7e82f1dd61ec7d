import ObliviousRouting.Proofs.Switching.Logs
import ObliviousRouting.Proofs.Switching.Secrecy

/-!
# The traffic shows the shape of a run only

Somebody who watches a link without reading the messages sees when they come and how long they are. The
phases and lengths on each link are computed here from the shape of a run alone, so they are the same for
all plans, rows, modes, seats and tapes.
-/

namespace ObliviousRouting

/-- The phases of messages and their lengths. -/
def outline (l : List (String × Bytes)) : List (String × Nat) :=
  l.map fun (phase, message) => (phase, message.length)

theorem outline_append (l l' : List (String × Bytes)) : outline (l ++ l') = outline l ++ outline l' :=
  List.map_append

theorem outline_batchLog (phase : String) {n : Nat} {size : BatchSize} {message : Nat → Bytes}
    {length : Nat → Nat} (h : ∀ k < size.count n, (message k).length = length k) :
    outline (batchLog phase n size message) =
      (List.range (size.count n)).map fun k => (phase, length k) := by
  rw [outline, batchLog, List.map_map]
  apply List.map_congr_left
  intro k hk
  exact congrArg (Prod.mk phase) (h k (List.mem_range.1 hk))

theorem CoinToss.outline_openings (own : Nat) (secret : Word256) (phase : String) :
    outline (openings own secret phase) = [(phase, 40), (phase, 40)] := by
  simp only [openings, outline, List.map_cons, List.map_nil, Codec.length_encodeList, List.length_singleton,
    secret.length_bytes]
  rfl

namespace Switching

namespace Shape

variable (shape : Shape)

/-- The number of rows in batch `k`. -/
def batchRows (k : Nat) : Nat :=
  min (k * shape.size.step + shape.size.step) shape.selectRows - k * shape.size.step

/-- One message for each batch, of a length that depends on the number of rows in it. -/
def batches (phase : String) (length : Nat → Nat) : List (String × Nat) :=
  (List.range (shape.size.count shape.selectRows)).map fun k => (phase, length (shape.batchRows k))

def rowBatches (phase : String) : List (String × Nat) := shape.batches phase fun n => n * shape.stride

def targetBatches (phase : String) : List (String × Nat) :=
  shape.batches phase fun n => 8 + n * Target.codec.width

def selecting : Part → Part → List (String × Nat)
  | .planner, .owner | .owner, .planner => [("select seed", 40), ("select seed", 40)]
  | .owner, .helper => shape.rowBatches "select"
  | .planner, .helper => shape.targetBatches "select"
  | _, _ => []

def copying : Kind → Part → Part → List (String × Nat)
  | .general, .planner, .helper => [("duplicate flips", 40), ("duplicate flips", 40)]
  | .general, .planner, .owner => shape.batches "duplicate" Bits.bytesFor
  | .general, .owner, .helper | .general, .helper, .owner =>
    [("duplicate pads", 40), ("duplicate pads", 40)]
  | .general, .owner, .planner => shape.rowBatches "duplicate"
  | .general, .helper, .planner => [("duplicate flips", 40), ("duplicate flips", 40)] ++
      shape.batches "duplicate" fun n => 2 * (n * shape.stride)
  | _, _, _ => []

def scattering : Part → Part → List (String × Nat)
  | .planner, .helper | .helper, .planner => [("scatter seed", 40), ("scatter seed", 40)]
  | .planner, .owner => shape.targetBatches "scatter"
  | .helper, .owner => shape.rowBatches "scatter"
  | _, _ => []

/-- The phases and lengths of all that a part sends to another one. -/
def outline (a b : Part) : List (String × Nat) :=
  [(greetingPhase, (Text.encode (shape.greeting a)).length)] ++
    (shape.selecting a b ++ (shape.copying shape.kind a b ++ shape.scattering a b))

end Shape

namespace Run

variable {r r' : Run} {s s' t t' : Setting} {m m' : Mesh}

section Outline

variable {x : Expansion} (h : r.Ready s)
include h

/-- A batch of rows that are hidden by masks. -/
theorem outline_rows {blinding : Blinding} (hblinding : blinding.Lawful) (phase : String)
    {rows : List Bytes} (hrows : rows.length = r.rows) (huniform : Bytes.Uniform r.source.stride rows) :
    outline (batchLog phase rows.length r.size (Pass.rowsMessage blinding rows r.source.stride r.size)) =
      r.shape.rowBatches phase := by
  rw [Shape.rowBatches, Shape.batches, h.shape_selectRows, ← hrows]
  apply outline_batchLog
  intro k _
  have hlength : r.targets.length = rows.length := h.length_targets.trans hrows.symm
  rw [Shape.batchRows, h.shape_selectRows, ← hrows,
    Pass.length_rowsMessage r.size hblinding hlength huniform,
    Pass.length_batch_shuffle r.size hblinding hlength]
  rfl

theorem outline_targets {blinding : Blinding} (hblinding : blinding.Lawful) (phase : String)
    {targets : List Target} (htargets : targets.length = r.rows) :
    outline (batchLog phase targets.length r.size (Pass.targetsMessage blinding targets r.size)) =
      r.shape.targetBatches phase := by
  rw [Shape.targetBatches, Shape.batches, h.shape_selectRows, ← htargets]
  apply outline_batchLog
  intro k _
  rw [Pass.targetsMessage, Codec.length_encodeList, Shape.batchRows, h.shape_selectRows, ← htargets,
    BatchSize.length_batch_eq (Blinding.length_shuffle hblinding targets)]
  rfl

variable (hx : x.Lawful r.rows r.source.stride r.size)
include hx

theorem outline_selectingLog (a b : Part) :
    outline (r.selectingLog x s a b) = r.shape.selecting a b := by
  cases a <;> cases b <;> simp only [selectingLog, Shape.selecting]
  · rfl
  · exact CoinToss.outline_openings ..
  · exact outline_targets h (hx.selecting _) "select" h.length_targets
  · exact CoinToss.outline_openings ..
  · rfl
  · exact outline_rows h (hx.selecting _) "select" h.length_slots h.uniform_slots
  · rfl
  · rfl
  · rfl

variable (hwidth : r.source.stride < Size.bufferLimit)
include hwidth

theorem outline_copyingLog (kind : Kind) (a b : Part) :
    outline (r.copyingLog x s kind a b) = r.shape.copying kind a b := by
  have hflips : (r.flips x s).length = r.rows := hx.length_flips _
  have hpads : (pads x s).Cover r.rows r.source.stride r.size := hx.pads _
  have hrows := h.shape_selectRows
  have hown := h.uniform_selected' hwidth hx
  have hfresh : (Duplicate.freshRows x s.helper r.rows r.source.stride).length = r.rows :=
    Duplicate.length_freshRows
  have hpos {k : Nat} (hk : k < r.size.count r.rows) : 0 < r.source.stride :=
    BatchSize.width_pos (h.sizes hwidth).width_pos hk
  cases kind with
  | permutation => rfl
  | general =>
    cases a <;> cases b <;> simp only [copyingLog, Shape.copying]
    · rfl
    · rw [Shape.batches, hrows]
      apply outline_batchLog
      intro k _
      rw [Reveal.choicesMessage, Bits.length_pack,
        Reveal.length_batch_blindChoices Plan.length_copies hflips, Shape.batchRows, hrows]
      rfl
    · exact CoinToss.outline_openings ..
    · rw [Shape.rowBatches, Shape.batches, hrows]
      apply outline_batchLog
      intro k hk
      rw [padsMessage, Reveal.length_padsMessage Plan.length_copies hflips hpads (hpos hk) hk,
        Shape.batchRows, hrows]
      rfl
    · rfl
    · exact CoinToss.outline_openings ..
    · rw [outline_append, CoinToss.outline_openings, Shape.batches, hrows]
      congr 1
      apply outline_batchLog
      intro k hk
      rw [pairsMessage, Reveal.length_pairsMessage hflips
        (Duplicate.length_firstRows h.length_selected' hfresh) (Duplicate.length_secondRows hfresh)
        (hown.zipWith_xor _) ((Duplicate.uniform_freshRows hx).zipWith_xor _) (hpos hk), Shape.batchRows,
        hrows]
      rfl
    · exact CoinToss.outline_openings ..
    · rfl

theorem outline_scatteringLog (a b : Part) :
    outline (r.scatteringLog x s a b) = r.shape.scattering a b := by
  cases a <;> cases b <;> simp only [scatteringLog, Shape.scattering]
  · rfl
  · exact outline_targets h (hx.scattering _) "scatter" (Plan.length_scatterTargets _)
  · exact CoinToss.outline_openings ..
  · rfl
  · rfl
  · rfl
  · exact CoinToss.outline_openings ..
  · exact outline_rows h (hx.scattering _) "scatter" (h.length_copied' _)
      (h.uniform_copied' hwidth hx _)
  · rfl

theorem outline_log (a b : Part) : outline (r.log x s a b) = r.shape.outline a b := by
  rw [log, outline_append, outline_append, outline_append, outline_selectingLog h hx,
    outline_copyingLog h hx hwidth, outline_scatteringLog h hx hwidth]
  rfl

end Outline

/-- What can be seen on a link of a run that ends well, without reading the messages. -/
theorem Succeeds.outline_traffic (hrun : r.Succeeds s s' m) (h : r.Admitted s) {a b : Part}
    (hne : a ≠ b) : outline (m.traffic (r.parties.of a) (r.parties.of b)) = r.shape.outline a b := by
  obtain ⟨hready, hwidth, -⟩ := hrun.leaves h
  rw [hrun.traffic_eq h hne, outline_log hready (Expansion.lawful_keystreams ..) hwidth]

/-- Runs of the same shape that end well cannot be told apart by the phases and lengths of their messages
on any link, whatever they route for whom. -/
theorem same_outlines (h : r.Admitted s) (h' : r'.Admitted t) (hkind : r.kind = r'.kind)
    (hsource : r.source.size = r'.source.size) (hdest : s.planner.dest.size = t.planner.dest.size)
    (hstride : r.source.stride = r'.source.stride) (hsize : r.size = r'.size)
    (hrun : r.Succeeds s s' m) (hrun' : r'.Succeeds t t' m') (a b : Part) (hne : a ≠ b) :
    outline (m.traffic (r.parties.of a) (r.parties.of b)) =
      outline (m'.traffic (r'.parties.of a) (r'.parties.of b)) := by
  have hready := (hrun.leaves h).1
  have hready' := (hrun'.leaves h').1
  have hshape : r.shape = r'.shape := by
    rw [shape, shape, ← hready.planner_size, ← hready'.planner_size, hkind, hsource, hdest, hstride, hsize]
  rw [hrun.outline_traffic h hne, hrun'.outline_traffic h' hne, hshape]

/-- Keeps two other rows, between other ends and in other modes. -/
def keepRun : Run :=
  { copyRun with
    parties := ⟨1, 2, 0⟩
    plan := keeping
    source := pair 8 9
    mode := .overwrite }

/-- Other old rows, and other tapes. -/
def keepSetting : Setting where
  planner := ⟨.ofParty .zero 3, {}, pair 4 3⟩
  owner := ⟨.ofParty .zero 4, pair 2 1⟩
  helper := .ofParty .zero 5

theorem fits_keepRun : keepRun.Fits keepSetting id where
  feeds := ⟨[⟨0, 0⟩, ⟨1, 1⟩], by decide, _, rfl, .inl rfl⟩
  injective := nofun
  seated := by constructor <;> decide
  owner_size := by decide
  planner_stride := by decide
  owner_stride := by decide
  rows_lt := by decide
  batch_lt := by decide
  source_fits := by decide
  planner_fits := by decide
  owner_fits := by decide

theorem same_outlines_of_keeping : ∃ s' t' m m', copyRun.Succeeds pairSetting s' m ∧
    keepRun.Succeeds keepSetting t' m' ∧ ∀ a b : Part, a ≠ b →
      outline (m.traffic (copyRun.parties.of a) (copyRun.parties.of b)) =
        outline (m'.traffic (keepRun.parties.of a) (keepRun.parties.of b)) := by
  obtain ⟨s', m, hrun⟩ := fits_copyRun.succeeds (by decide)
  obtain ⟨t', m', hrun'⟩ := fits_keepRun.succeeds (by decide)
  exact ⟨s', t', m, m', hrun, hrun', same_outlines fits_copyRun.admitted fits_keepRun.admitted rfl rfl rfl rfl
    rfl hrun hrun'⟩

end Run

end Switching

end ObliviousRouting
