import ObliviousRouting.Proofs.Switching.BatchSizes
import ObliviousRouting.Proofs.Switching.Traffic

/-!
# What each part tells each other one

The traffic on a link is what the four stages of a run hand to it, one after the other. Each stage has a log
for every two parts: the greeting of one to the other, its openings in their coin tosses, and one message for
each batch of rows, targets, choices, pairs or pads. A run that ends well, in whatever order of steps, leaves
just these logs behind.
-/

namespace ObliviousRouting

open Course

variable {q : Nat}

/-- One message for each batch of `n` rows. -/
def batchLog (phase : String) (n : Nat) (size : BatchSize) (message : Nat → Bytes) :
    List (String × Bytes) :=
  (List.range (size.count n)).map fun k => (phase, message k)

namespace CoinToss

/-- What a party sends to toss a coin: a commitment to its secret, and the secret. -/
def openings (own : Nat) (secret : Word256) (phase : String) : List (String × Bytes) :=
  [(phase, Codec.word256.encodeList [commitment secret own]), (phase, Codec.byte.encodeList secret.bytes)]

theorem outbox_course_other (own other : Nat) (secret opened : Word256) (phase : String) :
    outbox (course own other secret opened phase) other = openings own secret phase := by
  simp [course, openings, outbox, Action.outgoing]

end CoinToss

namespace Pass

variable {x : Blinding} {rows : List Bytes} {targets : List Target} {width : Nat} {size : BatchSize}
  {collector : Nat} {phase : String}

theorem outbox_sendCourse_collector : outbox (sendCourse x rows width size collector phase) collector =
    batchLog phase rows.length size (rowsMessage x rows width size) := by
  rw [sendCourse, outbox, List.flatMap_map, batchLog, List.map_eq_flatMap]
  simp only [Action.outgoing, if_true]

theorem outbox_routeCourse_collector : outbox (routeCourse x targets size collector phase) collector =
    batchLog phase targets.length size (targetsMessage x targets size) := by
  rw [routeCourse, outbox, List.flatMap_map, batchLog, List.map_eq_flatMap]
  simp only [Action.outgoing, if_true]

theorem outbox_routeCourse (h : collector ≠ q) :
    outbox (routeCourse x targets size collector phase) q = [] := by
  rw [routeCourse, outbox, List.flatMap_map, List.flatMap_eq_nil_iff]
  exact fun k _ => if_neg h

end Pass

namespace Reveal

variable {choices flips : List Bool} {pads : Pads} {rows₀ rows₁ : List Bytes} {n width : Nat}
  {size : BatchSize} {offering serving chooser : Nat} {phase : String}

theorem outbox_chooseCourse_serving :
    outbox (chooseCourse choices flips pads rows₀ rows₁ n width size offering serving phase) serving =
      batchLog phase n size (choicesMessage choices flips size) := by
  simp only [chooseCourse, outbox, List.flatMap_assoc, List.cons_append, List.nil_append,
    List.flatMap_cons, List.flatMap_nil, Action.outgoing, if_true, List.append_nil, batchLog,
    List.map_eq_flatMap]

theorem outbox_chooseCourse (h : serving ≠ q) :
    outbox (chooseCourse choices flips pads rows₀ rows₁ n width size offering serving phase) q = [] := by
  rw [chooseCourse, outbox, List.flatMap_assoc, List.flatMap_eq_nil_iff]
  intro k _
  simp [Action.outgoing, h]

theorem outbox_offerCourse_of_ne (h : chooser ≠ q) :
    outbox (offerCourse flips pads rows₀ rows₁ n width size chooser phase) q = [] := by
  rw [offerCourse, outbox, List.flatMap_assoc, List.flatMap_eq_nil_iff]
  intro k _
  simp [Action.outgoing, h]

theorem outbox_serveCourse_of_ne (h : chooser ≠ q) :
    outbox (serveCourse choices flips pads n width size chooser phase) q = [] := by
  rw [serveCourse, outbox, List.flatMap_assoc, List.flatMap_eq_nil_iff]
  intro k _
  simp [Action.outgoing, h]

end Reveal

namespace Switching

namespace Run

/-! ### The logs of the stages -/

section Logs

variable (x : Expansion) (r : Run) (s : Setting)

def greetingLog (a : Part) : List (String × Bytes) :=
  [(greetingPhase, Text.encode (r.shape.greeting a))]

def selectingLog : Part → Part → List (String × Bytes)
  | .planner, .owner => CoinToss.openings r.parties.planner s.planner.tape.secret.1 "select seed"
  | .owner, .planner => CoinToss.openings r.parties.owner s.owner.tape.secret.1 "select seed"
  | .owner, .helper => batchLog "select" r.slots.length r.size
      (Pass.rowsMessage (x.selecting (Select.seed s.planner.tape s.owner.tape)) r.slots r.source.stride
        r.size)
  | .planner, .helper => batchLog "select" r.targets.length r.size
      (Pass.targetsMessage (x.selecting (Select.seed s.planner.tape s.owner.tape)) r.targets r.size)
  | _, _ => []

def copyingLog : Kind → Part → Part → List (String × Bytes)
  | .general, .planner, .helper =>
    CoinToss.openings r.parties.planner s.planner.tape.secret.2.secret.1 "duplicate flips"
  | .general, .planner, .owner => batchLog "duplicate" r.rows r.size
      (Reveal.choicesMessage (r.plan.group.copies r.rows) (r.flips x s) r.size)
  | .general, .owner, .helper =>
    CoinToss.openings r.parties.owner s.owner.tape.secret.2.secret.1 "duplicate pads"
  | .general, .owner, .planner => batchLog "duplicate" r.rows r.size (r.padsMessage x s)
  | .general, .helper, .planner =>
    CoinToss.openings r.parties.helper s.helper.secret.1 "duplicate flips" ++
      batchLog "duplicate" r.rows r.size (r.pairsMessage x s)
  | .general, .helper, .owner =>
    CoinToss.openings r.parties.helper s.helper.secret.2.secret.1 "duplicate pads"
  | _, _, _ => []

def scatteringLog : Part → Part → List (String × Bytes)
  | .planner, .helper =>
    CoinToss.openings r.parties.planner (plannerTape s r.kind).secret.1 "scatter seed"
  | .helper, .planner =>
    CoinToss.openings r.parties.helper (r.helperTape x s r.kind).secret.1 "scatter seed"
  | .planner, .owner => batchLog "scatter" r.plan.group.scatterTargets.length r.size
      (Pass.targetsMessage (x.scattering (Scatter.seed (plannerTape s r.kind) (r.helperTape x s r.kind)))
        r.plan.group.scatterTargets r.size)
  | .helper, .owner => batchLog "scatter" (r.copied' x s r.kind).length r.size
      (Pass.rowsMessage (x.scattering (Scatter.seed (plannerTape s r.kind) (r.helperTape x s r.kind)))
        (r.copied' x s r.kind) r.source.stride r.size)
  | _, _ => []

/-- All that a part hands to the link to another one, in order. -/
def log (a b : Part) : List (String × Bytes) :=
  r.greetingLog a ++ (r.selectingLog x s a b ++ (r.copyingLog x s r.kind a b ++ r.scatteringLog x s a b))

end Logs

variable {x : Expansion} {r : Run} {s s' : Setting} {m : Mesh}

section Stages

variable (h : r.parties.Seated r.ends) {a b : Part} (hne : a ≠ b)
include h hne

theorem outbox_greetings : outbox (greetings r.parties (fun _ => r.shape) (r.parties.of a))
    (r.parties.of b) = r.greetingLog a := by
  have hpo := h.planner_ne_owner
  have hph := h.planner_ne_helper
  have hoh := h.owner_ne_helper
  cases a <;> cases b <;>
    first
    | exact absurd rfl hne
    | simp [greetings, greetCourse, greetingLog, Part.peers, Part.all, Parties.of, outbox,
        Action.outgoing, Timetable.trio_second, Timetable.trio_third, hpo, hph, hoh, hpo.symm, hph.symm,
        hoh.symm]

theorem outbox_selecting : outbox (Select.timetable x r.parties s.planner.tape s.owner.tape r.slots
    r.targets r.source.stride r.size (r.parties.of a)) (r.parties.of b) = r.selectingLog x s a b := by
  have hph := h.planner_ne_helper
  have hoh := h.owner_ne_helper
  cases a <;> cases b <;> simp only [Parties.of, selectingLog]
  · exact absurd rfl hne
  · rw [Select.timetable_planner h.apart, outbox_append, CoinToss.outbox_course_other,
      Pass.outbox_routeCourse hoh.symm, List.append_nil]
  · rw [Select.timetable_planner h.apart, outbox_append, CoinToss.outbox_course hoh,
      Pass.outbox_routeCourse_collector, List.nil_append]
  · rw [Select.timetable_owner h.apart, outbox_append, CoinToss.outbox_course_other,
      Pass.outbox_sendCourse hph.symm, List.append_nil]
  · exact absurd rfl hne
  · rw [Select.timetable_owner h.apart, outbox_append, CoinToss.outbox_course hph,
      Pass.outbox_sendCourse_collector, List.nil_append]
  · rw [Select.timetable_helper h.apart, Pass.outbox_collectCourse]
  · rw [Select.timetable_helper h.apart, Pass.outbox_collectCourse]
  · exact absurd rfl hne

theorem outbox_copying (kind : Kind) : outbox (r.copying x s kind (r.parties.of a)) (r.parties.of b) =
    r.copyingLog x s kind a b := by
  have hpo := h.planner_ne_owner
  have hph := h.planner_ne_helper
  have hoh := h.owner_ne_helper
  cases kind with
  | permutation => rfl
  | general =>
    cases a <;> cases b <;> simp only [Parties.of, copyingLog, copying]
    · exact absurd rfl hne
    · rw [Duplicate.timetable_planner h.apart, outbox_append, CoinToss.outbox_course hoh.symm,
        Reveal.outbox_chooseCourse_serving, List.nil_append]
      rfl
    · rw [Duplicate.timetable_planner h.apart, outbox_append, CoinToss.outbox_course_other,
        Reveal.outbox_chooseCourse hoh, List.append_nil]
    · rw [Duplicate.timetable_owner h.apart, outbox_append, CoinToss.outbox_course hph.symm,
        Reveal.outbox_serveCourse, List.nil_append]
      rfl
    · exact absurd rfl hne
    · rw [Duplicate.timetable_owner h.apart, outbox_append, CoinToss.outbox_course_other,
        Reveal.outbox_serveCourse_of_ne hph, List.append_nil]
    · rw [Duplicate.timetable_helper h.apart, outbox_append, outbox_append, CoinToss.outbox_course_other,
        CoinToss.outbox_course hpo.symm, Reveal.outbox_offerCourse, List.nil_append]
      rfl
    · rw [Duplicate.timetable_helper h.apart, outbox_append, outbox_append, CoinToss.outbox_course hpo,
        CoinToss.outbox_course_other, Reveal.outbox_offerCourse_of_ne hpo, List.nil_append,
        List.append_nil]
    · exact absurd rfl hne

theorem outbox_scattering : outbox (Scatter.timetable x r.parties (plannerTape s r.kind)
    (r.helperTape x s r.kind) r.plan.group (r.copied' x s r.kind) r.source.stride r.size
    (r.parties.of a)) (r.parties.of b) = r.scatteringLog x s a b := by
  have hpo := h.planner_ne_owner
  have hoh := h.owner_ne_helper
  cases a <;> cases b <;> simp only [Parties.of, scatteringLog]
  · exact absurd rfl hne
  · rw [Scatter.timetable_planner h.apart, outbox_append, CoinToss.outbox_course hoh.symm,
      Pass.outbox_routeCourse_collector, List.nil_append]
  · rw [Scatter.timetable_planner h.apart, outbox_append, CoinToss.outbox_course_other,
      Pass.outbox_routeCourse hoh, List.append_nil]
  · rw [Scatter.timetable_owner h.apart, Pass.outbox_collectCourse]
  · exact absurd rfl hne
  · rw [Scatter.timetable_owner h.apart, Pass.outbox_collectCourse]
  · rw [Scatter.timetable_helper h.apart, outbox_append, CoinToss.outbox_course_other,
      Pass.outbox_sendCourse hpo.symm, List.append_nil]
  · rw [Scatter.timetable_helper h.apart, outbox_append, CoinToss.outbox_course hpo,
      Pass.outbox_sendCourse_collector, List.nil_append]
  · exact absurd rfl hne

theorem outbox_timetable :
    outbox (r.timetable x s (r.parties.of a)) (r.parties.of b) = r.log x s a b := by
  rw [timetable, Timetable.andThen, Timetable.andThen, Timetable.andThen, outbox_append, outbox_append,
    outbox_append, outbox_greetings h hne, outbox_selecting h hne, outbox_copying h hne,
    outbox_scattering h hne, log]

end Stages

/-! ### Runs that end well -/

/-- A run in which all parts end well, in whatever order they make their steps or in rounds, and the mesh
that it leaves. -/
inductive Succeeds (r : Run) (s s' : Setting) : Mesh → Prop
  | steps {seats : List (Seat Ending)} {m : Mesh}
      (hsteps : Relation.ReflTransGen Seat.Step (r.seats .keystreams s, { parties := r.ends }) (seats, m))
      (hdone : seats.map (·.process) = (endings s').map .done) : Succeeds r s s' m
  | rounds {m : Mesh}
      (hrun : Mesh.run { parties := r.ends } (r.seats .keystreams s) = ((endings s').map some, m)) :
      Succeeds r s s' m

theorem endings_injective : Function.Injective endings := by
  intro s s' h
  obtain ⟨planner, owner, tape⟩ := s
  simp only [endings, List.cons.injEq, Ending.planner.injEq, Ending.owner.injEq, Ending.helper.injEq,
    true_and, and_true] at h
  obtain ⟨rfl, rfl, rfl⟩ := h
  rfl

theorem Succeeds.canEnd (h : r.Succeeds s s' m) :
    List.Forall₂ (fun ending seat => seat.process.CanEnd ending) (endings s') (r.seats .keystreams s) := by
  cases h with
  | steps hsteps hdone => exact Seat.canEnd_of_steps hsteps hdone
  | rounds hrun =>
    have hresults := Seat.canEnd_of_result (congrArg Prod.fst hrun)
    exact (List.forall₂_map_left_iff.1 hresults).imp fun _ _ hend => hend _ rfl

/-- What a run leaves that ends well. -/
theorem Succeeds.leaves (hrun : r.Succeeds s s' m) (h : r.Admitted s) : r.Ready s ∧
    r.source.stride < Size.bufferLimit ∧ (∃ copied, r.Leaves .keystreams s s' copied) ∧
      ∀ a b, m.traffic a b = outbox (r.timetable .keystreams s a) b := by
  obtain ⟨hwidth, hrows⟩ := h.bounds hrun.canEnd
  have hready := h.ready hrows
  obtain ⟨s'', copied, hunderway, hleaves⟩ :=
    hready.underway_leaves hwidth (Expansion.lawful_keystreams ..)
  refine ⟨hready, hwidth, ?_⟩
  cases hrun with
  | steps hsteps hdone =>
    obtain rfl : s' = s'' := endings_injective (hunderway.eq_of_done hsteps hdone)
    refine ⟨⟨copied, hleaves⟩, ?_⟩
    rcases hunderway.run_step_or_ended hsteps with ⟨next, hstep⟩ | hended
    · exact absurd hstep (not_step_of_done hdone next)
    · exact hended.traffic_eq
  | rounds hrun =>
    obtain ⟨hresults, -, htraffic⟩ := hunderway.mesh_run rfl
    rw [hrun] at hresults htraffic
    obtain rfl : s' = s'' := endings_injective (List.map_injective_iff.2 (Option.some_injective _) hresults)
    exact ⟨⟨copied, hleaves⟩, htraffic⟩

theorem Fits.succeeds {f : Nat → Nat} (h : r.Fits s f) (hwidth : r.source.stride < Size.bufferLimit) :
    ∃ s' m, r.Succeeds s s' m := by
  obtain ⟨s', hrun, -⟩ := h.run_eq hwidth
  exact ⟨s', _, .rounds (Prod.ext hrun rfl)⟩

theorem Succeeds.traffic_eq (hrun : r.Succeeds s s' m) (h : r.Admitted s) {a b : Part} (hne : a ≠ b) :
    m.traffic (r.parties.of a) (r.parties.of b) = r.log .keystreams s a b := by
  obtain ⟨-, -, -, htraffic⟩ := hrun.leaves h
  rw [htraffic, outbox_timetable h.seated hne]

end Run

end Switching

end ObliviousRouting
