import ObliviousRouting.Proofs.Switching.Run

/-!
# What the parts are sent

In a run of the general kind the planner is sent greetings, its shares in coin tosses, and the messages of
the reveal. Only the latter depend on the rows. The other two are sent the batches of the passes that they
collect, and the owner is asked for pads. All of these have phases of their own.
-/

namespace ObliviousRouting

open Course

variable {q : Nat}

theorem Reveal.outbox_offerCourse (flips : List Bool) (pads : Pads) (rows₀ rows₁ : List Bytes)
    (n width : Nat) (size : BatchSize) (chooser : Nat) (phase : String) :
    outbox (offerCourse flips pads rows₀ rows₁ n width size chooser phase) chooser =
      (List.range (size.count n)).map fun k =>
        (phase, pairsMessage flips pads rows₀ rows₁ n width size k) := by
  rw [offerCourse, outbox, List.flatMap_assoc, List.map_eq_flatMap]
  simp only [List.flatMap_singleton, Action.outgoing, if_true]

theorem Reveal.outbox_serveCourse (choices flips : List Bool) (pads : Pads) (n width : Nat)
    (size : BatchSize) (chooser : Nat) (phase : String) :
    outbox (serveCourse choices flips pads n width size chooser phase) chooser =
      (List.range (size.count n)).map fun k =>
        (phase, padsMessage choices flips pads n width size k) := by
  rw [serveCourse, outbox, List.flatMap_assoc, List.map_eq_flatMap]
  simp only [List.cons_append, List.nil_append, List.flatMap_cons, List.flatMap_nil, Action.outgoing,
    if_true, List.append_nil]

theorem Pass.outbox_sendCourse {x : Blinding} {rows : List Bytes} {width : Nat} {size : BatchSize}
    {collector : Nat} {phase : String} (h : collector ≠ q) :
    outbox (sendCourse x rows width size collector phase) q = [] := by
  rw [sendCourse, outbox, List.flatMap_map, List.flatMap_eq_nil_iff]
  exact fun k _ => if_neg h

theorem Pass.outbox_collectCourse {x : Blinding} {rows : List Bytes} {targets : List Target} {width : Nat}
    {size : BatchSize} {sender router : Nat} :
    outbox (collectCourse x rows targets width size sender router) q = [] := by
  rw [collectCourse, outbox, List.flatMap_map, List.flatMap_eq_nil_iff]
  exact fun k _ => rfl

theorem CoinToss.outbox_course {own other : Nat} {secret opened : Word256} {phase : String}
    (h : other ≠ q) : outbox (course own other secret opened phase) q = [] := by
  simp [course, outbox, Action.outgoing, h]

namespace Course

/-- A course that hands over nothing in a phase. -/
def Avoids (c : Course) (phase : String) : Prop :=
  ∀ x ∈ c, match x with
    | .send _ phase' _ => phase' ≠ phase
    | _ => True

namespace Avoids

variable {c c' : Course} {phase : String}

theorem append (h : c.Avoids phase) (h' : c'.Avoids phase) : (c ++ c' : Course).Avoids phase := by
  intro x hx
  rcases List.mem_append.1 hx with hx | hx
  · exact h x hx
  · exact h' x hx

theorem nil : Avoids [] phase := fun _ hx => nomatch hx

theorem trio {a b c : Nat} {A B C : Course} (hA : A.Avoids phase) (hB : B.Avoids phase)
    (hC : C.Avoids phase) (p : Nat) : Avoids (Timetable.trio a b c A B C p) phase := by
  rw [Timetable.trio]
  split_ifs
  · exact hA
  · exact hB
  · exact hC
  · exact nil

theorem flatMap {f : Nat → Course} {l : List Nat} (h : ∀ k, (f k).Avoids phase) :
    Avoids (l.flatMap f) phase := by
  intro x hx
  obtain ⟨k, -, hx⟩ := List.mem_flatMap.1 hx
  exact h k x hx

theorem filter_outbox (h : c.Avoids phase) : (outbox c q).filter (·.1 = phase) = [] := by
  rw [outbox, List.filter_flatMap, List.flatMap_eq_nil_iff]
  intro x hx
  have hphase := h x hx
  cases x with
  | send target phase' message =>
    rw [Action.outgoing]
    split
    · exact List.filter_cons_of_neg (by simpa using hphase)
    · rfl
  | receive => rfl
  | receiveBoth => rfl

end Avoids

/-- What a course hands to the link to an end in a phase. -/
def messages (c : Course) (q : Nat) (phase : String) : List Bytes :=
  ((outbox c q).filter (·.1 = phase)).map Prod.snd

variable {c d : Course} {phase : String}

theorem messages_append (c d : Course) (q : Nat) (phase : String) :
    messages (c ++ d) q phase = messages c q phase ++ messages d q phase := by
  rw [messages, outbox_append, List.filter_append, List.map_append]
  rfl

theorem Avoids.messages_eq_nil (h : c.Avoids phase) : messages c q phase = [] := by
  rw [messages, h.filter_outbox, List.map_nil]

theorem messages_flatMap_send {l : List Nat} {message : Nat → Bytes} {after : Nat → Course}
    (h : ∀ k, (after k).Avoids phase) :
    messages (l.flatMap fun k => .send q phase (message k) :: after k) q phase = l.map message := by
  induction l with
  | nil => rfl
  | cons k l ih =>
    rw [List.flatMap_cons, messages_append, ih, List.map_cons]
    change messages ([.send q phase (message k)] ++ after k : Course) q phase ++ _ = _
    rw [messages_append, (h k).messages_eq_nil]
    simp [messages, Action.outgoing]

end Course

theorem CoinToss.avoids_course {own other : Nat} {secret opened : Word256} {phase phase' : String}
    (h : phase ≠ phase') : (course own other secret opened phase).Avoids phase' := by
  simp [course, Course.Avoids, h]

namespace Pass

variable {x : Blinding} {rows : List Bytes} {targets : List Target} {width : Nat} {size : BatchSize}
  {collector sender router : Nat} {phase phase' : String}

theorem messages_sendCourse : messages (sendCourse x rows width size q phase) q phase =
    (List.range (size.count rows.length)).map (rowsMessage x rows width size) := by
  rw [sendCourse, List.map_eq_flatMap]
  exact messages_flatMap_send fun _ => .nil

theorem messages_routeCourse : messages (routeCourse x targets size q phase) q phase =
    (List.range (size.count targets.length)).map (targetsMessage x targets size) := by
  rw [routeCourse, List.map_eq_flatMap]
  exact messages_flatMap_send fun _ => .nil

theorem avoids_sendCourse (h : phase ≠ phase') :
    (sendCourse x rows width size collector phase).Avoids phase' := by
  rw [sendCourse, List.map_eq_flatMap]
  refine Avoids.flatMap fun k => ?_
  simpa [Avoids] using h

theorem avoids_routeCourse (h : phase ≠ phase') :
    (routeCourse x targets size collector phase).Avoids phase' := by
  rw [routeCourse, List.map_eq_flatMap]
  refine Avoids.flatMap fun k => ?_
  simpa [Avoids] using h

theorem avoids_collectCourse : (collectCourse x rows targets width size sender router).Avoids phase := by
  rw [collectCourse, List.map_eq_flatMap]
  refine Avoids.flatMap fun k => ?_
  simp [Avoids]

end Pass

namespace Reveal

variable {choices flips : List Bool} {pads : Pads} {rows₀ rows₁ : List Bytes} {n width : Nat}
  {size : BatchSize} {offering serving chooser : Nat} {phase phase' : String}

theorem messages_chooseCourse :
    messages (chooseCourse choices flips pads rows₀ rows₁ n width size offering q phase) q phase =
      (List.range (size.count n)).map (choicesMessage choices flips size) := by
  rw [chooseCourse]
  exact messages_flatMap_send fun k => by simp [Avoids]

theorem avoids_offerCourse (h : phase ≠ phase') :
    (offerCourse flips pads rows₀ rows₁ n width size chooser phase).Avoids phase' := by
  refine Avoids.flatMap fun k => ?_
  simpa [Avoids] using h

theorem avoids_serveCourse (h : phase ≠ phase') :
    (serveCourse choices flips pads n width size chooser phase).Avoids phase' := by
  refine Avoids.flatMap fun k => ?_
  simpa [Avoids] using h

theorem avoids_chooseCourse (h : phase ≠ phase') :
    (chooseCourse choices flips pads rows₀ rows₁ n width size offering serving phase).Avoids phase' := by
  refine Avoids.flatMap fun k => ?_
  simpa [Avoids] using h

end Reveal

namespace Switching

theorem avoids_greetCourse {parties : Parties} {shapes : Part → Shape} {own : Part} {phase : String}
    (h : greetingPhase ≠ phase) : (greetCourse parties shapes own).Avoids phase := by
  intro x hx
  rcases List.mem_append.1 hx with hx | hx <;> obtain ⟨peer, -, hx⟩ := List.mem_flatMap.1 hx <;>
    cases List.mem_singleton.1 hx
  · exact h
  · trivial

namespace Run

variable (x : Expansion) (r : Run) (s : Setting)

/-- What the helper does before the reveal that has to do with the planner. -/
def helperBefore : Course :=
  greetCourse r.parties (fun _ => r.shape) .helper ++
    CoinToss.course r.parties.helper r.parties.planner s.helper.secret.1
      s.planner.tape.secret.2.secret.1 "duplicate flips"

def helperAfter : Course :=
  CoinToss.course r.parties.helper r.parties.planner (r.helperTape x s .general).secret.1
    (plannerTape s .general).secret.1 "scatter seed"

def ownerBefore : Course :=
  greetCourse r.parties (fun _ => r.shape) .owner ++
    CoinToss.course r.parties.owner r.parties.planner s.owner.tape.secret.1 s.planner.tape.secret.1
      "select seed"

def flips : List Bool :=
  x.flips (Duplicate.flipsSeed s.planner.tape.secret.2 s.helper) r.rows

/-- The pads of a run. -/
def pads : Reveal.Pads := x.pads (Duplicate.padsSeed s.owner.tape.secret.2 s.helper)

def pairsMessage (k : Nat) : Bytes :=
  let fresh := Duplicate.freshRows x s.helper r.rows r.source.stride
  Reveal.pairsMessage (r.flips x s) (pads x s) (Duplicate.firstRows (r.selected' x s) fresh)
    (Duplicate.secondRows r.source.stride fresh) r.rows r.source.stride r.size k

def padsMessage (k : Nat) : Bytes :=
  Reveal.padsMessage (r.plan.group.copies r.rows) (r.flips x s) (pads x s) r.rows r.source.stride r.size k

variable {x r s}

theorem outbox_helper (h : r.parties.Seated r.ends) (hkind : r.kind = .general) :
    outbox (r.timetable x s r.parties.helper) r.parties.planner =
      outbox (r.helperBefore s) r.parties.planner ++
        ((List.range (r.size.count r.rows)).map (fun k => ("duplicate", r.pairsMessage x s k)) ++
          outbox (r.helperAfter x s) r.parties.planner) := by
  have happart := h.apart
  rw [timetable, hkind, Timetable.andThen, Timetable.andThen, Timetable.andThen, copying, copied',
    greetings, Timetable.trio_third h.planner_ne_helper h.owner_ne_helper,
    Select.timetable_helper happart, Duplicate.timetable_helper happart, Scatter.timetable_helper happart]
  simp only [outbox_append, Pass.outbox_collectCourse, Pass.outbox_sendCourse h.planner_ne_owner.symm,
    CoinToss.outbox_course h.planner_ne_owner.symm, Reveal.outbox_offerCourse, List.nil_append,
    List.append_nil, helperBefore, helperAfter, List.append_assoc]
  rfl

theorem outbox_owner (h : r.parties.Seated r.ends) (hkind : r.kind = .general) :
    outbox (r.timetable x s r.parties.owner) r.parties.planner =
      outbox (r.ownerBefore s) r.parties.planner ++
        (List.range (r.size.count r.rows)).map fun k => ("duplicate", r.padsMessage x s k) := by
  have happart := h.apart
  rw [timetable, hkind, Timetable.andThen, Timetable.andThen, Timetable.andThen, copying, copied',
    greetings, Timetable.trio_second h.planner_ne_owner, Select.timetable_owner happart,
    Duplicate.timetable_owner happart, Scatter.timetable_owner happart]
  simp only [outbox_append, Pass.outbox_collectCourse, Pass.outbox_sendCourse h.planner_ne_helper.symm,
    CoinToss.outbox_course h.planner_ne_helper.symm, Reveal.outbox_serveCourse, List.nil_append,
    List.append_nil, ownerBefore, List.append_assoc]
  rfl

/-! ### Batches of the passes, and requests for pads -/

/-- The planner's requests for pads, if it may have to make copies. -/
def requests (n : Nat) (size : BatchSize) (copies flips : List Bool) : Kind → List Bytes
  | .permutation => []
  | .general => (List.range (size.count n)).map (Reveal.choicesMessage copies flips size)

/-- Only the blinded choices matter to them. -/
theorem requests_congr {n : Nat} {size : BatchSize} {copies flips copies' flips' : List Bool}
    (h : Reveal.blindChoices copies' flips' = Reveal.blindChoices copies flips) (kind : Kind) :
    requests n size copies' flips' kind = requests n size copies flips kind := by
  cases kind with
  | permutation => rfl
  | general =>
    apply List.map_congr_left
    intro k _
    rw [Reveal.choicesMessage, Reveal.choicesMessage, h]

section Stages

variable {phase : String} (p : Nat)

theorem avoids_greetings (h : greetingPhase ≠ phase) :
    (greetings r.parties (fun _ => r.shape) p).Avoids phase :=
  Avoids.trio (avoids_greetCourse h) (avoids_greetCourse h) (avoids_greetCourse h) p

theorem avoids_selecting (hseed : "select seed" ≠ phase) (h : "select" ≠ phase) :
    (Select.timetable x r.parties s.planner.tape s.owner.tape r.slots r.targets r.source.stride r.size
      p).Avoids phase :=
  .append (.trio (CoinToss.avoids_course hseed) (CoinToss.avoids_course hseed) .nil p)
    (.trio (Pass.avoids_sendCourse h) (Pass.avoids_routeCourse h) Pass.avoids_collectCourse p)

theorem avoids_copying (kind : Kind) (hflips : "duplicate flips" ≠ phase)
    (hpads : "duplicate pads" ≠ phase) (h : "duplicate" ≠ phase) :
    (r.copying x s kind p).Avoids phase := by
  cases kind with
  | permutation => exact .nil
  | general =>
    exact .append (.trio (CoinToss.avoids_course hflips) (CoinToss.avoids_course hflips) .nil p)
      (.append (.trio (CoinToss.avoids_course hpads) (CoinToss.avoids_course hpads) .nil p)
        (.trio (Reveal.avoids_offerCourse h) (Reveal.avoids_serveCourse h) (Reveal.avoids_chooseCourse h) p))

theorem avoids_scattering (hseed : "scatter seed" ≠ phase) (h : "scatter" ≠ phase) :
    (Scatter.timetable x r.parties (plannerTape s r.kind) (r.helperTape x s r.kind) r.plan.group
      (r.copied' x s r.kind) r.source.stride r.size p).Avoids phase :=
  .append (.trio (CoinToss.avoids_course hseed) (CoinToss.avoids_course hseed) .nil p)
    (.trio (Pass.avoids_sendCourse h) (Pass.avoids_routeCourse h) Pass.avoids_collectCourse p)

variable {p : Nat}

/-- The messages of a phase, stage by stage. -/
theorem messages_timetable (phase : String) : messages (r.timetable x s p) q phase =
    messages (greetings r.parties (fun _ => r.shape) p) q phase ++
      (messages (Select.timetable x r.parties s.planner.tape s.owner.tape r.slots r.targets r.source.stride
        r.size p) q phase ++
      (messages (r.copying x s r.kind p) q phase ++
        messages (Scatter.timetable x r.parties (plannerTape s r.kind) (r.helperTape x s r.kind) r.plan.group
          (r.copied' x s r.kind) r.source.stride r.size p) q phase)) := by
  rw [timetable, Timetable.andThen, Timetable.andThen, Timetable.andThen, messages_append, messages_append,
    messages_append]

theorem messages_select : messages (r.timetable x s p) q "select" =
    messages (Select.timetable x r.parties s.planner.tape s.owner.tape r.slots r.targets r.source.stride
      r.size p) q "select" := by
  rw [messages_timetable, (avoids_greetings p (by decide)).messages_eq_nil,
    (avoids_copying p _ (by decide) (by decide) (by decide)).messages_eq_nil,
    (avoids_scattering p (by decide) (by decide)).messages_eq_nil, List.nil_append, List.nil_append,
    List.append_nil]

theorem messages_duplicate : messages (r.timetable x s p) q "duplicate" =
    messages (r.copying x s r.kind p) q "duplicate" := by
  rw [messages_timetable, (avoids_greetings p (by decide)).messages_eq_nil,
    (avoids_selecting p (by decide) (by decide)).messages_eq_nil,
    (avoids_scattering p (by decide) (by decide)).messages_eq_nil, List.nil_append, List.nil_append,
    List.append_nil]

theorem messages_scatter : messages (r.timetable x s p) q "scatter" =
    messages (Scatter.timetable x r.parties (plannerTape s r.kind) (r.helperTape x s r.kind) r.plan.group
      (r.copied' x s r.kind) r.source.stride r.size p) q "scatter" := by
  rw [messages_timetable, (avoids_greetings p (by decide)).messages_eq_nil,
    (avoids_selecting p (by decide) (by decide)).messages_eq_nil,
    (avoids_copying p _ (by decide) (by decide) (by decide)).messages_eq_nil, List.nil_append,
    List.nil_append, List.nil_append]

end Stages

section Messages

variable (h : r.parties.Seated r.ends)
include h

/-- The owner's batches of rows. -/
theorem messages_select_owner :
    messages (r.timetable x s r.parties.owner) r.parties.helper "select" =
      (List.range (r.size.count r.slots.length)).map (Pass.rowsMessage
        (x.selecting (Select.seed s.planner.tape s.owner.tape)) r.slots r.source.stride r.size) := by
  rw [messages_select, Select.timetable_owner h.apart, messages_append,
    (CoinToss.avoids_course (by decide)).messages_eq_nil, Pass.messages_sendCourse, List.nil_append]

/-- The planner's batches of targets. -/
theorem messages_select_planner :
    messages (r.timetable x s r.parties.planner) r.parties.helper "select" =
      (List.range (r.size.count r.targets.length)).map (Pass.targetsMessage
        (x.selecting (Select.seed s.planner.tape s.owner.tape)) r.targets r.size) := by
  rw [messages_select, Select.timetable_planner h.apart, messages_append,
    (CoinToss.avoids_course (by decide)).messages_eq_nil, Pass.messages_routeCourse, List.nil_append]

theorem messages_scatter_helper :
    messages (r.timetable x s r.parties.helper) r.parties.owner "scatter" =
      (List.range (r.size.count (r.copied' x s r.kind).length)).map (Pass.rowsMessage
        (x.scattering (Scatter.seed (plannerTape s r.kind) (r.helperTape x s r.kind)))
        (r.copied' x s r.kind) r.source.stride r.size) := by
  rw [messages_scatter, Scatter.timetable_helper h.apart, messages_append,
    (CoinToss.avoids_course (by decide)).messages_eq_nil, Pass.messages_sendCourse, List.nil_append]

theorem messages_scatter_planner :
    messages (r.timetable x s r.parties.planner) r.parties.owner "scatter" =
      (List.range (r.size.count r.plan.group.scatterTargets.length)).map (Pass.targetsMessage
        (x.scattering (Scatter.seed (plannerTape s r.kind) (r.helperTape x s r.kind)))
        r.plan.group.scatterTargets r.size) := by
  rw [messages_scatter, Scatter.timetable_planner h.apart, messages_append,
    (CoinToss.avoids_course (by decide)).messages_eq_nil, Pass.messages_routeCourse, List.nil_append]

theorem messages_duplicate_planner :
    messages (r.timetable x s r.parties.planner) r.parties.owner "duplicate" =
      requests r.rows r.size (r.plan.group.copies r.rows) (r.flips x s) r.kind := by
  rw [messages_duplicate]
  cases r.kind with
  | permutation => rfl
  | general =>
    rw [copying, Duplicate.timetable_planner h.apart, messages_append,
      (CoinToss.avoids_course (by decide)).messages_eq_nil, Reveal.messages_chooseCourse, List.nil_append]
    rfl

end Messages

end Run

end Switching

end ObliviousRouting
