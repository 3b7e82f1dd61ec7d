import ObliviousRouting.Proofs.Network.Leaving
import ObliviousRouting.Proofs.Network.Queues
import ObliviousRouting.Proofs.Switching.Mismatch

/-!
# All go on, or none does

Each part comes to a run with a shape of its own. If all of these are the same, every part is greeted as
it expects. If any two differ, then every part has a peer whose shape is not its own, so all of them stop,
and all they have done is to send their two greetings. Whoever is at the other ends, no part sends anything
more unless it has been told exactly the two lines that it expects.
-/

namespace ObliviousRouting.Switching

open Role

variable {σ α : Type}

/-! ### Greetings that differ -/

section Differ

variable {parties : Parties} {shapes : Part → Shape} {own : Part}

theorem performs_receiveGreeting (party : Nat) (shape : Shape) (peer : Part) (s : σ) :
    Performs (receiveGreeting party (shape.greeting peer)) s
      [.receive party (Text.encode (shape.greeting peer))] () s := by
  apply Performs.bind_end (Performs.mapError SwitchError.link (Performs.receiveBytes ..))
  simp only [Text.decode_encode, if_true]
  exact .pure () s

theorem stops_receiveGreeting {expected actual : String} (h : actual ≠ expected) (party : Nat) (s : σ) :
    Stops (receiveGreeting party expected) s [.receive party (Text.encode actual)]
      (.error (.greetingMismatch expected actual)) s := by
  refine Performs.bind_stops (d := [])
    (Performs.mapError SwitchError.link (Performs.receiveBytes ..)) ?_
  simp only [Text.decode_encode, if_neg h]
  exact .fail _ s

/-- The greetings are read up to the first one that is of another shape. -/
theorem stops_receiveGreetings (parties : Parties) (s : σ) {peers : List Part}
    (h : ∃ peer ∈ peers, shapes peer ≠ shapes own) :
    ∃ read peer unread, peers = read ++ peer :: unread ∧ shapes peer ≠ shapes own ∧
      Stops (peers.forM fun peer => receiveGreeting (parties.of peer) ((shapes own).greeting peer)) s
        ((read ++ [peer]).flatMap fun peer =>
          [.receive (parties.of peer) (Text.encode ((shapes peer).greeting peer))])
        (.error (.greetingMismatch ((shapes own).greeting peer) ((shapes peer).greeting peer))) s := by
  induction peers with
  | nil =>
    obtain ⟨_, hpeer, _⟩ := h
    cases hpeer
  | cons first peers ih =>
    rw [List.forM]
    by_cases hfirst : shapes first = shapes own
    · obtain ⟨read, peer, unread, rfl, hpeer, hstops⟩ := ih (by
        obtain ⟨peer, hmem, hpeer⟩ := h
        refine ⟨peer, (List.mem_cons.1 hmem).resolve_left ?_, hpeer⟩
        rintro rfl
        exact hpeer hfirst)
      refine ⟨first :: read, peer, unread, rfl, hpeer, ?_⟩
      have hread := performs_receiveGreeting (parties.of first) (shapes own) first s
      have hcourse := hread.bind_stops (f := fun _ => _) hstops
      rw [List.cons_append, List.flatMap_cons, hfirst]
      exact hcourse
    · exact ⟨[], first, peers, rfl, hfirst, Stops.bind_left
        (stops_receiveGreeting (fun heq => hfirst (Shape.greeting_injective heq)) ..) _⟩

/-- A part stops at the greeting of a peer that sees another shape. The greetings of the peers behind that
one are left unread. -/
theorem stops_greet (parties : Parties) (s : σ) (h : ∃ peer ∈ own.peers, shapes peer ≠ shapes own) :
    ∃ (peer : Part) (unread : List (Nat × Bytes)) (c : Course), shapes peer ≠ shapes own ∧
      greetCourse parties shapes own = c ++ unread.map (fun (source, message) => .receive source message) ∧
      Stops (greet parties own (shapes own)) s c
        (.error (.greetingMismatch ((shapes own).greeting peer) ((shapes peer).greeting peer))) s := by
  obtain ⟨read, peer, unread, hpeers, hpeer, hstops⟩ := stops_receiveGreetings parties s h
  have hsend : Performs (own.peers.forM fun peer => Role.mapError SwitchError.link
      (Role.sendBytes (parties.of peer) greetingPhase (Text.encode ((shapes own).greeting own)))) s
      (own.peers.flatMap fun peer =>
        [.send (parties.of peer) greetingPhase (Text.encode ((shapes own).greeting own))]) ⟨⟩ s :=
    Performs.forM fun peer _ => Performs.mapError SwitchError.link (Performs.sendBytes ..)
  refine ⟨peer, unread.map fun peer => (parties.of peer, Text.encode ((shapes peer).greeting peer)), _,
    hpeer, ?_, hsend.bind_stops hstops⟩
  have hreceived : (own.peers.flatMap fun peer =>
      [.receive (parties.of peer) (Text.encode ((shapes peer).greeting peer))] : Course) =
      ((read ++ [peer]) ++ unread).flatMap fun peer =>
        [.receive (parties.of peer) (Text.encode ((shapes peer).greeting peer))] := by
    rw [hpeers, List.append_assoc]
    rfl
  rw [greetCourse, List.append_assoc, hreceived, List.flatMap_append, List.map_map,
    List.map_eq_flatMap]
  rfl

end Differ

/-! ### Greetings that are waited for -/

/-- The two greetings that a part sends. -/
def hello (parties : Parties) (shape : Shape) (own : Part) : List (Nat × String × Bytes) :=
  own.peers.map fun peer => (parties.of peer, greetingPhase, Text.encode (shape.greeting own))

/-- The greetings that a part expects. -/
def expected (parties : Parties) (shape : Shape) (own : Part) : List (Nat × Bytes) :=
  own.peers.map fun peer => (parties.of peer, Text.encode (shape.greeting peer))

/-- Whatever a part does behind the greetings, it does not begin with it before it has been told the two
lines that it expects. -/
theorem awaits_greet {parties : Parties} {ends : Nat} (h : parties.Seated ends) (shape : Shape) (own : Part)
    (s : σ) (f : Unit → Role σ SwitchError α) :
    Awaits (hello parties shape own) (expected parties shape own) (greet parties own shape >>= f) s := by
  have hanswers : ∀ key ∈ expected parties shape own,
      (Process.Event.answers key.1 (greetingEvents parties shape own)).head? = some (.ok key.2) := by
    cases own <;>
      simp [expected, greetingEvents, Part.peers, Part.all, Parties.of, Process.Event.answers,
        h.planner_ne_owner, h.planner_ne_helper, h.owner_ne_helper]
  have hsendings : Process.Event.sendings (greetingEvents parties shape own) = hello parties shape own := by
    cases own <;> rfl
  rw [← hsendings]
  exact (needs_greet parties shape own s).awaits hanswers f

/-! ### Three parts that meet -/

/-- What each part brings to a run. -/
structure Meeting where
  ends : Nat
  parties : Parties
  plannerKind : Kind
  plannerState : PlannerState
  plannerMode : Mode
  plannerSize : BatchSize
  ownerKind : Kind
  source : RowBuffer
  ownerState : OwnerState
  ownerMode : Mode
  ownerSize : BatchSize
  helperShape : Shape
  helperTape : Tape

namespace Meeting

variable (x : Expansion) (g : Meeting)

/-- The shape that each part sees. -/
def shape : Part → Shape
  | .planner => ⟨g.plannerKind, g.plannerState.plan.group.sourceRows, g.plannerState.plan.group.destinationRows,
      g.plannerState.dest.stride, g.plannerSize⟩
  | .owner => ⟨g.ownerKind, g.source.size, g.ownerState.dest.size, g.source.stride, g.ownerSize⟩
  | .helper => g.helperShape

/-- All parts see the same shape. -/
def Agreed : Prop := ∀ own peer, g.shape own = g.shape peer

/-- The greetings of a part alone. -/
def greeter (own : Part) : Seat (Outcome SwitchError Unit) :=
  ⟨g.parties.of own, (greet g.parties own (g.shape own)).start () >>= fun (r, _) => pure r⟩

/-- The whole of a part. -/
def seat : Part → Seat Ending
  | .planner => plannerSeat x g.parties g.plannerKind g.plannerMode g.plannerSize g.plannerState
  | .owner => ownerSeat x g.parties g.ownerKind g.source g.ownerMode g.ownerSize g.ownerState
  | .helper => helperSeat x g.parties g.helperShape g.helperTape

/-- What planner and owner check on their own before they greet anybody. -/
structure Checked : Prop where
  plan_ok : g.plannerState.plan.group.check g.plannerKind = .ok ()
  planner_rows : g.plannerState.dest.size = g.plannerState.plan.group.destinationRows
  owner_stride : g.source.stride = g.ownerState.dest.stride

/-- A part stops because a peer sees another shape. All it has is as before, but the plan is grouped. -/
def refused (own peer : Part) : Ending :=
  let mismatch : Outcome SwitchError Unit :=
    .error (.error (.greetingMismatch ((g.shape own).greeting peer) ((g.shape peer).greeting peer)))
  match own with
  | .planner => .planner mismatch { g.plannerState with plan := g.plannerState.plan.group }
  | .owner => .owner mismatch g.ownerState
  | .helper => .helper mismatch g.helperTape

/-- What a part sends to another one in a run that is refused. -/
def greetingOf (own : Part) : List (String × Bytes) :=
  [(greetingPhase, Text.encode ((g.shape own).greeting own))]

variable {x g}

theorem awaits_seat (h : g.parties.Seated g.ends) (own : Part) :
    (g.seat x own).process.Awaits (hello g.parties (g.shape own) own)
      (expected g.parties (g.shape own) own) := by
  cases own with
  | planner =>
    refine Process.Awaits.map
      (p := (planner x g.parties g.plannerKind g.plannerMode g.plannerSize).start g.plannerState) ?_
      fun ending => Ending.planner ending.1 ending.2
    simp only [planner]
    refine Awaits.bind_nil (Performs.modify _ _) ?_
    refine Awaits.bind_nil (Performs.get _) ?_
    refine Awaits.ofOutcome_bind fun _ _ => ?_
    split
    · exact Process.Awaits.done _
    · exact awaits_greet h (g.shape .planner) .planner _ _
  | owner =>
    refine Process.Awaits.map
      (p := (owner x g.parties g.ownerKind g.source g.ownerMode g.ownerSize).start g.ownerState) ?_
      fun ending => Ending.owner ending.1 ending.2
    simp only [owner]
    refine Awaits.bind_nil (Performs.get _) ?_
    split
    · exact Process.Awaits.done _
    · exact awaits_greet h (g.shape .owner) .owner _ _
  | helper =>
    refine Process.Awaits.map (p := (helper x g.parties g.helperShape).start g.helperTape) ?_
      fun ending => Ending.helper ending.1 ending.2
    simp only [helper]
    exact awaits_greet h (g.shape .helper) .helper _ _

/-! ### All parts see the same shape -/

theorem places_eq {β : Type} (f : Part → Seat β) (h : ∀ own, (f own).place = g.parties.of own) :
    (Part.all.map f).map Seat.place = g.parties.all := by
  rw [List.map_map]
  exact List.map_congr_left fun own _ => h own

theorem nodup_all {parties : Parties} {ends : Nat} (h : parties.Seated ends) : parties.all.Nodup := by
  simp [Parties.all, h.planner_ne_owner, h.planner_ne_helper, h.owner_ne_helper]

theorem lt_of_mem_all {parties : Parties} {ends : Nat} (h : parties.Seated ends) :
    ∀ p ∈ parties.all, p < ends := by
  simp [Parties.all, h.planner_lt, h.owner_lt, h.helper_lt]

theorem greetings_of {parties : Parties} {ends : Nat} (h : parties.Seated ends) (shapes : Part → Shape)
    (own : Part) : greetings parties shapes (parties.of own) = greetCourse parties shapes own := by
  cases own with
  | planner => exact Timetable.trio_first
  | owner => exact Timetable.trio_second h.planner_ne_owner
  | helper => exact Timetable.trio_third h.planner_ne_helper h.owner_ne_helper

/-- Processes at the ends of the parts, each of which takes the course of its part's greetings. -/
theorem underway_greetings {β : Type} {f : Part → Seat β} {result : Part → β}
    (h : g.parties.Seated g.ends) (hplace : ∀ own, (f own).place = g.parties.of own)
    (hf : ∀ own, (f own).process.Follows (greetCourse g.parties g.shape own) (result own)) :
    Underway (fun a b => Course.outbox (greetings g.parties g.shape a) b) (Part.all.map result)
      (Part.all.map f) { parties := g.ends } (greetings g.parties g.shape) := by
  have hplaces := places_eq f hplace
  apply Timetable.Phase.underway
  · rw [hplaces]
    exact phase_greetings h.apart (by decide) g.shape
  · rw [List.forall₂_map_left_iff, List.forall₂_map_right_iff, List.forall₂_same]
    intro own _
    rw [hplace, greetings_of h]
    exact hf own
  · rw [hplaces]
    exact nodup_all h
  · rw [hplaces]
    exact lt_of_mem_all h

theorem follows_greeter (h : g.Agreed) (own : Part) :
    (g.greeter own).process.Follows (greetCourse g.parties g.shape own) (.ok ()) := by
  have hshape : g.shape = fun _ => g.shape own := funext fun peer => h peer own
  rw [hshape]
  exact (performs_greet g.parties (g.shape own) own ()).map Prod.fst

/-! ### No part is told anything else -/

theorem polite_seat (h : g.parties.Seated g.ends) (own : Part) {trace : Trace} {ending : Ending}
    (hplays : (g.seat x own).process.Plays trace ending) :
    Polite g.parties (g.shape own) own trace ending.result := by
  cases own with
  | planner =>
    obtain ⟨r, hruns, rfl⟩ := Process.Plays.of_map (f := fun r : Outcome SwitchError Unit × PlannerState =>
      Ending.planner r.1 r.2) hplays
    exact (polite_planner h g.plannerState).polite hruns
  | owner =>
    obtain ⟨r, hruns, rfl⟩ := Process.Plays.of_map (f := fun r : Outcome SwitchError Unit × OwnerState =>
      Ending.owner r.1 r.2) hplays
    exact (polite_owner h g.source g.ownerState).polite hruns
  | helper =>
    obtain ⟨r, hruns, rfl⟩ := Process.Plays.of_map (f := fun r : Outcome SwitchError Unit × Tape =>
      Ending.helper r.1 r.2) hplays
    exact (polite_helper h g.helperShape g.helperTape).polite hruns

section Goes

variable {history : History} {seats : List (Seat Ending)} {m : Mesh}
  (hgoes : Seat.Goes (Part.all.map (g.seat x), { parties := g.ends, capacity := 1024 }) history (seats, m))

include hgoes in
theorem exists_part {who : Nat} {s : Seat Ending} (hs : seats[who]? = some s) :
    ∃ own, Part.all[who]? = some own := by
  have hlength := congrArg List.length hgoes.map_place
  obtain ⟨hlt, -⟩ := List.getElem?_eq_some_iff.1 hs
  simp only [List.length_map] at hlength
  exact ⟨_, List.getElem?_eq_getElem (hlength ▸ hlt)⟩

include hgoes in
theorem exists_seat {who : Nat} {own : Part} (hown : Part.all[who]? = some own) :
    ∃ s, seats[who]? = some s := by
  have hlength := congrArg List.length hgoes.map_place
  obtain ⟨hlt, -⟩ := List.getElem?_eq_some_iff.1 hown
  simp only [List.length_map] at hlength
  exact ⟨_, List.getElem?_eq_getElem (hlength.symm ▸ hlt)⟩

include hgoes in
/-- What passes at the end of a part is what its process does. -/
theorem place_iff (h : g.parties.Seated g.ends) {who : Nat} {own : Part} (hown : Part.all[who]? = some own) :
    ∀ entry ∈ history, entry.place = g.parties.of own ↔ entry.who = who := by
  intro entry hentry
  have hplace := hgoes.place_eq hentry
  rw [List.getElem?_map, Option.map_map] at hplace
  obtain ⟨part, hpart, heq⟩ := Option.map_eq_some_iff.1 hplace
  have hseat : entry.place = g.parties.of part := by
    rw [← heq]
    cases part <;> rfl
  rw [hseat, h.of_inj]
  constructor
  · rintro rfl
    obtain ⟨hlt, -⟩ := List.getElem?_eq_some_iff.1 hpart
    exact (List.getElem?_inj hlt (by decide)).1 (hpart.trans hown.symm)
  · rintro rfl
    exact Option.some.inj (hpart.symm.trans hown)

include hgoes in
theorem no_mismatch (h : g.parties.Seated g.ends) (hagreed : g.Agreed) {s : Seat Ending} (hs : s ∈ seats)
    {ending : Ending} (hdone : s.process = .done ending) (e a : String) :
    ending.result ≠ .error (.error (.greetingMismatch e a)) := by
  intro hmismatch
  obtain ⟨who, hwho⟩ := List.mem_iff_getElem?.1 hs
  obtain ⟨own, hown⟩ := exists_part hgoes hwho
  have hstart {i : Nat} {part : Part} (hpart : Part.all[i]? = some part) :
      (Part.all.map (g.seat x))[i]? = some (g.seat x part) := by
    rw [List.getElem?_map, hpart]
    rfl
  have horder := hgoes.inOrder
  have hpolite := polite_seat h own (horder.plays who _ s ending (hstart hown) hwho hdone)
  obtain ⟨peer, hpeer, message, hmessage, hne⟩ := hpolite.misled e a hmismatch
  have hreceived : (history.received (g.parties.of peer) (g.parties.of own)).head? = some message := by
    rw [History.received, History.filterMap_place (place_iff hgoes h hown)]
    exact hmessage
  -- what has come in first is what the peer has sent first
  have hsent : (history.sent (g.parties.of peer) (g.parties.of own)).head? = some message := by
    obtain ⟨rest, hrest⟩ := horder.received_prefix (g.parties.of peer) (g.parties.of own)
    rw [← hrest, List.head?_append, hreceived]
    rfl
  obtain ⟨who', hpeer'⟩ := List.mem_iff_getElem?.1 peer.mem_all
  obtain ⟨t, ht⟩ := exists_seat hgoes hpeer'
  -- the peer may still go on, and whatever it sends then comes later
  obtain ⟨trace, hplays, -⟩ := t.process.exists_plays { incoming := fun _ => [] }
  have hopens := (polite_seat h peer (hgoes.plays (hstart hpeer') ht hplays)).opens
  apply hne
  rw [hagreed own peer]
  apply hopens own (Part.mem_peers.2 (Part.mem_peers.1 hpeer).symm)
  rw [History.sent, History.filterMap_place (place_iff hgoes h hpeer')] at hsent
  rw [List.filterMap_append, List.head?_append, hsent]
  rfl

end Goes

/-! ### Some parts see different shapes -/

theorem exists_peer (h : ¬ g.Agreed) (own : Part) : ∃ peer ∈ own.peers, g.shape peer ≠ g.shape own := by
  by_contra hnone
  refine h fun p q => ?_
  have hown (p : Part) : g.shape p = g.shape own := by
    by_contra hp
    refine hnone ⟨p, Part.mem_peers.2 ?_, hp⟩
    rintro rfl
    exact hp rfl
  rw [hown p, hown q]

theorem stops_planner (h : g.Checked) {c : Course} {stop : Stop SwitchError}
    (hstops : Stops (greet g.parties .planner (g.shape .planner))
      { g.plannerState with plan := g.plannerState.plan.group } c stop
      { g.plannerState with plan := g.plannerState.plan.group }) :
    Stops (planner x g.parties g.plannerKind g.plannerMode g.plannerSize) g.plannerState c stop
      { g.plannerState with plan := g.plannerState.plan.group } := by
  simp only [planner]
  refine Performs.bind_stops (c := []) (Performs.modify _ _) ?_
  refine Performs.bind_stops (c := []) (Performs.get _) ?_
  refine Performs.bind_stops (c := []) (Performs.ofOutcome h.plan_ok _) ?_
  rw [if_neg (not_not_intro h.planner_rows)]
  exact Stops.bind_left hstops _

theorem stops_owner (h : g.Checked) {c : Course} {stop : Stop SwitchError}
    (hstops : Stops (greet g.parties .owner (g.shape .owner)) g.ownerState c stop g.ownerState) :
    Stops (owner x g.parties g.ownerKind g.source g.ownerMode g.ownerSize) g.ownerState c stop
      g.ownerState := by
  simp only [owner]
  refine Performs.bind_stops (c := []) (Performs.get _) ?_
  rw [if_neg (not_not_intro h.owner_stride)]
  exact Stops.bind_left hstops _

/-- A part that goes on to receive the greetings it has left unread takes the whole course of its
greetings. -/
theorem exists_refused (x : Expansion) (h : g.Checked) (hdiffer : ¬ g.Agreed) (own : Part) :
    ∃ (peer : Part) (unread : List (Nat × Bytes)), g.shape peer ≠ g.shape own ∧
      ((g.seat x own).process >>= fun ending => Process.drain ending (unread.map Prod.fst)).Follows
        (greetCourse g.parties g.shape own) (g.refused own peer) := by
  have hpeer := exists_peer hdiffer own
  cases own with
  | planner =>
    obtain ⟨peer, unread, c, hshape, hcourse, hstops⟩ := stops_greet g.parties
      { g.plannerState with plan := g.plannerState.plan.group } hpeer
    refine ⟨peer, unread, hshape, ?_⟩
    rw [hcourse]
    exact ((stops_planner h hstops).map fun ending => Ending.planner ending.1 ending.2).bind_drain unread
  | owner =>
    obtain ⟨peer, unread, c, hshape, hcourse, hstops⟩ := stops_greet g.parties g.ownerState hpeer
    refine ⟨peer, unread, hshape, ?_⟩
    rw [hcourse]
    exact ((stops_owner h hstops).map fun ending => Ending.owner ending.1 ending.2).bind_drain unread
  | helper =>
    obtain ⟨peer, unread, c, hshape, hcourse, hstops⟩ := stops_greet g.parties g.helperTape hpeer
    refine ⟨peer, unread, hshape, ?_⟩
    rw [hcourse]
    exact ((hstops.bind_left _).map fun ending => Ending.helper ending.1 ending.2).bind_drain unread

/-- All parts have stopped because of a peer that sees another shape, and every link between them has
carried one greeting. -/
structure Refused (culprit : Part → Part) (seats : List (Seat Ending)) (m : Mesh) : Prop where
  processes_eq : seats.map (·.process) = Part.all.map fun own => .done (g.refused own (culprit own))
  traffic_eq : ∀ own peer, own ≠ peer →
    m.traffic (g.parties.of own) (g.parties.of peer) = g.greetingOf own

/-- The ends that a part leaves greetings of unread, given by its place. -/
def unreadAt (parties : Parties) (unread : Part → List Nat) (place : Nat) : List Nat :=
  if place = parties.planner then unread .planner
  else if place = parties.owner then unread .owner
  else unread .helper

theorem unreadAt_of {parties : Parties} {ends : Nat} (h : parties.Seated ends) (unread : Part → List Nat)
    (own : Part) : unreadAt parties unread (parties.of own) = unread own := by
  cases own with
  | planner => exact if_pos rfl
  | owner => exact (if_neg h.planner_ne_owner.symm).trans (if_pos rfl)
  | helper => exact (if_neg h.planner_ne_helper.symm).trans (if_neg h.owner_ne_helper.symm)

theorem volley_greetCourse (parties : Parties) (shapes : Part → Shape) (own : Part) :
    (greetCourse parties shapes own).Volley ∧ (greetCourse parties shapes own).count ≤ 1024 := by
  cases own <;>
    simp [greetCourse, Part.peers, Part.all, Course.Volley, Course.count, Action.peers, Action.Sends]

theorem volley_greetings (parties : Parties) (shapes : Part → Shape) (p : Nat) :
    (greetings parties shapes p).Volley ∧ (greetings parties shapes p).count ≤ 1024 := by
  rw [greetings, Timetable.trio]
  split_ifs
  · exact volley_greetCourse ..
  · exact volley_greetCourse ..
  · exact volley_greetCourse ..
  · exact ⟨.nil, Nat.zero_le _⟩

theorem outbox_greetCourse {parties : Parties} {ends : Nat} (h : parties.Seated ends)
    (shapes : Part → Shape) {own peer : Part} (hne : own ≠ peer) :
    Course.outbox (greetCourse parties shapes own) (parties.of peer) =
      [(greetingPhase, Text.encode ((shapes own).greeting own))] := by
  have hpo := h.planner_ne_owner
  have hph := h.planner_ne_helper
  have hoh := h.owner_ne_helper
  cases own <;> cases peer <;>
    simp [greetCourse, Part.peers, Part.all, Parties.of, Action.outgoing, hpo, hph, hoh, hpo.symm, hph.symm,
      hoh.symm] at hne ⊢

theorem exists_leaving (x : Expansion) (h : g.parties.Seated g.ends) (hchecked : g.Checked)
    (hdiffer : ¬ g.Agreed) : ∃ (culprit : Part → Part) (rest : Nat → List Nat),
      (∀ own, g.shape (culprit own) ≠ g.shape own) ∧
      Leaving rest (fun a b => Course.outbox (greetings g.parties g.shape a) b)
        (Part.all.map fun own => g.refused own (culprit own)) (Part.all.map (g.seat x))
        { parties := g.ends } (greetings g.parties g.shape) := by
  choose culprit unread hculprit hf using exists_refused x hchecked hdiffer
  obtain ⟨rest, hrest⟩ : ∃ rest : Nat → List Nat, ∀ own,
      rest (g.parties.of own) = (unread own).map Prod.fst :=
    ⟨_, unreadAt_of h fun own => (unread own).map Prod.fst⟩
  have hplace (own : Part) : (g.seat x own).place = g.parties.of own := by cases own <;> rfl
  have hcourse (own : Part) : ((g.seat x own).drained rest).process.Follows
      (greetCourse g.parties g.shape own) (g.refused own (culprit own)) := by
    rw [Seat.drained, hplace, hrest]
    exact hf own
  have hunderway := underway_greetings (f := fun own => (g.seat x own).drained rest) h hplace hcourse
  refine ⟨culprit, rest, hculprit, ?_, fun p => (volley_greetings g.parties g.shape p).1,
    fun p => (volley_greetings g.parties g.shape p).2⟩
  rw [List.map_map]
  exact hunderway

/-- Either all parts see the same shape and are greeted as they expect, in every order of steps. Or all of
them stop, in every order, because of a peer that sees another shape, and have done nothing but send their
greetings. And no part sends more than these, to whomever, unless it is told the lines that it expects. Where
all see the same shape, no part ever ends in a mismatch, also if waits are given up and ends leave. -/
theorem all_or_none (x : Expansion) (h : g.parties.Seated g.ends) :
    (g.Agreed → Seat.Settles (Part.all.map g.greeter, { parties := g.ends, capacity := 1024 })
      fun seats _ => seats.map (·.process) = Part.all.map fun _ => .done (.ok ())) ∧
    (g.Checked → ¬ g.Agreed → ∃ culprit : Part → Part, (∀ own, g.shape (culprit own) ≠ g.shape own) ∧
      Seat.Settles (Part.all.map (g.seat x), { parties := g.ends, capacity := 1024 })
        (g.Refused culprit) ∧
      (Mesh.run { parties := g.ends } (Part.all.map (g.seat x))).1 =
        Part.all.map fun own => some (g.refused own (culprit own))) ∧
    (∀ own, (g.seat x own).process.Awaits (hello g.parties (g.shape own) own)
      (expected g.parties (g.shape own) own)) ∧
    (g.Agreed → ∀ history seats m,
      Seat.Goes (Part.all.map (g.seat x), { parties := g.ends, capacity := 1024 }) history (seats, m) →
      ∀ seat ∈ seats, ∀ ending, seat.process = .done ending →
        ∀ expected actual, ending.result ≠ .error (.error (.greetingMismatch expected actual))) := by
  refine ⟨fun hagreed seats m hsteps => ⟨?_, Seat.step_wf.apply _⟩, fun hchecked hdiffer => ?_, awaits_seat h,
    fun hagreed _ _ _ hgoes _ hseat _ hdone => no_mismatch hgoes h hagreed hseat hdone⟩
  · have hunderway := underway_greetings h (fun _ => rfl) (follows_greeter hagreed)
    refine (hunderway.run_step_or_ended hsteps).imp_right fun hended => hended.results_eq.trans ?_
    rw [List.map_map]
    rfl
  · obtain ⟨culprit, rest, hculprit, hleaving⟩ := exists_leaving x h hchecked hdiffer
    refine ⟨culprit, hculprit, fun seats m hsteps => ⟨?_, Seat.step_wf.apply _⟩, ?_⟩
    · refine (hleaving.run_step_or_left hsteps).imp_right fun hleft => ⟨?_, fun own peer hne => ?_⟩
      · rw [hleft.results_eq, List.map_map]
        rfl
      · rw [hleft.traffic_eq, greetings_of h, outbox_greetCourse h g.shape hne]
        rfl
    · rw [(hleaving.mesh_run rfl).1, List.map_map]
      rfl

/-- Parts that route one row of one byte, and differ in nothing but the batch size of the helper. -/
def single (size : BatchSize) : Meeting where
  ends := 3
  parties := {}
  plannerKind := .general
  plannerState :=
    ⟨.ofParty .zero 0, { Plan.blank 1 1 with edges := [⟨0, 0⟩], grouped := true }, ⟨#[1], 1, by decide⟩⟩
  plannerMode := .overwrite
  plannerSize := ⟨4⟩
  ownerKind := .general
  source := ⟨#[2], 1, by decide⟩
  ownerState := ⟨.ofParty .zero 1, ⟨#[3], 1, by decide⟩⟩
  ownerMode := .additive
  ownerSize := ⟨4⟩
  helperShape := ⟨.general, 1, 1, 1, size⟩
  helperTape := .ofParty .zero 2

theorem all_or_none_of_single :
    Seat.Settles (Part.all.map (single ⟨4⟩).greeter, { parties := 3, capacity := 1024 })
      (fun seats _ => seats.map (·.process) = Part.all.map fun _ => .done (.ok ())) ∧
    ∃ culprit, Seat.Settles (Part.all.map ((single ⟨5⟩).seat .keystreams), { parties := 3, capacity := 1024 })
      ((single ⟨5⟩).Refused culprit) := by
  have hseated : Parties.Seated {} 3 := by constructor <;> decide
  have hchecked : (single ⟨5⟩).Checked := by constructor <;> decide
  constructor
  · exact (all_or_none (g := single ⟨4⟩) .keystreams hseated).1 fun own peer => by
      cases own <;> cases peer <;> decide
  · obtain ⟨culprit, -, hsettles, -⟩ := (all_or_none (g := single ⟨5⟩) .keystreams hseated).2.1 hchecked
      fun hagreed => absurd (hagreed .planner .helper) (by decide)
    exact ⟨culprit, hsettles⟩

end Meeting

end ObliviousRouting.Switching
