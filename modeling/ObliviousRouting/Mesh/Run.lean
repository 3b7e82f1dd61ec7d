import ObliviousRouting.Mesh.Basic

/-!
# Running processes on a mesh

Several processes, each at an end of a mesh, run in rounds: in every round each of them in turn goes on
until it has to wait. Processes that share an end wait in line. Once a round moves nothing, time passes,
and everything that waits for a message fails. A run ends when nothing moves any more, or as soon as a
process ends with a result that stops the run.

A step replaces a process by one below it in its tree, and a round that moves something replaces the
processes by later ones. `Later.wf` says that this cannot go on forever.
-/

namespace ObliviousRouting

variable {α : Type}

namespace Process

/-- What a process goes on with after one answer of its links. -/
inductive Next : Process α → Process α → Prop where
  | send {target : Nat} {phase : String} {message : Bytes} {next : Sent → Process α} (r : Sent) :
      Next (next r) (.send target phase message next)
  | receive {source : Nat} {next : Received → Process α} (r : Received) :
      Next (next r) (.receive source next)
  | first {first second : Nat} {onFirst onSecond : Received → Process α} (r : Received) :
      Next (onFirst r) (.receiveEither first second onFirst onSecond)
  | second {first second : Nat} {onFirst onSecond : Received → Process α} (r : Received) :
      Next (onSecond r) (.receiveEither first second onFirst onSecond)

theorem Next.wf : WellFounded (Next (α := α)) := by
  constructor
  intro p
  induction p with
  | done a => exact ⟨_, fun _ h => nomatch h⟩
  | send target phase message next ih => exact ⟨_, fun _ h => by cases h; exact ih _⟩
  | receive source next ih => exact ⟨_, fun _ h => by cases h; exact ih _⟩
  | receiveEither first second onFirst onSecond ih₁ ih₂ =>
    refine ⟨_, fun _ h => ?_⟩
    cases h with
    | first r => exact ih₁ r
    | second r => exact ih₂ r

/-- What a process goes on with after some answers of its links, at least one. -/
abbrev Below (q p : Process α) : Prop := Relation.TransGen Next q p

/-- What a process waits for, unless it has ended. -/
def needs : Process α → List Need
  | .done _ => []
  | .send target _ _ _ => [.room target]
  | .receive source _ => [.message source]
  | .receiveEither first second _ _ => [.message first, .message second]

/-- One step of the process number `who` at an end of a mesh, unless it has ended or has to wait. -/
def step? (who place : Nat) (m : Mesh) : Process α → Option (Process α × Mesh)
  | .done _ => none
  | .send target phase message next =>
    (m.serve ⟨who, place, .room target⟩ (m.send place target phase message)).map
      fun (r, m) => (next r, m)
  | .receive source next =>
    (m.serve ⟨who, place, .message source⟩ (m.receive place source)).map fun (r, m) => (next r, m)
  | .receiveEither first second onFirst onSecond =>
    match m.serve ⟨who, place, .message first⟩ (m.receive place first) with
    | some (r, m) => some (onFirst r, m)
    | none =>
      (m.serve ⟨who, place, .message second⟩ (m.receive place second)).map
        fun (r, m) => (onSecond r, m)

/-- What a process that waits for a message goes on with when time has passed. -/
def expire? : Process α → Option (Process α)
  | .receive _ next => some (next (.error .timeout))
  | .receiveEither _ _ onFirst _ => some (onFirst (.error .timeout))
  | _ => none

def result? : Process α → Option α
  | .done a => some a
  | _ => none

theorem next_of_step? {who place : Nat} {m m' : Mesh} {p q : Process α}
    (h : p.step? who place m = some (q, m')) : Next q p := by
  cases p with
  | done a => cases h
  | send target phase message next =>
    obtain ⟨⟨r, _⟩, _, h⟩ := Option.map_eq_some_iff.1 h
    cases h
    exact .send r
  | receive source next =>
    obtain ⟨⟨r, _⟩, _, h⟩ := Option.map_eq_some_iff.1 h
    cases h
    exact .receive r
  | receiveEither first second onFirst onSecond =>
    simp only [step?] at h
    split at h
    · cases h
      exact .first _
    · obtain ⟨⟨r, _⟩, _, h⟩ := Option.map_eq_some_iff.1 h
      cases h
      exact .second r

theorem next_of_expire? {p q : Process α} (h : p.expire? = some q) : Next q p := by
  cases p with
  | done a => cases h
  | send target phase message next => cases h
  | receive source next => cases h; exact .receive _
  | receiveEither first second onFirst onSecond => cases h; exact .first _

/-- Lets a process go on until it ends or has to wait in line, and tells whether it moved. -/
def advance (who place : Nat) (m : Mesh) (p : Process α) : Process α × Mesh × Bool :=
  match _step : p.step? who place m with
  | none => (p, { m with line := m.line.settle who place p.needs }, false)
  | some (q, m) =>
    let (q, m, _) := q.advance who place m
    (q, m, true)
termination_by Next.wf.wrap p
decreasing_by exact next_of_step? _step

theorem advance_eq_or_below (who place : Nat) (m : Mesh) (p : Process α) :
    ((p.advance who place m).2.2 = false ∧ (p.advance who place m).1 = p) ∨
      ((p.advance who place m).2.2 = true ∧ Below (p.advance who place m).1 p) := by
  fun_induction advance who place m p with
  | case1 m p h => exact .inl ⟨rfl, rfl⟩
  | case2 m p q m' h q' m'' moved hq ih =>
    refine .inr ⟨rfl, ?_⟩
    have hnext := next_of_step? h
    rw [hq] at ih
    rcases ih with ⟨_, rfl⟩ | ⟨_, hbelow⟩
    · exact .single hnext
    · exact .tail hbelow hnext

end Process

/-- A process at an end of a mesh. -/
structure Seat (α : Type) where
  place : Nat
  process : Process α

namespace Seat

def expire (s : Seat α) : Seat α :=
  { s with process := s.process.expire?.getD s.process }

/-- One list of seats is later than another one of the same length if some process has moved and no
process has gone back. -/
inductive Later : List (Seat α) → List (Seat α) → Prop where
  | head {s : Seat α} {q : Process α} {rest : List (Seat α)} :
      q.Below s.process → Later ({ s with process := q } :: rest) (s :: rest)
  | both {s : Seat α} {q : Process α} {rest rest' : List (Seat α)} :
      q.Below s.process → Later rest' rest → Later ({ s with process := q } :: rest') (s :: rest)
  | tail {s : Seat α} {rest rest' : List (Seat α)} : Later rest' rest → Later (s :: rest') (s :: rest)

theorem Later.cons {s : Seat α} {q : Process α} {rest rest' : List (Seat α)}
    (hq : q.Below s.process) (hrest : rest' = rest ∨ Later rest' rest) :
    Later ({ s with process := q } :: rest') (s :: rest) := by
  rcases hrest with rfl | hlater
  · exact .head hq
  · exact .both hq hlater

theorem Later.acc_cons {place : Nat} {p : Process α} (hp : Acc Process.Below p)
    {rest : List (Seat α)} (hrest : Acc Later rest) : Acc Later (⟨place, p⟩ :: rest) := by
  -- outer induction on the first process, inner one on the other seats
  induction hp generalizing rest with
  | intro p _ ihp =>
    induction hrest with
    | intro rest hacc ihrest =>
      refine ⟨_, fun seats h => ?_⟩
      cases h with
      | head hq => exact ihp _ hq ⟨_, hacc⟩
      | both hq hlater => exact ihp _ hq (hacc _ hlater)
      | tail hlater => exact ihrest _ hlater

theorem Later.wf : WellFounded (Later (α := α)) := by
  constructor
  intro seats
  induction seats with
  | nil => exact ⟨_, fun _ h => nomatch h⟩
  | cons s rest ih => exact Later.acc_cons (Process.Next.wf.transGen.apply s.process) ih

/-- What a round leaves. -/
structure Round (α : Type) where
  seats : List (Seat α)
  mesh : Mesh
  moved : Bool
  /-- Whether some process has ended with a result that stops the run. -/
  stopped : Bool

/-- Lets each process in turn go on until it has to wait. They are numbered from `who` on. -/
def round (stop : α → Bool) (who : Nat) (m : Mesh) : List (Seat α) → Round α
  | [] => ⟨[], m, false, false⟩
  | s :: rest =>
    let (p, m, moved) := s.process.advance who s.place m
    if p.result?.any stop then ⟨{ s with process := p } :: rest, m, moved, true⟩
    else
      let later := round stop (who + 1) m rest
      ⟨{ s with process := p } :: later.seats, later.mesh, moved || later.moved, later.stopped⟩

theorem round_eq_or_later (stop : α → Bool) (who : Nat) (m : Mesh) (seats : List (Seat α)) :
    ((round stop who m seats).moved = false ∧ (round stop who m seats).seats = seats) ∨
      ((round stop who m seats).moved = true ∧ Later (round stop who m seats).seats seats) := by
  induction seats generalizing who m with
  | nil => exact .inl ⟨rfl, rfl⟩
  | cons s rest ih =>
    have hfirst := Process.advance_eq_or_below who s.place m s.process
    simp only [round]
    generalize s.process.advance who s.place m = first at hfirst ⊢
    obtain ⟨p, m', moved⟩ := first
    simp only at hfirst ⊢
    split
    · rcases hfirst with ⟨rfl, rfl⟩ | ⟨rfl, hbelow⟩
      · exact .inl ⟨rfl, rfl⟩
      · exact .inr ⟨rfl, .head hbelow⟩
    · have hrest := ih (who + 1) m'
      rcases hfirst with ⟨rfl, rfl⟩ | ⟨rfl, hbelow⟩
      · rcases hrest with ⟨hmoved, hseats⟩ | ⟨hmoved, hlater⟩
        · exact .inl ⟨by simp [hmoved], by rw [hseats]⟩
        · exact .inr ⟨by simp [hmoved], .tail hlater⟩
      · exact .inr ⟨by simp, .cons hbelow (hrest.imp And.right And.right)⟩

def expireAll (seats : List (Seat α)) : List (Seat α) := seats.map expire

theorem expireAll_eq_or_later (seats : List (Seat α)) :
    expireAll seats = seats ∨ Later (expireAll seats) seats := by
  induction seats with
  | nil => exact .inl rfl
  | cons s rest ih =>
    simp only [expireAll, List.map_cons] at ih ⊢
    cases h : s.process.expire? with
    | none =>
      have hs : s.expire = s := by simp [expire, h]
      rw [hs]
      exact ih.imp (congrArg _) .tail
    | some q =>
      have hs : s.expire = { s with process := q } := by simp [expire, h]
      rw [hs]
      exact .inr (.cons (.single (Process.next_of_expire? h)) ih)

theorem later_expireAll {seats : List (Seat α)}
    (h : seats.any fun s => s.process.expire?.isSome) : Later (expireAll seats) seats := by
  induction seats with
  | nil => simp at h
  | cons s rest ih =>
    simp only [expireAll, List.map_cons] at ih ⊢
    cases hq : s.process.expire? with
    | none =>
      have hs : s.expire = s := by simp [expire, hq]
      rw [hs]
      exact .tail (ih (by simpa [hq] using h))
    | some q =>
      have hs : s.expire = { s with process := q } := by simp [expire, hq]
      rw [hs]
      exact .cons (.single (Process.next_of_expire? hq)) (expireAll_eq_or_later rest)

/-- Runs processes to the end, or until one of them ends with a result that stops the run. -/
def run (stop : α → Bool) (m : Mesh) (seats : List (Seat α)) : List (Seat α) × Mesh :=
  let after := round stop 0 m seats
  if after.stopped then (after.seats, after.mesh)
  else if _moved : after.moved then run stop after.mesh after.seats
  else if _waiting : seats.any fun s => s.process.expire?.isSome then
    run stop { m with line := m.line.expire } (expireAll seats)
  else (seats, m)
termination_by Later.wf.wrap seats
decreasing_by
  · rcases round_eq_or_later stop 0 m seats with ⟨hmoved, _⟩ | ⟨_, hlater⟩
    · rw [hmoved] at _moved
      exact absurd _moved (by decide)
    · exact hlater
  · exact later_expireAll _waiting

end Seat

/-- The results of processes that run together, each at its end of a mesh, and the mesh afterwards. A
process that waits forever, which can only be for room on a link, has no result. -/
def Mesh.run (m : Mesh) (seats : List (Seat α)) : List (Option α) × Mesh :=
  let (seats, m) := Seat.run (fun _ => false) m seats
  (seats.map fun s => s.process.result?, m)

end ObliviousRouting
