import TlsCensus.Handshake.Client
import TlsCensus.Proofs.Flights

/-! How far a handshake is depends on the bytes it was fed and not on how they were cut.
What a TLS engine has made of bytes is taken to depend on these bytes alone. The inbox in
front of it neither loses an octet nor hands one on twice, and a failure is kept. -/
namespace TlsCensus

namespace CapabilityCall

def data : CapabilityCall → Bytes
  | .feed data => data
  | .initiate | .step | .output => []

def fed (calls : List CapabilityCall) : Bytes := calls.flatMap data

def inPieces (pieces : List Bytes) : List CapabilityCall := pieces.flatMap fun piece => [.feed piece, .step]

theorem fedPieces (pieces : List Bytes) : fed (inPieces pieces) = pieces.flatten := by
  induction pieces with
  | nil => rfl
  | cons piece rest ih => simpa [fed, inPieces, data] using ih

end CapabilityCall

namespace Capability
variable {κ : Type} (C : Capability κ)

def call (k : κ) : CapabilityCall → κ
  | .initiate => (C.initiate k).2
  | .step => (C.step k).2
  | .output => (C.output k).2
  | .feed data => C.feed data k

def after (calls : List CapabilityCall) (k : κ) : κ := calls.foldl C.call k

def verdict? (k : κ) : CapabilityCall → Option Verdict
  | .step => some (C.step k).1
  | .initiate | .output | .feed _ => none

def verdicts : List CapabilityCall → κ → List Verdict
  | [], _ => []
  | c :: rest, k => (C.verdict? k c).toList ++ verdicts rest (C.call k c)

theorem verdictsAppend (calls later : List CapabilityCall) (k : κ) :
    C.verdicts (calls ++ later) k = C.verdicts calls k ++ C.verdicts later (C.after calls k) := by
  induction calls generalizing k with
  | nil => rfl
  | cons c rest ih => simp only [List.cons_append, verdicts, ih, List.append_assoc, after, List.foldl_cons]

theorem lastVerdict {pieces : List Bytes} (cut : pieces ≠ []) (k : κ) :
    ∃ calls, CapabilityCall.fed calls = pieces.flatten ∧
      (C.verdicts (CapabilityCall.inPieces pieces) k).getLast? = some (C.step (C.after calls k)).1 := by
  obtain ⟨earlier, last, rfl⟩ : ∃ earlier last, pieces = earlier ++ [last] :=
    ⟨_, _, (List.dropLast_concat_getLast cut).symm⟩
  have split : CapabilityCall.inPieces (earlier ++ [last]) =
      (CapabilityCall.inPieces earlier ++ [.feed last]) ++ [.step] := by
    simp [CapabilityCall.inPieces]
  refine ⟨CapabilityCall.inPieces earlier ++ [.feed last], ?_, ?_⟩
  · rw [← CapabilityCall.fedPieces, split]
    simp [CapabilityCall.fed, CapabilityCall.data]
  · rw [split, verdictsAppend]
    simp [verdicts, verdict?]

end Capability

namespace Engine
variable {ε ρ : Type}

/- Assumed of a TLS engine. What it has made of bytes, as far as reading goes, is a function of the
bytes delivered to it so far: `state`, which has no value once they fail the handshake. How they
were sliced does not enter, and what is written neither. -/
structure Unsliced (E : Engine ε) (view : ε → ρ) (state : Bytes → Option ρ) (start : ε) : Prop where
  fresh : state [] = some (view start)
  accepted {taken offer e n f g} : state taken = some (view e) → E.read offer e = (some (n + 1), f) →
    E.process f = (true, g) → state (taken ++ offer.take (n + 1)) = some (view g)
  rejected {taken offer e n f g} : state taken = some (view e) → E.read offer e = (some (n + 1), f) →
    E.process f = (false, g) → state (taken ++ offer.take (n + 1)) = none
  refused {taken offer e f} : state taken = some (view e) → E.read offer e = (none, f) → state (taken ++ offer) = none
  ignored {taken offer e f} : state taken = some (view e) → offer ≠ [] → E.read offer e = (some 0, f) →
    view f = view e ∧ state (taken ++ offer) = some (view e)
  fatal {taken} (more) : state taken = none → state (taken ++ more) = none
  told {e f} : view e = view f → E.verdict e = E.verdict f
  written (e) : view (E.write e).2 = view e

end Engine

namespace Client

def view (c : Client) : Option ServerFlight.Progress × Bytes := (c.flight, c.unread)

def state (bytes : Bytes) : Option (Option ServerFlight.Progress × Bytes) :=
  (ServerFlight.run .start bytes).map fun s => (some s.1, s.2)

theorem stateResumed {taken : Bytes} {c : Client} (stands : state taken = some (view c)) : ∃ p, c.flight = some p ∧
    (p.closed = true → c.unread = []) ∧
    ∀ more, state (taken ++ more) = (ServerFlight.run p (c.unread ++ more)).map fun s => (some s.1, s.2) := by
  obtain ⟨⟨p, unread⟩, ran, same⟩ := Option.map_eq_some_iff.mp stands
  obtain ⟨flight, waiting⟩ := Prod.mk.inj same
  refine ⟨p, flight.symm, fun closed => waiting ▸ ServerFlight.closedEmpty ran closed, fun more => ?_⟩
  rw [state, ServerFlight.runResumed, ran, Option.bind_some, ← waiting]

theorem readSome {c d : Client} {offer : Bytes} {n : Nat} (read : c.read offer = (some (n + 1), d)) :
    d = { c with unread := c.unread ++ offer.take (n + 1) } := by
  unfold Client.read at read
  split at read
  · exact nomatch congrArg Prod.fst read
  · obtain ⟨count, rfl⟩ := Prod.mk.inj read
    have same : offer.take (n + 1) = offer.take readSize := by
      rw [← Option.some.inj count, List.take_eq_take_iff]
      omega
    rw [same]

theorem readNothing {c d : Client} {offer : Bytes} (waiting : offer ≠ []) (read : c.read offer = (some 0, d)) :
    d = c ∧ ∃ p, c.flight = some p ∧ p.closed = true := by
  unfold Client.read at read
  split at read
  · rename_i closed
    exact ⟨(congrArg Prod.snd read).symm, (Option.any_eq_true _ _).mp closed⟩
  · have none : min readSize offer.length = 0 := Option.some.inj (congrArg Prod.fst read)
    have length := List.length_pos_iff.mpr waiting
    simp only [readSize] at none
    omega

theorem processView {c d : Client} {p : ServerFlight.Progress} {accepted : Bool}
    (process : c.process = (accepted, d)) (flight : c.flight = some p) :
    (ServerFlight.run p c.unread).map (fun s => (some s.1, s.2)) = if accepted then some (view d) else none := by
  rw [Client.process, flight, Option.bind_some] at process
  cases ran : ServerFlight.run p c.unread with
  | none =>
    rw [ran] at process
    cases process
    rfl
  | some s =>
    rw [ran] at process
    cases process
    rfl

theorem engineUnsliced (random share : Bytes) : engine.Unsliced view state (.new random share) where
  fresh := by
    have nothing : ServerFlight.run .start [] = some (.start, []) := by
      rw [ServerFlight.run]
      rfl
    rw [state, nothing]
    rfl
  accepted stands read process := by
    obtain ⟨p, flight, -, resumed⟩ := stateResumed stands
    cases readSome read
    exact (resumed _).trans (processView process flight)
  rejected stands read process := by
    obtain ⟨p, flight, -, resumed⟩ := stateResumed stands
    cases readSome read
    exact (resumed _).trans (processView process flight)
  refused _ read := by
    simp only [engine, Client.read] at read
    split at read <;> cases read
  ignored stands waiting read := by
    obtain ⟨rfl, q, still, closed⟩ := readNothing waiting read
    obtain ⟨p, flight, silent, resumed⟩ := stateResumed stands
    cases flight.symm.trans still
    refine ⟨rfl, ?_⟩
    rw [resumed, ServerFlight.runClosed closed, view, flight, silent closed]
    rfl
  fatal more none := by
    rw [state, ServerFlight.runResumed, Option.map_eq_none_iff.mp none]
    rfl
  told {c d} same := by
    have flight : c.flight = d.flight := congrArg Prod.fst same
    have done : c.finished = d.finished := by rw [finished, flight, finished]
    exact congrArg (fun done : Option Bool => if done.isSome || !true then Verdict.done else .awaiting) done
  written _ := rfl

end Client

namespace Engine
variable {ε ρ : Type}

theorem offerCut (taken : Bytes) (octet : UInt8) (rest : Bytes) (more : Nat) :
    taken ++ (octet :: rest).take (more + 1) ++ rest.drop more = taken ++ octet :: rest := by
  rw [List.append_assoc, List.take_succ_cons, List.cons_append, List.take_append_drop]

theorem stepCases (E : Engine ε) (h : Handshake ε) :
    h.failed = true ∧ E.step h = (.failed, h) ∨
    h.failed = false ∧ ∃ e inbox,
      (E.drain h.engine h.inbox = ⟨true, e, inbox⟩ ∧ E.step h = (E.verdict e, { h with engine := e, inbox := inbox }) ∨
      E.drain h.engine h.inbox = ⟨false, e, inbox⟩ ∧
        E.step h = (.failed, { h with engine := e, inbox := inbox, failed := true })) := by
  by_cases lost : h.failed = true
  · exact .inl ⟨lost, by rw [step, if_pos lost]⟩
  · rw [step, if_neg lost]
    refine .inr ⟨Bool.eq_false_iff.mpr lost, ?_⟩
    match E.drain h.engine h.inbox with
    | ⟨true, e, inbox⟩ => exact ⟨e, inbox, .inl ⟨rfl, rfl⟩⟩
    | ⟨false, e, inbox⟩ => exact ⟨e, inbox, .inr ⟨rfl, rfl⟩⟩

inductive Represents (view : ε → ρ) (state : Bytes → Option ρ) (bytes : Bytes) (h : Handshake ε) : Prop where
  | alive {taken} (on : h.failed = false) (whole : taken ++ h.inbox = bytes) (stands : state taken = some (view h.engine))
  | failed (lost : h.failed = true) (none : state bytes = .none)

theorem Represents.sameView {view : ε → ρ} {state : Bytes → Option ρ} {bytes : Bytes} {h g : Handshake ε}
    (now : Represents view state bytes h) (failed : g.failed = h.failed) (inbox : g.inbox = h.inbox)
    (engine : view g.engine = view h.engine) : Represents view state bytes g := by
  cases now with
  | alive on whole stands => exact .alive (failed.trans on) (inbox ▸ whole) (engine ▸ stands)
  | failed lost none => exact .failed (failed.trans lost) none

inductive Judged (E : Engine ε) (view : ε → ρ) (state : Bytes → Option ρ) (bytes : Bytes) : Verdict → Prop where
  | alive {e} (stands : state bytes = some (view e)) : Judged E view state bytes (E.verdict e)
  | failed (none : state bytes = .none) : Judged E view state bytes .failed

section Unsliced
variable {E : Engine ε} {view : ε → ρ} {state : Bytes → Option ρ} {start : ε} (law : E.Unsliced view state start)
include law

theorem Unsliced.judgedOnce {bytes : Bytes} {v w : Verdict} (one : E.Judged view state bytes v)
    (other : E.Judged view state bytes w) : v = w := by
  cases one with
  | alive stands =>
    cases other with
    | alive here => exact law.told (Option.some.inj (stands.symm.trans here))
    | failed none => exact nomatch stands.symm.trans none
  | failed none =>
    cases other with
    | alive here => exact nomatch here.symm.trans none
    | failed => rfl

/- Induction along the offers. What is left in the inbox is nothing or ignored. -/
theorem Unsliced.drainReads {taken : Bytes} {e : ε} (inbox : Bytes) (stands : state taken = some (view e)) :
    match E.drain e inbox with
    | ⟨true, f, left⟩ => state (taken ++ inbox) = some (view f) ∧
        ∃ read, read ++ left = taken ++ inbox ∧ state read = some (view f)
    | ⟨false, _, _⟩ => state (taken ++ inbox) = none := by
  fun_induction E.drain e inbox generalizing taken with
  | case1 e =>
    rw [List.append_nil]
    exact ⟨stands, taken, List.append_nil _, stands⟩
  | case2 e octet rest f refused => exact law.refused stands refused
  | case3 e octet rest f ignored =>
    obtain ⟨same, unmoved⟩ := law.ignored stands (List.cons_ne_nil _ _) ignored
    exact ⟨same ▸ unmoved, taken, rfl, same ▸ stands⟩
  | case4 e octet rest more f read g rejected =>
    have gone := law.fatal (rest.drop more) (law.rejected stands read rejected)
    rwa [offerCut] at gone
  | case5 e octet rest more f read g accepted ih =>
    have next := ih (law.accepted stands read accepted)
    rwa [offerCut] at next

theorem Unsliced.stepJudges {bytes : Bytes} {h : Handshake ε} (now : Represents view state bytes h) :
    Represents view state bytes (E.step h).2 ∧ E.Judged view state bytes (E.step h).1 := by
  cases now with
  | failed lost none =>
    rw [step, if_pos lost]
    exact ⟨.failed lost none, .failed none⟩
  | alive on whole stands =>
    have drained := law.drainReads h.inbox stands
    rw [whole] at drained
    obtain ⟨lost, -⟩ | ⟨-, e, inbox, ⟨well, stepped⟩ | ⟨badly, stepped⟩⟩ := E.stepCases h
    · exact nomatch on.symm.trans lost
    · rw [well] at drained
      obtain ⟨through, read, split, here⟩ := drained
      rw [stepped]
      exact ⟨.alive on split here, .alive through⟩
    · rw [badly] at drained
      rw [stepped]
      exact ⟨.failed rfl drained, .failed drained⟩

theorem Unsliced.callRepresents {bytes : Bytes} {h : Handshake ε} (c : CapabilityCall) (now : Represents view state bytes h) :
    Represents view state (bytes ++ c.data) (E.capability.call h c) := by
  cases c with
  | step =>
    rw [CapabilityCall.data, List.append_nil]
    exact (law.stepJudges now).1
  | initiate =>
    rw [CapabilityCall.data, List.append_nil]
    by_cases twice : h.initiated <;> simp only [Capability.call, capability, twice, Bool.false_eq_true, if_true, if_false]
    · exact now
    · exact now.sameView rfl rfl rfl
  | output =>
    rw [CapabilityCall.data, List.append_nil]
    exact now.sameView rfl rfl (law.written h.engine)
  | feed data =>
    cases now with
    | alive on whole stands => exact .alive on (by rw [← whole, List.append_assoc]; rfl) stands
    | failed lost none => exact .failed lost (law.fatal data none)

theorem Unsliced.callsRepresent (calls : List CapabilityCall) {bytes : Bytes} {h : Handshake ε} (now : Represents view state bytes h) :
    Represents view state (bytes ++ CapabilityCall.fed calls) (E.capability.after calls h) := by
  induction calls generalizing bytes h with
  | nil => rwa [CapabilityCall.fed, List.flatMap_nil, List.append_nil]
  | cons c rest ih =>
    rw [CapabilityCall.fed, List.flatMap_cons, ← List.append_assoc]
    exact ih (law.callRepresents c now)

theorem Unsliced.callsJudged (calls : List CapabilityCall) :
    E.Judged view state (CapabilityCall.fed calls) (E.step (E.capability.after calls (.new start))).1 := by
  have new : Represents view state [] (.new start) := .alive rfl rfl law.fresh
  exact (law.stepJudges (law.callsRepresent calls new)).2

end Unsliced

section Failure
variable {E : Engine ε} {h : Handshake ε}

theorem verdictOpen (E : Engine ε) (e : ε) : E.verdict e ≠ .failed := by
  unfold verdict
  split <;> nofun

theorem stepFails (E : Engine ε) (h : Handshake ε) : (E.step h).1 = .failed ↔ (E.step h).2.failed = true := by
  obtain ⟨lost, stepped⟩ | ⟨on, e, inbox, ⟨-, stepped⟩ | ⟨-, stepped⟩⟩ := E.stepCases h <;> rw [stepped]
  · exact iff_of_true rfl lost
  · exact iff_of_false (E.verdictOpen e) (by rw [on]; nofun)
  · exact iff_of_true rfl rfl

theorem failureKept (lost : h.failed = true) (c : CapabilityCall) : (E.capability.call h c).failed = true := by
  cases c with
  | initiate => by_cases twice : h.initiated <;> simp [Capability.call, capability, twice, lost]
  | step => simp [Capability.call, capability, step, lost]
  | output => exact lost
  | feed data => exact lost

theorem failureStays (lost : h.failed = true) (calls : List CapabilityCall) :
    (E.capability.after calls h).failed = true := by
  induction calls generalizing h with
  | nil => exact lost
  | cons c rest ih => exact ih (failureKept lost c)

theorem failureNoted {calls : List CapabilityCall} (said : .failed ∈ E.capability.verdicts calls h) :
    (E.capability.after calls h).failed = true := by
  induction calls generalizing h with
  | nil => exact nomatch said
  | cons c rest ih =>
    rw [Capability.verdicts, List.mem_append] at said
    rcases said with here | later
    · cases c with
      | step => exact failureStays ((E.stepFails h).mp (Option.some.inj (Option.mem_toList.mp here))) rest
      | initiate | output | feed => exact nomatch here
    · exact ih later

theorem failureSaid (lost : h.failed = true) (calls : List CapabilityCall) :
    ∀ verdict ∈ E.capability.verdicts calls h, verdict = .failed := by
  induction calls generalizing h with
  | nil => nofun
  | cons c rest ih =>
    intro verdict said
    rw [Capability.verdicts, List.mem_append] at said
    rcases said with here | later
    · cases c with
      | step =>
        have answer : (E.step h).1 = verdict := Option.some.inj (Option.mem_toList.mp here)
        rw [← answer, step, if_pos lost]
      | initiate | output | feed => exact nomatch here
    · exact ih (failureKept lost c) verdict later

end Failure

def logged (E : Engine ε) : Engine (ε × Bytes) where
  read offer s := let (count, e) := E.read offer s.1; (count, e, s.2 ++ offer.take (count.getD 0))
  process s := let (accepted, e) := E.process s.1; (accepted, e, s.2)
  write s := let (out, e) := E.write s.1; (out, e, s.2)
  certified s := E.certified s.1
  handshaking s := E.handshaking s.1

def unlogged (h : Handshake (ε × Bytes)) : Handshake ε := ⟨h.engine.1, h.inbox, h.initiated, h.failed⟩

def passed (h : Handshake (ε × Bytes)) : Bytes := h.engine.2 ++ h.inbox

section Log
variable {E : Engine ε}

theorem loggedDrain (e : ε) (log inbox : Bytes) :
    let d := E.logged.drain (e, log) inbox
    E.drain e inbox = ⟨d.well, d.engine.1, d.inbox⟩ ∧ d.engine.2 ++ d.inbox = log ++ inbox := by
  fun_induction E.drain e inbox generalizing log with
  | case1 e => simp only [drain, and_self]
  | case2 e octet rest f refused =>
    simp [drain, logged, refused]
  | case3 e octet rest f ignored =>
    simp [drain, logged, ignored]
  | case4 e octet rest more f read g rejected =>
    simp [drain, logged, read, rejected]
  | case5 e octet rest more f read g accepted ih =>
    have next := ih (log ++ (octet :: rest).take (more + 1))
    have on : E.logged.drain (e, log) (octet :: rest) =
        E.logged.drain (g, log ++ (octet :: rest).take (more + 1)) (rest.drop more) := by
      rw [drain]
      simp [logged, read, accepted]
    rw [on]
    rwa [offerCut] at next

theorem loggedStep (h : Handshake (ε × Bytes)) :
    E.step (unlogged h) = ((E.logged.step h).1, unlogged (E.logged.step h).2) ∧
      passed (E.logged.step h).2 = passed h := by
  obtain ⟨same, kept⟩ := loggedDrain (E := E) h.engine.1 h.engine.2 h.inbox
  by_cases lost : h.failed = true
  · have both : E.step (unlogged h) = (.failed, unlogged h) := if_pos lost
    rw [both, step, if_pos lost]
    exact ⟨rfl, rfl⟩
  · have alone : E.step (unlogged h) = _ := if_neg lost
    rw [alone, step, if_neg lost]
    change E.drain (unlogged h).engine (unlogged h).inbox = _ at same
    rw [same]
    match E.logged.drain h.engine h.inbox, kept with
    | ⟨true, s, inbox⟩, kept => exact ⟨rfl, kept⟩
    | ⟨false, s, inbox⟩, kept => exact ⟨rfl, kept⟩

theorem loggedCall (h : Handshake (ε × Bytes)) (c : CapabilityCall) :
    unlogged (E.logged.capability.call h c) = E.capability.call (unlogged h) c ∧
      passed (E.logged.capability.call h c) = passed h ++ c.data := by
  cases c with
  | step =>
    obtain ⟨same, kept⟩ := loggedStep (E := E) h
    exact ⟨(congrArg Prod.snd same).symm, by rw [CapabilityCall.data, List.append_nil]; exact kept⟩
  | initiate =>
    by_cases twice : h.initiated = true <;>
      simp [Capability.call, capability, unlogged, passed, CapabilityCall.data, twice]
  | output => exact ⟨rfl, (List.append_nil _).symm⟩
  | feed data => exact ⟨rfl, (List.append_assoc _ _ _).symm⟩

theorem loggedRun (calls : List CapabilityCall) (h : Handshake (ε × Bytes)) :
    unlogged (E.logged.capability.after calls h) = E.capability.after calls (unlogged h) ∧
      passed (E.logged.capability.after calls h) = passed h ++ CapabilityCall.fed calls := by
  induction calls generalizing h with
  | nil => exact ⟨rfl, (List.append_nil _).symm⟩
  | cons c rest ih =>
    obtain ⟨same, passes⟩ := ih (E.logged.capability.call h c)
    obtain ⟨here, more⟩ := loggedCall (E := E) h c
    rw [here] at same
    rw [more, List.append_assoc] at passes
    exact ⟨same, passes⟩

theorem drainLeaves {e f : ε} {inbox left : Bytes} (drained : E.drain e inbox = ⟨true, f, left⟩) :
    left = [] ∨ ∃ g, E.read left g = (some 0, f) := by
  fun_induction E.drain e inbox with
  | case1 e =>
    cases drained
    exact .inl rfl
  | case2 | case4 => cases drained
  | case3 e octet rest g ignored =>
    cases drained
    exact .inr ⟨e, ignored⟩
  | case5 e octet rest more f read g accepted ih => exact ih drained

theorem stepLeaves {h : Handshake ε} (well : (E.step h).1 ≠ .failed) :
    (E.step h).2.inbox = [] ∨ ∃ e, E.read (E.step h).2.inbox e = (some 0, (E.step h).2.engine) := by
  obtain ⟨-, stepped⟩ | ⟨-, e, inbox, ⟨drained, stepped⟩ | ⟨-, stepped⟩⟩ := E.stepCases h <;> rw [stepped] at well ⊢
  · exact absurd rfl well
  · exact drainLeaves drained
  · exact absurd rfl well

end Log

theorem verdictIgnoresCuts {E : Engine ε} {view : ε → ρ} {state : Bytes → Option ρ} {start : ε}
    (law : E.Unsliced view state start) :
    (∀ bytes, ∃ verdict, E.Judged view state bytes verdict ∧
      (∀ pieces : List Bytes, pieces ≠ [] → pieces.flatten = bytes →
        (E.capability.verdicts (CapabilityCall.inPieces pieces) (.new start)).getLast? = some verdict) ∧
      ∀ calls, CapabilityCall.fed calls = bytes →
        (E.capability.step (E.capability.after calls (.new start))).1 = verdict) ∧
    (∀ (h : Handshake ε) (earlier later : List CapabilityCall), .failed ∈ E.capability.verdicts earlier h →
      ∀ verdict ∈ E.capability.verdicts later (E.capability.after earlier h), verdict = .failed) ∧
    ∀ calls, let h := E.logged.capability.after calls (.new (start, []))
      unlogged h = E.capability.after calls (.new start) ∧
      h.engine.2 ++ h.inbox = CapabilityCall.fed calls ∧
      ((E.capability.step (unlogged h)).1 ≠ .failed →
        let left := (E.capability.step (unlogged h)).2
        left.inbox = [] ∨ ∃ e, E.read left.inbox e = (some 0, left.engine)) := by
  refine ⟨fun bytes => ?_, fun h earlier later said => failureSaid (failureNoted said) later, fun calls => ?_⟩
  · have whole := law.callsJudged [.feed bytes]
    rw [CapabilityCall.fed, List.flatMap_singleton, CapabilityCall.data] at whole
    have every (calls) (fed : CapabilityCall.fed calls = bytes) :
        (E.step (E.capability.after calls (.new start))).1 = _ :=
      law.judgedOnce (fed ▸ law.callsJudged calls) whole
    refine ⟨_, whole, fun pieces cut joined => ?_, every⟩
    obtain ⟨calls, fed, last⟩ := E.capability.lastVerdict cut (.new start)
    rw [last]
    exact congrArg some (every calls (fed.trans joined))
  · obtain ⟨same, all⟩ := loggedRun (E := E) calls (.new (start, []))
    exact ⟨same, all, stepLeaves⟩

theorem recordCutInThree :
    let C := ClientHandshake.capability
    let new := ClientHandshake.new [] []
    let last := fun pieces => (C.verdicts (CapabilityCall.inPieces pieces) new).getLast?
    Client.engine.Unsliced Client.view Client.state (.new [] []) ∧
      last [[22, 3, 3, 0, 64, 2, 0]] = some .awaiting ∧ last [[22, 3], [3, 0, 64], [2, 0]] = some .awaiting ∧
      last [[72, 84, 84, 80], [22, 3, 3, 0, 64, 2, 0]] = some .failed ∧
      last [[72], [84, 84, 80, 22, 3, 3], [0, 64, 2, 0]] = some .failed := by
  intro C new last
  have law := Client.engineUnsliced [] []
  obtain ⟨cuts, -⟩ := verdictIgnoresCuts law
  have again {one other : List Bytes} {verdict : Verdict} (said : last other = some verdict) (cut : one ≠ [])
      (before : other ≠ []) (same : other.flatten = one.flatten) : last one = some verdict := by
    obtain ⟨_, -, every, -⟩ := cuts one.flatten
    exact (every one cut rfl).trans ((every other before same).symm.trans said)
  have waits : last [[22, 3, 3, 0, 64, 2, 0]] = some .awaiting := by decide +kernel
  have late : last [[72, 84, 84, 80], [22, 3, 3, 0, 64, 2, 0]] = some .failed := by decide +kernel
  exact ⟨law, waits, again waits (by decide) (by decide) rfl, late, again late (by decide) (by decide) rfl⟩

end Engine
end TlsCensus
