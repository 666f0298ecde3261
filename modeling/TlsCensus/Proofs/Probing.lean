import TlsCensus.Proofs.Multiplexing
import TlsCensus.Proofs.Settling
import TlsCensus.Proofs.Shards
import TlsCensus.Proofs.Tallies

/-! A worker's run over its shard, told by the addresses it took and the outcomes it found.
Whatever the order in which connections open and end, each address taken has one outcome and
the counts are counts of them. Where every round is served, it is the address's own outcome. -/
namespace TlsCensus

namespace Sweep
variable {p : Permutation} {blocks : List Block} {positions : List Nat} {visited : List UInt32}

def firstFailure (p : Permutation) (blocks : List Block) (positions : List Nat) : Option SweepError :=
  (positions.find? fun i => (addressAt p blocks i).isNone).map fun i => .permutation (.walkTooLong i.toUInt64 p.cap)

theorem firstFailureNone : firstFailure p blocks positions = none ↔ ∀ i ∈ positions, addressAt p blocks i ≠ none := by
  simp [firstFailure, ← Option.isSome_iff_ne_none]

theorem landedCalm (landed : positions.map (addressAt p blocks) = visited.map some) :
    firstFailure p blocks positions = none := by
  rw [firstFailureNone]
  intro i mem
  have there := List.mem_map_of_mem (f := addressAt p blocks) mem
  rw [landed] at there
  obtain ⟨a, -, same⟩ := List.mem_map.mp there
  simp [← same]

end Sweep

namespace Worker
variable {κ : Type} {E : Setting κ} {p : Permutation} {w after : Worker κ}

structure Ready (p : Permutation) (w : Worker κ) : Prop where
  sound : w.shard.Sound
  permutes : w.shard.permutation = some p
  wired : Wired w.slots w.sockets
  running : ∀ d ∈ w.dialogues, d.connection.isTerminal = false

theorem readyNew {shard : Sweep} (sound : shard.Sound) (permutes : shard.permutation = some p) (id : Nat) :
    Ready p (new id shard : Worker κ) := ⟨sound, permutes, ⟨.nil, nofun⟩, nofun⟩

/- Between `w` and `after` these addresses were taken and these outcomes found. What is
still open is owed an outcome. -/
structure Probed (p : Permutation) (w : Worker κ) (visited : List UInt32) (found : List Outcome) (after : Worker κ) :
    Prop where
  shard : after.shard = { w.shard with cursor := w.shard.cursor + visited.length }
  positions : (List.range' w.shard.cursor visited.length).map (Sweep.addressAt p w.shard.blocks) = visited.map some
  balance : (found.map (·.address) ++ after.dialogues.map (·.connection.address)).Perm
    (w.dialogues.map (·.connection.address) ++ visited)
  progress : after.progress = w.progress.add (.tally visited.length found)
  report : after.report = { w.report with
    attempted := w.report.attempted + visited.length, finished := w.report.finished + found.length }

structure Tuned (E : Setting κ) (w : Worker κ) : Prop where
  fit : ∀ d ∈ w.dialogues, d.Fit
  owed : ∀ d ∈ w.dialogues, E.settled d = E.outcome d.connection.address

inductive Served (E : Setting κ) : Worker κ → Prop where
  | failed {w last found e} (filled : fill E w.shard.remaining w = (some e, found, last)) : Served E w
  | drained {w next found} (filled : fill E w.shard.remaining w = (none, found, next)) (spent : next.slots = []) :
      Served E w
  | busy {w next found} (filled : fill E w.shard.remaining w = (none, found, next)) (busy : next.slots ≠ [])
      (here : ∀ d ∈ next.dialogues, (present E next d).Served E.handshake (polled E next d) (later E next))
      (rest : Served E (next.round E).2) : Served E w

def Own (E : Setting κ) (found : List Outcome) : Prop := ∀ o ∈ found, o = E.outcome o.address

theorem ownPerm {found : List Outcome} {visited : List UInt32} (own : Own E found)
    (addresses : (found.map (·.address)).Perm visited) : found.Perm (visited.map E.outcome) := by
  have same : (found.map (·.address)).map E.outcome = found := by
    rw [List.map_map]
    exact (List.map_congr_left fun o mem => (own o mem).symm).trans (List.map_id' found)
  rw [← same]
  exact addresses.map _

structure Stops (p : Permutation) (shard : Sweep) (visited : List UInt32) (e : SweepError) : Prop where
  positions : (List.range' shard.cursor visited.length).map (Sweep.addressAt p shard.blocks) = visited.map some
  inside : shard.cursor + visited.length < shard.stop
  stuck : Sweep.addressAt p shard.blocks (shard.cursor + visited.length) = none
  error : e = .permutation (.walkTooLong (shard.cursor + visited.length).toUInt64 p.cap)

namespace Probed
variable {visited : List UInt32} {found : List Outcome}

theorem refl (p : Permutation) (w : Worker κ) : Probed p w [] [] w :=
  ⟨rfl, rfl, .of_eq (List.append_nil _).symm, (Progress.addZero _).symm, rfl⟩

theorem windowKept (probed : Probed p w visited found after) :
    after.shard.cursor = w.shard.cursor + visited.length ∧ after.shard.stop = w.shard.stop ∧
    after.shard.blocks = w.shard.blocks := by
  rw [probed.shard]
  exact ⟨rfl, rfl, rfl⟩

theorem trans {middle : Worker κ} {more : List UInt32} {others : List Outcome}
    (first : Probed p w visited found middle) (second : Probed p middle more others after) :
    Probed p w (visited ++ more) (found ++ others) after := by
  refine ⟨?_, ?_, ?_, ?_, ?_⟩
  · rw [second.shard, first.shard, List.length_append, Nat.add_assoc]
  · have later := second.positions
    rw [first.shard] at later
    rw [List.length_append, ← List.range'_append_1, List.map_append, first.positions, later, List.map_append]
  · rw [List.map_append, List.append_assoc, ← List.append_assoc _ visited]
    refine (second.balance.append_left _).trans ?_
    rw [← List.append_assoc]
    exact first.balance.append_right _
  · rw [second.progress, first.progress, Progress.addAssoc, ← Progress.tallyAppend, List.length_append]
  · rw [second.report, first.report, List.length_append, List.length_append, Nat.add_assoc, Nat.add_assoc]

theorem stopsLater (first : Probed p w visited found after) {more : List UInt32} {e : SweepError}
    (rest : Stops p after.shard more e) : Stops p w.shard (visited ++ more) e := by
  obtain ⟨positions, inside, stuck, error⟩ := rest
  rw [first.shard] at positions inside stuck error
  rw [Nat.add_assoc, ← List.length_append] at inside stuck error
  refine ⟨?_, inside, stuck, error⟩
  rw [List.length_append, ← List.range'_append_1, List.map_append, first.positions, positions, List.map_append]

end Probed

section Taking
variable (ready : Ready p w) (left : w.shard.finished = false) {shard : Sweep}
include ready left

theorem takenReady {address : UInt32} (taken : w.shard.next = (.ok address, shard)) :
    shard = { w.shard with cursor := w.shard.cursor + 1 } ∧
    Sweep.addressAt p w.shard.blocks w.shard.cursor = some address ∧ shard.Sound ∧ shard.permutation = some p := by
  have sound := Sweep.soundNext ready.sound
  rw [taken] at sound
  obtain ⟨q, permutes, ⟨a, here, same⟩ | ⟨-, same⟩⟩ := Sweep.nextCases ready.sound left
  · cases ready.permutes.symm.trans permutes
    cases taken.symm.trans same
    exact ⟨rfl, here, sound, permutes⟩
  · cases taken.symm.trans same

theorem failedReady {e : SweepError} (failed : w.shard.next = (.error e, shard)) :
    shard = w.shard ∧ Sweep.addressAt p w.shard.blocks w.shard.cursor = none ∧
    e = .permutation (.walkTooLong w.shard.cursor.toUInt64 p.cap) := by
  obtain ⟨q, permutes, ⟨a, -, same⟩ | ⟨here, same⟩⟩ := Sweep.nextCases ready.sound left
  · cases failed.symm.trans same
  · cases ready.permutes.symm.trans permutes
    cases failed.symm.trans same
    exact ⟨rfl, here, rfl⟩

end Taking

theorem probedAtOnce {address : UInt32} {o : Outcome} (failed : E.start address = .error o)
    (here : Sweep.addressAt p w.shard.blocks w.shard.cursor = some address) :
    Probed p w [address] [o] ((w.attempt { w.shard with cursor := w.shard.cursor + 1 }).count [o]) := by
  obtain ⟨rfl, -⟩ := Setting.startFailed failed
  refine ⟨rfl, by simp [here], List.perm_append_comm, ?_, rfl⟩
  rw [count, attempt]
  simp only [Progress.recordAllTally, Progress.recordAttemptTally, Progress.addAssoc, ← Progress.tallyAppend]
  rfl

theorem probedOpen (E : Setting κ) (wired : Wired w.slots w.sockets) {address : UInt32} (k : κ) (link : Link)
    (here : Sweep.addressAt p w.shard.blocks w.shard.cursor = some address) :
    Probed p w [address] [] ((w.attempt { w.shard with cursor := w.shard.cursor + 1 }).occupy E address k link) := by
  let taken := w.attempt { w.shard with cursor := w.shard.cursor + 1 }
  obtain ⟨opened, -⟩ := occupyDialogues (w := taken) E wired address k link
  refine ⟨rfl, by simp [here], ?_, Progress.recordAttemptTally _, rfl⟩
  rw [opened, List.map_append]
  exact .refl _

theorem drivenNames (E : Setting κ) (w : Worker κ) (d : Dialogue κ) :
    (driven E w d).connection.address = d.connection.address ∧ (d.connection.isTerminal = false →
      (driven E w d).connection.isTerminal = true → (driven E w d).connection.result.isSome = true) := by
  obtain ⟨address, -, told⟩ := Dialogue.reachedSpec
    (Dialogue.driveReached E.handshake (polled E w d) (later E w) (present E w d))
  exact ⟨address, told⟩

theorem roundBalance (E : Setting κ) (w : Worker κ) {dialogues : List (Dialogue κ)}
    (running : ∀ d ∈ dialogues, d.connection.isTerminal = false) :
    let moved := dialogues.map (driven E w)
    (((moved.filter (·.connection.isTerminal)).filterMap
        (fun d => (d.connection.takeOutcome (E.finishedAt d.connection.address)).1)).map (·.address) ++
      (moved.filter (!·.connection.isTerminal)).map (·.connection.address)).Perm
    (dialogues.map (·.connection.address)) := by
  intro moved
  induction dialogues with
  | nil => exact .refl _
  | cons d rest ih =>
    have later := ih fun other mem => running other (List.mem_cons_of_mem _ mem)
    obtain ⟨address, told⟩ := drivenNames E w d
    cases ended : (driven E w d).connection.isTerminal with
    | true =>
      have taken := Setting.settledTaken (E := E) ended (told (running d List.mem_cons_self) ended)
      have named : (E.settled (driven E w d)).address = d.connection.address :=
        (Dialogue.settleNames E.handshake _).1.trans address
      simp only [moved, List.map_cons, List.filter_cons, ended, Bool.not_true, if_true, Bool.false_eq_true, if_false,
        List.filterMap_cons, taken, named]
      exact later.cons _
    | false =>
      simp only [moved, List.map_cons, List.filter_cons, ended, Bool.not_false, if_true, Bool.false_eq_true, if_false, address]
      exact List.perm_middle.trans (later.cons _)

theorem roundProbed (E : Setting κ) (ready : Ready p w) :
    Probed p w [] (w.round E).1 (w.round E).2 ∧ Ready p (w.round E).2 := by
  obtain ⟨outcomes, left, wired⟩ := roundDialogues E ready.wired
  refine ⟨⟨rfl, rfl, ?_, ?_, rfl⟩, ready.sound, ready.permutes, wired, ?_⟩
  · rw [List.append_nil, left, outcomes]
    exact roundBalance E w ready.running
  · exact Progress.recordAllTally _ _
  · intro d mem
    rw [left] at mem
    simpa using (List.mem_filter.mp mem).2

theorem roundTuned (ready : Ready p w) (tuned : Tuned E w)
    (here : ∀ d ∈ w.dialogues, (present E w d).Served E.handshake (polled E w d) (later E w)) :
    Tuned E (w.round E).2 ∧ Own E (w.round E).1 := by
  obtain ⟨outcomes, left, -⟩ := roundDialogues E ready.wired
  have moved (d : Dialogue κ) (mem : d ∈ w.dialogues) :
      E.settled (driven E w d) = E.outcome (driven E w d).connection.address ∧
      ((driven E w d).connection.isTerminal = false → (driven E w d).Fit) := by
    obtain ⟨first, early⟩ := Dialogue.arriveSettles (C := E.handshake) (tuned.fit d mem)
      (E.timing.deeds d.link.address w.rounds)
    have early : (arrived E w d).Fit := early
    obtain ⟨same, fit⟩ := Dialogue.arriveSettles (C := E.handshake) early
      (E.timing.meanwhile (arrived E w d).link.address w.rounds)
    have polled : (polled E w d).isIdle = true ∨ (present E w d).handle E.handshake (polled E w d) (later E w) =
        (present E w d).handle E.handshake (present E w d).readiness (later E w) := by
      unfold Worker.polled
      split
      · exact .inl rfl
      · cases seen : (arrived E w d).readiness.isIdle with
        | true => exact .inl seen
        | false => exact .inr (Dialogue.handleSeen E.handshake early seen _ (later E w))
    obtain ⟨still, fitToo⟩ := Dialogue.driveSettles fit (ready.running d mem) polled (here d mem)
    have whole : (driven E w d).settle E.handshake = d.settle E.handshake := still.trans (same.trans first)
    refine ⟨?_, fitToo⟩
    rw [(drivenNames E w d).1, ← tuned.owed d mem, Setting.settled, Setting.settled, whole]
  refine ⟨⟨?_, ?_⟩, ?_⟩
  · intro d mem
    rw [left] at mem
    obtain ⟨inside, runs⟩ := List.mem_filter.mp mem
    obtain ⟨old, there, rfl⟩ := List.mem_map.mp inside
    exact (moved old there).2 (by simpa using runs)
  · intro d mem
    rw [left] at mem
    obtain ⟨old, there, rfl⟩ := List.mem_map.mp (List.mem_of_mem_filter mem)
    exact (moved old there).1
  · intro o mem
    rw [outcomes] at mem
    obtain ⟨d, inside, taken⟩ := List.mem_filterMap.mp mem
    obtain ⟨mapped, ended⟩ := List.mem_filter.mp inside
    obtain ⟨old, there, rfl⟩ := List.mem_map.mp mapped
    rw [Setting.settledTaken ended ((drivenNames E w old).2 (ready.running old there) ended)] at taken
    have own := (moved old there).1
    cases taken
    rw [own, Setting.outcomeAddress]

theorem someRemaining {s : Sweep} {n : Nat} (few : n + 1 ≤ s.remaining) :
    s.finished = false ∧ n ≤ Sweep.remaining { s with cursor := s.cursor + 1 } := by
  simp only [Sweep.remaining, Sweep.finished, decide_eq_false_iff_not] at few ⊢
  omega

structure Filled (E : Setting κ) (p : Permutation) (w : Worker κ) (n : Nat) (visited : List UInt32)
    (filled : Option SweepError × List Outcome × Worker κ) : Prop where
  probed : Probed p w visited filled.2.1 filled.2.2
  ready : Ready p filled.2.2
  calm : filled.1 = none → visited.length = n ∨ E.places ≤ filled.2.2.slots.length
  failed : ∀ e, filled.1 = some e → Stops p w.shard visited e

theorem filledAfter {n : Nat} {address : UInt32} {middle : Worker κ} {found others : List Outcome} {more : List UInt32}
    {failure : Option SweepError}
    (first : Probed p w [address] found middle) (rest : Filled E p middle n more (failure, others, after)) :
    Filled E p w (n + 1) (address :: more) (failure, found ++ others, after) where
  probed := first.trans rest.probed
  ready := rest.ready
  calm silent := (rest.calm silent).imp_left (congrArg (· + 1))
  failed e failure := first.stopsLater (rest.failed e failure)

theorem fillProbed (E : Setting κ) (ready : Ready p w) {n : Nat} (few : n ≤ w.shard.remaining) :
    ∃ visited, Filled E p w n visited (fill E n w) := by
  fun_induction fill E n w with
  | case1 w => exact ⟨[], .refl p w, ready, fun _ => .inl rfl, by simp⟩
  | case2 n w full => exact ⟨[], .refl p w, ready, fun _ => .inr full, by simp⟩
  | case3 n w free e shard failed =>
    have left := (someRemaining few).1
    have inside : w.shard.cursor < w.shard.stop := by simpa [Sweep.finished] using left
    obtain ⟨rfl, stuck, error⟩ := failedReady ready left failed
    have stops : Stops p w.shard [] e := ⟨rfl, inside, stuck, error⟩
    exact ⟨[], .refl p w, ready, fun calm => absurd calm (Option.some_ne_none e),
      fun _ same => Option.some.inj same ▸ stops⟩
  | case4 n w free address shard taken w' outcome ended failure others last filled ih =>
    obtain ⟨left, fewer⟩ := someRemaining few
    obtain ⟨rfl, here, sound, permutes⟩ := takenReady ready left taken
    obtain ⟨more, rest⟩ := ih ⟨sound, permutes, ready.wired, ready.running⟩ fewer
    rw [filled] at rest
    exact ⟨address :: more, filledAfter (probedAtOnce ended here) rest⟩
  | case5 n w free address shard taken w' k link started ih =>
    obtain ⟨left, fewer⟩ := someRemaining few
    obtain ⟨rfl, here, sound, permutes⟩ := takenReady ready left taken
    obtain ⟨opened, wired⟩ := occupyDialogues (w := w') E ready.wired address k link
    have running : ∀ d ∈ (w'.occupy E address k link).dialogues, d.connection.isTerminal = false := by
      intro d mem
      rw [opened] at mem
      rcases List.mem_append.mp mem with old | new
      · exact ready.running d old
      · rw [List.mem_singleton.mp new]
        rfl
    obtain ⟨more, rest⟩ := ih ⟨sound, permutes, wired, running⟩ fewer
    exact ⟨address :: more, filledAfter (probedOpen E ready.wired k link here) rest⟩

theorem startFit {address : UInt32} {k : κ} {link : Link} (started : E.start address = .ok (k, link))
    (courteous : (E.peer address).isCourteous = true) (now : Nat) :
    let d : Dialogue κ := ⟨.new address E.port k E.timeout now, link⟩
    d.Fit ∧ E.settled d = E.outcome address := by
  intro d
  have fresh := Setting.startSpec started
  refine ⟨⟨by simp [d, fresh], fun peer _ => by simp [d, fresh, Connection.wantsWrite, Connection.new], fun _ => ?_⟩, ?_⟩
  · refine ⟨by simp [d, fresh], fun deeds stage => ?_⟩
    have accepting : E.peer address = .accepting deeds := by simpa [d, fresh] using stage
    rwa [accepting] at courteous
  · rw [Setting.outcome, started]
    rfl

theorem fillTuned (courteous : ∀ address, (E.peer address).isCourteous = true) (n : Nat)
    (wired : Wired w.slots w.sockets) (tuned : Tuned E w) : Tuned E (fill E n w).2.2 ∧ Own E (fill E n w).2.1 := by
  fun_induction fill E n w with
  | case1 | case2 | case3 => exact ⟨⟨tuned.fit, tuned.owed⟩, List.forall_mem_nil _⟩
  | case4 n w free address shard taken w' outcome ended failure others last filled ih =>
    have rest := ih wired ⟨tuned.fit, tuned.owed⟩
    rw [filled] at rest
    refine ⟨rest.1, List.forall_mem_cons.mpr ⟨?_, rest.2⟩⟩
    rw [(Setting.startFailed ended).1, Setting.outcome, ended]
  | case5 n w free address shard taken w' k link started ih =>
    obtain ⟨opened, still⟩ := occupyDialogues (w := w') E wired address k link
    obtain ⟨fit, owed⟩ := startFit started (courteous address) w'.now
    refine ih still ⟨?_, ?_⟩ <;> rw [opened] <;> intro d mem <;> rcases List.mem_append.mp mem with old | new
    · exact tuned.fit d old
    · exact List.mem_singleton.mp new ▸ fit
    · exact tuned.owed d old
    · exact List.mem_singleton.mp new ▸ owed

theorem freshTuned (E : Setting κ) (id : Nat) (shard : Sweep) : Tuned E (new id shard) :=
  ⟨List.forall_mem_nil _, List.forall_mem_nil _⟩

structure Completed (E : Setting κ) (p : Permutation) (w : Worker κ) (visited : List UInt32) (found : List Outcome)
    (t : Trace) : Prop where
  last : ∃ after, Probed p w visited found after ∧ after.slots = [] ∧ after.shard.finished = true ∧
    after.shard.Sound ∧ t.progress = after.progress ∧ t.report = after.report
  handed : t.batches.flatten = storable E.storeUnanswered found
  own : (∀ address, (E.peer address).isCourteous = true) → Served E w → Tuned E w → Own E found

theorem batchFlatten (E : Setting κ) (found : List Outcome) : (batch E found).flatten = storable E.storeUnanswered found := by
  unfold batch
  dsimp only
  split
  · rename_i empty
    rw [List.isEmpty_iff.mp empty]
    rfl
  · exact List.append_nil _

theorem servedRound {found : List Outcome} {next : Worker κ} (served : Served E w)
    (filled : fill E w.shard.remaining w = (none, found, next)) (busy : next.slots ≠ []) :
    (∀ d ∈ next.dialogues, (present E next d).Served E.handshake (polled E next d) (later E next)) ∧
    Served E (next.round E).2 := by
  cases served with
  | failed failed => cases failed.symm.trans filled
  | drained drained spent => cases drained.symm.trans filled; exact absurd spent busy
  | busy other _ here rest => cases other.symm.trans filled; exact ⟨here, rest⟩

theorem runProbed (E : Setting κ) (ready : Ready p w) :
    ((run E w).failure = none → ∃ visited found, Completed E p w visited found (run E w)) ∧
    ∀ e, (run E w).failure = some e → ∃ visited, Stops p w.shard visited e := by
  -- By the rounds of the run; what is found and what is still open is kept by `Probed`.
  fun_induction run E w with
  | case1 w e found last filled =>
    obtain ⟨visited, fills⟩ := fillProbed E ready (Nat.le_refl _)
    rw [filled] at fills
    exact ⟨fun calm => absurd calm (Option.some_ne_none e), fun e same => ⟨visited, fills.failed e same⟩⟩
  | case2 w found next filled drained =>
    obtain ⟨visited, fills⟩ := fillProbed E ready (Nat.le_refl _)
    rw [filled] at fills
    obtain ⟨cursor, stop, -⟩ := fills.probed.windowKept
    have spent : next.shard.finished = true := by
      rcases fills.calm rfl with whole | full
      · simp only [Sweep.finished, Sweep.remaining, decide_eq_true_eq] at whole cursor stop ⊢
        omega
      · rw [drained, Setting.places] at full
        simp at full
    have own (courteous : ∀ address, (E.peer address).isCourteous = true) (_ : Served E w) (tuned : Tuned E w) :
        Own E found := by
      have filledOwn := (fillTuned courteous w.shard.remaining ready.wired tuned).2
      rwa [filled] at filledOwn
    exact ⟨fun _ => ⟨visited, found, ⟨next, fills.probed, drained, spent, fills.ready.sound, rfl, rfl⟩, batchFlatten E found,
      own⟩, by simp [Trace.of]⟩
  | case3 w found next filled busy rest ih =>
    obtain ⟨visited, fills⟩ := fillProbed E ready (Nat.le_refl _)
    rw [filled] at fills
    obtain ⟨round, still⟩ := roundProbed E fills.ready
    have first := fills.probed.trans round
    obtain ⟨done, failed⟩ := ih still
    constructor
    · intro calm
      obtain ⟨more, others, ⟨last, second, drained, spent, sound, progress, report⟩, handed, own⟩ := done calm
      refine ⟨_, _, ⟨last, first.trans second, drained, spent, sound, progress, report⟩, ?_, ?_⟩
      · rw [List.flatten_append, batchFlatten, handed, ← storableAppend]
      · intro courteous served tuned
        obtain ⟨here, further⟩ := servedRound served filled busy
        obtain ⟨tunedNext, ownFound⟩ := fillTuned courteous w.shard.remaining ready.wired tuned
        rw [filled] at tunedNext ownFound
        obtain ⟨tunedAfter, ownRound⟩ := roundTuned fills.ready tunedNext here
        have ownRest := own courteous further tunedAfter
        simpa only [Own, List.forall_mem_append] using ⟨⟨ownFound, ownRound⟩, ownRest⟩
    · intro e failure
      obtain ⟨more, stops⟩ := failed e failure
      exact ⟨_, first.stopsLater stops⟩

structure Told (E : Setting κ) (p : Permutation) (id : Nat) (shard : Sweep) (visited : List UInt32)
    (found : List Outcome) (t : Trace) : Prop where
  positions : shard.window.map (Sweep.addressAt p shard.blocks) = visited.map some
  addresses : (found.map (·.address)).Perm visited
  own : (∀ address, (E.peer address).isCourteous = true) → Served E (new id shard) → Own E found
  handed : t.batches.flatten = storable E.storeUnanswered found
  progress : t.progress = .tally visited.length found
  report : t.report = ⟨id, shard.window.length, shard.window.length, 0, false⟩

theorem stopsFirst {shard : Sweep} {visited : List UInt32} {e : SweepError} (stops : Stops p shard visited e)
    (fresh : shard.cursor = shard.start) : Sweep.firstFailure p shard.blocks shard.window = some e := by
  obtain ⟨positions, inside, stuck, rfl⟩ := stops
  rw [fresh] at positions inside stuck ⊢
  have cut : shard.window = List.range' shard.start visited.length ++
      List.range' (shard.start + visited.length) (shard.stop - shard.start - visited.length - 1 + 1) := by
    rw [List.range'_append_1, Sweep.window]
    congr 1
    omega
  have early := Sweep.landedCalm positions
  rw [Sweep.firstFailure, Option.map_eq_none_iff] at early
  rw [Sweep.firstFailure, cut, List.find?_append, early, Option.none_or, List.range'_succ,
    List.find?_cons_of_pos (by simp [stuck])]
  rfl

/- A worker fails with the first position of its window that leads nowhere, however many places
it has and whatever its addresses do. -/
theorem runTells (E : Setting κ) (id : Nat) {shard : Sweep} (sound : shard.Sound) (permutes : shard.permutation = some p)
    (fresh : shard.cursor = shard.start) :
    (((new id shard).run E).failure = none → ∃ visited found, Told E p id shard visited found ((new id shard).run E)) ∧
    ((new id shard).run E).failure = Sweep.firstFailure p shard.blocks shard.window := by
  obtain ⟨done, failed⟩ := runProbed E (readyNew sound permutes id)
  have told (calm : ((new id shard).run E).failure = none) :
      ∃ visited found, Told E p id shard visited found ((new id shard).run E) := by
    obtain ⟨visited, found, ⟨last, probed, drained, spent, still, progress, report⟩, handed, own⟩ := done calm
    obtain ⟨cursor, stop, -⟩ := probed.windowKept
    have whole : shard.window.length = visited.length := by
      have below := still.cursor
      simp only [Sweep.finished, decide_eq_true_eq, new] at spent cursor stop
      rw [Sweep.window, List.length_range']
      omega
    have addresses : (found.map (·.address)).Perm visited := by simpa [dialogues, drained, new] using probed.balance
    refine ⟨visited, found, ?_, addresses, fun courteous served => own courteous served (freshTuned E id shard), handed, ?_, ?_⟩
    · have positions := probed.positions
      rw [← whole] at positions
      rw [Sweep.window, List.length_range'] at positions
      rw [Sweep.window, ← fresh]
      rwa [← fresh] at positions
    · rw [progress, probed.progress]
      exact Progress.zeroAdd _
    · have one := addresses.length_eq
      rw [List.length_map] at one
      rw [report, probed.report, one, whole]
      simp [new]
  refine ⟨told, ?_⟩
  cases failure : ((new id shard).run E).failure with
  | none =>
    obtain ⟨visited, found, tells⟩ := told failure
    exact (Sweep.landedCalm tells.positions).symm
  | some e =>
    obtain ⟨visited, stops⟩ := failed e failure
    exact (stopsFirst stops fresh).symm

end Worker
end TlsCensus
