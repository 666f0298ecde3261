import TlsCensus.Probe.Worker
import Mathlib.Data.List.Nodup

/-! A worker drives many dialogues over one poller and one table of sockets. As long as each slot
has a descriptor of its own, a round does to each dialogue what it would do to that dialogue
alone: the poller answers by place, and whatever is read or sent goes by the slot's own socket. -/
namespace TlsCensus

namespace Link

theorem arriveGone (n : Nat) : gone.arrive n = gone := by
  cases n <;> rfl

end Link

namespace Sockets
variable {s : Sockets} {d e : Nat} {l : Link}

def IsOpen (s : Sockets) (d : Nat) : Prop := ∃ l, s[d]? = some (some l)

theorem linkOpen (found : s[d]? = some (some l)) : s.link d = l := by
  simp [link, found]

theorem putHere (opened : s.IsOpen d) : (s.put d l)[d]? = some (some l) := by
  obtain ⟨old, found⟩ := opened
  obtain ⟨inside, -⟩ := List.getElem?_eq_some_iff.mp found
  simp [put, inside]

theorem putElsewhere (other : d ≠ e) : (s.put d l)[e]? = s[e]? := List.getElem?_set_ne other

theorem closeElsewhere (other : d ≠ e) : (s.close d)[e]? = s[e]? := List.getElem?_set_ne other

theorem putOpen (opened : s.IsOpen d) (here : s.IsOpen e) : (s.put d l).IsOpen e := by
  by_cases same : d = e
  · subst same
    exact ⟨l, putHere opened⟩
  · exact here.imp fun _ found => (putElsewhere same).trans found

theorem connectSpec (l : Link) (s : Sockets) :
    ¬ s.IsOpen (s.connect l).1 ∧ (s.connect l).2[(s.connect l).1]? = some (some l) ∧
    ∀ e, s.IsOpen e → (s.connect l).2[e]? = s[e]? := by
  induction s with
  | nil => exact ⟨by simp [IsOpen], rfl, by simp [IsOpen]⟩
  | cons entry rest ih =>
    cases entry with
    | none =>
      refine ⟨by simp [IsOpen, connect], rfl, fun e opened => ?_⟩
      cases e with
      | zero => simp [IsOpen] at opened
      | succ e => rfl
    | some other =>
      obtain ⟨free, here, elsewhere⟩ := ih
      refine ⟨by simpa [IsOpen, connect] using free, by simpa [connect] using here, fun e opened => ?_⟩
      cases e with
      | zero => rfl
      | succ e => simpa [connect] using elsewhere e (by simpa [IsOpen] using opened)

theorem linkArrive (deeds : UInt32 → Nat) (s : Sockets) (d : Nat) :
    (s.arrive deeds).link d = (s.link d).arrive (deeds (s.link d).address) := by
  simp only [link, arrive, List.getElem?_map]
  cases s[d]? with
  | none => exact (Link.arriveGone _).symm
  | some entry =>
    cases entry with
    | none => exact (Link.arriveGone _).symm
    | some l => rfl

theorem arriveOpen (deeds : UInt32 → Nat) (opened : s.IsOpen d) : (s.arrive deeds).IsOpen d := by
  obtain ⟨l, found⟩ := opened
  exact ⟨_, by simp [arrive, found]; rfl⟩

end Sockets

namespace Worker
variable {κ : Type} {E : Setting κ} {w : Worker κ}

def dialogue (s : Sockets) (slot : Slot κ) : Dialogue κ := ⟨slot.connection, s.link slot.descriptor⟩

def dialogues (w : Worker κ) : List (Dialogue κ) := w.slots.map (dialogue w.sockets)

structure Wired (slots : List (Slot κ)) (s : Sockets) : Prop where
  distinct : (slots.map (·.descriptor)).Nodup
  opened : ∀ slot ∈ slots, s.IsOpen slot.descriptor

theorem dialoguesAlike {slots : List (Slot κ)} {s t : Sockets}
    (same : ∀ slot ∈ slots, t[slot.descriptor]? = s[slot.descriptor]?) :
    slots.map (dialogue t) = slots.map (dialogue s) :=
  List.map_congr_left fun slot mem => by simp only [dialogue, Sockets.link, same slot mem]

theorem enlistSpec (slots : List (Slot κ)) (p : Poller) :
    ∃ entries, (enlist slots p).2 = p ++ entries ∧
      (enlist slots p).1.map (fun slot => (slot.connection, slot.descriptor)) =
        slots.map (fun slot => (slot.connection, slot.descriptor)) ∧
      ∀ slot ∈ (enlist slots p).1, (enlist slots p).2[slot.pollIndex]? =
        some ⟨slot.descriptor, slot.connection.wantsWrite, {}⟩ := by
  induction slots generalizing p with
  | nil => exact ⟨[], (List.append_nil p).symm, rfl, by simp [enlist]⟩
  | cons slot rest ih =>
    obtain ⟨entries, whole, kept, indexed⟩ := ih (p ++ [⟨slot.descriptor, slot.connection.wantsWrite, {}⟩])
    refine ⟨⟨slot.descriptor, slot.connection.wantsWrite, {}⟩ :: entries, ?_, ?_, ?_⟩
    · simpa [enlist, Poller.register] using whole
    · simpa [enlist, Poller.register] using kept
    · intro other mem
      simp only [enlist, Poller.register, List.mem_cons] at mem ⊢
      rcases mem with rfl | mem
      · simp [whole]
      · exact indexed other mem

theorem polledOwn {p : Poller} {index d : Nat} {wantWrite : Bool} (entry : p[index]? = some ⟨d, wantWrite, {}⟩)
    (interrupted : Bool) (s : Sockets) :
    (p.wait interrupted s).readiness index = if interrupted then {} else (s.link d).readiness wantWrite := by
  simp [Poller.wait, Poller.readiness, entry]

theorem driveAllSpec (C : Capability κ) (p : Poller) (now : Nat) {slots : List (Slot κ)} {s : Sockets}
    (wired : Wired slots s) :
    let driven := driveAll C p now slots s
    driven.1.map (dialogue driven.2) =
      slots.map (fun slot => (dialogue s slot).drive C (p.readiness slot.pollIndex) now) ∧
    driven.1.map (·.descriptor) = slots.map (·.descriptor) ∧
    (∀ e, (∀ slot ∈ slots, slot.descriptor ≠ e) → driven.2[e]? = s[e]?) ∧
    ∀ e, s.IsOpen e → driven.2.IsOpen e := by
  induction slots generalizing s with
  | nil => exact ⟨rfl, rfl, fun _ _ => rfl, fun _ opened => opened⟩
  | cons slot rest ih =>
    obtain ⟨distinct, opened⟩ := wired
    obtain ⟨fresh, distinct⟩ := List.nodup_cons.mp distinct
    have apart : ∀ other ∈ rest, slot.descriptor ≠ other.descriptor := fun other mem same =>
      fresh (List.mem_map.mpr ⟨other, mem, same.symm⟩)
    have here := opened slot List.mem_cons_self
    let moved := (dialogue s slot).drive C (p.readiness slot.pollIndex) now
    have still : Wired rest (s.put slot.descriptor moved.link) :=
      ⟨distinct, fun other mem => Sockets.putOpen here (opened other (List.mem_cons_of_mem _ mem))⟩
    obtain ⟨dialogues, descriptors, elsewhere, stays⟩ := ih still
    have whole : driveAll C p now (slot :: rest) s =
      ({ slot with connection := moved.connection } :: (driveAll C p now rest (s.put slot.descriptor moved.link)).1,
        (driveAll C p now rest (s.put slot.descriptor moved.link)).2) := rfl
    rw [whole]
    refine ⟨?_, ?_, ?_, ?_⟩
    · have own : (driveAll C p now rest (s.put slot.descriptor moved.link)).2[slot.descriptor]? = some (some moved.link) :=
        (elsewhere _ fun other mem same => apart other mem same.symm).trans (Sockets.putHere here)
      have others : rest.map (fun other => (dialogue (s.put slot.descriptor moved.link) other).drive C (p.readiness other.pollIndex) now) =
          rest.map (fun other => (dialogue s other).drive C (p.readiness other.pollIndex) now) :=
        List.map_congr_left fun other mem => by
          simp only [dialogue, Sockets.link, Sockets.putElsewhere (apart other mem)]
      have first : dialogue (driveAll C p now rest (s.put slot.descriptor moved.link)).2
          { slot with connection := moved.connection } = moved := by simp only [dialogue, Sockets.linkOpen own]
      rw [List.map_cons, List.map_cons, dialogues, others, first]
    · simp only [List.map_cons, descriptors]
    · intro e away
      rw [elsewhere e fun other mem => away other (List.mem_cons_of_mem _ mem)]
      exact Sockets.putElsewhere (away slot List.mem_cons_self)
    · exact fun e opened => stays e (Sockets.putOpen here opened)

def arrived (E : Setting κ) (w : Worker κ) (d : Dialogue κ) : Dialogue κ :=
  { d with link := d.link.arrive (E.timing.deeds d.link.address w.rounds) }

def present (E : Setting κ) (w : Worker κ) (d : Dialogue κ) : Dialogue κ :=
  { d with link := (arrived E w d).link.arrive (E.timing.meanwhile (arrived E w d).link.address w.rounds) }

def polled (E : Setting κ) (w : Worker κ) (d : Dialogue κ) : Readiness :=
  if E.timing.interrupted w.report.worker w.rounds then {} else (arrived E w d).link.readiness d.connection.wantsWrite

def later (E : Setting κ) (w : Worker κ) : Nat := w.now + E.timing.lapse w.report.worker w.rounds + 1

def driven (E : Setting κ) (w : Worker κ) (d : Dialogue κ) : Dialogue κ :=
  (present E w d).drive E.handshake (polled E w d) (later E w)

theorem tickDialogues (E : Setting κ) (wired : Wired w.slots w.sockets) :
    (w.tick E).dialogues = w.dialogues.map (driven E w) ∧ Wired (w.tick E).slots (w.tick E).sockets := by
  obtain ⟨entries, whole, kept, indexed⟩ := enlistSpec w.slots []
  let s := w.sockets.arrive fun address => E.timing.deeds address w.rounds
  let t := s.arrive fun address => E.timing.meanwhile address w.rounds
  let p := (enlist w.slots []).2.wait (E.timing.interrupted w.report.worker w.rounds) s
  have descriptors : (enlist w.slots []).1.map (·.descriptor) = w.slots.map (·.descriptor) := by
    simpa [List.map_map, Function.comp_def] using congrArg (List.map Prod.snd) kept
  have ready : Wired (enlist w.slots []).1 t := by
    refine ⟨descriptors ▸ wired.distinct, fun slot mem => Sockets.arriveOpen _ (Sockets.arriveOpen _ ?_)⟩
    have here := List.mem_map_of_mem (f := (·.descriptor)) mem
    rw [descriptors] at here
    obtain ⟨other, mem, same⟩ := List.mem_map.mp here
    exact same ▸ wired.opened other mem
  obtain ⟨dialogues, still, -, stays⟩ := driveAllSpec E.handshake p (later E w) ready
  constructor
  · refine Eq.trans dialogues ?_
    have own : (enlist w.slots []).1.map (fun slot => (dialogue t slot).drive E.handshake (p.readiness slot.pollIndex) (later E w)) =
        ((enlist w.slots []).1.map fun slot => (slot.connection, slot.descriptor)).map
          fun pair => driven E w ⟨pair.1, w.sockets.link pair.2⟩ := by
      rw [List.map_map]
      refine List.map_congr_left fun slot mem => ?_
      have read : p.readiness slot.pollIndex = _ := polledOwn (indexed slot mem) _ s
      rw [read]
      simp only [Function.comp, driven, present, polled, arrived, dialogue, s, t, Sockets.linkArrive]
    rw [own, kept, List.map_map, Worker.dialogues, List.map_map]
    rfl
  · refine ⟨?_, fun slot mem => ?_⟩
    · exact still ▸ ready.distinct
    · have here := List.mem_map_of_mem (f := (·.descriptor)) mem
      rw [show (w.tick E).slots.map (·.descriptor) = _ from still] at here
      obtain ⟨other, mem, same⟩ := List.mem_map.mp here
      exact same ▸ stays _ (ready.opened other mem)

theorem closedElsewhere {ended : List (Slot κ)} {s : Sockets} {e : Nat} (away : ∀ slot ∈ ended, slot.descriptor ≠ e) :
    (ended.foldl (fun sockets slot => sockets.close slot.descriptor) s)[e]? = s[e]? := by
  induction ended generalizing s with
  | nil => rfl
  | cons slot rest ih =>
    rw [List.foldl_cons, ih fun other mem => away other (List.mem_cons_of_mem _ mem)]
    exact Sockets.closeElsewhere (away slot List.mem_cons_self)

theorem harvestDialogues (E : Setting κ) (wired : Wired w.slots w.sockets) :
    (w.harvest E).1 = (w.dialogues.filter (·.connection.isTerminal)).filterMap
      (fun d => (d.connection.takeOutcome (E.finishedAt d.connection.address)).1) ∧
    (w.harvest E).2.dialogues = w.dialogues.filter (!·.connection.isTerminal) ∧
    Wired (w.harvest E).2.slots (w.harvest E).2.sockets := by
  have kept : ∀ slot ∈ w.slots.filter (!·.connection.isTerminal), (w.harvest E).2.sockets[slot.descriptor]? =
      w.sockets[slot.descriptor]? := by
    intro slot mem
    obtain ⟨here, runs⟩ := List.mem_filter.mp mem
    refine closedElsewhere fun other ended same => ?_
    obtain ⟨there, spent⟩ := List.mem_filter.mp ended
    have one : other = slot := List.inj_on_of_nodup_map wired.distinct there here same
    rw [one] at spent
    simp [spent] at runs
  refine ⟨?_, ?_, ?_, fun slot mem => ?_⟩
  · rw [dialogues, List.filter_map, List.filterMap_map]
    rfl
  · rw [dialogues, dialogues, List.filter_map]
    exact dialoguesAlike kept
  · exact wired.distinct.sublist (List.filter_sublist.map _)
  · obtain ⟨l, found⟩ := wired.opened slot (List.mem_of_mem_filter mem)
    exact ⟨l, (kept slot mem).trans found⟩

theorem occupyDialogues (E : Setting κ) (wired : Wired w.slots w.sockets) (address : UInt32) (k : κ) (link : Link) :
    (w.occupy E address k link).dialogues = w.dialogues ++ [⟨.new address E.port k E.timeout w.now, link⟩] ∧
    Wired (w.occupy E address k link).slots (w.occupy E address k link).sockets := by
  obtain ⟨free, here, elsewhere⟩ := Sockets.connectSpec link w.sockets
  refine ⟨?_, ?_, fun slot mem => ?_⟩
  · simp only [dialogues, occupy, List.map_append, List.map_singleton, dialogue, Sockets.linkOpen here]
    rw [dialoguesAlike fun slot mem => elsewhere _ (wired.opened slot mem)]
  · simp only [occupy, List.map_append, List.map_singleton]
    refine List.nodup_append.mpr ⟨wired.distinct, List.nodup_singleton _, fun d old e new same => ?_⟩
    obtain ⟨slot, mem, rfl⟩ := List.mem_map.mp old
    rw [List.mem_singleton.mp new] at same
    exact free (same ▸ wired.opened slot mem)
  · rcases List.mem_append.mp mem with old | new
    · obtain ⟨l, found⟩ := wired.opened slot old
      exact ⟨l, (elsewhere _ (wired.opened slot old)).trans found⟩
    · rw [List.mem_singleton.mp new]
      exact ⟨link, here⟩

/- No dialogue of a round has a part in another. -/
theorem roundDialogues (E : Setting κ) (wired : Wired w.slots w.sockets) :
    let moved := w.dialogues.map (driven E w)
    (w.round E).1 = (moved.filter (·.connection.isTerminal)).filterMap
      (fun d => (d.connection.takeOutcome (E.finishedAt d.connection.address)).1) ∧
    (w.round E).2.dialogues = moved.filter (!·.connection.isTerminal) ∧
    Wired (w.round E).2.slots (w.round E).2.sockets := by
  intro moved
  obtain ⟨ticked, still⟩ := tickDialogues E wired
  obtain ⟨outcomes, left, last⟩ := harvestDialogues E still
  rw [ticked] at outcomes left
  exact ⟨outcomes, left, last⟩

end Worker
end TlsCensus
