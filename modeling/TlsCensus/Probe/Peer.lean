import TlsCensus.Bytes

/-! A host and the socket that leads to it. The host does its deeds in order, each of them when
it likes; a read waits for something to be sent, and a host whose deeds are done holds the
connection. The socket is what the near end's kernel makes of it: what has arrived, and how
the connection stands. -/
namespace TlsCensus

inductive Deed where
  | read
  | write (data : Bytes)
  | close
  | reset
  deriving DecidableEq, Repr

inductive Peer where
  | silent
  | refusing
  | accepting (deeds : List Deed)
  deriving DecidableEq, Repr

def Peer.listening (reply : Bytes) (secondReply : Option Bytes) (ending : List Deed) : Peer :=
  .accepting ([.read, .write reply] ++ (secondReply.map (fun data => [Deed.read, .write data])).getD [] ++
    ending)

structure Readiness where
  readable : Bool := false
  writable : Bool := false
  hangup : Bool := false
  error : Bool := false
  deriving DecidableEq, Repr

def Readiness.isIdle (r : Readiness) : Bool := !(r.readable || r.writable || r.hangup || r.error)

inductive ReadStatus where
  | open
  | closed
  | failed
  deriving DecidableEq, Repr

inductive Link.Stage where
  | asked (peer : Peer)
  | joined (deeds : List Deed)
  | closed
  | broken
  deriving DecidableEq, Repr

/-- A socket to `address`. One write takes at most `room` bytes; `unread` counts the sendings
that the host has still to read, `inbox` holds the host's own that nobody has read here. -/
structure Link where
  address : UInt32
  room : Nat
  stage : Link.Stage
  unread : Nat
  inbox : List Bytes
  deriving DecidableEq, Repr

namespace Link

def gone : Link := ⟨0, 0, .broken, 0, []⟩

/-- The next deed of the host, if it can be done. A host that closes with something left to
read, or is sent something after it has closed, resets. -/
def act (l : Link) : Option Link :=
  match l.stage with
  | .asked .silent | .joined [] | .broken => none
  | .asked .refusing | .joined (.reset :: _) => some { l with stage := .broken }
  | .asked (.accepting deeds) => some { l with stage := .joined deeds }
  | .joined (.read :: deeds) =>
    if l.unread = 0 then none else some { l with stage := .joined deeds, unread := l.unread - 1 }
  | .joined (.write data :: deeds) =>
    some { l with stage := .joined deeds, inbox := if data.isEmpty then l.inbox else l.inbox ++ [data] }
  | .joined (.close :: _) => some { l with stage := if l.unread = 0 then .closed else .broken }
  | .closed => if l.unread = 0 then none else some { l with stage := .broken }

def arrive : Nat → Link → Link
  | 0, l => l
  | n + 1, l =>
    match l.act with
    | none => l
    | some l => arrive n l

/-- Errors and hangups show whatever is asked for. A host that only closes is no hangup. -/
def readiness (wantWrite : Bool) (l : Link) : Readiness :=
  match l.stage with
  | .asked _ => {}
  | .joined _ => { readable := !wantWrite && !l.inbox.isEmpty, writable := wantWrite }
  | .closed => { readable := !wantWrite, writable := wantWrite }
  | .broken => { readable := !wantWrite, writable := wantWrite, hangup := true, error := true }

def takeError (l : Link) : Bool := l.stage = .broken

def read (l : Link) : Option (Bytes × ReadStatus) × Link :=
  let data := l.inbox.flatten
  let answer :=
    match l.stage with
    | .closed => some (data, .closed)
    | .broken => if data.isEmpty then none else some (data, .failed)
    | _ => some (data, .open)
  (answer, { l with inbox := [] })

def send (data : Bytes) (l : Link) : Bool × Link :=
  if l.stage = .broken ∨ l.room < data.length then (false, l) else (true, { l with unread := l.unread + 1 })

def load (l : Link) : Nat :=
  l.inbox.length +
    match l.stage with
    | .asked (.accepting deeds) | .joined deeds => deeds.length
    | _ => 0

theorem actLoad {l after : Link} (acted : l.act = some after) : after.load ≤ l.load := by
  unfold act at acted
  split at acted
  case h_1 | h_2 | h_3 => contradiction
  case h_4 stage | h_5 stage => cases acted; simp [load, stage]
  case h_6 stage => cases acted; simp [load, stage]
  case h_7 stage =>
    split at acted
    · contradiction
    · cases acted; simp [load, stage]
  case h_8 stage =>
    cases acted
    simp only [load, stage, List.length_cons]
    split
    · omega
    · simp; omega
  case h_9 stage => cases acted; split <;> simp [load, stage]
  case h_10 stage =>
    split at acted
    · contradiction
    · cases acted; simp [load, stage]

theorem arriveLoad (n : Nat) (l : Link) : (l.arrive n).load ≤ l.load := by
  fun_induction arrive n l with
  | case1 | case2 => exact Nat.le_refl _
  | case3 n l after acted ih => exact Nat.le_trans ih (actLoad acted)

theorem sendLoad (data : Bytes) (l : Link) : (l.send data).2.load = l.load := by
  unfold send
  split <;> rfl

theorem readLoad (l : Link) : l.read.2.load ≤ l.load ∧
    ∀ data status, l.read.1 = some (data, status) → data ≠ [] → l.read.2.load < l.load := by
  refine ⟨by simp [read, load], fun data status answer filled => ?_⟩
  have same : data = l.inbox.flatten := by
    simp only [read] at answer
    split at answer
    · simp_all
    · split at answer <;> simp_all
    · simp_all
  have waiting : l.inbox ≠ [] := fun none => filled (by rw [same, none]; rfl)
  have some := List.length_pos_iff.mpr waiting
  simp only [read, load, List.length_nil]
  omega

end Link
end TlsCensus
