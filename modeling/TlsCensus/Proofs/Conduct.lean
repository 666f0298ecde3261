import TlsCensus.Proofs.Settling

/-! How a probe behaves towards its owner and towards its handshake, in whatever order events
come and its outcome is asked for. It closes once, hands its outcome out once, and what it
calls in its handshake is always a front of one and the same conversation. -/
namespace TlsCensus

inductive Phase.Leads : Phase → Phase → Prop where
  | stay (p) : Leads p p
  | greet : Leads .connecting .handshaking
  | stop {p q : Phase} (runs : p.isTerminal = false) (ended : q.isTerminal = true) : Leads p q

namespace Exchange

def call : Exchange → CapabilityCall
  | .initiate _ => .initiate
  | .step _ => .step
  | .output _ => .output
  | .feed data => .feed data

def fullCalls (pieces : List Bytes) : List CapabilityCall :=
  [.initiate, .step, .output] ++ pieces.flatMap fun data => [.feed data, .step, .output]

theorem fullCallsBegin (pieces : List Bytes) : (fullCalls pieces).count .initiate = 1 := by
  induction pieces with
  | nil => rfl
  | cons data rest ih => simpa [fullCalls] using ih

inductive Farewell : Phase → List Exchange → Prop where
  | unsaid {phase : Phase} (runs : phase.isTerminal = false) : Farewell phase []
  | refused (e) : Farewell .connecting [.initiate (.error e)]
  | rejected : Farewell .connecting [.initiate (.ok ()), .step .failed]
  | mute (verdict) : Farewell .connecting [.initiate (.ok ()), .step verdict, .output []]
  | decided (data) {verdict} (last : verdict ≠ .awaiting) : Farewell .handshaking [.feed data, .step verdict]

inductive Conversation : Phase → List Exchange → Prop where
  | silent : Conversation .connecting []
  | greeted {verdict hello} (sane : verdict ≠ .failed) (written : hello ≠ []) :
      Conversation .handshaking [.initiate (.ok ()), .step verdict, .output hello]
  | heard {log} (talk : Conversation .handshaking log) (data out) :
      Conversation .handshaking (log ++ [.feed data, .step .awaiting, .output out])
  | parted {phase last log words} (talk : Conversation phase log) (bye : Farewell phase words)
      (ended : last.isTerminal = true) : Conversation last (log ++ words)

namespace Conversation
variable {phase : Phase} {log : List Exchange}

theorem connectingSilent (talk : Conversation phase log) (connecting : phase = .connecting) : log = [] := by
  cases talk with
  | silent => rfl
  | greeted | heard => contradiction
  | parted talk bye ended => subst connecting; contradiction

theorem handshakingFull (talk : Conversation phase log) (handshaking : phase = .handshaking) :
    ∃ pieces, log.map call = fullCalls pieces := by
  induction talk with
  | silent => contradiction
  | greeted => exact ⟨[], rfl⟩
  | heard talk data out ih =>
    obtain ⟨pieces, calls⟩ := ih rfl
    exact ⟨pieces ++ [data], by simp [calls, fullCalls, call]⟩
  | parted talk bye ended => subst handshaking; contradiction

theorem callsFront (talk : Conversation phase log) : ∃ pieces, log.map call <+: fullCalls pieces := by
  induction talk with
  | silent => exact ⟨[], List.nil_prefix⟩
  | greeted => exact ⟨[], List.prefix_refl _⟩
  | heard talk data out =>
    obtain ⟨pieces, calls⟩ := (talk.heard data out).handshakingFull rfl
    exact ⟨pieces, calls ▸ List.prefix_refl _⟩
  | parted talk bye ended ih =>
    cases bye with
    | unsaid runs => rwa [List.append_nil]
    | refused e =>
      obtain rfl := talk.connectingSilent rfl
      exact ⟨[], [.step, .output], rfl⟩
    | rejected =>
      obtain rfl := talk.connectingSilent rfl
      exact ⟨[], [.output], rfl⟩
    | mute verdict =>
      obtain rfl := talk.connectingSilent rfl
      exact ⟨[], [], rfl⟩
    | decided data last =>
      obtain ⟨pieces, calls⟩ := talk.handshakingFull rfl
      exact ⟨pieces ++ [data], [.output], by simp [calls, fullCalls, call]⟩

theorem outputAwaits (talk : Conversation phase log) {i : Nat} {data out : Bytes} {verdict : Verdict}
    (fed : log[i]? = some (.feed data)) (stepped : log[i + 1]? = some (.step verdict))
    (said : log[i + 2]? = some (.output out)) : verdict = .awaiting := by
  induction talk with
  | silent => simp at fed
  | greeted =>
    match i with
    | 0 | 1 | 2 | n + 3 => simp at fed
  | @heard log talk data out ih =>
    by_cases early : i + 2 < log.length
    · rw [List.getElem?_append_left (by omega)] at fed stepped said
      exact ih fed stepped said
    · rw [List.getElem?_append_right (by omega)] at said
      match last : i + 2 - log.length with
      | 0 | 1 | n + 3 => simp [last] at said
      | 2 =>
        obtain rfl : i = log.length := by omega
        simp at stepped
        exact stepped.symm
  | @parted phase last log words talk bye ended ih =>
    cases bye with
    | unsaid runs =>
      rw [List.append_nil] at fed stepped said
      exact ih fed stepped said
    | refused | rejected | mute =>
      obtain rfl := talk.connectingSilent rfl
      match i with
      | 0 | 1 | 2 | n + 3 => simp at fed
    | decided data last =>
      by_cases early : i + 2 < log.length
      · rw [List.getElem?_append_left (by omega)] at fed stepped said
        exact ih fed stepped said
      · rw [List.getElem?_append_right (by omega)] at said
        match place : i + 2 - log.length with
        | 0 | 1 | n + 2 => simp [place] at said

end Conversation
end Exchange

namespace Connection
variable {κ : Type}

inductive Use where
  | event (event : Event) (now : Nat)
  | take (fetchedAt : UInt64)
  deriving DecidableEq, Repr

inductive Answer where
  | action (action : Action)
  | outcome (outcome : Option Outcome)
  deriving DecidableEq, Repr

namespace Answer

def closes : Answer → Bool
  | .action .close => true
  | _ => false

def yields : Answer → Bool
  | .outcome (some _) => true
  | _ => false

end Answer

def use (C : Capability κ) (c : Connection κ) : Use → Answer × Connection κ
  | .event event now => let (action, after) := c.transition C event now; (.action action, after)
  | .take fetchedAt => let (outcome, after) := c.takeOutcome fetchedAt; (.outcome outcome, after)

def history (C : Capability κ) (c : Connection κ) (uses : List Use) : List Answer × Connection κ :=
  uses.foldl (fun s u => (s.1 ++ [(s.2.use C u).1], (s.2.use C u).2)) ([], c)

def talk (C : Capability κ) (c : Connection κ) (uses : List Use) : List Exchange :=
  ((c.withLog []).history C.logged uses).2.capability.2

section History
variable (C : Capability κ) (c : Connection κ) (uses : List Use)

theorem historyLast (u : Use) : c.history C (uses ++ [u]) =
    ((c.history C uses).1 ++ [((c.history C uses).2.use C u).1], ((c.history C uses).2.use C u).2) := by
  rw [history, List.foldl_append]
  rfl

theorem takeLogged (fetchedAt : UInt64) (log : List Exchange) : (c.withLog log).takeOutcome fetchedAt =
    ((c.takeOutcome fetchedAt).1, (c.takeOutcome fetchedAt).2.withLog log) := by
  unfold takeOutcome
  split <;> rename_i ended <;> simp_all [withLog, isTerminal]

theorem historyLogged : (c.withLog []).history C.logged uses =
    ((c.history C uses).1, (c.history C uses).2.withLog (c.talk C uses)) := by
  induction uses using List.reverseRecOn with
  | nil => rfl
  | append_singleton uses u ih =>
    rw [talk, historyLast, historyLast, ih]
    cases u with
    | event event now =>
      obtain ⟨spoken, move⟩ := transitionMoves C (c.history C uses).2 event now
      simp only [use, transitionLogged move]
      rfl
    | take fetchedAt =>
      simp only [use, takeLogged]
      rfl

theorem talkEvent (event : Event) (now : Nat) : ∃ spoken,
    Move C (c.history C uses).2 now event spoken ((c.history C uses).2.transition C event now) ∧
    c.talk C (uses ++ [.event event now]) = c.talk C uses ++ spoken := by
  obtain ⟨spoken, move⟩ := transitionMoves C (c.history C uses).2 event now
  refine ⟨spoken, move, ?_⟩
  rw [talk, historyLast, historyLogged]
  simp only [use, transitionLogged move]
  rfl

theorem talkTake (fetchedAt : UInt64) : c.talk C (uses ++ [.take fetchedAt]) = c.talk C uses := by
  rw [talk, historyLast, historyLogged]
  simp only [use, takeLogged]
  rfl

end History

section Moves
open Exchange (Conversation)
variable {C : Capability κ} {c : Connection κ} {now : Nat} {event : Event} {spoken log : List Exchange}
  {after : Action × Connection κ} {answers : List Answer}

theorem moveTalks (move : Move C c now event spoken after) (talk : Conversation c.phase log) :
    Conversation after.2.phase (log ++ spoken) := by
  cases move with
  | spent | early | idle | inTime =>
    rw [List.append_nil]
    exact talk
  | unanswered phase | refused phase => exact talk.parted (.unsaid (connectingRuns phase)) rfl
  | unfinished phase | broken phase => exact talk.parted (.unsaid (handshakingRuns phase)) rfl
  | unsent runs | cutOff runs => exact talk.parted (.unsaid runs) rfl
  | uninitiated phase =>
    rw [phase] at talk
    exact talk.parted (.refused _) rfl
  | rejected phase =>
    rw [phase] at talk
    exact talk.parted .rejected rfl
  | mute phase =>
    rw [phase] at talk
    exact talk.parted (.mute _) rfl
  | greeted phase begun stepped sane said written =>
    obtain rfl := talk.connectingSilent phase
    exact .greeted sane written
  | concluded phase | spoiled phase =>
    rw [phase] at talk
    exact talk.parted (.decided _ (by decide)) rfl
  | listened phase | replied phase =>
    rw [phase] at talk
    simpa only [phase] using talk.heard _ _

def Greeted (answers : List Answer) (log : List Exchange) : Prop :=
  ∃ verdict hello, hello ≠ [] ∧ .action (.send hello) ∈ answers ∧
    [.initiate (.ok ()), .step verdict, .output hello] <+: log

structure Conduct (answers : List Answer) (log : List Exchange) (c : Connection κ) (action : Action)
    (after : Connection κ) (spoken : List Exchange) : Prop where
  phase : c.phase.Leads after.phase
  close : action = .close ↔ c.isTerminal = false ∧ after.isTerminal = true
  spent : c.isTerminal = true → action = .none ∧ after = c ∧ spoken = []
  send : ∀ data, action = .send data → data ≠ []
  greeted : ∀ data, .feed data ∈ spoken → Greeted answers log

theorem conductClosing {last : Connection κ} (runs : c.isTerminal = false) (ended : last.isTerminal = true)
    (greeted : ∀ data, .feed data ∈ spoken → Greeted answers log) : Conduct answers log c .close last spoken :=
  ⟨.stop runs ended, by simp [runs, ended], by simp [runs], by simp, greeted⟩

theorem conductOn {action : Action} {next : Connection κ} (runs : c.isTerminal = false)
    (on : next.isTerminal = false) (leads : c.phase.Leads next.phase) (unclosed : action ≠ .close)
    (send : ∀ data, action = .send data → data ≠ []) (greeted : ∀ data, .feed data ∈ spoken → Greeted answers log) :
    Conduct answers log c action next spoken :=
  ⟨leads, by simp [on, unclosed], by simp [runs], send, greeted⟩

theorem moveConducts (move : Move C c now event spoken after)
    (greeted : c.phase = .handshaking → Greeted answers log) : Conduct answers log c after.1 after.2 spoken := by
  cases move with
  | spent terminal => exact ⟨.stay _, by simp [terminal], fun _ => ⟨rfl, rfl, rfl⟩, by simp, by simp⟩
  | early phase => exact conductOn (connectingRuns phase) (connectingRuns phase) (.stay _) (by simp) (by simp) (by simp)
  | idle phase => exact conductOn (handshakingRuns phase) (handshakingRuns phase) (.stay _) (by simp) (by simp) (by simp)
  | inTime runs => exact conductOn runs runs (.stay _) (by simp) (by simp) (by simp)
  | unanswered phase | refused phase | uninitiated phase | rejected phase | mute phase =>
    exact conductClosing (connectingRuns phase) rfl (by simp)
  | unfinished phase | broken phase => exact conductClosing (handshakingRuns phase) rfl (by simp)
  | unsent runs | cutOff runs => exact conductClosing runs rfl (by simp)
  | greeted phase begun stepped sane said written =>
    have leads : c.phase.Leads .handshaking := phase ▸ .greet
    exact conductOn (connectingRuns phase) rfl leads (by simp) (by simpa using written) (by simp)
  | concluded phase | spoiled phase =>
    exact conductClosing (handshakingRuns phase) rfl fun _ _ => greeted phase
  | listened phase =>
    exact conductOn (handshakingRuns phase) (handshakingRuns phase) (.stay _) (by simp) (by simp) fun _ _ => greeted phase
  | replied phase stepped said written =>
    exact conductOn (handshakingRuns phase) (handshakingRuns phase) (.stay _) (by simp) (by simpa using written)
      fun _ _ => greeted phase

theorem Greeted.append (greeted : Greeted answers log) (more : List Answer) (words : List Exchange) :
    Greeted (answers ++ more) (log ++ words) := by
  obtain ⟨verdict, hello, written, handed, first⟩ := greeted
  exact ⟨verdict, hello, written, List.mem_append_left _ handed, first.trans (List.prefix_append _ _)⟩

theorem moveGreets (move : Move C c now event spoken after) (talk : Conversation c.phase log)
    (greeted : c.phase = .handshaking → Greeted answers log) (handshaking : after.2.phase = .handshaking) :
    Greeted (answers ++ [.action after.1]) (log ++ spoken) := by
  cases move with
  | greeted phase begun stepped sane said written =>
    obtain rfl := talk.connectingSilent phase
    exact ⟨_, _, written, by simp, List.prefix_refl _⟩
  | idle phase | listened phase | replied phase => exact (greeted phase).append _ _
  | spent | inTime | early => exact (greeted handshaking).append _ _
  | _ => contradiction

structure Conducted (answers : List Answer) (log : List Exchange) (c : Connection κ) : Prop where
  conversation : Conversation c.phase log
  greeted : c.phase = .handshaking → Greeted answers log
  closed : answers.countP Answer.closes = if c.isTerminal then 1 else 0
  yielded : answers.countP Answer.yields = if c.isTerminal ∧ c.result = none then 1 else 0

theorem moveConducted (move : Move C c now event spoken after) (conducted : Conducted answers log c) :
    Conducted (answers ++ [.action after.1]) (log ++ spoken) after.2 := by
  obtain ⟨talk, greeted, closed, yielded⟩ := conducted
  have conduct := moveConducts move greeted
  refine ⟨moveTalks move talk, moveGreets move talk greeted, ?_, ?_⟩
  · rw [List.countP_append, closed]
    cases runs : c.isTerminal with
    | true =>
      obtain ⟨quiet, same, -⟩ := conduct.spent runs
      simp [quiet, same, runs, Answer.closes]
    | false =>
      have close := conduct.close
      cases action : after.1 <;> simp_all [Answer.closes]
  · rw [List.countP_append, yielded]
    have quiet : [Answer.action after.1].countP Answer.yields = 0 := by simp [Answer.yields]
    rw [quiet]
    cases runs : c.isTerminal with
    | true =>
      obtain ⟨-, same, -⟩ := conduct.spent runs
      simp [same, runs]
    | false =>
      have result := moveResult move runs
      cases ended : after.2.isTerminal <;> simp_all [Option.isSome_iff_ne_none]

theorem takeConducted (fetchedAt : UInt64) (conducted : Conducted answers log c) :
    Conducted (answers ++ [.outcome (c.takeOutcome fetchedAt).1]) log (c.takeOutcome fetchedAt).2 := by
  obtain ⟨talk, greeted, closed, yielded⟩ := conducted
  unfold takeOutcome
  split
  · rename_i ended result
    refine ⟨talk, fun phase => ?_, ?_, ?_⟩
    · simpa using (greeted phase).append _ []
    · simp_all [isTerminal, Answer.closes]
    · simp_all [isTerminal, Answer.yields]
  · refine ⟨talk, fun phase => ?_, ?_, ?_⟩
    · simpa using (greeted phase).append _ []
    · simpa [Answer.closes] using closed
    · simpa [Answer.yields] using yielded

theorem takeOnce (conducted : Conducted answers log c) (fetchedAt : UInt64) :
    (c.isTerminal = false → c.takeOutcome fetchedAt = (none, c)) ∧
    ((c.takeOutcome fetchedAt).1.isSome = true ↔ c.isTerminal = true ∧ ∀ a ∈ answers, a.yields = false) := by
  have yielded := conducted.yielded
  cases ended : c.isTerminal with
  | false => simp [takeOutcome, ended]
  | true =>
    have fills : (c.takeOutcome fetchedAt).1.isSome = c.result.isSome := by
      cases result : c.result <;> simp [takeOutcome, ended, result]
    have fresh : (∀ a ∈ answers, a.yields = false) ↔ answers.countP Answer.yields = 0 := by simp
    rw [fills, fresh, yielded]
    cases c.result <;> simp [ended]

theorem takePhase (c : Connection κ) (fetchedAt : UInt64) : (c.takeOutcome fetchedAt).2.phase = c.phase := by
  unfold takeOutcome
  split <;> rfl

end Moves

section History
variable (C : Capability κ) (c : Connection κ) (uses : List Use)

theorem historyConducted (address : UInt32) (port : UInt16) (k : κ) (timeout start : Nat) :
    let first := new address port k timeout start
    Conducted (first.history C uses).1 (first.talk C uses) (first.history C uses).2 := by
  intro first
  induction uses using List.reverseRecOn with
  | nil => exact ⟨.silent, by simp [history, first, new], rfl, rfl⟩
  | append_singleton uses u ih =>
    rw [historyLast]
    cases u with
    | event event now =>
      obtain ⟨spoken, move, said⟩ := talkEvent C first uses event now
      rw [said]
      exact moveConducted move ih
    | take fetchedAt =>
      rw [talkTake]
      exact takeConducted fetchedAt ih

end History

theorem newConduct (C : Capability κ) (k : κ) (address : UInt32) (port : UInt16) (timeout start : Nat) (uses : List Use) :
    let first := new address port k timeout start
    let answers := (first.history C uses).1
    let c := (first.history C uses).2
    let log := first.talk C uses
    (first.withLog []).history C.logged uses = (answers, c.withLog log) ∧
    (∃ pieces, log.map Exchange.call <+: Exchange.fullCalls pieces) ∧
    (log.map Exchange.call).count .initiate ≤ 1 ∧
    (∀ i data verdict out, log[i]? = some (.feed data) → log[i + 1]? = some (.step verdict) →
      log[i + 2]? = some (.output out) → verdict = .awaiting) ∧
    answers.countP Answer.closes = (if c.isTerminal then 1 else 0) ∧
    answers.countP Answer.yields ≤ 1 ∧
    (∀ event now, ∃ spoken, first.talk C (uses ++ [.event event now]) = log ++ spoken ∧
      Conduct answers log c (c.transition C event now).1 (c.transition C event now).2 spoken) ∧
    ∀ fetchedAt, first.talk C (uses ++ [.take fetchedAt]) = log ∧
      (c.takeOutcome fetchedAt).2.phase = c.phase ∧
      (c.isTerminal = false → c.takeOutcome fetchedAt = (none, c)) ∧
      ((c.takeOutcome fetchedAt).1.isSome = true ↔ c.isTerminal = true ∧ ∀ a ∈ answers, a.yields = false) := by
  intro first answers c log
  have conducted : Conducted answers log c := historyConducted C uses address port k timeout start
  obtain ⟨pieces, front⟩ := conducted.conversation.callsFront
  refine ⟨historyLogged C first uses, ⟨pieces, front⟩, ?_, ?_, conducted.closed, ?_, ?_, ?_⟩
  · rw [← Exchange.fullCallsBegin pieces]
    exact front.sublist.count_le _
  · exact fun i data verdict out => conducted.conversation.outputAwaits
  · rw [conducted.yielded]
    split <;> simp
  · intro event now
    obtain ⟨spoken, move, said⟩ := talkEvent C first uses event now
    exact ⟨spoken, said, moveConducts move conducted.greeted⟩
  · exact fun fetchedAt => ⟨talkTake C first uses fetchedAt, takePhase c fetchedAt, takeOnce conducted fetchedAt⟩

end Connection
end TlsCensus
