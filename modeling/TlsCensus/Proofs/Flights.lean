import TlsCensus.Handshake.ServerFlight

/-! A flight can be put down after any byte and taken up again: more bytes change nothing
about a record that is complete or refused already. -/
namespace TlsCensus.ServerFlight

def Framing.before (more : Bytes) : Framing → Framing
  | .incomplete => .incomplete
  | .malformed => .malformed
  | .record type fragment rest => .record type fragment (rest ++ more)

theorem cutBefore {n : Nat} {b front rest : Bytes} (more : Bytes) (cut : Bytes.cut? n b = some (front, rest)) :
    Bytes.cut? n (b ++ more) = some (front, rest ++ more) := by
  obtain ⟨rfl, rfl⟩ := Bytes.cutLength cut
  simp only [Bytes.cut?, List.append_assoc, List.take_left, List.drop_left, if_true]

theorem bodyBefore {t : UInt8} {length : Nat} {b : Bytes} (more : Bytes) (known : body t length b ≠ .incomplete) :
    body t length (b ++ more) = (body t length b).before more := by
  simp only [body] at known ⊢
  by_cases empty : (length = 0 ∧ t ≠ 23) ∨ 18432 ≤ length
  · simp only [empty, if_true, Framing.before]
  · simp only [empty, if_false] at known ⊢
    cases cut : Bytes.cut? length b with
    | none => simp only [cut, ne_eq, not_true_eq_false] at known
    | some halves =>
      rw [cutBefore more cut]
      by_cases long : 16384 < length <;> simp only [long, if_true, if_false, Framing.before]

theorem frameHeader (t high low l m : UInt8) (typed : t ∈ contentTypes) (version : isVersion high low = true)
    (rest : Bytes) : frame (t :: high :: low :: l :: m :: rest) = body t (Bytes.bigEndian [l, m]) rest := by
  simp [frame, typed, version]

theorem frameBefore {b : Bytes} (more : Bytes) (known : frame b ≠ .incomplete) :
    frame (b ++ more) = (frame b).before more := by
  cases b with
  | nil => exact absurd rfl known
  | cons t rest =>
    by_cases typed : t ∈ contentTypes
    · rcases rest with _ | ⟨high, _ | ⟨low, rest⟩⟩
      · simp [frame, typed] at known
      · simp [frame, typed] at known
      · cases version : isVersion high low with
        | false => simp [frame, typed, version, Framing.before]
        | true =>
          rcases rest with _ | ⟨l, _ | ⟨m, rest⟩⟩
          · simp [frame, typed, version] at known
          · simp [frame, typed, version] at known
          · have header := frameHeader t high low l m typed version
            rw [header] at known
            exact (header _).trans ((bodyBefore more known).trans (by rw [header]))
    · simp [frame, typed, Framing.before]

theorem runClosed {p : Progress} (closed : p.closed) (b : Bytes) : run p b = some (p, []) := by
  rw [run, if_pos closed]

theorem runMalformed {p : Progress} {b : Bytes} (opened : ¬ p.closed) (framed : frame b = .malformed) :
    run p b = none := by
  rw [run, if_neg opened]
  split <;> try rfl
  all_goals
    rename_i here
    rw [framed] at here
    contradiction

theorem runRecord {p : Progress} {b fragment rest : Bytes} {t : UInt8} (opened : ¬ p.closed)
    (framed : frame b = .record t fragment rest) : run p b = (p.record t fragment).bind fun q => run q rest := by
  rw [run, if_neg opened]
  split <;> rename_i here <;> rw [framed] at here <;> try contradiction
  cases here
  cases p.record t fragment <;> rfl

/- Induction along the records in front. Where the first bytes run out, those that wait are read
again in front of the rest. -/
theorem runResumed (p : Progress) (b more : Bytes) :
    run p (b ++ more) = (run p b).bind fun s => run s.1 (s.2 ++ more) := by
  fun_induction run p b with
  | case1 p b closed => rw [Option.bind_some, runClosed closed, runClosed closed]
  | case2 p b opened incomplete => rfl
  | case3 p b opened malformed =>
    have same := frameBefore more (b := b) (by rw [malformed]; nofun)
    rw [malformed] at same
    exact runMalformed opened same
  | case4 p b opened t fragment rest framed failed =>
    have same := frameBefore more (b := b) (by rw [framed]; nofun)
    rw [framed] at same
    rw [runRecord opened same, failed]
    rfl
  | case5 p b opened t fragment rest framed q passed ih =>
    have same := frameBefore more (b := b) (by rw [framed]; nofun)
    rw [framed] at same
    rw [runRecord opened same, passed]
    exact ih

theorem closedEmpty {p q : Progress} {b rest : Bytes} (ran : run p b = some (q, rest)) (closed : q.closed = true) :
    rest = [] := by
  fun_induction run p b with
  | case1 p b _ =>
    cases ran
    rfl
  | case2 p b opened _ =>
    cases ran
    exact absurd closed opened
  | case3 | case4 => cases ran
  | case5 p b opened t fragment _ framed _ passed ih => exact ih ran

end TlsCensus.ServerFlight
