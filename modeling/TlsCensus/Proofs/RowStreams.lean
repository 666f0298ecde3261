import TlsCensus.Proofs.StoredRows
import Mathlib.Data.List.Forall2

/-! Rows streamed to a visitor that never fails. The stream ends well exactly when every row can
be read, and then the visitor has received all of them in the order of the table. -/
namespace TlsCensus

theorem bindOk {α β ε : Type} {first : Except ε α} {next : α → Except ε β} {last : β} :
    (first >>= next) = .ok last ↔ ∃ found, first = .ok found ∧ next found = .ok last := by
  cases first <;> simp [bind, Except.bind]

namespace Store
variable {τ δ : Type} {f : RawRow → τ → Except δ Unit × τ}

abbrev Readable (cells : List RawCells) (fields : List RawCells.Fields) : Prop :=
  List.Forall₂ (fun row fields => row.read = .ok fields) cells fields

theorem readableAll {cells : List RawCells} (each : ∀ row ∈ cells, row.read.isOk) : ∃ fields, Readable cells fields := by
  induction cells with
  | nil => exact ⟨[], .nil⟩
  | cons row rest ih =>
    obtain ⟨fields, tail⟩ := ih fun _ inside => each _ (List.mem_cons_of_mem _ inside)
    have here := each row List.mem_cons_self
    cases read : row.read with
    | error e =>
      rw [read] at here
      contradiction
    | ok first => exact ⟨first :: fields, .cons read tail⟩

theorem visitCalm (calm : ∀ row t, (f row t).1 = .ok ()) {n m : Nat} {cells : List RawCells} {t u : τ} :
    visit f n cells t = (.ok m, u) ↔ ∃ fields, Readable cells fields ∧ m = n + cells.length ∧
      u = (fields.map RawCells.Fields.toRow).foldl (fun t row => (f row t).2) t := by
  induction cells generalizing n t with
  | nil => simp [visit, Readable, eq_comm]
  | cons row rest ih =>
    rw [visit]
    cases read : row.read with
    | error e => simp [Readable, List.forall₂_cons_left_iff, read]
    | ok first =>
      have given : f first.toRow t = (.ok (), (f first.toRow t).2) := by rw [← calm first.toRow t]
      simp only [Readable, List.forall₂_cons_left_iff, read, Except.ok.injEq, List.length_cons]
      rw [given]
      refine ih.trans ⟨?_, ?_⟩
      · rintro ⟨fields, tail, count, last⟩
        exact ⟨first :: fields, ⟨first, fields, rfl, tail, rfl⟩, by omega, last⟩
      · rintro ⟨_, ⟨_, fields, rfl, tail, rfl⟩, count, last⟩
        exact ⟨fields, tail, by omega, last⟩

theorem streamCalm (calm : ∀ row t, (f row t).1 = .ok ()) {s : Store} {n : Nat} {t u : τ} :
    s.forEachRaw f t = (.ok n, u) ↔ ∃ fields, Readable s.tables.raw.toList fields ∧ n = s.tables.raw.size ∧
      u = (fields.map RawCells.Fields.toRow).foldl (fun t row => (f row t).2) t := by
  rw [forEachRaw, visitCalm calm, Nat.zero_add, Array.length_toList]

theorem notingFold (rows : List RawRow) (t : τ) (seen : List RawRow) :
    rows.foldl (fun s row => (noting f row s).2) (t, seen) =
      (rows.foldl (fun t row => (f row t).2) t, seen ++ rows) := by
  induction rows generalizing t seen with
  | nil => rw [List.append_nil]; rfl
  | cons row rest ih => exact (ih _ _).trans (by simp)

theorem streamNoted (calm : ∀ row t, (f row t).1 = .ok ()) {s : Store} {n : Nat} {t u : τ} {rows : List RawRow} :
    s.forEachRaw (noting f) (t, []) = (.ok n, u, rows) ↔ ∃ fields, Readable s.tables.raw.toList fields ∧
      n = s.tables.raw.size ∧ u = (fields.map RawCells.Fields.toRow).foldl (fun t row => (f row t).2) t ∧
      rows = fields.map RawCells.Fields.toRow := by
  have noted : ∀ row s, (noting f row s).1 = .ok () := fun row s => calm row s.1
  rw [streamCalm noted]
  simp only [notingFold, List.nil_append, Prod.mk.injEq]

end Store
end TlsCensus
