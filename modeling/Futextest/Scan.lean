import Mathlib.Data.List.OfFn

/-!
# Scans that stop at the first hit

A pointer that is moved along finitely many values, one after the other, and stays where
it is from the first hit on.

## Main definitions

* `Scan` — where the pointer is after some of the values
* `firstNonzero` — the first nonzero number of a list, or 0

## Main results

* `Scan.next` — one more value
* `Scan.find?_eq` — after all values the pointer shows what a search finds
-/

variable {α : Type*} {n k : ℕ} {hit : α → Prop} {f f' : Fin n → α} {p : Fin n}

/-- The pointer `p` after `k` values: at the first hit among them, or at the last of them if
there is none. -/
structure Scan (hit : α → Prop) (f : Fin n → α) (k : ℕ) (p : Fin n) : Prop where
  below : ∀ j < p, ¬ hit (f j)
  le : p.val ≤ k - 1
  stuck : p.val + 1 < k → hit (f p)

namespace Scan

theorem start (first : p.val = 0) : Scan hit f 0 p where
  below j before := absurd (Fin.lt_def.mp before) (by omega)
  le := by omega
  stuck more := absurd more (by omega)

/-- Only the values seen so far matter. -/
theorem congr (scan : Scan hit f k p) (same : ∀ j, j.val < k → f' j = f j) :
    Scan hit f' k p where
  below j before := by
    have le := scan.le
    have less := Fin.lt_def.mp before
    rw [same j (by omega)]
    exact scan.below j before
  le := scan.le
  stuck more := by
    rw [same p (by omega)]
    exact scan.stuck more

/-- The pointer stays at a hit and moves on to the next value otherwise. What it showed
before the first value does not matter. -/
theorem next {i : Fin n} {stays : Bool} (scan : Scan hit f i p)
    (seen : 0 < i.val → (stays = true ↔ hit (f p))) :
    Scan hit f (i + 1) (if stays then p else i) := by
  have le := scan.le
  cases stays with
  | true =>
    refine ⟨scan.below, le.trans (by omega), ?_⟩
    intro more
    change p.val + 1 < i.val + 1 at more
    exact (seen (by omega)).mp rfl
  | false =>
    refine ⟨?_, le_rfl, fun more => absurd more (lt_irrefl _)⟩
    intro j before
    -- there is no hit at `p`, so that `p` is the last value seen
    have less : j.val < i.val := before
    have miss : ¬ hit (f p) := fun here =>
      Bool.false_ne_true ((seen (by omega)).mpr here)
    have last : i.val ≤ p.val + 1 := by
      by_contra more
      exact miss (scan.stuck (by omega))
    rcases Nat.lt_or_eq_of_le (show j.val ≤ p.val by omega) with earlier | same
    · exact scan.below j earlier
    · rw [Fin.ext same]
      exact miss

/-- After all values a miss at the pointer is a miss everywhere. -/
theorem not_hit (scan : Scan hit f n p) (miss : ¬ hit (f p)) (j : Fin n) : ¬ hit (f j) := by
  have last : ¬ p.val + 1 < n := fun more => miss (scan.stuck more)
  have bound := j.isLt
  rcases Nat.lt_or_eq_of_le (show j.val ≤ p.val by omega) with before | same
  · exact scan.below j before
  · rw [Fin.ext same]
    exact miss

/-- After all values the pointer shows what a search finds. -/
theorem find?_eq [DecidablePred hit] (scan : Scan hit f n p) :
    (List.ofFn f).find? (fun x => hit x) = if hit (f p) then some (f p) else none := by
  split_ifs with here
  · refine List.find?_ofFn_eq_some.mpr ⟨decide_eq_true here, p, rfl, ?_⟩
    intro j before
    simpa using scan.below j before
  · refine List.find?_eq_none.mpr ?_
    intro x member
    obtain ⟨j, rfl⟩ := List.mem_ofFn.mp member
    simpa using scan.not_hit here j

end Scan

/-- The first number of the list that is not 0, or 0 if there is none. -/
def firstNonzero (l : List ℤ) : ℤ := (l.find? fun x => x ≠ 0).getD 0

theorem firstNonzero_eq_zero_iff {l : List ℤ} : firstNonzero l = 0 ↔ ∀ x ∈ l, x = 0 := by
  unfold firstNonzero
  cases found : l.find? fun x => x ≠ 0 with
  | none =>
    refine iff_of_true rfl fun x member => ?_
    simpa using List.find?_eq_none.mp found x member
  | some y =>
    have nonzero : y ≠ 0 := by simpa using List.find?_some found
    exact iff_of_false nonzero fun all => nonzero (all y (List.mem_of_find?_eq_some found))

/-- A pointer that stops at the first nonzero number. -/
theorem Scan.eq_firstNonzero {f : Fin n → ℤ} (scan : Scan (fun x => x ≠ 0) f n p) :
    f p = firstNonzero (List.ofFn f) := by
  rw [firstNonzero, scan.find?_eq]
  split_ifs with nonzero
  · rfl
  · exact not_not.mp nonzero
