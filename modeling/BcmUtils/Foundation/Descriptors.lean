import Mathlib.Data.Finset.Insert
import Mathlib.Data.Finset.Erase
import BcmUtils.Foundation.Sockets

/-! # Open descriptors

What a run of events leaves open. -/

namespace CLib

/-- The descriptors that are open after the events. To close one that is not open changes
nothing. -/
def openAfter (s : Finset ℕ) : List FdEvent → Finset ℕ
  | [] => s
  | .opened fd :: es => openAfter (insert fd s) es
  | .closed fd :: es => openAfter (s.erase fd) es

/-- A descriptor that is opened is not open yet. -/
def Fresh (s : Finset ℕ) : List FdEvent → Prop
  | [] => True
  | .opened fd :: es => fd ∉ s ∧ Fresh (insert fd s) es
  | .closed fd :: es => Fresh (s.erase fd) es

/-- Every descriptor is closed as often as it is opened, and the same ones are open before
and after. -/
structure Balanced (es : List FdEvent) : Prop where
  closed_once : ∀ fd, es.count (.closed fd) = es.count (.opened fd)
  unchanged : ∀ s, Fresh s es → openAfter s es = s

theorem openAfter_append (s : Finset ℕ) (es fs : List FdEvent) :
    openAfter s (es ++ fs) = openAfter (openAfter s es) fs := by
  induction es generalizing s with
  | nil => rfl
  | cons e es ih =>
      cases e with
      | opened fd => exact ih _
      | closed fd => exact ih _

theorem fresh_append {s : Finset ℕ} {es fs : List FdEvent} :
    Fresh s (es ++ fs) ↔ Fresh s es ∧ Fresh (openAfter s es) fs := by
  induction es generalizing s with
  | nil => exact (and_iff_right trivial).symm
  | cons e es ih =>
      cases e with
      | opened fd =>
          change _ ∧ Fresh _ (es ++ fs) ↔ (_ ∧ Fresh _ es) ∧ Fresh _ fs
          rw [ih, and_assoc]
          exact Iff.rfl
      | closed fd => exact ih

theorem balanced_nil : Balanced [] :=
  ⟨fun _ => rfl, fun _ _ => rfl⟩

/-- A descriptor that is opened and then closed. -/
theorem balanced_pair (fd : ℕ) : Balanced [.opened fd, .closed fd] where
  closed_once fd' := by
    by_cases h : fd = fd'
    · subst h
      simp
    · simp [h]
  unchanged s hs := by
    have hnew : fd ∉ s := hs.1
    exact Finset.erase_insert hnew

theorem Balanced.append {es fs : List FdEvent} (hes : Balanced es) (hfs : Balanced fs) :
    Balanced (es ++ fs) where
  closed_once fd := by
    rw [List.count_append, List.count_append, hes.closed_once, hfs.closed_once]
  unchanged s hs := by
    rw [fresh_append] at hs
    have hsame := hes.unchanged s hs.1
    rw [openAfter_append, hsame]
    exact hfs.unchanged s (hsame ▸ hs.2)

/-- Events that do not close a descriptor they open at their end. -/
theorem Balanced.not_append_opened {es : List FdEvent} (hes : Balanced es) (fd : ℕ) :
    ¬ Balanced (es ++ [.opened fd]) := fun h => by
  have hcount := h.closed_once fd
  rw [List.count_append, List.count_append, hes.closed_once] at hcount
  simp at hcount

/-- A descriptor that is never closed. -/
theorem not_balanced_opened (fd : ℕ) : ¬ Balanced [.opened fd] :=
  balanced_nil.not_append_opened fd

/-- A descriptor that is closed twice. -/
theorem not_balanced_closed_twice (fd : ℕ) :
    ¬ Balanced [.opened fd, .closed fd, .closed fd] := fun h => by
  have hcount := h.closed_once fd
  simp at hcount

end CLib
