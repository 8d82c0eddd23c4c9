/-
# Streams of frames

A reader takes frames off the front of what it has received so far. Where a frame that
is complete stays the first one however much more arrives (`Framer.stable`), the frames
of a stream and what is left of it do not depend on the pieces that it arrives in
(`frames_append`).
-/
import Mathlib.Data.List.Basic

namespace LocaiLink

/-- How the first frame is taken off the front of a stream. -/
structure Framer (α : Type) where
  next : List α → Option (List α × List α)
  shorter : ∀ l frame rest, next l = some (frame, rest) → rest.length < l.length
  stable : ∀ l frame rest more, next l = some (frame, rest) → next (l ++ more) = some (frame, rest ++ more)

namespace Framer

variable {α : Type} (F : Framer α)

/-- At most so many frames, and what is left. -/
def take : ℕ → List α → List (List α) × List α
  | 0, l => ([], l)
  | n + 1, l =>
    match F.next l with
    | none => ([], l)
    | some (frame, rest) => (frame :: (take n rest).1, (take n rest).2)

/-- All frames that are complete, and what is left. No frame is without length. -/
def frames (l : List α) : List (List α) × List α := F.take l.length l

variable {F} {l rest frame : List α}

theorem take_none (h : F.next l = none) (n : ℕ) : F.take n l = ([], l) := by
  cases n with
  | zero => rfl
  | succ n => rw [take, h]

theorem take_some (h : F.next l = some (frame, rest)) (n : ℕ) :
    F.take (n + 1) l = (frame :: (F.take n rest).1, (F.take n rest).2) := by
  rw [take, h]

/-- What may be left more often than the stream is long is all taken. -/
theorem take_of_le : ∀ {n m : ℕ} {l : List α}, l.length ≤ n → l.length ≤ m → F.take n l = F.take m l := by
  intro n
  induction n with
  | zero =>
    intro m l hn hm
    have hl : l = [] := List.length_eq_zero_iff.mp (Nat.le_zero.mp hn)
    have hnone : F.next l = none := by
      cases hnext : F.next l with
      | none => rfl
      | some r =>
        have := F.shorter l r.1 r.2 hnext
        omega
    rw [take_none hnone, take_none hnone]
  | succ n ih =>
    intro m l hn hm
    cases hnext : F.next l with
    | none => rw [take_none hnext, take_none hnext]
    | some r =>
      obtain ⟨frame, rest⟩ := r
      have hlt := F.shorter l frame rest hnext
      obtain ⟨m, rfl⟩ : ∃ k, m = k + 1 := ⟨m - 1, by omega⟩
      rw [take_some hnext, take_some hnext, ih (l := rest) (m := m) (by omega) (by omega)]

theorem frames_none (h : F.next l = none) : F.frames l = ([], l) := take_none h _

theorem frames_some (h : F.next l = some (frame, rest)) : F.frames l = (frame :: (F.frames rest).1, (F.frames rest).2) := by
  have hlt := F.shorter l frame rest h
  obtain ⟨n, hn⟩ : ∃ n, l.length = n + 1 := ⟨l.length - 1, by omega⟩
  rw [frames, hn, take_some h, take_of_le (m := rest.length) (by omega) (Nat.le_refl _)]
  rfl

/-- What arrives later is read behind what was left. -/
theorem frames_append (l more : List α) : F.frames (l ++ more) =
    ((F.frames l).1 ++ (F.frames ((F.frames l).2 ++ more)).1, (F.frames ((F.frames l).2 ++ more)).2) := by
  induction hn : l.length using Nat.strongRecOn generalizing l with
  | _ n ih =>
    cases hnext : F.next l with
    | none => rw [frames_none hnext, List.nil_append]
    | some r =>
      obtain ⟨frame, rest⟩ := r
      have hlt := F.shorter l frame rest hnext
      have hrest := ih rest.length (by omega) rest rfl
      rw [frames_some hnext, frames_some (F.stable l frame rest more hnext), hrest]
      rfl

/-- What is left holds no frame. -/
theorem next_leftover (l : List α) : F.next (F.frames l).2 = none := by
  induction hn : l.length using Nat.strongRecOn generalizing l with
  | _ n ih =>
    cases hnext : F.next l with
    | none => rwa [frames_none hnext]
    | some r =>
      obtain ⟨frame, rest⟩ := r
      have hlt := F.shorter l frame rest hnext
      rw [frames_some hnext]
      exact ih rest.length (by omega) rest rfl

end Framer
end LocaiLink
