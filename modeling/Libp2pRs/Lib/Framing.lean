import Mathlib.Data.List.Basic
import Mathlib.Data.List.Infix

/-!
# Streams of frames

A stream that carries messages one after the other, each in a frame. The frame of a message may
depend on its number.

* `frames_append`: the stream of two lists of messages.
* `le_of_frames_prefix`: a reader that has all bytes of the first `m` frames, and less than a frame
  behind the frames it has completed, has completed `m` of them.
-/

namespace Libp2pRs.Lib

open List

variable {α : Type} (enc : Nat → α → List UInt8)

/-- The frames of messages that are numbered from `n` on. -/
def frames : Nat → List α → List UInt8
  | _, [] => []
  | n, a :: as => enc n a ++ frames (n + 1) as

theorem frames_append (n : Nat) (as bs : List α) :
    frames enc n (as ++ bs) = frames enc n as ++ frames enc (n + as.length) bs := by
  induction as generalizing n with
  | nil => rfl
  | cons a as ih =>
    rw [cons_append, frames, ih, frames, append_assoc, length_cons]
    congr 3
    omega

variable {enc} {as : List α} {sent delivered part : List UInt8} {k m : Nat}

theorem frames_take_append (n k : Nat) (as : List α) (hk : k ≤ as.length) :
    frames enc n as = frames enc n (as.take k) ++ frames enc (n + k) (as.drop k) := by
  conv_lhs => rw [← take_append_drop k as, frames_append, length_take_of_le hk]

theorem frames_take_prefix (n k : Nat) (as : List α) :
    frames enc n (as.take k) <+: frames enc n as := by
  by_cases hk : k ≤ as.length
  · exact ⟨_, (frames_take_append n k as hk).symm⟩
  · rw [take_of_length_le (by omega)]

theorem frames_take_succ (h : as[k]? = some a) :
    frames enc 0 (as.take (k + 1)) = frames enc 0 (as.take k) ++ enc k a := by
  obtain ⟨hk, ha⟩ := List.getElem?_eq_some_iff.mp h
  rw [take_add_one, h, frames_append, length_take_of_le (Nat.le_of_lt hk), Nat.zero_add]
  show _ ++ (enc k a ++ []) = _
  rw [append_nil]

/-- Bytes behind the first `k` frames are the front of the next one and those that follow. -/
theorem exists_next_of_delivered (hsent : sent <+: frames enc 0 as) (hk : k ≤ as.length)
    (hdelivered : delivered <+: sent) (heq : delivered = frames enc 0 (as.take k) ++ part)
    (hpart : part ≠ []) :
    ∃ a, as[k]? = some a ∧ part <+: enc k a ++ frames enc (k + 1) (as.drop (k + 1)) := by
  have hprefix : part <+: frames enc k (as.drop k) := by
    have h := hdelivered.trans hsent
    rw [heq, frames_take_append 0 k as hk, Nat.zero_add] at h
    exact (List.prefix_append_right_inj _).mp h
  cases hdrop : as.drop k with
  | nil =>
    rw [hdrop, frames, List.prefix_nil] at hprefix
    exact absurd hprefix hpart
  | cons a rest =>
    have ha : as[k]? = some a := by
      rw [← head?_drop, hdrop]
      rfl
    have hrest : as.drop (k + 1) = rest := by
      rw [← drop_drop, hdrop]
      rfl
    rw [hdrop, frames] at hprefix
    rw [hrest]
    exact ⟨a, ha, hprefix⟩

theorem eq_frame_of_delivered (hsent : sent <+: frames enc 0 as) (hk : as[k]? = some a)
    (hdelivered : delivered <+: sent) (heq : delivered = frames enc 0 (as.take k) ++ part)
    (hlen : part.length = (enc k a).length) (hpos : 0 < part.length) : part = enc k a := by
  obtain ⟨hlt, -⟩ := List.getElem?_eq_some_iff.mp hk
  obtain ⟨a', ha', hprefix⟩ := exists_next_of_delivered hsent (Nat.le_of_lt hlt) hdelivered heq
    (ne_nil_of_length_pos hpos)
  rw [hk] at ha'
  cases ha'
  have hpart := List.prefix_of_prefix_length_le hprefix (List.prefix_append _ _) (Nat.le_of_eq hlen)
  exact hpart.eq_of_length hlen

theorem le_of_frames_prefix (hm : m ≤ as.length)
    (hfront : frames enc 0 (as.take m) <+: frames enc 0 (as.take k) ++ part)
    (hpart : ∀ a, as[k]? = some a → part.length < (enc k a).length) : m ≤ k := by
  by_contra hlt
  have hk : k < as.length := by omega
  obtain ⟨a, ha⟩ : ∃ a, as[k]? = some a := ⟨_, getElem?_eq_getElem hk⟩
  have hshort := hpart a ha
  have hle : frames enc 0 (as.take (k + 1)) <+: frames enc 0 (as.take m) := by
    have h : frames enc 0 ((as.take m).take (k + 1)) <+: frames enc 0 (as.take m) :=
      frames_take_prefix 0 (k + 1) (as.take m)
    rwa [take_take, Nat.min_eq_left (by omega)] at h
  have hlen := (hle.trans hfront).length_le
  rw [frames_take_succ ha, length_append, length_append] at hlen
  omega

end Libp2pRs.Lib
