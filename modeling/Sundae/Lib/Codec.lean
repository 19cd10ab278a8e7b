import Mathlib.Data.List.Basic

/-!
# Self-delimiting frames over a stream

Items are written one after the other, each as a frame that says where it
ends; the reader sees whatever part of the stream has arrived. `Codec` asks of
the reader what makes the place of the cuts irrelevant: a whole frame at the
front is read as its item whatever follows it, and a part of a frame is read
as nothing yet.
-/

namespace Sundae.Lib

/-- An encoding of the `valid` items as non-empty frames, with a reader that
answers an item and the length of its frame. -/
structure Codec (α β : Type) where
  enc : α → List β
  dec : List β → Option (α × Nat)
  valid : α → Prop
  enc_pos : ∀ a, 0 < (enc a).length
  dec_nil : dec [] = none
  dec_whole : ∀ a rest, valid a → dec (enc a ++ rest) = some (a, (enc a).length)
  dec_part : ∀ a part, valid a → part <+: enc a → part.length < (enc a).length →
    dec part = none

namespace Codec

variable {α β : Type} (c : Codec α β)

/-- Read at most `n` items off the front. -/
def drain : Nat → List β → List α × List β
  | 0, buf => ([], buf)
  | n + 1, buf =>
    match c.dec buf with
    | none => ([], buf)
    | some (a, k) => (a :: (drain n (buf.drop k)).1, (drain n (buf.drop k)).2)

/-- Read a whole stream in one go. -/
def decodeAll (bytes : List β) : List α := (c.drain bytes.length bytes).1

variable {c}

theorem length_le_flatMap (as : List α) : as.length ≤ (as.flatMap c.enc).length := by
  induction as with
  | nil => exact Nat.le_refl _
  | cons a as ih =>
      have hpos := c.enc_pos a
      rw [List.flatMap_cons, List.length_append, List.length_cons]
      omega

/-- The bytes that have arrived of a stream of frames: reading them takes some
leading items off the stream, and stops short of `n` only where the next frame
is not all there. -/
theorem drain_prefix {as : List α} (hv : ∀ a ∈ as, c.valid a) {buf rest : List β}
    (h : buf ++ rest = as.flatMap c.enc) (n : Nat) :
    ∃ left, as = (c.drain n buf).1 ++ left ∧
      buf = (c.drain n buf).1.flatMap c.enc ++ (c.drain n buf).2 ∧
      (c.drain n buf).2 ++ rest = left.flatMap c.enc ∧
      ((c.drain n buf).1.length < n →
        ∀ a ∈ left.head?, (c.drain n buf).2.length < (c.enc a).length) := by
  induction n generalizing as buf with
  | zero => exact ⟨as, rfl, rfl, h, fun hlt => absurd hlt (Nat.not_lt_zero _)⟩
  | succ n ih =>
      cases as with
      | nil =>
          obtain ⟨rfl, rfl⟩ : buf = [] ∧ rest = [] := by simpa using h
          exact ⟨[], by simp [drain, c.dec_nil]⟩
      | cons a as =>
          have ha : c.valid a := hv a List.mem_cons_self
          rw [List.flatMap_cons] at h
          rcases Nat.lt_or_ge buf.length (c.enc a).length with hlt | hge
          · have hpre : buf <+: c.enc a :=
              List.prefix_of_prefix_length_le ⟨rest, h⟩ ⟨_, rfl⟩ (Nat.le_of_lt hlt)
            have hdec : c.dec buf = none := c.dec_part a buf ha hpre hlt
            refine ⟨a :: as, ?_⟩
            simp only [drain, hdec]
            exact ⟨rfl, rfl, by rw [h, List.flatMap_cons],
              fun _ b hb => by obtain rfl := Option.some.inj hb; exact hlt⟩
          · obtain ⟨buf', rfl⟩ : c.enc a <+: buf :=
              List.prefix_of_prefix_length_le ⟨_, rfl⟩ ⟨rest, h⟩ hge
            have hrest : buf' ++ rest = as.flatMap c.enc := by
              rw [List.append_assoc] at h
              exact List.append_cancel_left h
            have hdec := c.dec_whole a buf' ha
            obtain ⟨left, has, hbuf, hleft, hstop⟩ :=
              ih (fun b hb => hv b (List.mem_cons_of_mem a hb)) hrest
            refine ⟨left, ?_⟩
            simp only [drain, hdec, List.drop_left, List.cons_append, List.flatMap_cons,
              List.append_assoc, List.length_cons]
            exact ⟨by rw [← has], by rw [← hbuf], hleft, fun hlt => hstop (by omega)⟩

/-- Frames of valid items are read back, and nothing is left. -/
theorem drain_enc {as : List α} (hv : ∀ a ∈ as, c.valid a) {n : Nat} (hn : as.length ≤ n) :
    c.drain n (as.flatMap c.enc) = (as, []) := by
  induction as generalizing n with
  | nil =>
      cases n with
      | zero => rfl
      | succ n => simp [drain, c.dec_nil]
  | cons a as ih =>
      obtain ⟨m, rfl⟩ : ∃ m, n = m + 1 := by
        rw [List.length_cons] at hn
        exact ⟨n - 1, by omega⟩
      have hdec := c.dec_whole a (as.flatMap c.enc) (hv a List.mem_cons_self)
      have hrest : c.drain m (as.flatMap c.enc) = (as, []) := by
        apply ih
        · exact fun b hb => hv b (List.mem_cons_of_mem a hb)
        · rw [List.length_cons] at hn
          omega
      simp only [List.flatMap_cons, drain, hdec, List.drop_left, hrest]

/-- Reading the frames of valid items at once gives the items back. -/
theorem decodeAll_enc {as : List α} (hv : ∀ a ∈ as, c.valid a) :
    c.decodeAll (as.flatMap c.enc) = as := by
  rw [decodeAll, drain_enc hv (length_le_flatMap as)]

end Codec

end Sundae.Lib
