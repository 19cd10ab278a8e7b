import Sundae.Proofs.Ground
import Sundae.Ref.Expiry

/-!
# What the loops over the temporary items leave

Both loops go on behind an item they have taken out, so the item that moves
into its place is never looked at. They leave what they should exactly when no
two neighbours are to go.
-/

namespace Sundae.Proofs

open Sundae.Lib Sundae.Ref

variable {gone : GroundItem → Bool} {items : List GroundItem}

/-! ## The array -/

/-- What stands behind a place moves down by one, and the last cell is left
twice. -/
theorem moveDown_over (kept behind spare : List GroundItem) (item : GroundItem) :
    ∃ last, moveDown (kept ++ item :: (behind ++ spare)) kept.length behind.length =
      .ok (kept ++ behind ++ last :: spare) := by
  induction behind generalizing kept item with
  | nil => exact ⟨item, by simp [moveDown]⟩
  | cons next behind ih =>
      obtain ⟨last, hrest⟩ := ih (kept ++ [next]) next
      refine ⟨last, ?_⟩
      have hread : load (kept ++ item :: (next :: behind ++ spare)) (kept.length + 1 : Nat) =
          .ok next := load_of_getElem? (by simp)
      have hwrite : store (kept ++ item :: (next :: behind ++ spare)) kept.length next =
          .ok (kept ++ [next] ++ next :: (behind ++ spare)) := by
        rw [store_lt (by simp)]
        simp
      rw [List.length_cons, moveDown, hread, ok_bind, hwrite, ok_bind]
      simpa using hrest

/-- A turn over an item that stays. -/
theorem tempItemLoop_stay {kept rest : List GroundItem} {item : GroundItem} {n : Nat}
    (h : gone item = false) :
    tempItemLoop gone kept.length (kept ++ item :: rest) (kept.length + (n + 1)) =
      tempItemLoop gone (kept.length + 1) (kept ++ item :: rest) (kept.length + (n + 1)) := by
  have hread : load (kept ++ item :: rest) kept.length = .ok item :=
    load_of_getElem? (by simp)
  rw [tempItemLoop, dif_pos (by omega), hread]
  simp only [h, Bool.not_false, if_true]

/-- A turn over one that goes, with `behind` still to come. -/
theorem tempItemLoop_take (kept behind spare : List GroundItem) {item : GroundItem}
    (h : gone item = true) :
    ∃ last,
      tempItemLoop gone kept.length (kept ++ item :: (behind ++ spare))
          (kept.length + (behind.length + 1)) =
        tempItemLoop gone (kept.length + 1) (kept ++ behind ++ last :: spare)
          (kept.length + behind.length) := by
  obtain ⟨last, hmove⟩ := moveDown_over kept behind spare item
  have hread : load (kept ++ item :: (behind ++ spare)) kept.length = .ok item :=
    load_of_getElem? (by simp)
  have hcount : kept.length + (behind.length + 1) - 1 = kept.length + behind.length := by omega
  refine ⟨last, ?_⟩
  rw [tempItemLoop, dif_pos (by omega), hread]
  simp only [h, Bool.not_true, Bool.false_eq_true, if_false, hcount, Nat.add_sub_cancel_left, hmove]

theorem tempItemLoop_end {i count : Nat} {cells : List GroundItem} (h : count ≤ i) :
    tempItemLoop gone i cells count = .ok (cells, count) := by
  rw [tempItemLoop, dif_neg (by omega)]

/-- The loop over the array stays within its cells and keeps what `sweep` keeps
of the list. -/
theorem tempItemLoop_sweep (kept items spare : List GroundItem) :
    ∃ spare',
      tempItemLoop gone kept.length (kept ++ (items ++ spare)) (kept.length + items.length) =
        .ok (kept ++ (sweep gone items ++ spare'), kept.length + (sweep gone items).length) ∧
      (sweep gone items ++ spare').length = (items ++ spare).length := by
  fun_induction sweep gone items generalizing kept spare with
  | case1 => exact ⟨spare, tempItemLoop_end (by simp), rfl⟩
  | case2 a h =>
      obtain ⟨last, hturn⟩ := tempItemLoop_take kept [] spare h
      refine ⟨last :: spare, ?_, rfl⟩
      rw [List.cons_append, List.length_cons, hturn, tempItemLoop_end (by simp)]
      simp
  | case3 a h =>
      refine ⟨spare, ?_, rfl⟩
      have hstay : gone a = false := by simpa using h
      rw [List.cons_append, List.length_cons, tempItemLoop_stay hstay,
        tempItemLoop_end (by simp)]
  | case4 a b l h ih =>
      -- `b` moves into the place of `a`, and the loop goes on behind it
      obtain ⟨last, hturn⟩ := tempItemLoop_take kept (b :: l) spare h
      obtain ⟨spare', hrest, hlen⟩ := ih (kept ++ [b]) (last :: spare)
      simp only [List.length_append, List.length_cons] at hlen
      refine ⟨spare', ?_, by simp only [List.length_append, List.length_cons]; omega⟩
      rw [List.cons_append, List.length_cons, hturn]
      simpa [Nat.add_assoc, Nat.add_comm 1] using hrest
  | case5 a b l h ih =>
      have hstay : gone a = false := by simpa using h
      obtain ⟨spare', hrest, hlen⟩ := ih (kept ++ [a]) spare
      refine ⟨spare', ?_, by simpa using hlen⟩
      rw [List.cons_append, List.length_cons, tempItemLoop_stay hstay]
      simpa [Nat.add_assoc, Nat.add_comm 1] using hrest

/-! ## The list -/

/-- No two neighbours are both to go. -/
def Spaced (gone : GroundItem → Bool) (items : List GroundItem) : Prop :=
  items.IsChain fun a b => gone a = false ∨ gone b = false

theorem sweep_eq_filter_iff :
    sweep gone items = items.filter (fun a => !gone a) ↔ Spaced gone items := by
  unfold Spaced
  fun_induction sweep gone items with
  | case1 => simp
  | case2 a h => simp [h]
  | case3 a h => simp [h]
  | case4 a b l h ih =>
      rw [List.isChain_cons_cons, List.filter_cons_of_neg (by simp [h])]
      cases hb : gone b with
      | false =>
          have htail : (b :: l).IsChain (fun a b => gone a = false ∨ gone b = false) ↔
              l.IsChain fun a b => gone a = false ∨ gone b = false := by
            cases l with
            | nil => simp
            | cons c l => simp [List.isChain_cons_cons, hb]
          rw [List.filter_cons_of_pos (by simp [hb]), htail, ← ih]
          simp [h]
      | true =>
          refine iff_of_false ?_ ?_
          · intro heq
            have hmem : b ∈ (b :: l).filter fun a => !gone a := heq ▸ List.mem_cons_self
            simp [hb] at hmem
          · rintro ⟨hpair, -⟩
            simp [h] at hpair
  | case5 a b l h ih =>
      rw [List.isChain_cons_cons, List.filter_cons_of_pos (by simp [h]), List.cons.injEq, ih]
      simp [h]

/-! ## What is to be left -/

/-- `after` is `before` without the items that have the property: none of them
is left, every other item is there as often as before, and in their order. -/
structure Swept (gone : GroundItem → Bool) (before after : List GroundItem) : Prop where
  none_left : ∀ a ∈ after, gone a = false
  others : ∀ a, gone a = false → after.count a = before.count a
  order : after.Sublist before

theorem swept_iff {after : List GroundItem} :
    Swept gone items after ↔ after = items.filter fun a => !gone a := by
  constructor
  · intro h
    have hkept : ∀ a ∈ after, (!gone a) = true := fun a ha => by simp [h.none_left a ha]
    have hperm : after.Perm (items.filter fun a => !gone a) := by
      refine List.perm_iff_count.2 fun a => ?_
      cases ha : gone a with
      | false => rw [h.others a ha, List.count_filter (by simp [ha])]
      | true =>
          have hout : a ∉ after := fun hmem => by simp [h.none_left a hmem] at ha
          have hout' : a ∉ items.filter fun a => !gone a := by simp [ha]
          rw [List.count_eq_zero_of_not_mem hout, List.count_eq_zero_of_not_mem hout']
    refine List.Sublist.eq_of_length ?_ hperm.length_eq
    rw [← List.filter_eq_self.2 hkept]
    exact h.order.filter _
  · rintro rfl
    refine ⟨fun a ha => by simpa using (List.mem_filter.1 ha).2, fun a ha => ?_,
      List.filter_sublist⟩
    rw [List.count_filter (by simp [ha])]

theorem swept_sweep_iff : Swept gone items (sweep gone items) ↔ Spaced gone items :=
  swept_iff.trans sweep_eq_filter_iff

/-- Told apart by their unique ids, no two neighbours are to go. -/
theorem spaced_uniqueId (hnd : (items.map GroundItem.uniqueId).Nodup) (uniqueId : Nat) :
    Spaced (·.uniqueId == uniqueId) items := by
  refine ((List.pairwise_map.1 hnd).imp fun {a b} hne => ?_).isChain
  by_cases ha : a.uniqueId = uniqueId
  · exact .inr (beq_false_of_ne fun hb => hne (ha.trans hb.symm))
  · exact .inl (beq_false_of_ne ha)

/-- So a removal in a server that tells its items apart takes out the one item. -/
theorem removed_by_id {s : Server} (h : TempWf s) (uniqueId : Nat) :
    Swept (·.uniqueId == uniqueId) s.tempItems (serverRemoveTempItem s uniqueId).tempItems :=
  swept_sweep_iff.2 (spaced_uniqueId h.nodup uniqueId)

/-- The sweep of a tick leaves the younger items, and only these, and a removal
takes out what has the unique id, and only this, exactly when no two neighbours
have both reached the age and no two have the same id. -/
theorem expiry_exact_iff (s : Server) :
    (Swept (stale (s.tickCounter + 1)) s.tempItems (serverExpireItems s).tempItems ∧
      ∀ uniqueId, Swept (·.uniqueId == uniqueId) s.tempItems
        (serverRemoveTempItem s uniqueId).tempItems) ↔
    Spaced (stale (s.tickCounter + 1)) s.tempItems ∧
      ∀ uniqueId, Spaced (·.uniqueId == uniqueId) s.tempItems := by
  have hstale : (fun a : GroundItem => decide (a.creationTime + 200 ≤ s.tickCounter + 1)) =
      stale (s.tickCounter + 1) := by
    funext a
    rw [stale, ← decide_not, decide_eq_decide, Nat.not_lt]
  refine and_congr ?_ (forall_congr' fun uniqueId => swept_sweep_iff)
  rw [← swept_sweep_iff, ← hstale]
  rfl

/-- Two neighbours of one age: the second is still there after its time. -/
theorem twin_outlives : ¬ ∀ s : Server,
    Swept (stale (s.tickCounter + 1)) s.tempItems (serverExpireItems s).tempItems := by
  intro hall
  let coin (uniqueId : Nat) : GroundItem :=
    { id := 0, x := 10, y := 10, owner := none, stack := 1, respawn := false
      onSurface := false, creationTime := 0, respawnTime := 0, uniqueId := uniqueId }
  have hleft := (hall { tickCounter := 199, tempItems := [coin 0, coin 1] }).none_left (coin 1)
    (by decide)
  exact absurd hleft (by decide)

end Sundae.Proofs
