import Mathlib.Data.Nat.Count
import Mathlib.Tactic.Common
import Sundae.Ref.Restore

/-!
# Levels go back to where they belong

Of one skill, a tick is one step at most: a raised level wears off with the slow
timer, and a lowered one comes back with the slow timer or, under its prayer, with
the rapid one. So the level after any number of ticks is known from how often the
timers came round with the prayer on or off. The prayer level is drained in the same
loop and nothing brings it back.
-/

namespace Sundae.Proofs

open Sundae.Lib Sundae.Ref

/-! ## One skill -/

/-- What there is of one skill: its levels and what its player has been sent of it. -/
structure StatView where
  cur : UInt8
  base : UInt8
  experience : UInt32
  told : List StatPacket

def viewOf (i : Fin maxSkillId) (p : Recovering) : StatView where
  cur := p.stats.curStats i
  base := p.stats.baseStats i
  experience := p.stats.experience i
  told := p.sent.filter fun e => e.about = i

/-- A skill whose return to normal goes without saying. -/
def Own (i : Fin maxSkillId) : Prop := i = skillPrayer ∨ i = skillHits

instance (i : Fin maxSkillId) : Decidable (Own i) := inferInstanceAs (Decidable (_ ∨ _))

def StatView.tell (i : Fin maxSkillId) (v : StatView) : StatView :=
  { v with told := v.told ++ ((if ¬ Own i ∧ v.cur = v.base then [.normal i] else []) ++
      [.stat i v.cur v.base v.experience]) }

/-- A new level, and what is sent of it. -/
def StatView.set (i : Fin maxSkillId) (v : StatView) (level : UInt8) : StatView :=
  StatView.tell i { v with cur := level }

/-- A raised level wears off. -/
def StatView.lowered (i : Fin maxSkillId) (v : StatView) : StatView :=
  if v.base < v.cur then v.set i (v.cur - 1) else v

/-- A lowered level comes back. -/
def StatView.raised (i : Fin maxSkillId) (v : StatView) : StatView :=
  if v.cur < v.base then v.set i (v.cur + 1) else v

theorem viewOf_changed (p : Recovering) (i : Fin maxSkillId) :
    viewOf i (playerStatChanged p i) = (viewOf i p).tell i := by
  have hown : (i ≠ skillPrayer ∧ i ≠ skillHits ∧ p.stats.curStats i = p.stats.baseStats i) ↔
      ¬ Own i ∧ p.stats.curStats i = p.stats.baseStats i := by
    rw [Own, not_or, and_assoc]
  unfold playerStatChanged playerSendStat StatView.tell
  rw [if_congr hown rfl rfl]
  by_cases hsay : ¬ Own i ∧ p.stats.curStats i = p.stats.baseStats i
  · simp [viewOf, StatPacket.about, hsay]
  · simp [viewOf, StatPacket.about, hsay]

theorem viewOf_setCur (p : Recovering) (i : Fin maxSkillId) (level : UInt8) :
    viewOf i { p with stats := p.stats.setCur i level } = { viewOf i p with cur := level } := by
  simp [viewOf, Stats.setCur]

theorem viewOf_changed_other {i j : Fin maxSkillId} (p : Recovering) (h : j ≠ i)
    (level : UInt8) :
    viewOf i (playerStatChanged { p with stats := p.stats.setCur j level } j) = viewOf i p := by
  unfold playerStatChanged playerSendStat
  split <;> simp [viewOf, Stats.setCur, StatPacket.about, h, Ne.symm h]

/-! ## The loops -/

theorem viewOf_wearOff (i : Fin maxSkillId) (p : Recovering) :
    viewOf i (wearOff p i) = (viewOf i p).lowered i := by
  unfold wearOff StatView.lowered
  change viewOf i (if (viewOf i p).base < (viewOf i p).cur then _ else _) = _
  by_cases h : (viewOf i p).base < (viewOf i p).cur
  · rw [if_pos h, if_pos h, viewOf_changed, viewOf_setCur]
    rfl
  · rw [if_neg h, if_neg h]

theorem viewOf_wearOff_other {i j : Fin maxSkillId} (p : Recovering) (h : j ≠ i) :
    viewOf i (wearOff p j) = viewOf i p := by
  unfold wearOff
  split
  · exact viewOf_changed_other p h _
  · rfl

theorem viewOf_restoreStat (i : Fin maxSkillId) (p : Recovering) :
    viewOf i (playerRestoreStat p i) = (viewOf i p).raised i := by
  unfold playerRestoreStat StatView.raised
  change viewOf i (if (viewOf i p).cur < (viewOf i p).base then _ else _) = _
  by_cases h : (viewOf i p).cur < (viewOf i p).base
  · rw [if_pos h, if_pos h, viewOf_changed, viewOf_setCur]
    rfl
  · rw [if_neg h, if_neg h]

theorem viewOf_restoreStat_other {i j : Fin maxSkillId} (p : Recovering) (h : j ≠ i) :
    viewOf i (playerRestoreStat p j) = viewOf i p := by
  unfold playerRestoreStat
  split
  · exact viewOf_changed_other p h _
  · rfl

theorem viewOf_restoreUnlessOwn (i : Fin maxSkillId) (p : Recovering) :
    viewOf i (restoreUnlessOwn p i) =
      if Own i then viewOf i p else (viewOf i p).raised i := by
  change viewOf i (if Own i then p else playerRestoreStat p i) = _
  by_cases h : Own i
  · rw [if_pos h, if_pos h]
  · rw [if_neg h, if_neg h, viewOf_restoreStat]

theorem viewOf_restoreUnlessOwn_other {i j : Fin maxSkillId} (p : Recovering) (h : j ≠ i) :
    viewOf i (restoreUnlessOwn p j) = viewOf i p := by
  unfold restoreUnlessOwn
  split
  · rfl
  · exact viewOf_restoreStat_other p h

theorem viewOf_wearOff_all (i : Fin maxSkillId) (p : Recovering) :
    viewOf i ((List.finRange maxSkillId).foldl wearOff p) = (viewOf i p).lowered i :=
  foldl_view viewOf wearOff (g := fun i v => v.lowered i) (fun _ _ p h => viewOf_wearOff_other p h)
    viewOf_wearOff _ p (List.nodup_finRange _) (List.mem_finRange i)

theorem viewOf_restoreStats (i : Fin maxSkillId) (p : Recovering) :
    viewOf i (playerRestoreStats p) =
      if Own i then viewOf i p else (viewOf i p).raised i :=
  foldl_view viewOf restoreUnlessOwn (g := fun i v => if Own i then v else v.raised i)
    (fun _ _ p h => viewOf_restoreUnlessOwn_other p h)
    viewOf_restoreUnlessOwn _ p (List.nodup_finRange _) (List.mem_finRange i)

/-! ### Which prayers are on -/

theorem playerStatChanged_prayers (p : Recovering) (i : Fin maxSkillId) :
    (playerStatChanged p i).prayers = p.prayers := by
  unfold playerStatChanged playerSendStat
  split <;> rfl

theorem wearOff_prayers (p : Recovering) (i : Fin maxSkillId) :
    (wearOff p i).prayers = p.prayers := by
  unfold wearOff
  split
  · exact playerStatChanged_prayers ..
  · rfl

theorem playerRestoreStat_prayers (p : Recovering) (i : Fin maxSkillId) :
    (playerRestoreStat p i).prayers = p.prayers := by
  unfold playerRestoreStat
  split
  · exact playerStatChanged_prayers ..
  · rfl

theorem restoreUnlessOwn_prayers (p : Recovering) (i : Fin maxSkillId) :
    (restoreUnlessOwn p i).prayers = p.prayers := by
  unfold restoreUnlessOwn
  split
  · rfl
  · exact playerRestoreStat_prayers p i

theorem foldl_prayers {turn : Recovering → Fin maxSkillId → Recovering}
    (h : ∀ p i, (turn p i).prayers = p.prayers) :
    ∀ (l : List (Fin maxSkillId)) (p : Recovering), (l.foldl turn p).prayers = p.prayers
  | [], _ => rfl
  | i :: l, p => (foldl_prayers h l (turn p i)).trans (h p i)

theorem playerRestoreStats_prayers (p : Recovering) :
    (playerRestoreStats p).prayers = p.prayers := by
  rw [playerRestoreStats, foldl_prayers restoreUnlessOwn_prayers]

/-! ## A tick -/

/-- The prayer under which a lowered level comes back with the rapid timer. -/
def hastener (i : Fin maxSkillId) : Option Prayer :=
  if i = skillHits then some .rapidHeal
  else if i = skillPrayer then none
  else some .rapidRestore

/-- A lowered level comes back: with the rapid timer under its prayer, and with the
slow one else. -/
def comesBack (i : Fin maxSkillId) (on : Prayer → Bool) (slow rapid : Bool) : Bool :=
  (hastener i).any fun e => if on e then rapid else slow

theorem hastener_other {i : Fin maxSkillId} (h : ¬ Own i) :
    hastener i = some .rapidRestore := by
  rw [Own, not_or] at h
  rw [hastener, if_neg h.2, if_neg h.1]

/-- The hits and the others that have this prayer, each raised by one. -/
def raisedFor (f : Prayer → Bool) (p : Recovering) : Recovering :=
  let p := if f .rapidHeal then playerRestoreStat p skillHits else p
  if f .rapidRestore then playerRestoreStats p else p

theorem playerSlowRestore_eq (p : Recovering) :
    playerSlowRestore p =
      raisedFor (fun e => !p.prayers e) ((List.finRange maxSkillId).foldl wearOff p) := by
  have hon := foldl_prayers wearOff_prayers (List.finRange maxSkillId) p
  unfold playerSlowRestore raisedFor
  generalize (List.finRange maxSkillId).foldl wearOff p = q at hon
  dsimp only
  rw [← hon]
  by_cases hheal : q.prayers .rapidHeal = true
  · by_cases hrest : q.prayers .rapidRestore = true <;> simp [hheal, hrest]
  · by_cases hrest : q.prayers .rapidRestore = true <;>
      simp [hheal, hrest, playerRestoreStat_prayers]

theorem playerRapidRestore_eq (p : Recovering) :
    playerRapidRestore p = raisedFor p.prayers p := by
  unfold playerRapidRestore raisedFor
  by_cases hheal : p.prayers .rapidHeal = true
  · simp [hheal, playerRestoreStat_prayers]
  · simp [hheal]

theorem raisedFor_prayers (f : Prayer → Bool) (p : Recovering) :
    (raisedFor f p).prayers = p.prayers := by
  have hheal : (if f .rapidHeal then playerRestoreStat p skillHits else p).prayers = p.prayers := by
    split
    · exact playerRestoreStat_prayers ..
    · rfl
  unfold raisedFor
  generalize (if f .rapidHeal then playerRestoreStat p skillHits else p) = q at hheal
  refine Eq.trans ?_ hheal
  by_cases hrest : f .rapidRestore = true
  · simp only [if_pos hrest, playerRestoreStats_prayers]
  · simp only [if_neg hrest]

theorem playerSlowRestore_prayers (p : Recovering) :
    (playerSlowRestore p).prayers = p.prayers := by
  rw [playerSlowRestore_eq, raisedFor_prayers]
  exact foldl_prayers wearOff_prayers ..

theorem viewOf_raisedFor (i : Fin maxSkillId) (f : Prayer → Bool) (p : Recovering) :
    viewOf i (raisedFor f p) =
      if (hastener i).any f then (viewOf i p).raised i else viewOf i p := by
  have hrest : ∀ q, viewOf i (if f .rapidRestore then playerRestoreStats q else q) =
      if ¬ Own i ∧ f .rapidRestore then (viewOf i q).raised i else viewOf i q := by
    intro q
    by_cases h : f .rapidRestore = true
    · by_cases hown : Own i
      · simp [h, hown, viewOf_restoreStats]
      · simp [h, hown, viewOf_restoreStats]
    · simp [h]
  have hheal : viewOf i (if f .rapidHeal then playerRestoreStat p skillHits else p) =
      if i = skillHits ∧ f .rapidHeal then (viewOf i p).raised i else viewOf i p := by
    by_cases h : f .rapidHeal = true
    · by_cases hi : i = skillHits
      · subst hi
        simp [h, viewOf_restoreStat]
      · simp [h, hi, viewOf_restoreStat_other p (Ne.symm hi)]
    · simp [h]
  unfold raisedFor
  rw [hrest, hheal]
  by_cases hown : Own i
  · rcases hown with rfl | rfl
    · simp [Own, hastener, show skillPrayer ≠ skillHits by decide]
    · simp [Own, hastener]
  · have hi : i ≠ skillHits := fun h => hown (.inr h)
    simp [hown, hi, hastener_other hown]

/-- What a tick does to one skill. -/
def StatView.ticked (i : Fin maxSkillId) (slow back : Bool) (v : StatView) : StatView :=
  let v := if slow then v.lowered i else v
  if back then v.raised i else v

/-- A level that does not come back only falls. -/
theorem StatView.ticked_le {i : Fin maxSkillId} {slow back : Bool} (v : StatView)
    (hback : back = false) : (v.ticked i slow back).cur ≤ v.cur := by
  have hlow : (v.lowered i).cur ≤ v.cur := by
    unfold StatView.lowered
    split
    · next hlt =>
      have hpos := UInt8.lt_iff_toNat_lt.1 hlt
      refine UInt8.le_iff_toNat_le.2 ?_
      show (v.cur - 1).toNat ≤ v.cur.toNat
      rw [UInt8.toNat_sub_of_le _ _ (UInt8.le_iff_toNat_le.2 (by show 1 ≤ _; omega))]
      exact Nat.sub_le _ _
    · exact UInt8.le_refl _
  unfold StatView.ticked
  rw [hback]
  cases slow with
  | false => exact UInt8.le_refl _
  | true => exact hlow

theorem viewOf_slow (i : Fin maxSkillId) (p : Recovering) :
    viewOf i (playerSlowRestore p) =
      if (hastener i).any fun e => !p.prayers e then ((viewOf i p).lowered i).raised i
      else (viewOf i p).lowered i := by
  rw [playerSlowRestore_eq, viewOf_raisedFor, viewOf_wearOff_all]

theorem viewOf_restoreTurns (i : Fin maxSkillId) (s : Restoring) (p : Recovering) :
    viewOf i (restoreTurns s p) =
      (viewOf i p).ticked i (s.restoreTimer = 0)
        (comesBack i p.prayers (s.restoreTimer = 0) (s.rapidRestoreTimer = 0)) := by
  let q := if s.restoreTimer = 0 then playerSlowRestore p else p
  have hq : q.prayers = p.prayers ∧ viewOf i q =
      if s.restoreTimer = 0 then
        if (hastener i).any fun e => !p.prayers e then ((viewOf i p).lowered i).raised i
        else (viewOf i p).lowered i
      else viewOf i p := by
    by_cases hslow : s.restoreTimer = 0
    · simp only [q, if_pos hslow]
      exact ⟨playerSlowRestore_prayers p, viewOf_slow i p⟩
    · simp only [q, if_neg hslow, and_self]
  have hrapid : viewOf i (restoreTurns s p) =
      if s.rapidRestoreTimer = 0 ∧ (hastener i).any p.prayers then (viewOf i q).raised i
      else viewOf i q := by
    change viewOf i (if s.rapidRestoreTimer = 0 then playerRapidRestore q else q) = _
    by_cases hz : s.rapidRestoreTimer = 0
    · simp [hz, playerRapidRestore_eq, viewOf_raisedFor, hq.1]
    · simp [hz]
  rw [hrapid, hq.2]
  unfold StatView.ticked comesBack
  cases hastener i with
  | none => simp
  | some e =>
      by_cases hon : p.prayers e = true
      · simp [hon]
      · by_cases hslow : s.restoreTimer = 0 <;> simp [hon, hslow]

theorem restoreTurns_prayers (s : Restoring) (p : Recovering) :
    (restoreTurns s p).prayers = p.prayers := by
  have hslow : (if s.restoreTimer = 0 then playerSlowRestore p else p).prayers = p.prayers := by
    split
    · exact playerSlowRestore_prayers p
    · rfl
  unfold restoreTurns
  dsimp only
  split
  · rw [playerRapidRestore_eq, raisedFor_prayers]
    exact hslow
  · exact hslow

/-! ### What has been sent -/

theorem playerStatChanged_sent (p : Recovering) (i : Fin maxSkillId) :
    p.sent <+: (playerStatChanged p i).sent := by
  unfold playerStatChanged playerSendStat
  split
  · exact (List.prefix_append ..).trans (List.prefix_append ..)
  · exact List.prefix_append ..

theorem wearOff_sent (p : Recovering) (i : Fin maxSkillId) : p.sent <+: (wearOff p i).sent := by
  unfold wearOff
  split
  · exact playerStatChanged_sent { p with stats := p.stats.setCur i _ } i
  · exact List.prefix_rfl

theorem playerRestoreStat_sent (p : Recovering) (i : Fin maxSkillId) :
    p.sent <+: (playerRestoreStat p i).sent := by
  unfold playerRestoreStat
  split
  · exact playerStatChanged_sent { p with stats := p.stats.setCur i _ } i
  · exact List.prefix_rfl

theorem restoreUnlessOwn_sent (p : Recovering) (i : Fin maxSkillId) :
    p.sent <+: (restoreUnlessOwn p i).sent := by
  unfold restoreUnlessOwn
  split
  · exact List.prefix_rfl
  · exact playerRestoreStat_sent p i

theorem foldl_sent {turn : Recovering → Fin maxSkillId → Recovering}
    (h : ∀ p i, p.sent <+: (turn p i).sent) :
    ∀ (l : List (Fin maxSkillId)) (p : Recovering), p.sent <+: (l.foldl turn p).sent
  | [], _ => List.prefix_rfl
  | i :: l, p => (h p i).trans (foldl_sent h l (turn p i))

theorem raisedFor_sent (f : Prayer → Bool) (p : Recovering) :
    p.sent <+: (raisedFor f p).sent := by
  have hheal : p.sent <+: (if f .rapidHeal then playerRestoreStat p skillHits else p).sent := by
    split
    · exact playerRestoreStat_sent ..
    · exact List.prefix_rfl
  unfold raisedFor
  generalize (if f .rapidHeal then playerRestoreStat p skillHits else p) = q at hheal
  refine hheal.trans ?_
  by_cases hrest : f .rapidRestore = true
  · rw [if_pos hrest]
    exact foldl_sent restoreUnlessOwn_sent _ q
  · rw [if_neg hrest]

theorem restoreTurns_sent (s : Restoring) (p : Recovering) :
    p.sent <+: (restoreTurns s p).sent := by
  let q := if s.restoreTimer = 0 then playerSlowRestore p else p
  have hslow : p.sent <+: q.sent := by
    by_cases hz : s.restoreTimer = 0
    · simp only [q, if_pos hz, playerSlowRestore_eq]
      exact (foldl_sent wearOff_sent _ p).trans (raisedFor_sent ..)
    · simp only [q, if_neg hz]
      exact List.prefix_rfl
  refine hslow.trans ?_
  change q.sent <+: (if s.rapidRestoreTimer = 0 then playerRapidRestore q else q).sent
  split
  · rw [playerRapidRestore_eq]
    exact raisedFor_sent ..
  · exact List.prefix_rfl

/-! ### The drain -/

/-- The drain goes through, turns all prayers off or none, and takes points only. -/
theorem playerPrayerDrain_spec (less : Nat → Nat → Int) (p : PrayingPlayer) :
    ∃ q, playerPrayerDrain less p = .ok q ∧
      (q.prayers = p.prayers ∨ q.prayers = fun _ => false) ∧
      (p.curStat < 256 → q.curStat ≤ p.curStat) := by
  have htake : ∀ (p : PrayingPlayer) {amount : Int}, 0 < amount →
      ((takePoints p amount).prayers = p.prayers ∨
        (takePoints p amount).prayers = fun _ => false) ∧
      (p.curStat < 256 → (takePoints p amount).curStat ≤ p.curStat) := by
    intro p amount hpos
    unfold takePoints playerResetPrayers
    split
    · dsimp only
      split
      · exact ⟨.inr rfl, fun _ => Nat.zero_le _⟩
      · exact ⟨.inl rfl, fun _ => Nat.zero_le _⟩
    · refine ⟨.inl rfl, fun hfits => ?_⟩
      dsimp only
      omega
  have hamount : ∀ drain : Int, 0 < drainAmount drain := by
    intro drain
    unfold drainAmount
    split
    · omega
    · decide
  unfold playerPrayerDrain
  dsimp only
  split
  · exact ⟨p, rfl, .inl rfl, fun _ => Nat.le_refl _⟩
  · next hsome =>
    split
    · exact ⟨_, rfl, .inl rfl, fun _ => Nat.le_refl _⟩
    · have hpoints := htake { p with drainCounter := p.drainCounter + 1 }
        (hamount (less p.prayerDrain p.bonusPrayer))
      split
      · rw [divide, if_neg (by omega)]
        exact ⟨_, rfl, hpoints⟩
      · exact ⟨_, rfl, hpoints⟩

theorem viewOf_prayed {i : Fin maxSkillId} (hi : i ≠ skillPrayer) (p : Recovering)
    (q : PrayingPlayer) : viewOf i (p.prayed q) = viewOf i p := by
  have habout : ∀ stats e, (Recovering.prayerPacket stats e).about = skillPrayer := by
    rintro stats (text | -) <;> rfl
  simp [viewOf, Recovering.prayed, Stats.setCur, hi, List.filter_map, Function.comp_def, habout,
    Ne.symm hi]

/-- What the drain leaves of the other skills is all of them, and of the prayer
level no more than there was. -/
theorem drainTurn_spec (less : Nat → Nat → Int) (s : Restoring) (p : Recovering) :
    ∃ p', drainTurn less s p = .ok p' ∧
      (p'.prayers = p.prayers ∨ p'.prayers = fun _ => false) ∧
      (∀ i, i ≠ skillPrayer → viewOf i p' = viewOf i p) ∧ p.sent <+: p'.sent ∧
      p'.stats.baseStats = p.stats.baseStats ∧
      p'.stats.curStats skillPrayer ≤ p.stats.curStats skillPrayer := by
  unfold drainTurn
  split
  · obtain ⟨q, hq, hprayers, hpoints⟩ := playerPrayerDrain_spec less p.praying
    have hle := hpoints (UInt8.toNat_lt _)
    rw [hq]
    refine ⟨_, rfl, hprayers, fun i hi => viewOf_prayed hi p q, List.prefix_append .., rfl, ?_⟩
    have hlt := UInt8.toNat_lt (p.stats.curStats skillPrayer)
    simp only [Recovering.praying] at hle
    simp only [Recovering.prayed, Stats.setCur, Function.update_self, UInt8.le_iff_toNat_le,
      UInt8.toNat_ofNat']
    omega
  · exact ⟨p, rfl, .inl rfl, fun _ _ => rfl, List.prefix_rfl, rfl, UInt8.le_refl _⟩

/-! ### The tick -/

/-- What a tick does: the prayers it ends with are those that the turns of the
restore timers saw. -/
structure Ticked (on : Devotion) (s s' : Restoring) : Prop where
  prayers : s'.player.prayers = on.prayers ∨ s'.player.prayers = fun _ => false
  slow : s'.restoreTimer = countdown 100 s.restoreTimer
  rapid : s'.rapidRestoreTimer = countdown 50 s.rapidRestoreTimer
  view : ∀ i, i ≠ skillPrayer → viewOf i s'.player = (viewOf i s.player).ticked i
    (s.restoreTimer = 0)
    (comesBack i s'.player.prayers (s.restoreTimer = 0) (s.rapidRestoreTimer = 0))
  points : s'.player.stats.curStats skillPrayer ≤ s.player.stats.curStats skillPrayer
  sent : s.player.sent <+: s'.player.sent

theorem restoreTick_spec (less : Nat → Nat → Int) (on : Devotion) (s : Restoring) :
    ∃ s', restoreTick less on s = .ok s' ∧ Ticked on s s' := by
  obtain ⟨p, hdrain, hprayers, hview, hsent, -, hpoints⟩ :=
    drainTurn_spec less s { s.player with toDevotion := on }
  have hturns := fun i => viewOf_restoreTurns i s p
  have hkeep := restoreTurns_prayers s p
  refine ⟨_, by rw [restoreTick, hdrain]; rfl, ?_, rfl, rfl, fun i hi => ?_, ?_, ?_⟩
  · rw [hkeep]
    exact hprayers
  · rw [hturns, hview i hi, hkeep]
    rfl
  · have hlow : (viewOf skillPrayer (restoreTurns s p)).cur ≤ (viewOf skillPrayer p).cur := by
      rw [hturns]
      exact (viewOf skillPrayer p).ticked_le rfl
    exact UInt8.le_trans hlow hpoints
  · exact hsent.trans (restoreTurns_sent s p)

/-! ## Any number of ticks -/

/-- What has become of a skill after so many turns of the slow timer, and so many
in which a lowered level came back. -/
structure Toward (i : Fin maxSkillId) (v w : StatView) (slow back : Nat) : Prop where
  base : w.base = v.base
  experience : w.experience = v.experience
  down : v.base ≤ v.cur → w.cur.toNat = max v.base.toNat (v.cur.toNat - slow)
  up : v.cur ≤ v.base → w.cur.toNat = min v.base.toNat (v.cur.toNat + back)
  told : ∃ news, w.told = v.told ++ news ∧ shownLevel i v.cur news = w.cur ∧
    news.count (.normal i) = if ¬ Own i ∧ v.cur ≠ v.base ∧ w.cur = v.base then 1 else 0

theorem Toward.refl (i : Fin maxSkillId) (v : StatView) : Toward i v v 0 0 where
  base := rfl
  experience := rfl
  down h := (Nat.max_eq_right h).symm
  up h := (Nat.min_eq_right h).symm
  told := by
    refine ⟨[], (List.append_nil _).symm, rfl, ?_⟩
    rw [if_neg fun h => h.2.1 h.2.2]
    rfl

theorem shownLevel_append (i : Fin maxSkillId) (level : UInt8) (sent sent' : List StatPacket) :
    shownLevel i level (sent ++ sent') = shownLevel i (shownLevel i level sent) sent' :=
  List.foldl_append

/-- A level that is not what it should be is set to another. -/
theorem Toward.set_told {i : Fin maxSkillId} {v w : StatView} {slow back : Nat}
    (h : Toward i v w slow back) (hv : v.cur ≠ v.base) (hw : w.cur ≠ v.base) (level : UInt8) :
    ∃ news, (w.set i level).told = v.told ++ news ∧
      shownLevel i v.cur news = (w.set i level).cur ∧
      news.count (.normal i) =
        if ¬ Own i ∧ v.cur ≠ v.base ∧ (w.set i level).cur = v.base then 1 else 0 := by
  obtain ⟨news, htold, hshown, hcount⟩ := h.told
  rw [if_neg fun h => hw h.2.2] at hcount
  refine ⟨news ++ ((if ¬ Own i ∧ level = w.base then [.normal i] else []) ++
    [.stat i level w.base w.experience]), ?_, ?_, ?_⟩
  · rw [← List.append_assoc, ← htold]
    rfl
  · rw [shownLevel_append, shownLevel_append]
    exact if_pos rfl
  · rw [List.count_append, List.count_append, hcount, h.base]
    show 0 + (_ + 0) = if ¬ Own i ∧ v.cur ≠ v.base ∧ level = v.base then 1 else 0
    by_cases hsay : ¬ Own i ∧ level = v.base
    · simp [hsay, hv]
    · rw [if_neg hsay, if_neg fun h => hsay ⟨h.1, h.2.2⟩]
      rfl

theorem Toward.lowered {i : Fin maxSkillId} {v w : StatView} {slow back : Nat}
    (h : Toward i v w slow back) : Toward i v (w.lowered i) (slow + 1) back := by
  have hdown := h.down
  have hup := h.up
  rw [UInt8.le_iff_toNat_le] at hdown hup
  unfold StatView.lowered
  rw [h.base]
  by_cases hlt : v.base < w.cur
  · have hw := UInt8.lt_iff_toNat_lt.1 hlt
    have hover : v.base.toNat < v.cur.toNat := by omega
    have hpred : (w.cur - 1).toNat = w.cur.toNat - 1 :=
      UInt8.toNat_sub_of_le _ _ (UInt8.le_iff_toNat_le.2 (by show 1 ≤ _; omega))
    have hv : v.cur ≠ v.base := fun he => Nat.ne_of_gt hover (congrArg UInt8.toNat he)
    have hne : w.cur ≠ v.base := fun he => Nat.ne_of_gt hw (congrArg UInt8.toNat he)
    rw [if_pos hlt]
    exact {
      base := h.base
      experience := h.experience
      down := fun _ => by
        have hcur := hdown (Nat.le_of_lt hover)
        show (w.cur - 1).toNat = _
        omega
      up := fun hle => absurd (UInt8.le_iff_toNat_le.1 hle) (Nat.not_le.2 hover)
      told := h.set_told hv hne _ }
  · have hw : w.cur.toNat ≤ v.base.toNat := Nat.not_lt.1 fun hw => hlt (UInt8.lt_iff_toNat_lt.2 hw)
    rw [if_neg hlt]
    exact { h with
      down := fun hle => by
        have hcur := hdown (UInt8.le_iff_toNat_le.1 hle)
        omega }

theorem Toward.raised {i : Fin maxSkillId} {v w : StatView} {slow back : Nat}
    (h : Toward i v w slow back) : Toward i v (w.raised i) slow (back + 1) := by
  have hdown := h.down
  have hup := h.up
  rw [UInt8.le_iff_toNat_le] at hdown hup
  unfold StatView.raised
  rw [h.base]
  by_cases hlt : w.cur < v.base
  · have hw := UInt8.lt_iff_toNat_lt.1 hlt
    have hunder : v.cur.toNat < v.base.toNat := by omega
    have hsucc : (w.cur + 1).toNat = w.cur.toNat + 1 := by
      rw [UInt8.toNat_add]
      exact Nat.mod_eq_of_lt (Nat.lt_of_le_of_lt hw v.base.toNat_lt)
    have hv : v.cur ≠ v.base := fun he => Nat.ne_of_lt hunder (congrArg UInt8.toNat he)
    have hne : w.cur ≠ v.base := fun he => Nat.ne_of_lt hw (congrArg UInt8.toNat he)
    rw [if_pos hlt]
    exact {
      base := h.base
      experience := h.experience
      down := fun hle => absurd (UInt8.le_iff_toNat_le.1 hle) (Nat.not_le.2 hunder)
      up := fun _ => by
        have hcur := hup (Nat.le_of_lt hunder)
        show (w.cur + 1).toNat = _
        omega
      told := h.set_told hv hne _ }
  · have hw : v.base.toNat ≤ w.cur.toNat := Nat.not_lt.1 fun hw => hlt (UInt8.lt_iff_toNat_lt.2 hw)
    rw [if_neg hlt]
    exact { h with
      up := fun hle => by
        have hcur := hup (UInt8.le_iff_toNat_le.1 hle)
        omega }

theorem Toward.ticked {i : Fin maxSkillId} {v w : StatView} {n m : Nat}
    (h : Toward i v w n m) (slow back : Bool) :
    Toward i v (w.ticked i slow back) (n + slow.toNat) (m + back.toNat) := by
  have hlow : Toward i v (if slow then w.lowered i else w) (n + slow.toNat) m := by
    cases slow with
    | false => exact h
    | true => exact h.lowered
  cases back with
  | false => exact hlow
  | true => exact hlow.raised

/-! ### The turns -/

/-- The turns of the slow timer among so many ticks. -/
def slowTurns (s : Restoring) (n : Nat) : Nat :=
  Nat.count (fun k => k % 101 = s.restoreTimer) n

/-- The ticks among so many in which a level that is too low comes back, by the
prayers that are on in each. -/
def backTurns (on : Nat → Prayer → Bool) (s : Restoring) (i : Fin maxSkillId) (n : Nat) : Nat :=
  Nat.count (fun k => comesBack i (on k) (k % 101 = s.restoreTimer)
    (k % 51 = s.rapidRestoreTimer)) n

section Ticks

variable (less : Nat → Nat → Int) (schedule : Nat → Devotion) (s : Restoring)

/-- The prayers that are on in a tick once its drain is over. -/
def prayersOn (k : Nat) : Prayer → Bool :=
  match restoreTicks less schedule s (k + 1) with
  | .error _ => fun _ => false
  | .ok s' => s'.player.prayers

theorem restoreTicks_spec (n : Nat) : ∃ s', restoreTicks less schedule s n = .ok s' ∧
    s'.restoreTimer = (countdown 100)^[n] s.restoreTimer ∧
    s'.rapidRestoreTimer = (countdown 50)^[n] s.rapidRestoreTimer ∧
    s.player.sent <+: s'.player.sent ∧
    s'.player.stats.curStats skillPrayer ≤ s.player.stats.curStats skillPrayer ∧
    ∀ i, i ≠ skillPrayer → Toward i (viewOf i s.player) (viewOf i s'.player) (slowTurns s n)
      (backTurns (prayersOn less schedule s) s i n) := by
  induction n with
  | zero =>
      exact ⟨s, rfl, rfl, rfl, List.prefix_rfl, UInt8.le_refl _, fun i _ => .refl i _⟩
  | succ n ih =>
      obtain ⟨s', hticks, hslow, hrapid, hsent, hpoints, htoward⟩ := ih
      obtain ⟨s'', htick, hticked⟩ := restoreTick_spec less (schedule n) s'
      have hnext : restoreTicks less schedule s (n + 1) = .ok s'' := by
        rw [restoreTicks, hticks]
        exact htick
      have hon : prayersOn less schedule s n = s''.player.prayers := by
        rw [prayersOn, hnext]
      have hz := countdown_iterate_eq_zero s.restoreTimer_le n
      have hz' := countdown_iterate_eq_zero s.rapidRestoreTimer_le n
      rw [← hslow] at hz
      rw [← hrapid] at hz'
      refine ⟨s'', hnext, ?_, ?_, hsent.trans hticked.sent,
        UInt8.le_trans hticked.points hpoints, fun i hi => ?_⟩
      · rw [Function.iterate_succ_apply', ← hslow]
        exact hticked.slow
      · rw [Function.iterate_succ_apply', ← hrapid]
        exact hticked.rapid
      have hnow := (htoward i hi).ticked (decide (s'.restoreTimer = 0))
        (comesBack i s''.player.prayers (decide (s'.restoreTimer = 0))
          (decide (s'.rapidRestoreTimer = 0)))
      rw [← hticked.view i hi, decide_eq_decide.2 hz, decide_eq_decide.2 hz'] at hnow
      have hturns : slowTurns s (n + 1) =
          slowTurns s n + (decide (n % 101 = s.restoreTimer)).toNat := by
        rw [slowTurns, Nat.count_succ]
        by_cases hn : n % 101 = s.restoreTimer <;> simp [hn, slowTurns]
      have hbacks : backTurns (prayersOn less schedule s) s i (n + 1) =
          backTurns (prayersOn less schedule s) s i n +
            (comesBack i s''.player.prayers (n % 101 = s.restoreTimer)
              (n % 51 = s.rapidRestoreTimer)).toNat := by
        rw [backTurns, Nat.count_succ, hon]
        cases comesBack i s''.player.prayers (n % 101 = s.restoreTimer)
          (n % 51 = s.rapidRestoreTimer) <;> rfl
      rw [hturns, hbacks]
      exact hnow

/-- The prayers of a tick are those that were put on, or none when the points have
run out in it. -/
theorem prayersOn_cases (k : Nat) : prayersOn less schedule s k = (schedule k).prayers ∨
    prayersOn less schedule s k = fun _ => false := by
  obtain ⟨s', hticks, -⟩ := restoreTicks_spec less schedule s k
  obtain ⟨s'', htick, hticked⟩ := restoreTick_spec less (schedule k) s'
  have hon : prayersOn less schedule s k = s''.player.prayers := by
    rw [prayersOn, restoreTicks, hticks]
    show (match restoreTick less (schedule k) s' with
      | .error _ => fun _ => false
      | .ok s' => s'.player.prayers) = _
    rw [htick]
  rw [hon]
  exact hticked.prayers

/-- Nothing brings the prayer level back. -/
theorem prayer_points_fall (n : Nat) : ∃ s', restoreTicks less schedule s n = .ok s' ∧
    s'.player.stats.curStats skillPrayer ≤ s.player.stats.curStats skillPrayer := by
  obtain ⟨s', hticks, -, -, -, hpoints, -⟩ := restoreTicks_spec less schedule s n
  exact ⟨s', hticks, hpoints⟩

end Ticks

def attack : Fin maxSkillId := ⟨0, by decide⟩

end Sundae.Proofs
