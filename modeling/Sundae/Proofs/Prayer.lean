import Mathlib.Algebra.BigOperators.Group.List.Basic
import Mathlib.Algebra.GroupWithZero.Nat
import Mathlib.Data.List.Nodup
import Sundae.Lib.Run
import Sundae.Ref.Prayer

/-!
# Prayers and their drain

`prayer_drain` is a sum that is kept up to date: enabling adds up all active
prayers anew, disabling takes one off, and the points running out ends them
all. The invariant is that it is the sum, over a list of active prayers that
has at most one of each group.
-/

namespace Sundae.Proofs

open Sundae.Lib Sundae.Ref

variable {configs : List PrayerConfig} {prayers : Prayer → Bool} {p p' : PrayingPlayer}

/-! ## Prayers by number -/

theorem Prayer.mem_all (q : Prayer) : q ∈ Prayer.all := by
  cases q <;> decide

theorem Prayer.id_of_ofId {prayer : Int} {q : Prayer} (h : Prayer.ofId prayer = some q) :
    (q.id : Int) = prayer := by
  have hid := List.find?_some h
  simpa using hid

/-- A number with a config that is below `MAX_PRAYERS` is that of a prayer. -/
theorem Prayer.ofId_of_lt {prayer : Int} (hneg : 0 ≤ prayer) (hlt : prayer < maxPrayers) :
    ∃ q, Prayer.ofId prayer = some q := by
  obtain ⟨n, rfl⟩ := Int.eq_ofNat_of_zero_le hneg
  have hall : ∀ n < maxPrayers, (Prayer.ofId (n : Nat)).isSome = true := by decide
  exact Option.isSome_iff_exists.1 (hall n (by omega))

/-! ## The sum -/

/-- What one prayer drains. -/
def drainOf (configs : List PrayerConfig) (q : Prayer) : Nat :=
  ((serverPrayerConfigById configs q.id).map PrayerConfig.drain).getD 0

/-- What the active prayers of a list drain together. -/
def drainSum (configs : List PrayerConfig) (prayers : Prayer → Bool) (l : List Prayer) : Nat :=
  ((l.filter prayers).map (drainOf configs)).sum

theorem drainOf_eq {q : Prayer} {config : PrayerConfig}
    (h : serverPrayerConfigById configs q.id = some config) : drainOf configs q = config.drain := by
  rw [drainOf, h]
  rfl

theorem drainOf_lt (configs : List PrayerConfig) (q : Prayer) : drainOf configs q < 256 := by
  unfold drainOf
  cases serverPrayerConfigById configs q.id with
  | none => decide
  | some config => exact config.drain_lt

theorem drainSum_le (l : List Prayer) : drainSum configs prayers l ≤ 255 * l.length := by
  induction l with
  | nil => exact Nat.le_refl _
  | cons q l ih =>
      have hq := drainOf_lt configs q
      unfold drainSum at ih ⊢
      rw [List.length_cons, List.filter_cons]
      split
      · rw [List.map_cons, List.sum_cons]
        omega
      · omega

/-- Fourteen drains of eight bits are far from 65536. -/
theorem drainSum_fits (configs : List PrayerConfig) (prayers : Prayer → Bool) :
    drainSum configs prayers Prayer.all < 65536 :=
  Nat.lt_of_le_of_lt (drainSum_le _) (by decide)

/-- With a config for each active prayer the loop adds them up and never wraps. -/
theorem sumDrains_eq (hknown : ∀ q, prayers q = true →
      (serverPrayerConfigById configs q.id).isSome = true) (l : List Prayer) {n : Nat}
    (hfit : n + drainSum configs prayers l < 65536) :
    sumDrains configs prayers l n = .ok (n + drainSum configs prayers l) := by
  induction l generalizing n with
  | nil => rfl
  | cons q l ih =>
      unfold drainSum at hfit ih ⊢
      rw [sumDrains]
      cases hq : prayers q with
      | false =>
          rw [List.filter_cons_of_neg (by simp [hq])] at hfit ⊢
          simpa using ih hfit
      | true =>
          obtain ⟨config, hconfig⟩ := Option.isSome_iff_exists.1 (hknown q hq)
          rw [List.filter_cons_of_pos hq, List.map_cons, List.sum_cons,
            drainOf_eq hconfig] at hfit ⊢
          rw [if_pos rfl, hconfig]
          simp only
          rw [Nat.mod_eq_of_lt (by omega), ih (by omega), Nat.add_assoc]

/-- Turning one prayer off takes its drain off the sum. -/
theorem drainSum_off (configs : List PrayerConfig) {q : Prayer} (hq : prayers q = true) :
    drainSum configs prayers Prayer.all =
      drainOf configs q +
        drainSum configs (turnOff prayers q) Prayer.all := by
  have hnd : (Prayer.all.filter prayers).Nodup := List.Nodup.filter _ (by decide)
  have hmem : q ∈ Prayer.all.filter prayers := List.mem_filter.2 ⟨Prayer.mem_all q, hq⟩
  have hoff : Prayer.all.filter (turnOff prayers q) = (Prayer.all.filter prayers).erase q := by
    rw [hnd.erase_eq_filter, List.filter_filter]
    refine List.filter_congr fun r _ => ?_
    by_cases hr : r = q
    · simp [turnOff, hr]
    · simp [turnOff, hr]
  rw [drainSum, drainSum, hoff, List.sum_map_erase _ hmem]

/-! ## The invariant -/

/-- At most one prayer of each of the three groups is active. -/
def Exclusive (prayers : Prayer → Bool) : Prop :=
  ∀ g ∈ Prayer.statGroups, ∀ q ∈ g, ∀ r ∈ g, prayers q = true → prayers r = true → q = r

structure PrayersRight (configs : List PrayerConfig) (p : PrayingPlayer) : Prop where
  exclusive : Exclusive p.prayers
  known : ∀ q, p.prayers q = true → (serverPrayerConfigById configs q.id).isSome = true
  drain : p.prayerDrain = drainSum configs p.prayers Prayer.all
  points : p.curStat < 256

/-- The state before any prayer. -/
def Unpraying (p : PrayingPlayer) : Prop :=
  p.prayers = (fun _ => false) ∧ p.prayerDrain = 0 ∧ p.curStat < 256

theorem Unpraying.right (h : Unpraying p) : PrayersRight configs p := by
  obtain ⟨hnone, hdrain, hpoints⟩ := h
  refine ⟨fun g _ q _ r _ hq => ?_, fun q hq => ?_, ?_, hpoints⟩
  · rw [hnone] at hq
    cases hq
  · rw [hnone] at hq
    cases hq
  · rw [hnone, hdrain]
    rfl

/-- Two prayers of a group overlap. -/
theorem Prayer.mem_overlapping : ∀ g ∈ Prayer.statGroups, ∀ q ∈ g, ∀ r ∈ g,
    r ∈ q.overlapping := by
  decide

section

variable {q : Prayer}

theorem exclusive_on (h : Exclusive prayers) (q : Prayer) : Exclusive (turnOn prayers q) := by
  intro g hg r hr s hs hra hsa
  unfold turnOn at hra hsa
  by_cases hrq : r = q
  · by_contra hne
    have hsq : ¬ s = q := fun he => hne (hrq.trans he.symm)
    have hover := Prayer.mem_overlapping g hg q (hrq ▸ hr) s hs
    rw [if_neg hsq, if_pos hover] at hsa
    cases hsa
  · by_cases hsq : s = q
    · have hover := Prayer.mem_overlapping g hg q (hsq ▸ hs) r hr
      rw [if_neg hrq, if_pos hover] at hra
      cases hra
    · rw [if_neg hrq] at hra
      rw [if_neg hsq] at hsa
      split at hra
      · cases hra
      · split at hsa
        · cases hsa
        · exact h g hg r hr s hs hra hsa

theorem known_on {known : Prayer → Prop} (h : ∀ r, prayers r = true → known r) (hq : known q) :
    ∀ r, turnOn prayers q r = true → known r := by
  intro r hr
  unfold turnOn at hr
  split at hr
  · next heq => exact heq ▸ hq
  · split at hr
    · cases hr
    · exact h r hr

end

namespace PrayersRight

/-- The invariant does not look at the other fields, and points may go down. -/
theorem congr (h : PrayersRight configs p) (hprayers : p'.prayers = p.prayers)
    (hdrain : p'.prayerDrain = p.prayerDrain) (hpoints : p'.curStat < 256) :
    PrayersRight configs p' :=
  ⟨hprayers ▸ h.exclusive, hprayers ▸ h.known, by rw [hprayers, hdrain]; exact h.drain, hpoints⟩

/-! ## Each of the four -/

theorem reset (h : PrayersRight configs p) :
    PrayersRight configs (playerResetPrayers p) ∧
      (playerResetPrayers p).prayers = (fun _ => false) ∧
      (playerResetPrayers p).prayerDrain = 0 ∧ (playerResetPrayers p).curStat = p.curStat := by
  unfold playerResetPrayers
  split
  · next hany =>
    have hright : Unpraying { p with
        prayers := fun _ => false
        nextDrain := 0
        drainCounter := 0
        prayerDrain := 0
        prayersChanged := true } := ⟨rfl, rfl, h.points⟩
    exact ⟨hright.right, rfl, rfl, rfl⟩
  · next hany =>
    have hnone : p.prayers = fun _ => false := by
      funext q
      have hall : ∀ q ∈ Prayer.all, ¬ p.prayers q = true := by simpa using hany
      simpa using hall q (Prayer.mem_all q)
    refine ⟨h, hnone, ?_, rfl⟩
    rw [h.drain, hnone]
    rfl

theorem disable (h : PrayersRight configs p) (prayer : Int) :
    PrayersRight configs (playerPrayerDisable configs p prayer) ∧
      (playerPrayerDisable configs p prayer).curStat = p.curStat := by
  unfold playerPrayerDisable
  split
  · exact ⟨h, rfl⟩
  · split
    · exact ⟨h, rfl⟩
    · next q hq =>
      split
      · next hactive =>
        split
        · exact ⟨h, rfl⟩
        · next config hconfig =>
          rw [← Prayer.id_of_ofId hq] at hconfig
          have hsum := drainSum_off configs hactive
          have hfits := drainSum_fits configs p.prayers
          rw [drainOf_eq hconfig] at hsum
          have hstill : ∀ r, turnOff p.prayers q r = true → p.prayers r = true := fun r hr => by
            unfold turnOff at hr
            split at hr
            · cases hr
            · exact hr
          refine ⟨⟨fun g hg r hr s hs hra hsa => ?_, fun r hr => h.known r (hstill r hr), ?_,
            h.points⟩, rfl⟩
          · exact h.exclusive g hg r hr s hs (hstill r hra) (hstill s hsa)
          · show (p.prayerDrain + 65536 - config.drain) % 65536 =
              drainSum configs (turnOff p.prayers q) Prayer.all
            rw [h.drain]
            omega
      · exact ⟨h, rfl⟩

theorem enable (h : PrayersRight configs p) (prayer : Int) :
    ∃ p', playerPrayerEnable configs p prayer = .ok p' ∧ PrayersRight configs p' ∧
      p'.curStat = p.curStat ∧ (p.curStat = 0 → p' = p) := by
  unfold playerPrayerEnable
  split
  · exact ⟨p, rfl, h, rfl, fun _ => rfl⟩
  · next hstart =>
    obtain ⟨hpoints, hlt⟩ := not_or.1 hstart
    split
    · exact ⟨p, rfl, h, rfl, fun _ => rfl⟩
    · next config hconfig =>
      split
      · exact ⟨p, rfl, h, rfl, fun _ => rfl⟩
      · have hneg : 0 ≤ prayer := by
          unfold serverPrayerConfigById at hconfig
          split at hconfig
          · cases hconfig
          · next hin => omega
        obtain ⟨q, hq⟩ := Prayer.ofId_of_lt hneg (by omega)
        rw [hq]
        simp only
        rw [← Prayer.id_of_ofId hq] at hconfig
        have hknown := known_on h.known (Option.isSome_iff_exists.2 ⟨config, hconfig⟩)
        rw [sumDrains_eq hknown Prayer.all (by rw [Nat.zero_add]; exact drainSum_fits _ _)]
        refine ⟨_, rfl, ⟨exclusive_on h.exclusive q, hknown, Nat.zero_add _, h.points⟩, rfl,
          fun hzero => absurd hzero hpoints⟩

/-- Points that are taken do not go below zero, and the last one ends the
prayers. -/
theorem takePoints (h : PrayersRight configs p) {amount : Int} (hpos : 0 < amount) :
    PrayersRight configs (takePoints p amount) ∧
      ((takePoints p amount).curStat : Int) = max 0 (p.curStat - amount) ∧
      ((takePoints p amount).curStat = 0 →
        (takePoints p amount).prayers = (fun _ => false) ∧
          (takePoints p amount).prayerDrain = 0) := by
  have hpoints := h.points
  unfold Ref.takePoints
  split
  · next hout =>
    have hzero : PrayersRight configs { p with
        sent := p.sent ++ [PrayerPacket.message
          "You have run out of prayer points. Return to a church to recharge"]
        curStat := 0 } := h.congr rfl rfl (Nat.zero_lt_succ 255)
    obtain ⟨hright, hnone, hdrain, hcur⟩ := hzero.reset
    refine ⟨hright, ?_, fun _ => ⟨hnone, hdrain⟩⟩
    rw [hcur]
    show (0 : Int) = max 0 (p.curStat - amount)
    omega
  · next hleft =>
    have hcur : (((p.curStat - amount) % 256).toNat : Int) = p.curStat - amount := by omega
    refine ⟨h.congr rfl rfl ?_, ?_, fun hzero => ?_⟩
    · show ((p.curStat - amount) % 256).toNat < 256
      omega
    · rw [hcur]
      omega
    · have hcast : (((p.curStat - amount) % 256).toNat : Int) = 0 := congrArg Nat.cast hzero
      omega

end PrayersRight

/-! ## Runs -/

section

variable {less : Nat → Nat → Int}

/-- The points are due to be drained. -/
def Due (less : Nat → Nat → Int) (p : PrayingPlayer) : Prop :=
  0 < less p.prayerDrain p.bonusPrayer ∧ p.nextDrain ≤ p.drainCounter

/-- A drain takes its amount, as far as there are points, when it is due; and
where it leaves none it leaves no prayer on. -/
structure Drained (less : Nat → Nat → Int) (p p' : PrayingPlayer) : Prop where
  points : Due less p →
    (p'.curStat : Int) = max 0 (p.curStat - drainAmount (less p.prayerDrain p.bonusPrayer))
  exhausted : Due less p → p'.curStat = 0 → p'.prayers = (fun _ => false) ∧ p'.prayerDrain = 0
  not_due : ¬ Due less p → p'.curStat = p.curStat

theorem drainAmount_pos (drain : Int) : 0 < drainAmount drain := by
  unfold drainAmount
  split
  · omega
  · decide

theorem PrayersRight.drain_call (h : PrayersRight configs p) (less : Nat → Nat → Int) :
    ∃ p', playerPrayerDrain less p = .ok p' ∧ PrayersRight configs p' ∧ Drained less p p' := by
  unfold playerPrayerDrain
  dsimp only
  split
  · next hnone =>
    have hnot : ¬ Due less p := fun hdue => by have := hdue.1; omega
    exact ⟨p, rfl, h, fun hdue => absurd hdue hnot, fun hdue => absurd hdue hnot, fun _ => rfl⟩
  · next hsome =>
    split
    · next hwait =>
      have hnot : ¬ Due less p := fun hdue => by have := hdue.2; omega
      exact ⟨_, rfl, h.congr rfl rfl h.points, fun hdue => absurd hdue hnot,
        fun hdue => absurd hdue hnot, fun _ => rfl⟩
    · next hready =>
      have hdue : Due less p := ⟨by omega, by omega⟩
      have hcounted : PrayersRight configs { p with drainCounter := p.drainCounter + 1 } :=
        h.congr rfl rfl h.points
      obtain ⟨hright, hpoints, hout⟩ := hcounted.takePoints (drainAmount_pos _)
      split
      · have hdiv : divide 60 (less p.prayerDrain p.bonusPrayer) =
            .ok (60 / less p.prayerDrain p.bonusPrayer) := if_neg (by omega)
        rw [hdiv]
        exact ⟨_, rfl, hright.congr rfl rfl hright.points, fun _ => hpoints, fun _ => hout,
          fun hnot => absurd hdue hnot⟩
      · exact ⟨_, rfl, hright.congr rfl rfl hright.points, fun _ => hpoints, fun _ => hout,
          fun hnot => absurd hdue hnot⟩

/-- What a call may do to the points. -/
def PointsRight (less : Nat → Nat → Int) (p p' : PrayingPlayer) : PrayerCall → Prop
  | .enable _ => p'.curStat = p.curStat ∧ (p.curStat = 0 → p' = p)
  | .disable _ | .reset => p'.curStat = p.curStat
  | .drain => Drained less p p'
  | .levels curStat _ _ => p'.curStat = curStat % 256

/-- No call stops with a division by zero or a failed assertion, and each keeps
the invariant. -/
theorem prayerStep_right (h : PrayersRight configs p) (less : Nat → Nat → Int)
    (call : PrayerCall) :
    ∃ p', prayerStep configs less p call = .ok p' ∧ PrayersRight configs p' ∧
      PointsRight less p p' call := by
  cases call with
  | enable prayer => exact h.enable prayer
  | disable prayer => exact ⟨_, rfl, h.disable prayer⟩
  | reset =>
      obtain ⟨hright, -, -, hcur⟩ := h.reset
      exact ⟨_, rfl, hright, hcur⟩
  | drain => exact h.drain_call less
  | levels curStat baseStat bonusPrayer =>
      exact ⟨_, rfl, h.congr rfl rfl (Nat.mod_lt _ (by decide)), rfl⟩

theorem prayersRight_run {tr : List (PrayingPlayer × PrayerCall)}
    (hrun : Run Unpraying (prayerStep configs less) tr p) : PrayersRight configs p := by
  refine hrun.always (fun p h => h.right) fun p call p' h hp' => ?_
  obtain ⟨p'', hp'', hright, -⟩ := prayerStep_right h less call
  exact Except.ok.inj (hp''.symm.trans hp') ▸ hright

/-- In every state of every run the drain is the sum over the active prayers,
at most one of each group, and nothing wraps; and every call from there goes
through, takes no points that are not there, turns all prayers off with the
last one, and turns none on without any. -/
theorem prayer_state_sound {tr : List (PrayingPlayer × PrayerCall)}
    (hrun : Run Unpraying (prayerStep configs less) tr p) :
    Exclusive p.prayers ∧ p.prayerDrain = drainSum configs p.prayers Prayer.all ∧
      drainSum configs p.prayers Prayer.all < 65536 ∧
      ∀ call, ∃ p', prayerStep configs less p call = .ok p' ∧ PointsRight less p p' call := by
  have hright := prayersRight_run hrun
  refine ⟨hright.exclusive, hright.drain, drainSum_fits _ _, fun call => ?_⟩
  obtain ⟨p', hp', -, hpoints⟩ := prayerStep_right hright less call
  exact ⟨p', hp', hpoints⟩

/-- Two skins one after the other, a drain and the second one off. -/
theorem prayer_state_sound_skins : ∃ tr p,
    exec (prayerStep [{ level := 1, drain := 15 }, { level := 4, drain := 15 },
        { level := 7, drain := 15 }, { level := 10, drain := 30 }] fun drain _ => drain)
      { curStat := 20, baseStat := 20 } [.enable 0, .enable 3, .drain, .disable 3] =
        .ok (tr, p) ∧ Exclusive p.prayers := by
  have hrun : Run Unpraying (prayerStep [{ level := 1, drain := 15 }, { level := 4, drain := 15 },
      { level := 7, drain := 15 }, { level := 10, drain := 30 }] fun drain _ => drain) _ _ :=
    Run.of_exec [.enable 0, .enable 3, .drain, .disable 3]
      (⟨rfl, rfl, by decide⟩ : Unpraying { curStat := 20, baseStat := 20 }) rfl
  exact ⟨_, _, rfl, (prayer_state_sound hrun).1⟩

end

end Sundae.Proofs
