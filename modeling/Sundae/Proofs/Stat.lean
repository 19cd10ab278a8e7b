import Mathlib.Algebra.Ring.Int.Defs
import Sundae.Lib.Run
import Sundae.Ref.Stat

/-!
# Skills

Healing is an addition that is cut back afterwards, and the addition stops at
the base level with the gain on top of it, not at the level the skill has. A
level that is boosted by more than the gain comes out of it lower than it went
in, and a gain that does not fit eight bits comes out of it as anything.
`skills_kept_iff` says for which levels and gains the three functions do what
they are for.

Experience is in order: whatever is gained adds up, until the cap.
-/

namespace Sundae.Proofs

open Sundae.Ref Sundae.Lib

variable {m s s' : Stats} {stat k : Fin maxSkillId}

/-! ## Stats -/

@[simp] theorem setCur_self {level : UInt8} : (m.setCur stat level).curStats stat = level :=
  Function.update_self ..

@[simp] theorem setCur_base {level : UInt8} : (m.setCur stat level).baseStats = m.baseStats := rfl

@[simp] theorem setCur_experience {level : UInt8} :
    (m.setCur stat level).experience = m.experience := rfl

@[simp] theorem setBase_self {level : UInt8} : (m.setBase stat level).baseStats stat = level :=
  Function.update_self ..

@[simp] theorem setBase_experience {level : UInt8} :
    (m.setBase stat level).experience = m.experience := rfl

@[simp] theorem setExperience_self {xp : UInt32} :
    (m.setExperience stat xp).experience stat = xp := Function.update_self ..

@[simp] theorem setExperience_base {xp : UInt32} :
    (m.setExperience stat xp).baseStats = m.baseStats := rfl

theorem setCur_setCur {a b : UInt8} : (m.setCur stat a).setCur stat b = m.setCur stat b := by
  simp [Stats.setCur]

theorem setCur_inj {a b : UInt8} : m.setCur stat a = m.setCur stat b ↔ a = b := by
  constructor
  · intro h
    have hcur := congrArg (fun m : Stats => m.curStats stat) h
    simpa using hcur
  · exact fun h => by rw [h]

theorem wrap32_of_lt {n : Int} (hlow : -2147483648 ≤ n) (hhigh : n < 2147483648) :
    wrap32 n = n := by
  unfold wrap32
  rw [Int.bmod_eq_of_le (by omega) (by omega)]

theorem toNat_storeLevel {n : Int} (h : 0 ≤ n) (hn : n < 256) :
    ((storeLevel n).toNat : Int) = n := by
  unfold storeLevel
  have hmod : n % 2 ^ 16 = n := Int.emod_eq_of_lt h (by omega)
  rw [hmod, UInt8.toNat_ofNat_of_lt' (by show n.toNat < 256; omega)]
  omega

/-! ## Levels -/

/-- The levels a call gives, percentages cut off. -/
def levelGain (base : UInt8) (constant percent : Nat) : Nat :=
  constant + base.toNat * percent / 100

/-- What the three functions do to the level of a skill, and to no other: it
goes up by the gain, no further than the base level does, or down by it, no
further than zero, or up by it to the base level and never down. -/
structure SkillKept (m : Stats) (stat : Fin maxSkillId) (constant percent : Nat) : Prop where
  added : ∃ level : UInt8, statAdd m stat constant percent = .ok (m.setCur stat level) ∧
    level.toNat = min (m.curStats stat).toNat (m.baseStats stat).toNat +
      levelGain (m.baseStats stat) constant percent
  removed : ∃ level : UInt8, statRemove m stat constant percent = .ok (m.setCur stat level) ∧
    level.toNat = (m.curStats stat).toNat - levelGain (m.baseStats stat) constant percent
  healed : ∃ level : UInt8, statHeal m stat constant percent = .ok (m.setCur stat level) ∧
    level.toNat = max (m.curStats stat).toNat (min (m.baseStats stat).toNat
      ((m.curStats stat).toNat + levelGain (m.baseStats stat) constant percent))

/-- The gain fits eight bits with the level, and makes up for a boost. -/
def GainFits (m : Stats) (stat : Fin maxSkillId) (constant percent : Nat) : Prop :=
  min (m.curStats stat).toNat (m.baseStats stat).toNat +
      levelGain (m.baseStats stat) constant percent < 256 ∧
    (m.curStats stat).toNat ≤ (m.baseStats stat).toNat +
      levelGain (m.baseStats stat) constant percent

theorem percentOfBase_eq {base : UInt8} {percent : Nat} (h : base.toNat * percent / 100 < 256) :
    percentOfBase base percent = .ok ((base.toNat * percent / 100 : Nat) : Int) := by
  have hp : ((base.toNat : Int) * percent).tdiv 100 =
      ((base.toNat * percent / 100 : Nat) : Int) := by
    rw [← Int.natCast_mul, Int.tdiv_eq_ediv_of_nonneg (Int.natCast_nonneg _)]
    rfl
  unfold percentOfBase
  rw [hp]
  exact if_pos (by omega)

section

variable {constant percent : Nat}

theorem percent_lt {base : UInt8} (hgain : levelGain base constant percent < 256) :
    base.toNat * percent / 100 < 256 := Nat.lt_of_le_of_lt (Nat.le_add_left _ _) hgain

theorem wrap32_sum {n : Nat} {base : UInt8} (hn : n < 256)
    (hgain : levelGain base constant percent < 256) :
    wrap32 (wrap32 (n + constant) + (base.toNat * percent / 100 : Nat)) =
      n + levelGain base constant percent := by
  unfold levelGain at hgain ⊢
  rw [wrap32_of_lt (n := (n : Int) + constant) (by omega) (by omega),
    wrap32_of_lt (by omega) (by omega)]
  omega

theorem wrap32_difference {n : Nat} {base : UInt8} (hn : n < 256)
    (hgain : levelGain base constant percent < 256) :
    wrap32 (wrap32 (n - constant) - (base.toNat * percent / 100 : Nat)) =
      n - levelGain base constant percent := by
  unfold levelGain at hgain ⊢
  rw [wrap32_of_lt (n := (n : Int) - constant) (by omega) (by omega),
    wrap32_of_lt (by omega) (by omega)]
  omega

theorem statAdd_eq (hgain : levelGain (m.baseStats stat) constant percent < 256) :
    statAdd m stat constant percent = .ok (m.setCur stat (storeLevel
      ((min (m.curStats stat).toNat (m.baseStats stat).toNat +
        levelGain (m.baseStats stat) constant percent : Nat) : Int))) := by
  have hcur := UInt8.toNat_lt (m.curStats stat)
  have hbase := UInt8.toNat_lt (m.baseStats stat)
  have hp := percent_lt hgain
  have hleast : ∀ n b g : Nat, (if (b : Int) + g < (n : Int) + g then (b : Int) + g else n + g) =
      ((min n b + g : Nat) : Int) := by
    intro n b g
    split <;> omega
  rw [statAdd, percentOfBase_eq hp]
  dsimp only
  rw [wrap32_sum hcur hgain, wrap32_sum hbase hgain, hleast]

theorem statRemove_eq (hgain : levelGain (m.baseStats stat) constant percent < 256) :
    statRemove m stat constant percent = .ok (m.setCur stat (storeLevel
      (((m.curStats stat).toNat - levelGain (m.baseStats stat) constant percent : Nat) : Int))) := by
  have hcur := UInt8.toNat_lt (m.curStats stat)
  have hp := percent_lt hgain
  have hfloor : ∀ n g : Nat, (if (n : Int) - g < 0 then 0 else (n : Int) - g) =
      ((n - g : Nat) : Int) := by
    intro n g
    split <;> omega
  rw [statRemove, percentOfBase_eq hp]
  dsimp only
  rw [wrap32_difference hcur hgain, hfloor]

/-- Healing, where the addition does not wrap: the level of the addition, or the
larger of the two levels if that is less. -/
theorem statHeal_eq (hfits : min (m.curStats stat).toNat (m.baseStats stat).toNat +
      levelGain (m.baseStats stat) constant percent < 256) :
    ∃ level : UInt8, statHeal m stat constant percent = .ok (m.setCur stat level) ∧
      level.toNat = min (max (m.curStats stat).toNat (m.baseStats stat).toNat)
        (min (m.curStats stat).toNat (m.baseStats stat).toNat +
          levelGain (m.baseStats stat) constant percent) := by
  have hadd : statAdd m stat constant percent = _ := statAdd_eq (by omega)
  have hstored := toNat_storeLevel (n := ((min (m.curStats stat).toNat (m.baseStats stat).toNat +
    levelGain (m.baseStats stat) constant percent : Nat) : Int)) (by omega) (by omega)
  have hmax : (if m.baseStats stat < m.curStats stat then m.curStats stat
      else m.baseStats stat).toNat = max (m.curStats stat).toNat (m.baseStats stat).toNat := by
    split
    · next h =>
      have hlt := UInt8.lt_iff_toNat_lt.1 h
      omega
    · next h =>
      have hle := mt UInt8.lt_iff_toNat_lt.2 h
      omega
  rw [statHeal, hadd]
  dsimp only
  generalize (if m.baseStats stat < m.curStats stat then m.curStats stat
    else m.baseStats stat) = most at hmax
  rw [setCur_self]
  by_cases hcut : most < storeLevel ((min (m.curStats stat).toNat (m.baseStats stat).toNat +
      levelGain (m.baseStats stat) constant percent : Nat) : Int)
  · have hlt := UInt8.lt_iff_toNat_lt.1 hcut
    rw [if_pos hcut, setCur_setCur]
    exact ⟨most, rfl, by omega⟩
  · have hle := mt UInt8.lt_iff_toNat_lt.2 hcut
    rw [if_neg hcut]
    exact ⟨_, rfl, by omega⟩

/-- A skill is healed, boosted and drained as it should be if and only if the
lower of its levels fits eight bits with the gain, and the base level with the
gain is no less than the level it has. -/
theorem skill_kept_iff (m : Stats) (stat : Fin maxSkillId) (constant percent : Nat) :
    SkillKept m stat constant percent ↔ GainFits m stat constant percent := by
  have hlt : ∀ level : UInt8, level.toNat < 256 := UInt8.toNat_lt
  constructor
  · intro h
    obtain ⟨added, -, hadded⟩ := h.added
    have hfits := hlt added
    obtain ⟨level, hheal, hlevel⟩ := h.healed
    obtain ⟨level', hheal', hlevel'⟩ := statHeal_eq (hadded ▸ hfits)
    obtain rfl := setCur_inj.1 (Except.ok.inj (hheal.symm.trans hheal'))
    refine ⟨by omega, ?_⟩
    omega
  · rintro ⟨hfits, hmakesUp⟩
    have hgain : levelGain (m.baseStats stat) constant percent < 256 := by omega
    obtain ⟨level, hheal, hlevel⟩ := statHeal_eq hfits
    refine ⟨⟨_, statAdd_eq hgain, ?_⟩, ⟨_, statRemove_eq hgain, ?_⟩, ⟨level, hheal, ?_⟩⟩
    · have hstored := toNat_storeLevel (n := ((min (m.curStats stat).toNat
        (m.baseStats stat).toNat + levelGain (m.baseStats stat) constant percent : Nat) : Int))
        (by omega) (by omega)
      omega
    · have hcur := hlt (m.curStats stat)
      have hstored := toNat_storeLevel (n := (((m.curStats stat).toNat -
        levelGain (m.baseStats stat) constant percent : Nat) : Int)) (by omega) (by omega)
      omega
    · omega

end

/-- A level of 109 over a base level of 99. -/
def boosted : Stats where
  curStats := fun _ => 109
  baseStats := fun _ => 99
  experience := fun _ => 0

/-- Healed by one it is 100. -/
theorem boost_healed_away :
    ¬ ∀ (m : Stats) (stat : Fin maxSkillId) (constant percent : Nat),
      SkillKept m stat constant percent := by
  intro hall
  obtain ⟨level, hheal, hlevel⟩ := (hall boosted skillHits 1 0).healed
  have hfits : min (boosted.curStats skillHits).toNat (boosted.baseStats skillHits).toNat +
      levelGain (boosted.baseStats skillHits) 1 0 < 256 := by decide
  obtain ⟨level', hheal', hlevel'⟩ := statHeal_eq hfits
  obtain rfl := setCur_inj.1 (Except.ok.inj (hheal.symm.trans hheal'))
  rw [hlevel] at hlevel'
  exact absurd hlevel' (by decide)

/-! ## Experience -/

theorem xpToLevelLoop_mono {xp xp' : Nat} (h : xp ≤ xp') (entries : List Nat) {i level level' : Nat}
    (hlevel : level ≤ level') (hi : level' ≤ i + 1) :
    xpToLevelLoop xp entries i level ≤ xpToLevelLoop xp' entries i level' := by
  induction entries generalizing i level level' with
  | nil => exact hlevel
  | cons entry rest ih =>
      have hgrow : ∀ rest i level, level ≤ i + 1 → level ≤ xpToLevelLoop xp' rest i level := by
        intro rest
        induction rest with
        | nil => exact fun _ _ _ => Nat.le_refl _
        | cons entry rest ih =>
            intro i level hi
            rw [xpToLevelLoop]
            split
            · exact Nat.le_refl _
            · have hnext := ih (i + 1) (i + 2) (by omega)
              omega
      rw [xpToLevelLoop, xpToLevelLoop]
      split
      · split
        · exact hlevel
        · have hnext := hgrow rest (i + 1) (i + 2) (by omega)
          omega
      · next hpast =>
        rw [if_neg (by omega)]
        exact ih (Nat.le_refl _) (by omega)

/-- More experience is no lower level, whatever the table. -/
theorem xpToLevel_mono (t : XpTable) {xp xp' : Nat} (h : xp ≤ xp') :
    xpToLevel t xp ≤ xpToLevel t xp' := by
  have hloop := xpToLevelLoop_mono h t.entries (i := 0) (Nat.le_refl 1) (Nat.le_refl 1)
  unfold xpToLevel
  dsimp only
  split <;> split <;> omega

theorem xpToLevel_le (t : XpTable) (xp : Nat) : xpToLevel t xp ≤ maxSkillLevel := by
  unfold xpToLevel
  dsimp only
  split <;> omega

/-- The base level is the one that the experience gives. -/
structure SkillSound (t : XpTable) (stat : Fin maxSkillId) (s : Stats) : Prop where
  level : (s.baseStats stat).toNat = xpToLevel t (s.experience stat).toNat
  experience : ((s.experience stat).toNat : Int) ≤ maxExperience

/-- `(base_xp + proportion_xp * level) * xp_multiplier`, as a number. -/
def gainOf (xpMultiplier : Int) (s : Stats) (e : Advance) : Int :=
  (e.baseXp + e.proportionXp * (s.baseStats e.stat).toNat) * xpMultiplier

/-- The gain of a call is not negative, and an `int`. -/
def GainIsInt (xpMultiplier : Int) (s : Stats) (e : Advance) : Prop :=
  0 ≤ gainOf xpMultiplier s e ∧ gainOf xpMultiplier s e ≤ maxExperience

/-- Sums and products that wrap come out right if the result fits. -/
theorem experienceGain_eq {xpMultiplier : Int} {e : Advance}
    (h : GainIsInt xpMultiplier s e) :
    experienceGain xpMultiplier e.baseXp e.proportionXp (s.baseStats e.stat) =
      gainOf xpMultiplier s e := by
  obtain ⟨hlow, hhigh⟩ := h
  have hwrap : experienceGain xpMultiplier e.baseXp e.proportionXp (s.baseStats e.stat) =
      wrap32 (gainOf xpMultiplier s e) := by
    simp only [experienceGain, gainOf, wrap32, Int.bmod_mul_bmod, Int.add_bmod_bmod]
  rw [hwrap]
  unfold maxExperience at hhigh
  exact wrap32_of_lt (by omega) (by omega)

/-- What a call leaves in the skill it is for. -/
theorem statAdvance_self {t : XpTable} {xpMultiplier : Int} {e : Advance}
    (hs : SkillSound t e.stat s) (hgain : GainIsInt xpMultiplier s e)
    (h : advanceStep t xpMultiplier s e = .ok s') :
    SkillSound t e.stat s' ∧ (s.baseStats e.stat).toNat ≤ (s'.baseStats e.stat).toNat ∧
      ((s'.experience e.stat).toNat : Int) =
        min maxExperience ((s.experience e.stat).toNat + gainOf xpMultiplier s e) := by
  obtain rfl := Except.ok.inj h
  have hlevel := hs.level
  have hxp := hs.experience
  have hinc := experienceGain_eq hgain
  obtain ⟨hlow, hhigh⟩ := hgain
  unfold maxExperience at hxp hhigh
  rw [statAdvance, hinc]
  generalize gainOf xpMultiplier s e = gain at hlow hhigh
  generalize hold : (s.experience e.stat).toNat = old at hxp hlevel
  have hcur : wrap32 (old : Int) = old := wrap32_of_lt (by omega) (by omega)
  have hroom : wrap32 (maxExperience - old) = maxExperience - old := by
    unfold maxExperience
    exact wrap32_of_lt (by omega) (by omega)
  have hsum : (if gain < wrap32 (maxExperience - wrap32 old) then wrap32 (wrap32 old + gain)
      else maxExperience) = min maxExperience (old + gain) := by
    rw [hcur, hroom]
    unfold maxExperience
    split
    · rw [wrap32_of_lt (by omega) (by omega)]
      omega
    · omega
  have hnew : ((UInt32.ofNat (min maxExperience (old + gain) % 2 ^ 32).toNat).toNat : Int) =
      min maxExperience (old + gain) := by
    unfold maxExperience
    rw [UInt32.toNat_ofNat_of_lt' (by show _ < 4294967296; omega)]
    omega
  rw [hsum]
  generalize UInt32.ofNat (min maxExperience (old + gain) % 2 ^ 32).toNat = xp at hnew
  have hmono : xpToLevel t old ≤ xpToLevel t xp.toNat :=
    xpToLevel_mono t (by unfold maxExperience at hnew; omega)
  have hle := xpToLevel_le t xp.toNat
  have hbyte : (UInt8.ofNat (xpToLevel t xp.toNat)).toNat = xpToLevel t xp.toNat :=
    UInt8.toNat_ofNat_of_lt' (by unfold maxSkillLevel at hle; show _ < 256; omega)
  have hcap : (xp.toNat : Int) ≤ maxExperience := by omega
  simp only [setExperience_self, setExperience_base]
  split
  · refine ⟨⟨?_, ?_⟩, ?_, ?_⟩
    · simp [hbyte]
    · simpa using hcap
    · simp [hbyte]
      omega
    · simpa using hnew
  · refine ⟨⟨?_, ?_⟩, ?_, ?_⟩
    · rw [setExperience_base, setExperience_self]
      omega
    · simpa using hcap
    · exact Nat.le_refl _
    · simpa using hnew

/-- A call for another skill leaves this one alone. -/
theorem statAdvance_other {t : XpTable} {xpMultiplier : Int} {e : Advance} (hk : e.stat ≠ k)
    (h : advanceStep t xpMultiplier s e = .ok s') :
    s'.baseStats k = s.baseStats k ∧ s'.experience k = s.experience k := by
  obtain rfl := Except.ok.inj h
  rw [statAdvance]
  generalize UInt32.ofNat _ = xp
  split
  · exact ⟨Function.update_of_ne (Ne.symm hk) .., Function.update_of_ne (Ne.symm hk) ..⟩
  · exact ⟨rfl, Function.update_of_ne (Ne.symm hk) ..⟩

/-- What the calls of a run for one skill gain, together. -/
def gained (xpMultiplier : Int) (stat : Fin maxSkillId) (tr : List (Stats × Advance)) : Int :=
  ((tr.filter fun x => x.2.stat = stat).map fun x => gainOf xpMultiplier x.1 x.2).sum

theorem gained_concat (xpMultiplier : Int) (stat : Fin maxSkillId) (tr : List (Stats × Advance))
    (x : Stats × Advance) :
    gained xpMultiplier stat (tr ++ [x]) = gained xpMultiplier stat tr +
      if x.2.stat = stat then gainOf xpMultiplier x.1 x.2 else 0 := by
  unfold gained
  by_cases hx : x.2.stat = stat
  · simp [hx]
  · simp [hx]

theorem skillSound_step {t : XpTable} {xpMultiplier : Int} {e : Advance}
    (hs : SkillSound t stat s) (hgain : e.stat = stat → GainIsInt xpMultiplier s e)
    (h : advanceStep t xpMultiplier s e = .ok s') :
    SkillSound t stat s' ∧ (s.baseStats stat).toNat ≤ (s'.baseStats stat).toNat ∧
      ((s'.experience stat).toNat : Int) = min maxExperience ((s.experience stat).toNat +
        if e.stat = stat then gainOf xpMultiplier s e else 0) := by
  by_cases he : e.stat = stat
  · subst he
    rw [if_pos rfl]
    exact statAdvance_self hs (hgain rfl) h
  · obtain ⟨hbase, hxp⟩ := statAdvance_other he h
    have hcap := hs.experience
    refine ⟨⟨by rw [hbase, hxp]; exact hs.level, by rw [hxp]; exact hcap⟩,
      by rw [hbase], ?_⟩
    rw [hxp, if_neg he]
    omega

theorem skillSound_run {t : XpTable} {xpMultiplier : Int} {start : Stats}
    {tr : List (Stats × Advance)} (hrun : Run (· = start) (advanceStep t xpMultiplier) tr s)
    (hstart : SkillSound t stat start)
    (hgains : ∀ x ∈ tr, x.2.stat = stat → GainIsInt xpMultiplier x.1 x.2) :
    SkillSound t stat s := by
  refine hrun.invariant (I := SkillSound t stat)
    (C := fun s e => e.stat = stat → GainIsInt xpMultiplier s e) ?_ ?_ hgains
  · rintro _ rfl
    exact hstart
  · exact fun _ _ _ hs hgain h => (skillSound_step hs hgain h).1

/-- However often a skill is advanced, its experience never falls and never
exceeds the cap, its level is the one of its experience, and what it has gained
is the sum of the gains, until the cap. -/
theorem experience_adds_up (t : XpTable) (xpMultiplier : Int) {start : Stats}
    {tr : List (Stats × Advance)} (hrun : Run (· = start) (advanceStep t xpMultiplier) tr s)
    (hstart : SkillSound t stat start)
    (hgains : ∀ x ∈ tr, x.2.stat = stat → GainIsInt xpMultiplier x.1 x.2) :
    (∀ c ∈ statesOf tr s, SkillSound t stat c ∧ (c.baseStats stat).toNat ≤ maxSkillLevel) ∧
    (∀ x ∈ tr, ∀ c, advanceStep t xpMultiplier x.1 x.2 = .ok c →
      (x.1.experience stat).toNat ≤ (c.experience stat).toNat ∧
        (x.1.baseStats stat).toNat ≤ (c.baseStats stat).toNat) ∧
    ((s.experience stat).toNat : Int) =
      min maxExperience ((start.experience stat).toNat + gained xpMultiplier stat tr) := by
  have hsound : ∀ c ∈ statesOf tr s, SkillSound t stat c := by
    intro c hc
    obtain ⟨tr', hpre, hrun'⟩ := hrun.reaches hc
    exact skillSound_run hrun' hstart fun x hx => hgains x (hpre.subset hx)
  refine ⟨fun c hc => ⟨hsound c hc, ?_⟩, fun x hx c hc => ?_, ?_⟩
  · rw [(hsound c hc).level]
    exact xpToLevel_le t _
  · have hs := hsound x.1 (mem_statesOf.2 (.inl ⟨x.2, hx⟩))
    obtain ⟨-, hbase, hxp⟩ := skillSound_step hs (hgains x hx) hc
    have hcap := hs.experience
    refine ⟨?_, hbase⟩
    by_cases he : x.2.stat = stat
    · have hpos := (hgains x hx he).1
      rw [if_pos he] at hxp
      omega
    · rw [if_neg he] at hxp
      omega
  · clear hsound
    induction hrun with
    | start hs =>
        subst hs
        have hcap := hstart.experience
        show _ = min maxExperience (_ + (0 : Int))
        omega
    | @step tr s s' e hrun hs ih =>
        have hpre : ∀ x ∈ tr, x.2.stat = stat → GainIsInt xpMultiplier x.1 x.2 :=
          fun x hx => hgains x (List.mem_append_left _ hx)
        have hlast := hgains (s, e) (List.mem_append_right _ (List.mem_singleton_self _))
        obtain ⟨-, -, hxp⟩ := skillSound_step (skillSound_run hrun hstart hpre) hlast hs
        have hold := ih hpre
        rw [hxp, gained_concat, hold]
        dsimp only
        by_cases he : e.stat = stat
        · have hpos : 0 ≤ gainOf xpMultiplier s e := (hlast he).1
          rw [if_pos he]
          omega
        · rw [if_neg he]
          omega

/-- A table in which every level takes the same experience. -/
def flatTable : XpTable := ⟨List.replicate maxSkillLevel 100, List.length_replicate⟩

/-- Everything at level 1. -/
def novice : Stats where
  curStats := fun _ => 1
  baseStats := fun _ => 1
  experience := fun _ => 0

theorem experience_adds_up_novice : ∃ tr s,
    exec (advanceStep flatTable 2) novice [⟨skillHits, 40, 5⟩, ⟨skillHits, 10, 1⟩] = .ok (tr, s) ∧
      SkillSound flatTable skillHits s ∧ ((s.experience skillHits).toNat : Int) =
        min maxExperience ((novice.experience skillHits).toNat + gained 2 skillHits tr) := by
  have hrun : Run (· = novice) (advanceStep flatTable 2) _ _ :=
    Run.of_exec [⟨skillHits, 40, 5⟩, ⟨skillHits, 10, 1⟩] rfl rfl
  have hstart : SkillSound flatTable skillHits novice := ⟨by decide, by decide⟩
  obtain ⟨hsound, -, hsum⟩ := experience_adds_up flatTable 2 hrun hstart (by
    intro x hx _
    rcases List.mem_cons.1 hx with rfl | hx
    · exact ⟨by decide, by decide⟩
    · obtain rfl := List.mem_singleton.1 hx
      exact ⟨by decide, by decide⟩)
  exact ⟨_, _, rfl, (hsound _ (mem_statesOf.2 (.inr rfl))).1, hsum⟩

end Sundae.Proofs
