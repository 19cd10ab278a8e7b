import Mathlib.Algebra.Group.Int.Defs
import Mathlib.Algebra.Group.Nat.Defs
import Mathlib.Logic.Function.Basic

/-!
# Skills

`stat.c`: what scripts and fights do to levels and to experience. The levels
are kept in eight bits and the experience in 32 without a sign, and everything
in between is an `int`.
-/

namespace Sundae.Ref

/-- `MAX_SKILL_ID` -/
def maxSkillId : Nat := 16

/-- `SKILL_HITS` -/
def skillHits : Fin maxSkillId := ⟨3, by decide⟩

def maxSkillLevel : Nat := 99

/-- `MAX_EXPERIENCE` -/
def maxExperience : Int := 2147483647

/-- `cur_stats`, `base_stats` and `experience`. A skill is an index that the
functions assert to be below `MAX_SKILL_ID`. -/
structure Stats where
  curStats : Fin maxSkillId → UInt8
  baseStats : Fin maxSkillId → UInt8
  experience : Fin maxSkillId → UInt32

namespace Stats

def setCur (m : Stats) (stat : Fin maxSkillId) (level : UInt8) : Stats :=
  { m with curStats := Function.update m.curStats stat level }

def setBase (m : Stats) (stat : Fin maxSkillId) (level : UInt8) : Stats :=
  { m with baseStats := Function.update m.baseStats stat level }

def setExperience (m : Stats) (stat : Fin maxSkillId) (xp : UInt32) : Stats :=
  { m with experience := Function.update m.experience stat xp }

end Stats

/-- What an `int` holds of a sum, a difference or a product. -/
def wrap32 (n : Int) : Int := n.bmod (2 ^ 32)

/-- A `double` that is no `int` when it is cut off. -/
inductive StatFault where
  | conversion
  deriving DecidableEq, Repr

/-! ## Levels -/

/-- `(int)((mob->base_stats[stat] * (double)percent) / 100.0)` -/
def percentOfBase (base : UInt8) (percent : Int) : Except StatFault Int :=
  let p := ((base.toNat : Int) * percent).tdiv 100
  if -2 ^ 31 ≤ p ∧ p < 2 ^ 31 then .ok p else .error .conversion

/-- A `uint16_t` stored in a `uint8_t`. -/
def storeLevel (n : Int) : UInt8 := UInt8.ofNat (n % 2 ^ 16).toNat

def statAdd (m : Stats) (stat : Fin maxSkillId) (constant percent : Int) :
    Except StatFault Stats :=
  match percentOfBase (m.baseStats stat) percent with
  | .error a => .error a
  | .ok p =>
    let new := wrap32 (wrap32 ((m.curStats stat).toNat + constant) + p)
    let max := wrap32 (wrap32 ((m.baseStats stat).toNat + constant) + p)
    .ok (m.setCur stat (storeLevel (if max < new then max else new)))

def statRemove (m : Stats) (stat : Fin maxSkillId) (constant percent : Int) :
    Except StatFault Stats :=
  match percentOfBase (m.baseStats stat) percent with
  | .error a => .error a
  | .ok p =>
    let new := wrap32 (wrap32 ((m.curStats stat).toNat - constant) - p)
    .ok (m.setCur stat (storeLevel (if new < 0 then 0 else new)))

def statHeal (m : Stats) (stat : Fin maxSkillId) (constant percent : Int) :
    Except StatFault Stats :=
  -- in the case it's already boosted we preserve that boost
  let max := if m.baseStats stat < m.curStats stat then m.curStats stat else m.baseStats stat
  match statAdd m stat constant percent with
  | .error a => .error a
  | .ok m => .ok (if max < m.curStats stat then m.setCur stat max else m)

/-! ## Experience -/

/-- `xp_table` -/
structure XpTable where
  entries : List Nat
  length_eq : entries.length = maxSkillLevel

/-- The loop of `xp_to_level`, over what is left of the table. -/
def xpToLevelLoop (xp : Nat) : List Nat → Nat → Nat → Nat
  | [], _, level => level
  | entry :: rest, i, level => if xp < entry then level else xpToLevelLoop xp rest (i + 1) (i + 2)

def xpToLevel (t : XpTable) (xp : Nat) : Nat :=
  let level := xpToLevelLoop xp t.entries 0 1
  if maxSkillLevel < level then maxSkillLevel else level

/-- `inc` of `stat_advance` -/
def experienceGain (xpMultiplier baseXp proportionXp : Int) (level : UInt8) : Int :=
  wrap32 (wrap32 (baseXp + wrap32 (proportionXp * level.toNat)) * xpMultiplier)

def statAdvance (t : XpTable) (xpMultiplier : Int) (player : Stats) (stat : Fin maxSkillId)
    (baseXp proportionXp : Int) : Stats :=
  let cur := wrap32 (player.experience stat).toNat
  let inc := experienceGain xpMultiplier baseXp proportionXp (player.baseStats stat)
  let xp := if inc < wrap32 (maxExperience - cur) then wrap32 (cur + inc) else maxExperience
  let player := player.setExperience stat (UInt32.ofNat (xp % 2 ^ 32).toNat)
  let level := xpToLevel t (player.experience stat).toNat
  if (player.baseStats stat).toNat < level then
    (player.setCur stat (UInt8.ofNat level)).setBase stat (UInt8.ofNat level)
  else player

/-- A call of `stat_advance`. -/
structure Advance where
  stat : Fin maxSkillId
  baseXp : Int
  proportionXp : Int
  deriving DecidableEq, Repr

def advanceStep (t : XpTable) (xpMultiplier : Int) (player : Stats) (e : Advance) :
    Except StatFault Stats :=
  .ok (statAdvance t xpMultiplier player e.stat e.baseXp e.proportionXp)

end Sundae.Ref
