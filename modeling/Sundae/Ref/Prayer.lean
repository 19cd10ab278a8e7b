/-!
# Prayers

`player_prayer_enable`, `player_prayer_disable`, `player_reset_prayers` and
`player_prayer_drain` of `player.c`, with the fields of `struct player` they
read and write. What is left of the drain after the prayer bonus is computed
with doubles; `less` stands for the `int` that comes out of it.
-/

namespace Sundae.Ref

/-- `enum prayer` -/
inductive Prayer where
  | thickSkin
  | burstOfStrength
  | clarityOfThought
  | rockSkin
  | superhumanStrength
  | improvedReflexes
  | rapidRestore
  | rapidHeal
  | protectItem
  | steelSkin
  | ultimateStrength
  | incredibleReflexes
  | paralyzeMonster
  | protectFromMissiles
  deriving DecidableEq, Repr

def maxPrayers : Nat := 14

namespace Prayer

/-- In the order of their numbers. -/
def all : List Prayer :=
  [thickSkin, burstOfStrength, clarityOfThought, rockSkin, superhumanStrength,
    improvedReflexes, rapidRestore, rapidHeal, protectItem, steelSkin, ultimateStrength,
    incredibleReflexes, paralyzeMonster, protectFromMissiles]

/-- The number of a prayer. -/
def id (q : Prayer) : Nat := all.idxOf q

/-- The prayer of a number: a place of `p->prayers`. -/
def ofId (prayer : Int) : Option Prayer := all.find? fun q => (q.id : Int) = prayer

/-- The prayers that raise a stat, by the stat. -/
def statGroups : List (List Prayer) :=
  [[thickSkin, rockSkin, steelSkin],
    [burstOfStrength, superhumanStrength, ultimateStrength],
    [clarityOfThought, improvedReflexes, incredibleReflexes]]

/-- What the `switch` turns off. -/
def overlapping : Prayer → List Prayer
  | thickSkin | rockSkin | steelSkin => [thickSkin, rockSkin, steelSkin]
  | burstOfStrength | superhumanStrength | ultimateStrength =>
    [burstOfStrength, superhumanStrength, ultimateStrength]
  | clarityOfThought | improvedReflexes | incredibleReflexes =>
    [clarityOfThought, improvedReflexes, incredibleReflexes]
  | rapidRestore | rapidHeal | protectItem | paralyzeMonster | protectFromMissiles => []

end Prayer

/-- `struct prayer_config`, where both are a `uint8_t`. -/
structure PrayerConfig where
  level : Nat
  drain : Nat
  level_lt : level < 256 := by decide
  drain_lt : drain < 256 := by decide
  deriving DecidableEq, Repr

inductive PrayerFault where
  /-- `assert(config != NULL)` -/
  | assert
  /-- `p->prayers[prayer]` is written outside the array. -/
  | outside
  | divideByZero
  deriving DecidableEq, Repr

/-- What is sent to the client at once. -/
inductive PrayerPacket where
  | message (text : String)
  /-- `player_send_stat` -/
  | stat
  deriving DecidableEq, Repr

/-- The part of `struct player`, with `curStat` and `baseStat` the prayer
entries of the two tables. -/
structure PrayingPlayer where
  curStat : Nat := 1
  baseStat : Nat := 1
  bonusPrayer : Nat := 1
  prayers : Prayer → Bool := fun _ => false
  prayerDrain : Nat := 0
  nextDrain : Nat := 0
  drainCounter : Nat := 0
  prayersChanged : Bool := false
  sent : List PrayerPacket := []

section

variable (configs : List PrayerConfig)

def serverPrayerConfigById (id : Int) : Option PrayerConfig :=
  if id < 0 ∨ (configs.length : Int) ≤ id then none else configs[id.toNat]?

/-- `p->prayer_drain += config->drain` for each active prayer. -/
def sumDrains (prayers : Prayer → Bool) : List Prayer → Nat → Except PrayerFault Nat
  | [], drain => .ok drain
  | q :: rest, drain =>
    if prayers q then
      match serverPrayerConfigById configs q.id with
      | none => .error .assert
      | some config => sumDrains prayers rest ((drain + config.drain) % 65536)
    else sumDrains prayers rest drain

/-- The `switch`, and `p->prayers[prayer] = true`. -/
def turnOn (prayers : Prayer → Bool) (q r : Prayer) : Bool :=
  if r = q then true else if r ∈ q.overlapping then false else prayers r

/-- `p->prayers[prayer] = false` -/
def turnOff (prayers : Prayer → Bool) (q r : Prayer) : Bool :=
  if r = q then false else prayers r

def playerPrayerEnable (p : PrayingPlayer) (prayer : Int) : Except PrayerFault PrayingPlayer :=
  if p.curStat = 0 ∨ (maxPrayers : Int) ≤ prayer then .ok p
  else
    match serverPrayerConfigById configs prayer with
    | none => .ok p
    | some config =>
      if p.baseStat < config.level then .ok p
      else
        match Prayer.ofId prayer with
        | none => .error .outside
        | some q =>
          match sumDrains configs (turnOn p.prayers q) Prayer.all 0 with
          | .error e => .error e
          | .ok drain =>
            .ok { p with
              prayers := turnOn p.prayers q
              prayerDrain := drain
              nextDrain := 0
              drainCounter := 0
              prayersChanged := true }

def playerResetPrayers (p : PrayingPlayer) : PrayingPlayer :=
  if Prayer.all.any p.prayers then
    { p with
      prayers := fun _ => false
      nextDrain := 0
      drainCounter := 0
      prayerDrain := 0
      prayersChanged := true }
  else p

/-- A negative number makes the source look in front of the array; its one caller has
a byte to give. As no config has that number, nothing is written either way. -/
def playerPrayerDisable (p : PrayingPlayer) (prayer : Int) : PrayingPlayer :=
  if (maxPrayers : Int) ≤ prayer then p
  else
    match Prayer.ofId prayer with
    | none => p
    | some q =>
      if p.prayers q then
        match serverPrayerConfigById configs prayer with
        | none => p
        | some config =>
          { p with
            nextDrain := 0
            drainCounter := 0
            prayerDrain := (p.prayerDrain + 65536 - config.drain) % 65536
            prayers := turnOff p.prayers q
            prayersChanged := true }
      else p

end

/-- `amount` -/
def drainAmount (drain : Int) : Int := if 60 ≤ drain then drain / 60 else 1

def divide (a b : Int) : Except PrayerFault Int :=
  if b = 0 then .error .divideByZero else .ok (a / b)

/-- The points of `player_prayer_drain` once they are due. -/
def takePoints (p : PrayingPlayer) (amount : Int) : PrayingPlayer :=
  if (p.curStat : Int) ≤ amount then
    playerResetPrayers { p with
      sent := p.sent ++ [PrayerPacket.message
        "You have run out of prayer points. Return to a church to recharge"]
      curStat := 0 }
  else { p with curStat := ((p.curStat - amount) % 256).toNat }

def playerPrayerDrain (less : Nat → Nat → Int) (p : PrayingPlayer) :
    Except PrayerFault PrayingPlayer :=
  let drain := less p.prayerDrain p.bonusPrayer
  if drain ≤ 0 then .ok p
  else
    let counter := p.drainCounter
    let p := { p with drainCounter := counter + 1 }
    if counter < p.nextDrain then .ok p
    else
      let p := takePoints p (drainAmount drain)
      let p := { p with sent := p.sent ++ [PrayerPacket.stat], drainCounter := 0 }
      if drain < 60 then
        match divide 60 drain with
        | .error e => .error e
        | .ok next => .ok { p with nextDrain := next.toNat }
      else .ok { p with nextDrain := 0 }

/-- A call of one of the four, or a change of the levels and the bonus, which
food, scripts and equipment make. -/
inductive PrayerCall where
  | enable (prayer : Int)
  | disable (prayer : Int)
  | reset
  | drain
  | levels (curStat baseStat bonusPrayer : Nat)
  deriving DecidableEq, Repr

def prayerStep (configs : List PrayerConfig) (less : Nat → Nat → Int) (p : PrayingPlayer) :
    PrayerCall → Except PrayerFault PrayingPlayer
  | .enable prayer => playerPrayerEnable configs p prayer
  | .disable prayer => .ok (playerPrayerDisable configs p prayer)
  | .reset => .ok (playerResetPrayers p)
  | .drain => playerPrayerDrain less p
  | .levels curStat baseStat bonusPrayer =>
    .ok { p with
      curStat := curStat % 256
      baseStat := baseStat % 256
      bonusPrayer := bonusPrayer % 256 }

end Sundae.Ref
