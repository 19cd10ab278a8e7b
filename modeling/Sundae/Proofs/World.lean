import Sundae.Lib.Run
import Sundae.Ref.Tick

/-!
# Reading the tables of mobs

What a write to one mob leaves in the tables, and the rule most of what follows
rests on: a property every mob has is kept by a write that keeps it at the mob
written to.
-/

namespace Sundae.Proofs

open Sundae.Lib Sundae.Ref.World
open Sundae.Ref (World Zone serverFindZone)

section Tables

variable (w : World) (i j k : Nat) (r s : MobRef)

@[simp] theorem mob?_player : w.mob? (.player i) = (w.players i).map Player.mob := rfl

@[simp] theorem mob?_npc : w.mob? (.npc j) = (w.npcs j).map Npc.mob := rfl

theorem players_modifyPlayer (f : Player → Player) :
    (w.modifyPlayer i f).players k = if k = i then (w.players k).map f else w.players k := rfl

theorem npcs_modifyNpc (f : Npc → Npc) :
    (w.modifyNpc j f).npcs k = if k = j then (w.npcs k).map f else w.npcs k := rfl

theorem mob?_modify (f : Mob → Mob) :
    (w.modify r f).mob? s = if s = r then (w.mob? s).map f else w.mob? s := by
  cases r with
  | player i =>
      cases s with
      | player k =>
          by_cases h : k = i
          · simp [World.modify, World.modifyPlayer, h, Function.comp_def]
          · simp [World.modify, World.modifyPlayer, h]
      | npc k => simp [World.modify, World.modifyPlayer]
  | npc j =>
      cases s with
      | player k => simp [World.modify, World.modifyNpc]
      | npc k =>
          by_cases h : k = j
          · simp [World.modify, World.modifyNpc, h, Function.comp_def]
          · simp [World.modify, World.modifyNpc, h]

/-- What a write does not touch reads the same. -/
theorem map_mob?_modify {β : Type} {v : Mob → β} {f : Mob → Mob} (hf : ∀ m, v (f m) = v m) :
    ((w.modify r f).mob? s).map v = (w.mob? s).map v := by
  rw [mob?_modify]
  split
  · rw [Option.map_map]
    congr 1
    exact funext hf
  · rfl

theorem map_mob?_modifyPlayer {β : Type} {v : Mob → β} {f : Player → Player}
    (hf : ∀ p, v (f p).mob = v p.mob) :
    ((w.modifyPlayer i f).mob? s).map v = (w.mob? s).map v := by
  cases s with
  | player k =>
      rw [mob?_player, mob?_player, players_modifyPlayer]
      split
      · simp only [Option.map_map]
        congr 1
        exact funext hf
      · rfl
  | npc k => rfl

end Tables

theorem freeSlot_free {taken : Nat → Bool} {n slot j : Nat}
    (h : freeSlot taken n slot = some j) : taken j = false := by
  induction n generalizing slot with
  | zero => cases h
  | succ n ih =>
      rw [freeSlot] at h
      split at h
      · exact ih h
      · next hfree =>
        obtain rfl := Option.some.inj h
        simpa using hfree

/-! ## Faults -/

section Faults

variable {w : World} {f : Fault}

theorem npcDamage_fault {j : Nat} {p : Option Nat} {roll : Nat} {melee : Bool}
    (h : npcDamage w j p roll melee = .error f) : f = .nullAggressor := by
  unfold npcDamage at h
  split at h
  · cases h
  · split at h
    · cases h
    · split at h
      · exact (Except.error.inj h).symm
      · cases h

theorem playerShootPvm_fault {i j : Nat} {projectile : Projectile} {c : Chance}
    (h : playerShootPvm w i projectile j c = .error f) : f = .nullAggressor := by
  unfold playerShootPvm at h
  split at h
  · cases h
  · dsimp only at h
    split at h
    · exact npcDamage_fault h
    · cases h

theorem huntAmong_fault {j : Nat} {n : Npc} {near : List Nat}
    (h : huntAmong w j n near = .error f) : f = .nullHunter := by
  induction near with
  | nil => cases h
  | cons i rest ih =>
      rw [huntAmong] at h
      split at h
      · exact ih h
      · split at h
        · exact ih h
        · split at h
          · exact ih h
          · dsimp only at h
            split at h
            · cases h
            · split at h
              · exact (Except.error.inj h).symm
              · split at h
                · exact ih h
                · cases h

theorem npcHuntTarget_fault {j : Nat} {t : NpcTurn} (h : npcHuntTarget w j t = .error f) :
    f = .nullHunter := by
  unfold npcHuntTarget at h
  split at h
  · cases h
  · split at h
    · cases h
    · split at h
      · cases h
      · exact huntAmong_fault h

theorem npcProcessMovement_fault {j : Nat} {t : NpcTurn}
    (h : npcProcessMovement w j t = .error f) :
    f = .nullHunter ∨ f = .nullOpponent ∧ ∃ n, w.npcs j = some n ∧ n.mob.inCombat = true ∧
      n.mob.targetPlayer.bind w.players = none := by
  unfold npcProcessMovement at h
  split at h
  · cases h
  · next n hn =>
    split at h
    · cases h
    · dsimp only at h
      split at h
      · next hin =>
        split at h
        · next hnone => exact .inr ⟨(Except.error.inj h).symm, n, hn, hin, hnone⟩
        · cases h
      · split at h
        · split at h
          · cases h
          · split at h
            · cases h
            · cases h
        · split at h
          · next f' hhunt =>
            obtain rfl := Except.error.inj h
            split at hhunt
            · exact .inl (npcHuntTarget_fault hhunt)
            · cases hhunt
          · cases h

theorem npcProcessCombat_fault {j : Nat} {t : NpcTurn} (h : npcProcessCombat w j t = .error f) :
    f = .opponent ∧ ∃ n i p, w.npcs j = some n ∧ n.mob.inCombat = true ∧
      n.mob.targetPlayer = some i ∧ w.players i = some p ∧ p.mob.inCombat = false := by
  unfold npcProcessCombat at h
  split at h
  · cases h
  · next n hn =>
    split at h
    · cases h
    · next i hi =>
      split at h
      · cases h
      · next p hp =>
        split at h
        · cases h
        · next hin =>
          split at h
          · next hout =>
            exact ⟨(Except.error.inj h).symm, n, i, p, hn, by simpa using hin, hi, hp,
              by simpa using hout⟩
          · dsimp only at h
            split at h
            · cases h
            · cases h

theorem playerProcessCombat_fault {i : Nat} {c : Chance}
    (h : playerProcessCombat w i c = .error f) : f = .nullAggressor ∨ f = .combatDir ∧
      ∃ p, w.players i = some p ∧ p.mob.inCombat = false ∧ p.mob.dir.combat = true := by
  unfold playerProcessCombat at h
  split at h
  · cases h
  · next p hp =>
    split at h
    · next hdir =>
      exact .inr ⟨(Except.error.inj h).symm, p, hp, by simpa using hdir.1, hdir.2⟩
    · split at h
      · split at h
        · cases h
        · unfold playerAttackNpc at h
          split at h
          · split at h
            · exact .inl (playerShootPvm_fault h)
            · dsimp only at h
              split at h
              · cases h
              · cases h
          · cases h
          · cases h
        · cases h
      · split at h
        · cases h
        · unfold playerFightNpc at h
          split at h
          · split at h
            · cases h
            · dsimp only at h
              split at h
              · cases h
              · exact .inl (npcDamage_fault h)
          · cases h
          · cases h
        · cases h

theorem runApi_fault {a : Api} (h : runApi w a = .error f) :
    f = .nullAggressor ∨ f = .nullZone := by
  cases a with
  | npcSubStat j damage => exact .inl (npcDamage_fault h)
  | shootNpc i j projectile c =>
      rw [runApi] at h
      split at h
      · exact .inl (playerShootPvm_fault h)
      · cases h
  | delNpc j =>
      rw [runApi, scriptDelnpc] at h
      split at h
      · cases h
      · split at h
        · exact .inr (Except.error.inj h).symm
        · cases h
  | _ => cases h

theorem hookReturn_fault {result : Bool} {c : Chance} (h : hookReturn w result c = .error f) :
    f = .turn := by
  unfold hookReturn at h
  split at h
  · exact (Except.error.inj h).symm
  · dsimp only at h
    split at h
    · cases h
    · cases h
    · cases h

end Faults

/-- An NPC that wanders one tile around where it spawned. -/
def chicken : NpcConfig where
  hits := 3
  respawn := 50
  bravery := 0
  aggression := 0
  wanderRange := 1
  huntRange := 0

end Sundae.Proofs
