import Sundae.Proofs.Drift

/-!
# Walk packets and the queue

A walk packet writes its tiles over the queue before it is known whether they
will be walked: not if the last of them is the tile the player is on. The queue
has its old bounds then, and what is left to walk is a mixture of the old path
and the new one. `pathSound_iff` says when it is not.
-/

namespace Sundae.Proofs

open Sundae.Lib Sundae.Ref.World
open Sundae.Ref (World Zone serverFindZone bufGetu8 bufGetu16)

variable {w w' : World} {i : Nat} {m : Mob}

/-! ## What a walk packet says -/

/-- The offsets come in pairs; an odd byte at the end is not one. -/
def pairs {α : Type} : List α → List (α × α)
  | a :: b :: rest => (a, b) :: pairs rest
  | _ => []

/-- The start tile moved by an offset. -/
def offsetTile (startX startY : Nat) (off : UInt8 × UInt8) : Nat × Nat :=
  (shifted startX off.1.toNat, shifted startY off.2.toNat)

/-- The path in a walk packet: the start tile, and the start with each offset. -/
def walkPath : List UInt8 → Option (List (Nat × Nat))
  | _ :: a :: b :: c :: d :: offsets =>
    let startX := a.toNat * 256 + b.toNat
    let startY := c.toNat * 256 + d.toNat
    some ((startX, startY) :: (pairs offsets).map (offsetTile startX startY))
  | _ => none

theorem length_pairs {α : Type} : ∀ l : List α, (pairs l).length = l.length / 2
  | [] => by simp [pairs]
  | [_] => by simp [pairs]
  | a :: b :: rest => by
      rw [pairs, List.length_cons, length_pairs rest, List.length_cons, List.length_cons]
      omega

theorem readSteps_eq (startX startY : Nat) {n : Nat} {before offsets : List UInt8}
    (hn : n ≤ offsets.length / 2) :
    readSteps ((before ++ offsets).map UInt8.toNat) startX startY n before.length =
      some (((pairs offsets).take n).map (offsetTile startX startY)) := by
  induction n generalizing before offsets with
  | zero => rfl
  | succ n ih =>
      match offsets, hn with
      | [], hn => simp at hn
      | [_], hn => simp at hn
      | u :: v :: rest, hn =>
          have hleft : n ≤ rest.length / 2 := by
            simp only [List.length_cons] at hn
            omega
          have hrest : readSteps (((before ++ [u, v]) ++ rest).map UInt8.toNat) startX startY n
              (before ++ [u, v]).length = _ := ih hleft
          have hu : (before ++ u :: v :: rest)[before.length]? = some u := by simp
          have hv : (before ++ u :: v :: rest)[before.length + 1]? = some v := by simp
          have hnext : (before ++ [u, v]).length = before.length + 2 := by simp
          rw [hnext, List.append_assoc, List.cons_append, List.cons_append, List.nil_append] at hrest
          unfold readSteps bufGetu8
          rw [List.getElem?_map, List.getElem?_map, hu, hv]
          dsimp only [Option.map_some]
          rw [hrest]
          rfl

/-- The handler reads what the packet says, up to the length of the queue, and no
read in the middle of it fails. -/
theorem readWalk_eq (data : List UInt8) :
    readWalk data = (walkPath data).map (List.take walkQueueLen) := by
  unfold readWalk
  match data with
  | [] | [_] | [_, _] | [_, _, _] | [_, _, _, _] => rfl
  | op :: a :: b :: c :: d :: offsets =>
      have hsteps : readSteps (([op, a, b, c, d] ++ offsets).map UInt8.toNat)
          (a.toNat * 256 + b.toNat) (c.toNat * 256 + d.toNat) (min (offsets.length / 2) 15) 5 = _ :=
        readSteps_eq _ _ (Nat.min_le_left _ _)
      have htake : (pairs offsets).take (min (offsets.length / 2) 15) = (pairs offsets).take 15 := by
        rw [← length_pairs, Nat.min_comm, ← List.take_take, List.take_length]
      have hlong : ¬ ((op :: a :: b :: c :: d :: offsets).map UInt8.toNat).length < 5 := by
        simp only [List.map_cons, List.length_cons]
        omega
      have hleft : (((op :: a :: b :: c :: d :: offsets).map UInt8.toNat).length - 5) / 2 =
          offsets.length / 2 := by
        simp only [List.map_cons, List.length_cons, List.length_map]
        omega
      dsimp only
      rw [if_neg hlong, hleft]
      rw [htake] at hsteps
      show (readSteps _ _ _ _ _).map _ = _
      refine (congrArg _ hsteps).trans ?_
      simp [walkPath, walkQueueLen, List.map_take]

/-! ## What it does to the queue -/

/-- The tiles still to be walked to. -/
def pending (m : Mob) : List (Nat × Nat) := (m.walkQueue.take m.walkQueueLen).drop m.walkQueuePos

/-- What is left of a queue when a path has been written over it and the position
and the length are as they were. -/
def overlaid (m : Mob) (path : List (Nat × Nat)) : List (Nat × Nat) :=
  pending (m.putQueue path)

/-- Nothing was left to walk, or the path has the same tiles where they are still to
be walked to, or they come out as the path itself. -/
def Unspoilt (m : Mob) (path : List (Nat × Nat)) : Prop :=
  m.remaining = 0 ∨
  (∀ k, m.walkQueuePos ≤ k → k < m.walkQueueLen → k < path.length → path[k]? = m.walkQueue[k]?) ∨
  (m.walkQueueLen = m.walkQueuePos + path.length ∧ ∀ k < path.length,
    (if m.walkQueuePos + k < path.length then path[m.walkQueuePos + k]?
      else m.walkQueue[m.walkQueuePos + k]?) = path[k]?)

theorem getElem?_pending (m : Mob) (k : Nat) : (pending m)[k]? =
    if m.walkQueuePos + k < m.walkQueueLen then m.walkQueue[m.walkQueuePos + k]? else none := by
  rw [pending, List.getElem?_drop, List.getElem?_take]

theorem getElem?_overlaid (m : Mob) (path : List (Nat × Nat)) (k : Nat) : (overlaid m path)[k]? =
    if m.walkQueuePos + k < m.walkQueueLen then
      if m.walkQueuePos + k < path.length then path[m.walkQueuePos + k]?
      else m.walkQueue[m.walkQueuePos + k]?
    else none := by
  rw [overlaid, getElem?_pending]
  show (if _ then (path ++ m.walkQueue.drop path.length)[m.walkQueuePos + k]? else none) = _
  congr 1
  split
  · next h => rw [List.getElem?_append_left h]
  · next h =>
    rw [List.getElem?_append_right (Nat.le_of_not_lt h), List.getElem?_drop]
    congr 1
    omega

theorem pending_eq_nil_iff (hm : Lined m) : pending m = [] ↔ m.remaining = 0 := by
  have hwritten := hm.written
  rw [← List.length_eq_zero_iff, pending, List.length_drop, List.length_take,
    Nat.min_eq_left hwritten, Mob.remaining]

theorem lined_putQueue (hm : Lined m) (path : List (Nat × Nat)) : Lined (m.putQueue path) := by
  refine ⟨hm.pos, ?_, hm.len⟩
  have hwritten := hm.written
  show m.walkQueueLen ≤ (path ++ m.walkQueue.drop path.length).length
  rw [List.length_append, List.length_drop]
  omega

theorem overlaid_eq_iff (hm : Lined m) (path : List (Nat × Nat)) :
    (overlaid m path = pending m ∨ overlaid m path = [] ∨ overlaid m path = path) ↔
      Unspoilt m path := by
  have hpos := hm.pos
  have hwritten := hm.written
  have hnil : overlaid m path = [] ↔ m.remaining = 0 :=
    pending_eq_nil_iff (lined_putQueue hm path)
  have hold : overlaid m path = pending m ↔ ∀ k, m.walkQueuePos ≤ k → k < m.walkQueueLen →
      k < path.length → path[k]? = m.walkQueue[k]? := by
    constructor
    · intro h k hk hlen hpath
      have hget : (overlaid m path)[k - m.walkQueuePos]? = (pending m)[k - m.walkQueuePos]? := by
        rw [h]
      rw [getElem?_overlaid, getElem?_pending, Nat.add_sub_cancel' hk, if_pos hlen, if_pos hlen,
        if_pos hpath] at hget
      exact hget
    · intro h
      refine List.ext_getElem? fun k => ?_
      rw [getElem?_overlaid, getElem?_pending]
      split
      · next hlen =>
        split
        · next hpath => exact h _ (Nat.le_add_right _ _) hlen hpath
        · rfl
      · rfl
  have hnew : overlaid m path = path ↔ m.walkQueueLen = m.walkQueuePos + path.length ∧
      ∀ k < path.length, (if m.walkQueuePos + k < path.length then path[m.walkQueuePos + k]?
        else m.walkQueue[m.walkQueuePos + k]?) = path[k]? := by
    have hlength : (overlaid m path).length = m.walkQueueLen - m.walkQueuePos := by
      have hput := (lined_putQueue hm path).written
      rw [overlaid, pending, List.length_drop, List.length_take, Nat.min_eq_left hput]
      rfl
    constructor
    · intro h
      rw [h] at hlength
      have hlen : m.walkQueueLen = m.walkQueuePos + path.length := by omega
      refine ⟨hlen, fun k hk => ?_⟩
      have hget : (overlaid m path)[k]? = path[k]? := by rw [h]
      rwa [getElem?_overlaid, if_pos (by omega)] at hget
    · rintro ⟨hlen, h⟩
      refine List.ext_getElem? fun k => ?_
      rw [getElem?_overlaid]
      split
      · exact h k (by omega)
      · exact (List.getElem?_eq_none (by omega)).symm
  unfold Unspoilt
  rw [hnil, hold, hnew]
  grind

/-! ## What it does to the player -/

theorem modifyPlayer_modifyPlayer (w : World) (i : Nat) (f g : Player → Player) :
    (w.modifyPlayer i f).modifyPlayer i g = w.modifyPlayer i fun p => g (f p) := by
  unfold World.modifyPlayer
  congr 1
  funext k
  by_cases hk : k = i
  · simp [hk, Function.comp_def]
  · simp [hk]

/-- The writes of a walk packet that is let through, to its player. -/
def walkWrites (entity : Bool) (path : List (Nat × Nat)) (p : Player) : Player :=
  let p := { p.closeUi with mob := (p.mob.putQueue path).followNobody }
  if entity then { p with mob := p.mob.startWalk path true }
  else
    let p := { p with mob := { p.mob with targetNpc := none, targetPlayer := none } }
    { p.clearActions with mob := p.clearActions.mob.startWalk path false }

/-- The packet is let through. -/
def LetThrough (p : Player) (entity : Bool) : Prop :=
  p.scriptActive = false ∧
    if entity then p.mob.inCombat = false else p.mob.inCombat = true → 3 ≤ p.mob.combatRounds

/-- The player is in a fight with itself, and the retreat ends its walk. -/
def FightsItself (i : Nat) (p : Player) : Prop :=
  p.mob.inCombat = true ∧ p.mob.targetPlayer = some i

/-- Of the players only the target is written to. -/
theorem resetTargets_players {w : World} {i : Nat} {p : Player} (hp : w.players i = some p)
    (f : Mob → Mob) : (w.resetTargets (.player i) f).players =
      match p.mob.targetPlayer with
      | some t => (w.modify (.player t) fun m => (f m).combatReset).players
      | none => w.players := by
  have hbind : (w.mob? (.player i)).bind Mob.targetPlayer = p.mob.targetPlayer := by
    rw [mob?_player, hp]
    rfl
  unfold World.resetTargets
  rw [hbind]
  cases p.mob.targetPlayer with
  | none =>
      dsimp only
      split
      · rfl
      · rfl
  | some t =>
      dsimp only
      split
      · rfl
      · rfl

/-- A retreat leaves the queue of the one who retreats, unless it was its own
opponent. -/
theorem playerRetreat_player {w w₁ : World} {i : Nat} {p : Player} (hp : w.players i = some p)
    (hw : playerRetreat w i = some w₁) : 3 ≤ p.mob.combatRounds ∧ ∃ p₁, w₁.players i = some p₁ ∧
      p₁.mob.x = p.mob.x ∧ p₁.mob.y = p.mob.y ∧
      if p.mob.targetPlayer = some i then p₁.mob.walkQueuePos = 0 ∧ p₁.mob.walkQueueLen = 0
      else SameQueue p.mob p₁.mob := by
  unfold playerRetreat at hw
  rw [hp] at hw
  dsimp only at hw
  split at hw
  · cases hw
  · next hrounds =>
    refine ⟨by omega, ?_⟩
    obtain rfl := Option.some.inj hw
    have htargets : ∃ p₁, (w.resetTargets (.player i) Mob.clearQueue).players i = some p₁ ∧
        p₁.mob.x = p.mob.x ∧ p₁.mob.y = p.mob.y ∧
        if p.mob.targetPlayer = some i then p₁.mob.walkQueuePos = 0 ∧ p₁.mob.walkQueueLen = 0
        else SameQueue p.mob p₁.mob := by
      rw [resetTargets_players hp]
      cases ht : p.mob.targetPlayer with
      | none =>
          refine ⟨p, hp, rfl, rfl, ?_⟩
          rw [if_neg (by simp)]
          exact ⟨rfl, rfl, rfl, rfl, rfl⟩
      | some t =>
          have hplayers : (w.modify (.player t) fun m => m.clearQueue.combatReset).players i =
              if i = t then some { p with mob := p.mob.clearQueue.combatReset } else some p := by
            show (w.modifyPlayer t _).players i = _
            rw [players_modifyPlayer, hp]
            rfl
          dsimp only
          rw [hplayers]
          by_cases hself : i = t
          · refine ⟨_, if_pos hself, rfl, rfl, ?_⟩
            rw [if_pos (by rw [hself])]
            exact ⟨rfl, rfl⟩
          · refine ⟨p, if_neg hself, rfl, rfl, ?_⟩
            rw [if_neg (by simpa using fun h => hself h.symm)]
            exact ⟨rfl, rfl, rfl, rfl, rfl⟩
    obtain ⟨p₁, hp₁, hx, hy, hqueue⟩ := htargets
    refine ⟨{ p₁ with mob := p₁.mob.combatReset }, ?_, hx, hy, ?_⟩
    · show (World.modifyPlayer _ i _).players i = _
      rw [players_modifyPlayer, if_pos rfl, hp₁]
      rfl
    · split
      · next hself =>
        rw [if_pos hself] at hqueue
        exact hqueue
      · next hself =>
        rw [if_neg hself] at hqueue
        exact ⟨hqueue.x, hqueue.y, hqueue.queue, hqueue.pos, hqueue.len⟩

/-- What a walk packet that is let through makes of the world: it writes to its player,
after the retreat if there is one. -/
def WalkWritten (w : World) (i : Nat) (p : Player) (entity : Bool) (path : List (Nat × Nat))
    (w' : World) : Prop :=
  ∃ w₁ p₁, Drift False w w₁ ∧ w₁.players i = some p₁ ∧
    w' = w₁.modifyPlayer i (walkWrites entity path) ∧ p₁.mob.x = p.mob.x ∧ p₁.mob.y = p.mob.y ∧
    ((entity = false ∧ FightsItself i p ∧ p₁.mob.walkQueuePos = 0 ∧ p₁.mob.walkQueueLen = 0) ∨
      ¬ (entity = false ∧ FightsItself i p) ∧ SameQueue p.mob p₁.mob)

/-- Without a retreat. -/
theorem written_at_once {w : World} {i : Nat} {p : Player} (hp : w.players i = some p)
    {entity : Bool} (hself : ¬ (entity = false ∧ FightsItself i p)) (path : List (Nat × Nat)) :
    WalkWritten w i p entity path (w.modifyPlayer i (walkWrites entity path)) :=
  ⟨w, p, .refl False w, hp, rfl, rfl, rfl, .inr ⟨hself, rfl, rfl, rfl, rfl, rfl⟩⟩

theorem opWalkEntity_cases {w : World} {i : Nat} {p : Player} (hp : w.players i = some p)
    (path : List (Nat × Nat)) :
    (¬ LetThrough p true ∧ opWalkEntity w i path = w) ∨
      LetThrough p true ∧ WalkWritten w i p true path (opWalkEntity w i path) := by
  unfold opWalkEntity
  rw [hp]
  dsimp only
  by_cases hbusy : p.scriptActive = true ∨ p.mob.inCombat = true
  · rw [if_pos hbusy]
    refine .inl ⟨fun hlet => ?_, rfl⟩
    obtain ⟨hscript, hcombat⟩ := hlet
    rcases hbusy with h | h
    · exact absurd (hscript.symm.trans h) (by simp)
    · exact absurd (hcombat.symm.trans h) (by simp)
  · rw [if_neg hbusy]
    simp only [not_or, Bool.not_eq_true] at hbusy
    have hwrites : (((w.modify (.player i) fun m => m.putQueue path).modifyPlayer i
        Player.closeUi).modify (.player i) Mob.followNobody).modify (.player i) (fun m =>
          m.startWalk path true) = w.modifyPlayer i (walkWrites true path) := by
      show World.modifyPlayer (World.modifyPlayer (World.modifyPlayer (World.modifyPlayer w i _)
        i _) i _) i _ = _
      rw [modifyPlayer_modifyPlayer, modifyPlayer_modifyPlayer, modifyPlayer_modifyPlayer]
      rfl
    rw [hwrites]
    exact .inr ⟨hbusy, written_at_once hp (by simp) path⟩

/-- The writes of `OP_CLI_WALK_TILE`, as one. -/
theorem walkTile_writes (w : World) (i : Nat) (path : List (Nat × Nat)) :
    (((((w.modify (.player i) fun m => m.putQueue path).modifyPlayer i
      Player.closeUi).modify (.player i) fun m =>
        { m.followNobody with targetNpc := none, targetPlayer := none }).modifyPlayer i
          Player.clearActions).modify (.player i) fun m => m.startWalk path false) =
      w.modifyPlayer i (walkWrites false path) := by
  show World.modifyPlayer (World.modifyPlayer (World.modifyPlayer (World.modifyPlayer
    (World.modifyPlayer w i _) i _) i _) i _) i _ = _
  rw [modifyPlayer_modifyPlayer, modifyPlayer_modifyPlayer, modifyPlayer_modifyPlayer,
    modifyPlayer_modifyPlayer]
  rfl

theorem opWalkTile_cases {w : World} {i : Nat} {p : Player} (hp : w.players i = some p)
    (path : List (Nat × Nat)) :
    (¬ LetThrough p false ∧ opWalkTile w i path = w) ∨
      LetThrough p false ∧ WalkWritten w i p false path (opWalkTile w i path) := by
  unfold opWalkTile
  rw [hp]
  dsimp only
  by_cases hscript : p.scriptActive = true
  · rw [if_pos hscript]
    exact .inl ⟨fun hlet => absurd (hlet.1.symm.trans hscript) (by simp), rfl⟩
  · rw [if_neg hscript]
    have hscript : p.scriptActive = false := by simpa using hscript
    cases hcombat : p.mob.inCombat with
    | false =>
        rw [if_neg Bool.false_ne_true]
        dsimp only
        rw [walkTile_writes]
        have hself : ¬ (false = false ∧ FightsItself i p) := fun h =>
          absurd (hcombat.symm.trans h.2.1) Bool.false_ne_true
        refine .inr ⟨⟨hscript, fun h => ?_⟩, written_at_once hp hself path⟩
        exact absurd (hcombat.symm.trans h) Bool.false_ne_true
    | true =>
        rw [if_pos rfl]
        cases hretreat : playerRetreat w i with
        | none =>
            refine .inl ⟨fun hlet => ?_, rfl⟩
            have hrounds := hlet.2 hcombat
            unfold playerRetreat at hretreat
            rw [hp] at hretreat
            dsimp only at hretreat
            rw [if_neg (by omega)] at hretreat
            cases hretreat
        | some w₁ =>
            obtain ⟨hrounds, p₁, hp₁, hx, hy, hqueue⟩ := playerRetreat_player hp hretreat
            have hdrift := (Drift.refl False w).playerRetreat hretreat
            refine .inr ⟨⟨hscript, fun _ => hrounds⟩, w₁, p₁, hdrift, hp₁,
              walkTile_writes w₁ i path, hx, hy, ?_⟩
            by_cases hself : p.mob.targetPlayer = some i
            · rw [if_pos hself] at hqueue
              exact .inl ⟨rfl, ⟨hcombat, hself⟩, hqueue⟩
            · rw [if_neg hself] at hqueue
              exact .inr ⟨fun h => hself h.2.2, hqueue⟩

/-- A walk packet that is not let through changes nothing. -/
theorem opWalk_cases {w : World} {i : Nat} {p : Player} (hp : w.players i = some p)
    (entity : Bool) {data : List UInt8} {path : List (Nat × Nat)}
    (hdata : walkPath data = some path) :
    (¬ LetThrough p entity ∧ opWalk w i entity data = w) ∨
      LetThrough p entity ∧
        WalkWritten w i p entity (path.take walkQueueLen) (opWalk w i entity data) := by
  have hread : readWalk data = some (path.take walkQueueLen) := by
    rw [readWalk_eq, hdata]
    rfl
  unfold opWalk
  rw [hread]
  cases entity with
  | true => exact opWalkEntity_cases hp _
  | false => exact opWalkTile_cases hp _

/-! ## The path after a packet -/

/-- What is left to walk after a walk packet is what was before, or nothing, or the
path in the packet, as far as the queue has room for it. -/
def PathSound (w w' : World) (i : Nat) (data : List UInt8) : Prop :=
  ∀ p p', w.players i = some p → w'.players i = some p' →
    pending p'.mob = pending p.mob ∨ pending p'.mob = [] ∨
      ∃ path, walkPath data = some path ∧ pending p'.mob = path.take walkQueueLen

/-- If the packet is let through and ends where the player is, the retreat has ended
the walk, or the path over the queue makes no difference. -/
def PacketOk (w : World) (i : Nat) (entity : Bool) (data : List UInt8) : Prop :=
  ∀ p path, w.players i = some p → walkPath data = some path → LetThrough p entity →
    (path.take walkQueueLen).getLast? = some (p.mob.x, p.mob.y) →
      (entity = false ∧ FightsItself i p) ∨ Unspoilt p.mob (path.take walkQueueLen)

theorem SameQueue.pending {m m' : Mob} (h : SameQueue m m') :
    Proofs.pending m' = Proofs.pending m := by
  unfold Proofs.pending
  rw [h.queue, h.pos, h.len]

theorem SameQueue.overlaid {m m' : Mob} (h : SameQueue m m') (path : List (Nat × Nat)) :
    Proofs.overlaid m' path = Proofs.overlaid m path := by
  unfold Proofs.overlaid Proofs.pending Mob.putQueue
  dsimp only
  rw [h.queue, h.pos, h.len]

/-- The end of a walk packet, for a mob that has the path in its queue. -/
theorem startWalk_pending {m m₁ : Mob} {path : List (Nat × Nat)}
    (h : SameQueue (m.putQueue path) m₁) (actionWalk : Bool) :
    pending (m₁.startWalk path actionWalk) =
      if path.getLast? = some (m.x, m.y) then overlaid m path else path := by
  have hx : m₁.x = m.x := h.x
  have hy : m₁.y = m.y := h.y
  have hqueue : m₁.walkQueue = path ++ m.walkQueue.drop path.length := h.queue
  unfold Mob.startWalk
  rw [hx, hy]
  split
  · exact h.pending
  · show (m₁.walkQueue.take path.length).drop 0 = path
    rw [hqueue, List.take_left, List.drop_zero]

theorem startWalk_parked {m m₁ : Mob} {path : List (Nat × Nat)}
    (h : SameQueue (m.putQueue path) m₁) (hlen : path.length ≤ walkQueueLen) (actionWalk : Bool) :
    Parked m (m₁.startWalk path actionWalk) := by
  have hput : Parked m m₁ := by
    refine ⟨h.x, h.y, fun hm => ?_⟩
    have hlined := lined_putQueue hm path
    refine ⟨?_, ?_, ?_⟩
    · rw [h.pos, h.len]
      exact hlined.pos
    · rw [h.len, h.queue]
      exact hlined.written
    · rw [h.len]
      exact hlined.len
  have hqueue : m₁.walkQueue = path ++ m.walkQueue.drop path.length := h.queue
  unfold Mob.startWalk
  split
  · exact hput
  · refine ⟨hput.x, hput.y, fun _ => ⟨Nat.zero_le _, ?_, hlen⟩⟩
    show path.length ≤ m₁.walkQueue.length
    rw [hqueue, List.length_append]
    exact Nat.le_add_right _ _

/-- Between the path and the end of the packet the queue is not touched. -/
theorem walkWrites_mob (entity : Bool) (path : List (Nat × Nat)) (p : Player) :
    ∃ m₁, SameQueue (p.mob.putQueue path) m₁ ∧
      (walkWrites entity path p).mob = m₁.startWalk path entity := by
  cases entity with
  | true =>
      refine ⟨_, ?_, rfl⟩
      exact ⟨rfl, rfl, rfl, rfl, rfl⟩
  | false =>
      refine ⟨_, ?_, rfl⟩
      exact ⟨rfl, rfl, rfl, rfl, rfl⟩

theorem walkWrites_pending (entity : Bool) (path : List (Nat × Nat)) (p : Player) :
    pending (walkWrites entity path p).mob =
      if path.getLast? = some (p.mob.x, p.mob.y) then overlaid p.mob path else path := by
  obtain ⟨m₁, hqueue, hmob⟩ := walkWrites_mob entity path p
  rw [hmob]
  exact startWalk_pending hqueue entity

theorem walkWrites_parked (entity : Bool) {path : List (Nat × Nat)}
    (hlen : path.length ≤ walkQueueLen) (p : Player) :
    Parked p.mob (walkWrites entity path p).mob := by
  obtain ⟨m₁, hqueue, hmob⟩ := walkWrites_mob entity path p
  rw [hmob]
  exact startWalk_parked hqueue hlen entity

theorem walkWrites_login (entity : Bool) (path : List (Nat × Nat)) (p : Player) :
    (walkWrites entity path p).loginOk = p.loginOk ∧
      (walkWrites entity path p).teleported = p.teleported := by
  unfold walkWrites
  split
  · exact ⟨rfl, rfl⟩
  · exact ⟨rfl, rfl⟩

/-- A walk packet moves nobody. -/
theorem opWalk_drift (w : World) (i : Nat) (entity : Bool) (data : List UInt8) :
    Drift False w (opWalk w i entity data) := by
  have hrefl := Drift.refl False w
  cases hdata : walkPath data with
  | none =>
      unfold opWalk
      rw [readWalk_eq, hdata]
      exact hrefl
  | some path =>
      cases hp : w.players i with
      | none =>
          unfold opWalk opWalkEntity opWalkTile
          rw [readWalk_eq, hdata, hp]
          dsimp only [Option.map_some]
          split
          · exact hrefl
          · exact hrefl
      | some p =>
          rcases opWalk_cases hp entity hdata with ⟨-, hsame⟩ | ⟨-, w₁, p₁, hdrift, -, hw, -⟩
          · rw [hsame]
            exact hrefl
          · rw [hw]
            refine hdrift.modifyPlayer fun p => ?_
            obtain ⟨hlogin, htele⟩ := walkWrites_login entity (path.take walkQueueLen) p
            exact ⟨hlogin, htele, walkWrites_parked entity (List.length_take_le _ _) p⟩

/-- What is left to walk after a packet that is let through. -/
theorem WalkWritten.left {w w' : World} {i : Nat} {p : Player} {entity : Bool}
    {path : List (Nat × Nat)} (h : WalkWritten w i p entity path w') :
    ∃ p', w'.players i = some p' ∧
      ((path.getLast? ≠ some (p.mob.x, p.mob.y) ∧ pending p'.mob = path) ∨
        path.getLast? = some (p.mob.x, p.mob.y) ∧
          ((entity = false ∧ FightsItself i p ∧ pending p'.mob = []) ∨
            ¬ (entity = false ∧ FightsItself i p) ∧ pending p'.mob = overlaid p.mob path)) := by
  obtain ⟨w₁, p₁, -, hp₁, rfl, hx, hy, hqueue⟩ := h
  refine ⟨walkWrites entity path p₁, ?_, ?_⟩
  · rw [players_modifyPlayer, if_pos rfl, hp₁]
    rfl
  · rw [walkWrites_pending, hx, hy]
    by_cases hlast : path.getLast? = some (p.mob.x, p.mob.y)
    · rw [if_pos hlast]
      refine .inr ⟨hlast, ?_⟩
      rcases hqueue with ⟨hentity, hself, -, hlen⟩ | ⟨hnot, hqueue⟩
      · have hput : (p₁.mob.putQueue path).walkQueueLen = 0 := hlen
        refine .inl ⟨hentity, hself, ?_⟩
        rw [overlaid, pending, hput, List.take_zero, List.drop_nil]
      · exact .inr ⟨hnot, hqueue.overlaid path⟩
    · rw [if_neg hlast]
      exact .inl ⟨hlast, rfl⟩

theorem pathSound_iff {w : World} {i : Nat} (entity : Bool) (data : List UInt8)
    (hlined : ∀ p, w.players i = some p → Lined p.mob) :
    PathSound w (opWalk w i entity data) i data ↔ PacketOk w i entity data := by
  constructor
  · intro h p path hp hdata hlet hlast
    rcases opWalk_cases hp entity hdata with ⟨hnot, -⟩ | ⟨-, hwritten⟩
    · exact absurd hlet hnot
    · obtain ⟨p', hp', hleft⟩ := hwritten.left
      rcases hleft with ⟨hne, -⟩ | ⟨-, ⟨hentity, hself, -⟩ | ⟨-, hpending⟩⟩
      · exact absurd hlast hne
      · exact .inl ⟨hentity, hself⟩
      · refine .inr ((overlaid_eq_iff (hlined p hp) _).1 ?_)
        rw [← hpending]
        rcases h p p' hp hp' with hold | hnil | ⟨path', hpath, hnew⟩
        · exact .inl hold
        · exact .inr (.inl hnil)
        · obtain rfl := Option.some.inj (hdata.symm.trans hpath)
          exact .inr (.inr hnew)
  · intro h p p' hp hp'
    have hsame : opWalk w i entity data = w → pending p'.mob = pending p.mob := by
      intro heq
      rw [heq] at hp'
      rw [Option.some.inj (hp.symm.trans hp')]
    cases hdata : walkPath data with
    | none =>
        refine .inl (hsame ?_)
        unfold opWalk
        rw [readWalk_eq, hdata]
        rfl
    | some path =>
        rcases opWalk_cases hp entity hdata with ⟨-, heq⟩ | ⟨hlet, hwritten⟩
        · exact .inl (hsame heq)
        · obtain ⟨p'', hp'', hleft⟩ := hwritten.left
          obtain rfl := Option.some.inj (hp''.symm.trans hp')
          rcases hleft with ⟨-, hnew⟩ | ⟨hlast, ⟨-, -, hnil⟩ | ⟨hnot, hpending⟩⟩
          · exact .inr (.inr ⟨path, rfl, hnew⟩)
          · exact .inr (.inl hnil)
          · have hunspoilt := (h p path hp hdata hlet hlast).resolve_left hnot
            rw [hpending]
            rcases (overlaid_eq_iff (hlined p hp) _).2 hunspoilt with hold | hnil | hnew
            · exact .inl hold
            · exact .inr (.inl hnil)
            · exact .inr (.inr ⟨path, rfl, hnew⟩)

end Sundae.Proofs
