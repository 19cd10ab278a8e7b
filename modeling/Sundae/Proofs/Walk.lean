import Sundae.Proofs.Drift

/-!
# Steps along the walk queue

`mob_process_walk_queue` takes one step, in a direction that has passed the
collision check, or none; and it keeps the queue within its bounds. Players and
NPCs walk in their movement, and an NPC also when a player on its tile talks to
it: it steps aside at once.
-/

namespace Sundae.Proofs

open Sundae.Lib Sundae.Ref.World
open Sundae.Ref (World Zone serverFindZone)

variable {w w₀ w' : World} {r : MobRef} {m : Mob} {path : Path}

/-! ## One step -/

/-- How far a step leads. -/
def Dir.offset : Dir → Int × Int
  | .north => (0, -1)
  | .northwest => (1, -1)
  | .west => (1, 0)
  | .southwest => (1, 1)
  | .south => (0, 1)
  | .southeast => (-1, 1)
  | .east => (-1, 0)
  | .northeast => (-1, -1)
  | .combatLeft | .combatRight => (0, 0)

/-- One step in one of the eight directions. -/
def Stride (m m' : Mob) : Prop :=
  ∃ dir : Dir, dir.combat = false ∧ (m'.x : Int) = m.x + (Dir.offset dir).1 ∧
    (m'.y : Int) = m.y + (Dir.offset dir).2

theorem mobNextStep_offset (curX curY : Nat) (curDir : Dir) (tx ty : Nat) :
    let step := mobNextStep curX curY curDir tx ty
    (step.1 = curX ∧ step.2.1 = curY) ∨ step.2.2.combat = false ∧
      (step.1 : Int) = curX + (Dir.offset step.2.2).1 ∧
        (step.2.1 : Int) = curY + (Dir.offset step.2.2).2 := by
  unfold mobNextStep
  grind [Dir.offset, Dir.combat]

/-- What a walk of `r` may have made of the mobs of `w₀`. -/
def Walks (r : MobRef) (path : Path) (w₀ w : World) : Prop :=
  ∀ s m', w.mob? s = some m' → ∃ m, w₀.mob? s = some m ∧ (Lined m → Lined m') ∧
    ((m'.x = m.x ∧ m'.y = m.y) ∨ s = r ∧ path.blocked = false ∧ Stride m m')

/-- Where nobody is put elsewhere, every mob is parked. -/
theorem Drift.mob (h : Drift False w₀ w) {s : MobRef} {m' : Mob} (hs : w.mob? s = some m') :
    ∃ m, w₀.mob? s = some m ∧ Parked m m' := by
  cases s with
  | player i =>
      obtain ⟨p', hp', rfl⟩ := Option.map_eq_some_iff.1 hs
      obtain ⟨p, hp, hdrift⟩ := h.players i p' hp'
      obtain ⟨hx, hy⟩ := hdrift.place.resolve_right fun hfar => hfar.1
      exact ⟨p.mob, by rw [mob?_player, hp]; rfl, hx, hy, hdrift.lined⟩
  | npc j =>
      obtain ⟨n', hn', rfl⟩ := Option.map_eq_some_iff.1 hs
      obtain ⟨n, hn, hdrift⟩ := h.npcs j n' hn'
      obtain ⟨hx, hy⟩ := hdrift.place.resolve_right fun hfar => hfar.1
      exact ⟨n.mob, by rw [mob?_npc, hn]; rfl, hx, hy, hdrift.lined⟩

namespace Walks

theorem of_drift (h : Drift False w₀ w) : Walks r path w₀ w := by
  intro s m' hs
  obtain ⟨m, hm, hparked⟩ := h.mob hs
  exact ⟨m, hm, hparked.lined, .inl ⟨hparked.x, hparked.y⟩⟩

theorem stride_of_eq {m m' n n' : Mob} (h : Stride m m') (hx : n.x = m.x) (hy : n.y = m.y)
    (hx' : n'.x = m'.x) (hy' : n'.y = m'.y) : Stride n n' := by
  obtain ⟨dir, hdir, hstepx, hstepy⟩ := h
  exact ⟨dir, hdir, by rw [hx, hx']; exact hstepx, by rw [hy, hy']; exact hstepy⟩

/-- What comes before a walk. -/
theorem after (h : Walks r path w w') (hdrift : Drift False w₀ w) : Walks r path w₀ w' := by
  intro s m' hs
  obtain ⟨m, hm, hlined, hplace⟩ := h s m' hs
  obtain ⟨m₀, hm₀, hparked⟩ := hdrift.mob hm
  refine ⟨m₀, hm₀, fun h => hlined (hparked.lined h), ?_⟩
  rcases hplace with ⟨hx, hy⟩ | ⟨heq, hfree, hstride⟩
  · exact .inl ⟨hx.trans hparked.x, hy.trans hparked.y⟩
  · exact .inr ⟨heq, hfree, stride_of_eq hstride hparked.x.symm hparked.y.symm rfl rfl⟩

/-- And what comes after it. -/
theorem drift (h : Walks r path w₀ w) (hdrift : Drift False w w') : Walks r path w₀ w' := by
  intro s m' hs
  obtain ⟨m, hm, hparked⟩ := hdrift.mob hs
  obtain ⟨m₀, hm₀, hlined, hplace⟩ := h s m hm
  refine ⟨m₀, hm₀, fun h => hparked.lined (hlined h), ?_⟩
  rcases hplace with ⟨hx, hy⟩ | ⟨heq, hfree, hstride⟩
  · exact .inl ⟨hparked.x.trans hx, hparked.y.trans hy⟩
  · exact .inr ⟨heq, hfree, stride_of_eq hstride rfl rfl hparked.x hparked.y⟩

/-- A write to the walking mob. -/
theorem modify (hm : w.mob? r = some m) {f : Mob → Mob} (hlined : Lined m → Lined (f m))
    (hplace : ((f m).x = m.x ∧ (f m).y = m.y) ∨ path.blocked = false ∧ Stride m (f m)) :
    Walks r path w (w.modify r f) := by
  intro s m' hs
  rw [mob?_modify] at hs
  split at hs
  · next heq =>
    subst heq
    obtain ⟨m₀, hm₀, rfl⟩ := Option.map_eq_some_iff.1 hs
    obtain rfl := Option.some.inj (hm.symm.trans hm₀)
    refine ⟨m, hm, hlined, ?_⟩
    rcases hplace with hsame | ⟨hfree, hstride⟩
    · exact .inl hsame
    · exact .inr ⟨rfl, hfree, hstride⟩
  · exact ⟨m', hs, id, .inl ⟨rfl, rfl⟩⟩

end Walks

theorem stepTo_place (m : Mob) (x y : Nat) (dir : Dir) :
    (m.stepTo x y dir).x = x ∧ (m.stepTo x y dir).y = y := by
  unfold Mob.stepTo
  split
  · exact ⟨rfl, rfl⟩
  · next h =>
    simp only [not_or, not_not] at h
    exact ⟨h.1.symm, h.2.symm⟩

theorem lined_stepTo {m : Mob} (hm : Lined m) (x y : Nat) (dir : Dir) :
    Lined (m.stepTo x y dir) := by
  unfold Mob.stepTo
  split
  · exact ⟨hm.pos, hm.written, hm.len⟩
  · exact hm

theorem mobTakeStep_walks (hm : w.mob? r = some m) (path : Path) :
    Walks r path w (World.mobTakeStep w r m path) := by
  have hrefl := Drift.refl False w
  have hoffset := mobNextStep_offset m.x m.y m.dir (m.walkQueue.getD m.walkQueuePos (0, 0)).1
    (m.walkQueue.getD m.walkQueuePos (0, 0)).2
  unfold World.mobTakeStep
  generalize m.walkQueue.getD m.walkQueuePos (0, 0) = tile at hoffset
  obtain ⟨tx, ty⟩ := tile
  dsimp only at hoffset ⊢
  generalize mobNextStep m.x m.y m.dir tx ty = next at hoffset
  obtain ⟨x, y, dir⟩ := next
  dsimp only at hoffset ⊢
  split
  · exact .of_drift (hrefl.modify Parked.clearQueue)
  · next hleft =>
    split
    · exact .of_drift (hrefl.mobBlocked r m)
    · next hfree =>
      have hfree : path.blocked = false := by simpa using hfree
      have hplace : ∀ m₁ : Mob, m₁.x = x ∧ m₁.y = y →
          (m₁.x = m.x ∧ m₁.y = m.y) ∨ path.blocked = false ∧ Stride m m₁ := by
        rintro m₁ ⟨rfl, rfl⟩
        rcases hoffset with hsame | ⟨hdir, hx, hy⟩
        · exact .inl hsame
        · exact .inr ⟨hfree, dir, hdir, hx, hy⟩
      split
      · split
        · exact .of_drift (hrefl.modify fun m => (Parked.clearQueue m).trans (.face _ x y))
        · refine .modify hm (fun hlined => lined_stepTo ?_ x y dir) (hplace _ (stepTo_place _ _ _ _))
          -- A step is left, so the position stays within the length.
          have hpos := hlined.pos
          unfold Mob.remaining at hleft
          exact ⟨by dsimp only; omega, hlined.written, hlined.len⟩
      · exact .modify hm (fun hlined => lined_stepTo hlined x y dir)
          (hplace _ (stepTo_place _ _ _ _))

theorem mobProcessWalkQueue_walks (w : World) (r : MobRef) (path : Path) :
    Walks r path w (World.mobProcessWalkQueue w r path) := by
  have hrefl := Drift.refl False w
  unfold World.mobProcessWalkQueue
  split
  · exact .of_drift hrefl
  · split
    · exact .of_drift (hrefl.modify Parked.clearQueue)
    · split
      · exact .of_drift hrefl
      · next w₁ hfollow =>
        have h₁ := hrefl.mobFollow hfollow
        split
        · exact .of_drift h₁
        · next m hm => exact (mobTakeStep_walks hm path).after h₁

/-! ## The events that walk -/

theorem playerProcessMovement_walks (w : World) (i : Nat) (path : Path) :
    Walks (.player i) path w (playerProcessMovement w i path) := by
  unfold playerProcessMovement
  split
  · exact .of_drift (.refl False w)
  · refine (mobProcessWalkQueue_walks w (.player i) path).drift ?_
    exact (Drift.refl False _).playerMoved _ _ _

theorem npcWalk_walks (w : World) (j : Nat) (old : Option Zone) (t : NpcTurn) :
    Walks (.npc j) t.path w (npcWalk w j old t) := by
  have hwalk := mobProcessWalkQueue_walks w (.npc j) t.path
  unfold npcWalk
  dsimp only
  split
  · exact hwalk
  · exact hwalk.drift ((Drift.refl False _).npcZones j _ _)

theorem npcWalkQueue_walks (w : World) (j : Nat) (old : Option Zone) (t : NpcTurn) :
    Walks (.npc j) t.path w (npcWalkQueue w j old t) := by
  have hrefl := Drift.refl False w
  unfold npcWalkQueue
  split
  · exact .of_drift hrefl
  · split
    · exact .of_drift hrefl
    · refine (npcWalk_walks _ j old t).after ?_
      split
      · exact hrefl.modify Parked.clearQueue
      · exact hrefl

theorem npcProcessMovement_walks {j : Nat} {t : NpcTurn}
    (hw : npcProcessMovement w j t = .ok w') : Walks (.npc j) t.path w w' := by
  have hrefl := Drift.refl False w
  unfold npcProcessMovement at hw
  split at hw
  · exact Except.ok.inj hw ▸ .of_drift hrefl
  · split at hw
    · exact Except.ok.inj hw ▸ .of_drift hrefl
    · dsimp only at hw
      split at hw
      · split at hw
        · cases hw
        · refine Except.ok.inj hw ▸ (npcWalkQueue_walks _ j _ t).after ?_
          split
          · exact hrefl.modify fun _ => .sent rfl rfl rfl rfl (Nat.succ_pos _)
          · exact hrefl
      · split at hw
        · split at hw
          · refine Except.ok.inj hw ▸ .of_drift (hrefl.modify fun _ => ?_)
            exact .still rfl rfl rfl rfl rfl
          · split at hw
            · refine Except.ok.inj hw ▸
                .of_drift ((hrefl.modifyPlayer fun p => ?_).modify fun _ => ?_)
              · exact ⟨rfl, rfl, .same p.mob⟩
              · exact .still rfl rfl rfl rfl rfl
            · exact Except.ok.inj hw ▸ npcWalk_walks w j _ t
        · split at hw
          · cases hw
          · next w₁ hhunt =>
            have h₁ : Drift False w w₁ := by
              split at hhunt
              · exact hrefl.npcHuntTarget hhunt
              · exact Except.ok.inj hhunt ▸ hrefl
            exact Except.ok.inj hw ▸ (npcWalkQueue_walks _ j _ t).after (h₁.npcWander j t)

theorem npcTalkReturn_walks (w : World) (i j x y : Nat) (result : Bool) (c : Chance) :
    Walks (.npc j) c.path w (npcTalkReturn w i j x y result c) := by
  have hrefl := Drift.refl False w
  have htalk : Drift False w (w.modifyNpc j fun n => { n with talkTarget := i }) :=
    hrefl.modifyNpc fun n => ⟨rfl, rfl, .same n.mob⟩
  unfold npcTalkReturn
  split
  · exact .of_drift hrefl
  · split
    · exact .of_drift (hrefl.modify fun m => .face m x y)
    · dsimp only
      split
      · refine Walks.drift ?_ ((Drift.refl False _).modify fun m => .face m _ _)
        split
        · exact (mobProcessWalkQueue_walks _ (.npc j) c.path).after
            (htalk.modify fun m => .walkTo m _ _)
        · exact .of_drift htalk
      · exact .of_drift (htalk.modify fun m => .face m x y)

/-! ## The NPC that steps aside -/

/-- The mob that is followed. -/
def followed (m : Mob) : Option MobRef :=
  match m.followingPlayer with
  | some i => some (.player i)
  | none => m.followingNpc.map .npc

/-- The mob that is followed is next to this one. -/
def Alongside (w : World) (m : Mob) : Prop :=
  ∃ r x y, followed m = some r ∧ tileOf w r = some (x, y) ∧ m.withinRange x y 2 = true

/-- One step is left, and it leads away. -/
structure Sent (m : Mob) : Prop where
  pos : m.walkQueuePos = 0
  len : m.walkQueueLen = 1
  away : m.walkQueue.getD 0 (0, 0) ≠ (m.x, m.y)

theorem mobNextStep_ne {curX curY tx ty : Nat} (curDir : Dir) (h : (tx, ty) ≠ (curX, curY)) :
    ¬ ((mobNextStep curX curY curDir tx ty).1 = curX ∧
      (mobNextStep curX curY curDir tx ty).2.1 = curY) := by
  have hne : ¬ (tx = curX ∧ ty = curY) := fun heq => h (Prod.ext heq.1 heq.2)
  unfold mobNextStep
  grind

theorem sent_walkTo {x y : Nat} (h : (x, y) ≠ (m.x, m.y)) : Sent (m.walkTo x y) := ⟨rfl, rfl, h⟩

theorem mobChase_sent {m : Mob} (hm : w.mob? r = some m) (hsent : Sent m) (following : Mob) :
    match World.mobChase w r m following with
    | none => m.withinRange following.x following.y 2 = true
    | some w₁ => m.withinRange following.x following.y 2 = false ∧
        ∃ m₁, w₁.mob? r = some m₁ ∧ m₁.x = m.x ∧ m₁.y = m.y ∧ Sent m₁ := by
  unfold World.mobChase
  split
  · next hnear =>
    split at hnear
    · assumption
    · split at hnear
      · cases hnear
      · cases hnear
  · next w₁ hchase =>
    split at hchase
    · cases hchase
    · next hfar =>
      refine ⟨by simpa using hfar, ?_⟩
      split at hchase
      · exact Option.some.inj hchase ▸ ⟨m, hm, rfl, rfl, hsent⟩
      · next hfarther =>
        refine Option.some.inj hchase ▸ ⟨m.walkTo following.x following.y, ?_, rfl, rfl, ?_⟩
        · rw [mob?_modify, if_pos rfl, hm]
          rfl
        · refine sent_walkTo fun heq => hfarther ?_
          obtain ⟨hx, hy⟩ := Prod.mk.inj heq
          simp [Mob.withinRange, hx, hy]

/-- Whom a mob follows, and that it gives up if there is nobody. -/
theorem mobFollow_cases (w : World) (r : MobRef) (m : Mob) :
    (followed m = none ∧ World.mobFollow w r m = some w) ∨
    (∃ s f, followed m = some s ∧ w.mob? s = some f ∧
      World.mobFollow w r m = World.mobChase w r m f) ∨
    ∃ s g, followed m = some s ∧ w.mob? s = none ∧
      World.mobFollow w r m = some (w.modify r g) ∧ ∀ m, SameQueue m (g m) := by
  unfold World.mobFollow followed
  cases m.followingPlayer with
  | some i =>
      dsimp only
      cases hp : w.players i with
      | none =>
          refine .inr (.inr ⟨.player i, _, rfl, ?_, rfl, fun _ => ⟨rfl, rfl, rfl, rfl, rfl⟩⟩)
          rw [mob?_player, hp]
          rfl
      | some p =>
          refine .inr (.inl ⟨.player i, p.mob, rfl, ?_, rfl⟩)
          rw [mob?_player, hp]
          rfl
  | none =>
      dsimp only
      cases m.followingNpc with
      | none => exact .inl ⟨rfl, rfl⟩
      | some j =>
          dsimp only
          cases hn : w.npcs j with
          | none =>
              refine .inr (.inr ⟨.npc j, _, rfl, ?_, rfl, fun _ => ⟨rfl, rfl, rfl, rfl, rfl⟩⟩)
              rw [mob?_npc, hn]
              rfl
          | some n =>
              refine .inr (.inl ⟨.npc j, n.mob, rfl, ?_, rfl⟩)
              rw [mob?_npc, hn]
              rfl

/-- Only the mob that is followed can be alongside. -/
theorem alongside_iff {m f : Mob} {s : MobRef} (hs : followed m = some s)
    (hf : w.mob? s = some f) : Alongside w m ↔ m.withinRange f.x f.y 2 = true := by
  have htile : tileOf w s = some (f.x, f.y) := by
    rw [tileOf, hf]
    rfl
  constructor
  · rintro ⟨s', x, y, hs', htile', hnear⟩
    obtain rfl := Option.some.inj (hs.symm.trans hs')
    obtain ⟨rfl, rfl⟩ := Prod.mk.inj (Option.some.inj (htile.symm.trans htile'))
    exact hnear
  · exact fun hnear => ⟨s, f.x, f.y, hs, htile, hnear⟩

theorem not_alongside_of_none {m : Mob}
    (h : followed m = none ∨ ∃ s, followed m = some s ∧ w.mob? s = none) : ¬ Alongside w m := by
  rintro ⟨s, x, y, hs, htile, -⟩
  rcases h with hnobody | ⟨s', hs', hnone⟩
  · rw [hnobody] at hs
    cases hs
  · obtain rfl := Option.some.inj (hs'.symm.trans hs)
    rw [tileOf, hnone] at htile
    cases htile

/-- Going after a mob ends the walk if it is there already, and leaves a step that
leads away if not. -/
theorem mobFollow_sent {m : Mob} (hm : w.mob? r = some m) (hsent : Sent m) :
    match World.mobFollow w r m with
    | none => Alongside w m
    | some w₁ => ¬ Alongside w m ∧
        ∃ m₁, w₁.mob? r = some m₁ ∧ m₁.x = m.x ∧ m₁.y = m.y ∧ Sent m₁ := by
  rcases mobFollow_cases w r m with ⟨hnobody, heq⟩ | ⟨s, f, hs, hf, heq⟩ |
    ⟨s, g, hs, hgone, heq, hg⟩
  · rw [heq]
    exact ⟨not_alongside_of_none (.inl hnobody), m, hm, rfl, rfl, hsent⟩
  · have hchase := mobChase_sent hm hsent f
    rw [heq]
    split at hchase
    · exact (alongside_iff hs hf).2 hchase
    · refine ⟨?_, hchase.2⟩
      rw [alongside_iff hs hf, hchase.1]
      exact Bool.false_ne_true
  · have hsame := hg m
    rw [heq]
    refine ⟨not_alongside_of_none (.inr ⟨s, hs, hgone⟩), g m, ?_, hsame.x, hsame.y, ?_, ?_, ?_⟩
    · rw [mob?_modify, if_pos rfl, hm]
      rfl
    · rw [hsame.pos]
      exact hsent.pos
    · rw [hsame.len]
      exact hsent.len
    · rw [hsame.queue, hsame.x, hsame.y]
      exact hsent.away

/-- A mob with a step that leads away takes it, unless there is something in the
way. An NPC does not mind who stands there. -/
theorem mobTakeStep_sent {j : Nat} {m m' : Mob} (hm : w.mob? (.npc j) = some m) (hsent : Sent m)
    (hm' : (World.mobTakeStep w (.npc j) m path).mob? (.npc j) = some m') :
    (m'.x = m.x ∧ m'.y = m.y) ↔ path.blocked = true := by
  have hpos := hsent.pos
  have hlen := hsent.len
  have haway := hsent.away
  unfold World.mobTakeStep at hm'
  rw [if_neg (by unfold Mob.remaining; omega), hpos] at hm'
  generalize m.walkQueue.getD 0 (0, 0) = tile at haway hm'
  obtain ⟨tx, ty⟩ := tile
  have hnext := mobNextStep_ne m.dir haway
  dsimp only at hm'
  generalize mobNextStep m.x m.y m.dir tx ty = next at hnext hm'
  obtain ⟨x, y, dir⟩ := next
  dsimp only at hnext hm'
  split at hm'
  · next hblocked =>
    refine iff_of_true ?_ hblocked
    obtain ⟨m₀, hm₀, hparked⟩ := ((Drift.refl False w).mobBlocked (.npc j) m).mob hm'
    obtain rfl := Option.some.inj (hm.symm.trans hm₀)
    exact ⟨hparked.x, hparked.y⟩
  · next hfree =>
    refine iff_of_false ?_ hfree
    have hplace : m'.x = x ∧ m'.y = y := by
      split at hm'
      · rw [if_neg (by simp [MobRef.isNpc]), mob?_modify, if_pos rfl, hm] at hm'
        obtain rfl := Option.some.inj hm'
        exact stepTo_place _ x y dir
      · rw [mob?_modify, if_pos rfl, hm] at hm'
        obtain rfl := Option.some.inj hm'
        exact stepTo_place _ x y dir
    rw [hplace.1, hplace.2]
    exact hnext

/-- The walk that an NPC is sent on. -/
theorem mobProcessWalkQueue_sent {j : Nat} {m m' : Mob} (hm : w.mob? (.npc j) = some m)
    (hsent : Sent m)
    (hm' : (World.mobProcessWalkQueue w (.npc j) path).mob? (.npc j) = some m') :
    (m'.x = m.x ∧ m'.y = m.y) ↔
      (m.inCombat = true ∧ m.dir.combat = true) ∨ Alongside w m ∨ path.blocked = true := by
  have hfollow := mobFollow_sent hm hsent
  unfold World.mobProcessWalkQueue at hm'
  rw [hm] at hm'
  dsimp only at hm'
  split at hm'
  · next hcombat =>
    rw [mob?_modify, if_pos rfl, hm] at hm'
    obtain rfl := Option.some.inj hm'
    exact iff_of_true ⟨rfl, rfl⟩ (.inl hcombat)
  · next hcombat =>
    split at hm'
    · next hnone =>
      rw [hnone] at hfollow
      obtain rfl := Option.some.inj (hm.symm.trans hm')
      exact iff_of_true ⟨rfl, rfl⟩ (.inr (.inl hfollow))
    · next w₁ hsome =>
      rw [hsome] at hfollow
      obtain ⟨hfar, m₁, hm₁, hx, hy, hsent₁⟩ := hfollow
      rw [hm₁] at hm'
      have hstep := mobTakeStep_sent hm₁ hsent₁ hm'
      rw [← hx, ← hy, hstep]
      refine ⟨fun h => .inr (.inr h), fun h => ?_⟩
      exact (h.resolve_left hcombat).resolve_left hfar

theorem tileOf_modify {f : Mob → Mob} (hf : ∀ m, (f m).x = m.x ∧ (f m).y = m.y) (s : MobRef) :
    tileOf (w.modify r f) s = tileOf w s := by
  unfold tileOf
  rw [mob?_modify]
  split
  · cases w.mob? s with
    | none => rfl
    | some m => simp [hf m]
  · rfl

theorem tileOf_talkTarget (j i : Nat) (s : MobRef) :
    tileOf (w.modifyNpc j fun n => { n with talkTarget := i }) s = tileOf w s := by
  cases s with
  | player k => rfl
  | npc k =>
      unfold tileOf
      rw [mob?_npc, mob?_npc, npcs_modifyNpc]
      split
      · cases w.npcs k with
        | none => rfl
        | some n => rfl
      · rfl

theorem alongside_congr (h : ∀ s, tileOf w' s = tileOf w s) (m : Mob) :
    Alongside w' m ↔ Alongside w m := by
  unfold Alongside
  simp only [h]

/-- A mob that is sent to another tile stays where it is if it fights, if it is next
to the one it follows, or if there is something in the way. -/
theorem walkTo_stays {j tx ty : Nat} {m m' : Mob} (hm : w.mob? (.npc j) = some m)
    (haway : (tx, ty) ≠ (m.x, m.y))
    (hm' : (World.mobProcessWalkQueue (w.modify (.npc j) fun m => m.walkTo tx ty) (.npc j)
      path).mob? (.npc j) = some m') :
    (m'.x = m.x ∧ m'.y = m.y) ↔
      (m.inCombat = true ∧ m.dir.combat = true) ∨ Alongside w m ∨ path.blocked = true := by
  have hsent : (w.modify (.npc j) fun m => m.walkTo tx ty).mob? (.npc j) =
      some (m.walkTo tx ty) := by
    rw [mob?_modify, if_pos rfl, hm]
    rfl
  have hwalk := mobProcessWalkQueue_sent hsent (sent_walkTo haway) hm'
  have htiles : ∀ s, tileOf (w.modify (.npc j) fun m => m.walkTo tx ty) s = tileOf w s :=
    tileOf_modify fun _ => ⟨rfl, rfl⟩
  have halong : Alongside (w.modify (.npc j) fun m => m.walkTo tx ty) (m.walkTo tx ty) ↔
      Alongside w m := alongside_congr htiles m
  rw [halong] at hwalk
  exact hwalk

/-- What makes the NPC a player talks to step aside: it is on the tile the player is
on, it is not fighting, it follows nobody next to it, and it is free to go. -/
structure StepsAside (w : World) (i x y : Nat) (c : Chance) (n : Npc) : Prop where
  there : ∃ p, w.players i = some p ∧ p.mob.x = x ∧ p.mob.y = y
  beside : besideOf x y c.beside ≠ (n.mob.x, n.mob.y)
  peaceful : ¬ (n.mob.inCombat = true ∧ n.mob.dir.combat = true)
  alone : ¬ Alongside w n.mob
  free : c.path.blocked = false

theorem unmoved_iff {m m' : Mob} {q : Prop} (h : m' = m) (hq : ¬ q) :
    ¬ (m'.x = m.x ∧ m'.y = m.y) ↔ q := by
  rw [h]
  exact iff_of_false (fun hmoved => hmoved ⟨rfl, rfl⟩) hq

/-- The NPC is sent aside, unless that is where it is. -/
theorem sendAside_moves {j tx ty : Nat} {m m' : Mob} (hm : w.mob? (.npc j) = some m)
    (hm' : (if (w.mob? (.npc j)).any fun m => m.x != tx || m.y != ty then
        World.mobProcessWalkQueue (w.modify (.npc j) fun m => m.walkTo tx ty) (.npc j) path
      else w).mob? (.npc j) = some m') :
    ¬ (m'.x = m.x ∧ m'.y = m.y) ↔ (tx, ty) ≠ (m.x, m.y) ∧
      ¬ (m.inCombat = true ∧ m.dir.combat = true) ∧ ¬ Alongside w m ∧ path.blocked = false := by
  by_cases haway : (tx, ty) = (m.x, m.y)
  · obtain ⟨rfl, rfl⟩ := Prod.mk.inj haway
    rw [hm, if_neg (by simp), hm] at hm'
    exact unmoved_iff (Option.some.inj hm').symm fun h => h.1 rfl
  · have hne : (Option.any (fun m : Mob => m.x != tx || m.y != ty) (some m)) = true := by
      have htile : ¬ (m.x = tx ∧ m.y = ty) := fun h => haway (Prod.ext h.1.symm h.2.symm)
      simpa [imp_iff_not_or] using htile
    rw [hm, if_pos hne] at hm'
    rw [walkTo_stays hm haway hm']
    simp [haway]

theorem npcTalkReturn_moves {i j x y : Nat} {result : Bool} {c : Chance} {n n' : Npc}
    (hn : w.npcs j = some n) (hn' : (npcTalkReturn w i j x y result c).npcs j = some n') :
    ¬ (n'.mob.x = n.mob.x ∧ n'.mob.y = n.mob.y) ↔ result = true ∧ StepsAside w i x y c n := by
  have hm' : (npcTalkReturn w i j x y result c).mob? (.npc j) = some n'.mob := by
    rw [mob?_npc, hn']
    rfl
  have hm : w.mob? (.npc j) = some n.mob := by
    rw [mob?_npc, hn]
    rfl
  have htalk : (w.modifyNpc j fun n => { n with talkTarget := i }).mob? (.npc j) =
      some n.mob := by
    rw [mob?_npc, npcs_modifyNpc, if_pos rfl, hn]
    rfl
  unfold npcTalkReturn at hm'
  split at hm'
  · next hnone =>
    refine unmoved_iff (Option.some.inj (hm'.symm.trans hm)) fun h => ?_
    obtain ⟨p, hp, -⟩ := h.2.there
    rw [hnone] at hp
    cases hp
  · next p hp =>
    cases result with
    | false => exact unmoved_iff (Option.some.inj (hm'.symm.trans hm)) (by simp)
    | true =>
        rw [if_neg (by simp)] at hm'
        dsimp only at hm'
        split at hm'
        · next hthere =>
          have hthere' : ∃ p, w.players i = some p ∧ p.mob.x = x ∧ p.mob.y = y := ⟨p, hp, hthere⟩
          rw [sendAside_moves htalk hm', alongside_congr (tileOf_talkTarget j i)]
          constructor
          · rintro ⟨hbeside, hpeaceful, halone, hfree⟩
            exact ⟨rfl, hthere', hbeside, hpeaceful, halone, hfree⟩
          · rintro ⟨-, h⟩
            exact ⟨h.beside, h.peaceful, h.alone, h.free⟩
        · next hthere =>
          refine unmoved_iff (Option.some.inj (hm'.symm.trans htalk)) fun h => ?_
          obtain ⟨p', hp', hx, hy⟩ := h.2.there
          obtain rfl := Option.some.inj (hp.symm.trans hp')
          exact hthere ⟨hx, hy⟩

/-- The NPC is there. -/
def There (j : Nat) (w : World) : Prop := ∃ n, w.npcs j = some n

theorem There.modifyNpc {j k : Nat} (h : There j w) (f : Npc → Npc) : There j (w.modifyNpc k f) := by
  obtain ⟨n, hn⟩ := h
  by_cases hk : j = k
  · exact ⟨f n, by rw [npcs_modifyNpc, if_pos hk, hn]; rfl⟩
  · exact ⟨n, by rw [npcs_modifyNpc, if_neg hk, hn]⟩

theorem There.modify {j : Nat} (h : There j w) (r : MobRef) (f : Mob → Mob) :
    There j (w.modify r f) := by
  cases r with
  | player i => exact h
  | npc k => exact h.modifyNpc _

/-- Nothing that is written makes it go away. -/
theorem still_there (j : Nat) : Still (There j) where
  light h _ := h.modify _ _
  modifyPlayer h _ := h
  modifyNpc h _ := h.modifyNpc _
  push h _ := h
  modify h _ := h.modify _ _
  wound h _ := h.modifyNpc _

theorem mobProcessWalkQueue_there {j : Nat} (h : There j w) (r : MobRef) (path : Path) :
    There j (World.mobProcessWalkQueue w r path) := by
  unfold World.mobProcessWalkQueue
  split
  · exact h
  · split
    · exact h.modify _ _
    · split
      · exact h
      · next w₁ hfollow =>
        have h₁ := (still_there j).mobFollow h hfollow
        split
        · exact h₁
        · next m _ =>
          unfold World.mobTakeStep
          split
          · exact h₁.modify _ _
          · dsimp only
            split
            · exact (still_there j).mobBlocked h₁ r m
            · split
              · split
                · exact h₁.modify _ _
                · exact h₁.modify _ _
              · exact h₁.modify _ _

theorem npcTalkReturn_there {j : Nat} (h : There j w) (i x y : Nat) (result : Bool) (c : Chance) :
    There j (npcTalkReturn w i j x y result c) :=
  (still_there j).npcTalkReturn h fun htalk _ _ _ _ _ _ =>
    mobProcessWalkQueue_there (htalk.modify _ _) _ _

end Sundae.Proofs
