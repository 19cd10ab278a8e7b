import Sundae.Proofs.Ground
import Sundae.Ref.Sight

/-!
# What becomes of a ground item

Whatever happens on the ground, an item that is there afterwards is one that was
there before, on its tile and with its owner and its time of creation; or it has
a unique id that none had. Only quantities and respawn times change.
-/

namespace Sundae.Proofs

open Sundae.Ref Sundae.Lib

/-- The spawns of the map and the temporary items. -/
def groundItems (s : Server) : List GroundItem := s.zoneItems ++ s.tempItems

/-- What a copy of an item keeps in common with it. -/
structure SameItem (a a' : GroundItem) : Prop where
  uniqueId : a'.uniqueId = a.uniqueId
  id : a'.id = a.id
  x : a'.x = a.x
  y : a'.y = a.y
  owner : a'.owner = a.owner
  creationTime : a'.creationTime = a.creationTime

theorem SameItem.refl (a : GroundItem) : SameItem a a := ⟨rfl, rfl, rfl, rfl, rfl, rfl⟩

theorem SameItem.trans {a b c : GroundItem} (h : SameItem a b) (h' : SameItem b c) :
    SameItem a c :=
  ⟨h'.uniqueId.trans h.uniqueId, h'.id.trans h.id, h'.x.trans h.x, h'.y.trans h.y,
    h'.owner.trans h.owner, h'.creationTime.trans h.creationTime⟩

/-- Unique ids are unique, and were given out by the counter. -/
structure UidsOk (s : Server) : Prop where
  nodup : ((groundItems s).map GroundItem.uniqueId).Nodup
  fresh : ∀ a ∈ groundItems s, a.uniqueId < s.groundItemCounter

structure Evolves (s s' : Server) : Prop where
  tick : s.tickCounter ≤ s'.tickCounter
  counter : s.groundItemCounter ≤ s'.groundItemCounter
  items : ∀ a' ∈ groundItems s', (∃ a ∈ groundItems s, SameItem a a') ∨
    s.groundItemCounter ≤ a'.uniqueId
  uids : UidsOk s → UidsOk s'

theorem Evolves.refl (s : Server) : Evolves s s :=
  ⟨Nat.le_refl _, Nat.le_refl _, fun a ha => .inl ⟨a, ha, .refl a⟩, fun h => h⟩

theorem Evolves.trans {s s' s'' : Server} (h : Evolves s s') (h' : Evolves s' s'') :
    Evolves s s'' where
  tick := Nat.le_trans h.tick h'.tick
  counter := Nat.le_trans h.counter h'.counter
  items a'' ha'' := by
    rcases h'.items a'' ha'' with ⟨a', ha', hsame'⟩ | hnew
    · rcases h.items a' ha' with ⟨a, ha, hsame⟩ | hnew
      · exact .inl ⟨a, ha, hsame.trans hsame'⟩
      · exact .inr (by rw [hsame'.uniqueId]; exact hnew)
    · exact .inr (Nat.le_trans h.counter hnew)
  uids hs := h'.uids (h.uids hs)

/-- The items, the counter and the clock are all that counts. -/
theorem Evolves.of_same {s s' : Server} (hzone : s'.zoneItems = s.zoneItems)
    (htemp : s'.tempItems = s.tempItems) (htick : s'.tickCounter = s.tickCounter)
    (hcounter : s'.groundItemCounter = s.groundItemCounter) : Evolves s s' := by
  have hitems : groundItems s' = groundItems s := by rw [groundItems, hzone, htemp, groundItems]
  refine ⟨Nat.le_of_eq htick.symm, Nat.le_of_eq hcounter.symm,
    fun a ha => .inl ⟨a, by rwa [← hitems], .refl a⟩, fun h => ?_⟩
  exact ⟨by rw [hitems]; exact h.nodup, by rw [hitems, hcounter]; exact h.fresh⟩

theorem Evolves.modify (s : Server) (i : Nat) (f : Player → Player) :
    Evolves s (s.modify i f) := .of_same rfl rfl rfl rfl

theorem Evolves.add (s : Server) (owner : Option Nat) (x y id stack : Nat) :
    Evolves s (serverAddTempItem s owner x y id stack) := by
  obtain ⟨item, -, -, -, huid, heq⟩ := serverAddTempItem_eq s owner x y id stack
  rw [heq]
  have hitems : ∀ n, groundItems { s with
      tempItems := s.tempItems ++ [item], groundItemCounter := n } = groundItems s ++ [item] :=
    fun n => (List.append_assoc _ _ _).symm
  refine ⟨Nat.le_refl _, Nat.le_succ _, fun a ha => ?_, fun h => ⟨?_, fun a ha => ?_⟩⟩
  · rw [hitems] at ha
    rcases List.mem_append.1 ha with ha | ha
    · exact .inl ⟨a, ha, .refl a⟩
    · obtain rfl := List.mem_singleton.1 ha
      exact .inr (Nat.le_of_eq huid.symm)
  · rw [hitems, List.map_append, List.nodup_append]
    refine ⟨h.nodup, by simp, fun u hu u' hu' => ?_⟩
    obtain ⟨a, ha, rfl⟩ := List.mem_map.1 hu
    obtain rfl : u' = item.uniqueId := by simpa using hu'
    rw [huid]
    exact Nat.ne_of_lt (h.fresh a ha)
  · rw [hitems] at ha
    show a.uniqueId < s.groundItemCounter + 1
    rcases List.mem_append.1 ha with ha | ha
    · exact Nat.lt_succ_of_lt (h.fresh a ha)
    · obtain rfl := List.mem_singleton.1 ha
      rw [huid]
      exact Nat.lt_succ_self _

theorem Evolves.addAll (owner : Option Nat) (x y id : Nat) (piles : List Nat) (s : Server) :
    Evolves s (addTempItems owner x y id piles s) := by
  induction piles generalizing s with
  | nil => exact .refl s
  | cons stack piles ih => exact (Evolves.add s owner x y id stack).trans (ih _)

/-- Temporary items taken out, at the same tick or a later one. -/
theorem Evolves.sublist {s : Server} {temp : List GroundItem} (hsub : temp.Sublist s.tempItems)
    {tick : Nat} (htick : s.tickCounter ≤ tick) :
    Evolves s { s with tempItems := temp, tickCounter := tick } := by
  have hitems : (groundItems { s with tempItems := temp, tickCounter := tick }).Sublist
      (groundItems s) := List.Sublist.append (.refl _) hsub
  refine ⟨htick, Nat.le_refl _, fun a ha => .inl ⟨a, hitems.subset ha, .refl a⟩, fun h => ?_⟩
  exact ⟨h.nodup.sublist (hitems.map _), fun a ha => h.fresh a (hitems.subset ha)⟩

theorem Evolves.remove (s : Server) (uniqueId : Nat) :
    Evolves s (serverRemoveTempItem s uniqueId) :=
  .sublist (sweep_sublist s.tempItems) (Nat.le_refl s.tickCounter)

theorem Evolves.expire (s : Server) : Evolves s (serverExpireItems s) :=
  .sublist (sweep_sublist s.tempItems) (Nat.le_succ s.tickCounter)

theorem mem_modify_same {f : GroundItem → GroundItem} (hf : ∀ a, SameItem a (f a))
    {l : List GroundItem} {k : Nat} {a' : GroundItem} (h : a' ∈ l.modify k f) :
    ∃ a ∈ l, SameItem a a' := by
  obtain ⟨n, hn, rfl⟩ := List.mem_iff_getElem.1 h
  rw [List.length_modify] at hn
  refine ⟨l[n], List.getElem_mem hn, ?_⟩
  rw [List.getElem_modify]
  split
  · exact hf _
  · exact .refl _

theorem map_uniqueId_modify {f : GroundItem → GroundItem} (hf : ∀ a, SameItem a (f a))
    (l : List GroundItem) (k : Nat) :
    (l.modify k f).map GroundItem.uniqueId = l.map GroundItem.uniqueId := by
  refine List.ext_getElem (by simp) fun n h1 h2 => ?_
  rw [List.getElem_map, List.getElem_map, List.getElem_modify]
  split
  · exact (hf _).uniqueId
  · rfl

/-- A write through the pointer to an item that keeps what is in common. -/
theorem Evolves.modifyGround (s : Server) {f : GroundItem → GroundItem}
    (hf : ∀ a, SameItem a (f a)) (ref : GroundRef) : Evolves s (s.modifyGround f ref) := by
  have hmap : (groundItems (s.modifyGround f ref)).map GroundItem.uniqueId =
      (groundItems s).map GroundItem.uniqueId := by
    cases ref with
    | zone k => simp [groundItems, Server.modifyGround, map_uniqueId_modify hf]
    | temp k => simp [groundItems, Server.modifyGround, map_uniqueId_modify hf]
  have hmem : ∀ a' ∈ groundItems (s.modifyGround f ref), ∃ a ∈ groundItems s, SameItem a a' := by
    intro a' ha'
    cases ref with
    | zone k =>
      rcases List.mem_append.1 ha' with ha' | ha'
      · obtain ⟨a, ha, hsame⟩ := mem_modify_same hf ha'
        exact ⟨a, List.mem_append_left _ ha, hsame⟩
      · exact ⟨a', List.mem_append_right _ ha', .refl a'⟩
    | temp k =>
      rcases List.mem_append.1 ha' with ha' | ha'
      · exact ⟨a', List.mem_append_left _ ha', .refl a'⟩
      · obtain ⟨a, ha, hsame⟩ := mem_modify_same hf ha'
        exact ⟨a, List.mem_append_right _ ha, hsame⟩
  have htick : (s.modifyGround f ref).tickCounter = s.tickCounter := by cases ref <;> rfl
  have hcounter : (s.modifyGround f ref).groundItemCounter = s.groundItemCounter := by
    cases ref <;> rfl
  refine ⟨Nat.le_of_eq htick.symm, Nat.le_of_eq hcounter.symm, fun a' ha' => .inl (hmem a' ha'),
    fun h => ⟨?_, fun a' ha' => ?_⟩⟩
  · rw [hmap]
    exact h.nodup
  · obtain ⟨a, ha, hsame⟩ := hmem a' ha'
    rw [hcounter, hsame.uniqueId]
    exact h.fresh a ha

theorem Evolves.respawn (s : Server) (time : Nat) (ref : GroundRef) :
    Evolves s (s.modifyGround (fun item => { item with respawnTime := time }) ref) := by
  refine .modifyGround s (fun a => ?_) ref
  exact ⟨rfl, rfl, rfl, rfl, rfl, rfl⟩

theorem Evolves.restack (s : Server) (stack : Nat → Nat) (ref : GroundRef) :
    Evolves s (s.modifyGround (fun item => { item with stack := stack item.stack }) ref) := by
  refine .modifyGround s (fun a => ?_) ref
  exact ⟨rfl, rfl, rfl, rfl, rfl, rfl⟩

/-! ## The events -/

variable {t : ItemTable} {s s' : Server}

theorem Evolves.give (s : Server) (i : Nat) (item : ItemConfig) (count : Nat) :
    Evolves s (playerInvGive s i item count) :=
  (Evolves.modify s i _).trans (.addAll ..)

theorem Evolves.drop {i slot : Nat} (h : playerActionInvDrop t s i slot = .ok s') :
    Evolves s s' := by
  unfold playerActionInvDrop at h
  dsimp only at h
  split at h
  · obtain rfl := Except.ok.inj h
    exact .refl s
  · split at h
    · obtain rfl := Except.ok.inj h
      exact .refl s
    · split at h
      · cases h
      · split at h
        · cases h
        · next s₁ hremove =>
          obtain rfl := Except.ok.inj h
          refine Evolves.trans ?_ (.add s₁ ..)
          unfold playerInvRemoveId at hremove
          split at hremove
          · cases hremove
          · split at hremove
            · cases hremove
            · obtain rfl := Except.ok.inj hremove
              exact .modify s i _

theorem Evolves.take {i x y id : Nat} (h : playerActionItemTake t s i x y id = .ok s') :
    Evolves s s' := by
  unfold playerActionItemTake playerTakeobject at h
  split at h
  · obtain rfl := Except.ok.inj h
    exact .refl s
  · split at h
    · split at h
      · obtain rfl := Except.ok.inj h
        exact .refl s
      · split at h
        · obtain rfl := Except.ok.inj h
          exact .refl s
        · split at h
          · cases h
          · dsimp only at h
            split at h
            · obtain rfl := Except.ok.inj h
              exact (Evolves.give ..).trans (.respawn ..)
            · obtain rfl := Except.ok.inj h
              exact (Evolves.give ..).trans (.remove ..)
    · obtain rfl := Except.ok.inj h
      exact .refl s

theorem Evolves.shoot {i : Nat} {name : List Char} {x y : Nat} {kept : Bool} {b : Bool}
    (h : playerConsumeAmmo t s i name x y kept = .ok (s', b)) : Evolves s s' := by
  unfold playerConsumeAmmo at h
  split at h
  · obtain ⟨rfl, -⟩ := Prod.mk.inj (Except.ok.inj h)
    exact .refl s
  · split at h
    · cases h
    · obtain ⟨rfl, -⟩ := Prod.mk.inj (Except.ok.inj h)
      exact .refl s
    · split at h
      · cases h
      · next s₁ hremove =>
        have hremoved : Evolves s s₁ := by
          unfold playerInvRemove at hremove
          split at hremove
          · cases hremove
          · split at hremove
            · cases hremove
            · obtain rfl := Except.ok.inj hremove
              exact .modify s i _
        split at h
        · split at h
          · obtain ⟨rfl, -⟩ := Prod.mk.inj (Except.ok.inj h)
            exact hremoved.trans (.restack s₁ (fun stack => (stack + 1) % u32Size) _)
          · obtain ⟨rfl, -⟩ := Prod.mk.inj (Except.ok.inj h)
            exact hremoved.trans (.add ..)
        · obtain ⟨rfl, -⟩ := Prod.mk.inj (Except.ok.inj h)
          exact hremoved

theorem Evolves.ground {e : GroundEvent} (h : groundStep t s e = .ok s') : Evolves s s' := by
  cases e with
  | drop i slot =>
    simp only [groundStep] at h
    split at h
    · exact .drop h
    · obtain rfl := Except.ok.inj h
      exact .refl s
  | take i x y id =>
    simp only [groundStep] at h
    split at h
    · exact .take h
    · obtain rfl := Except.ok.inj h
      exact .refl s
  | shoot i name x y kept =>
    simp only [groundStep] at h
    split at h
    · split at h
      · cases h
      · next hshoot =>
        obtain rfl := Except.ok.inj h
        exact .shoot hshoot
    · obtain rfl := Except.ok.inj h
      exact .refl s
  | expire =>
    obtain rfl := Except.ok.inj h
    exact .expire s

theorem Evolves.delobject (t : ItemTable) (s : Server) (i : Nat) (name : List Char) (x y : Nat) :
    Evolves s (scriptDelobject t s i name x y) := by
  unfold scriptDelobject
  split
  · exact .refl s
  · split
    · exact .refl s
    · split
      · exact .refl s
      · split
        · exact .respawn s ..
        · exact .remove s _

end Sundae.Proofs
