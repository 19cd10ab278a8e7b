import Sundae.Lib.Mirror
import Sundae.Proofs.Delivery
import Sundae.Proofs.Evolve

/-!
# What the client holds of the ground

The client holds the keys of the known items: that is kept as long as no packet
with something in it is refused. After an update the known items around are those
the player can see, unless an identical item on the tile keeps one on the list
that is gone, or a spawn is in a zone that is never looked into.
-/

namespace Sundae.Proofs

open Sundae.Lib Sundae.Ref

variable {s : Server} {v : Viewer}

/-! ## Reading a packet -/

/-- A tile that a signed byte reaches. -/
structure InByte (v : Viewer) (item : GroundItem) : Prop where
  x : (item.x : Int) - v.x < 128 ∧ -128 ≤ (item.x : Int) - v.x
  y : (item.y : Int) - v.y < 128 ∧ -128 ≤ (item.y : Int) - v.y

theorem signed_relative {x origin : Nat} (h : (x : Int) - origin < 128 ∧ -128 ≤ (x : Int) - origin) :
    ((origin : Int) + signed (relative x origin)).toNat = x := by
  have hbyte : signed (relative x origin) = (x : Int) - origin := by
    unfold signed relative
    rw [UInt8.ofInt, UInt8.toBitVec_ofNat', BitVec.toInt_ofNat',
      Int.toNat_of_nonneg (Int.emod_nonneg _ (by decide))]
    exact (Int.emod_bmod (n := 256) ..).trans (Int.bmod_eq_of_le (by omega) (by omega))
  rw [hbyte]
  omega

theorem read_u16 {id : Nat} (h : id < 65536) :
    (UInt8.ofNat (id / 256)).toNat * 256 + (UInt8.ofNat id).toNat = id := by
  simp only [UInt8.toNat_ofNat']
  omega

theorem or_high {id : Nat} (h : id < 0x8000) : id ||| 0x8000 = 0x8000 + id := by
  have hor := Nat.two_pow_add_eq_or_of_lt (i := 15) h 1
  simp only [Nat.mul_one] at hor
  rw [Nat.or_comm]
  exact hor.symm

theorem readItems_gone {item : GroundItem} (hid : item.id < 0x8000) (h : InByte v item)
    (rest : List UInt8) (held : List ItemKey) :
    readItems v.x v.y (goneRecord v item ++ rest) held =
      readItems v.x v.y rest (held.erase item.key) := by
  show readItems v.x v.y (_ :: _ :: _ :: _ :: rest) held = _
  rw [readItems.eq_1]
  simp only [or_high hid]
  rw [read_u16 (by omega), signed_relative h.x, signed_relative h.y, if_pos (by omega),
    Nat.add_sub_cancel_left]
  rfl

theorem readItems_new {item : GroundItem} (hid : item.id < 0x8000) (h : InByte v item)
    (rest : List UInt8) (held : List ItemKey) :
    readItems v.x v.y (newRecord v item ++ rest) held =
      readItems v.x v.y rest (item.key :: held) := by
  show readItems v.x v.y (_ :: _ :: _ :: _ :: rest) held = _
  rw [readItems.eq_1]
  rw [read_u16 (by omega), signed_relative h.x, signed_relative h.y, if_neg (by omega)]
  rfl

/-- A packet is read record by record. -/
theorem readItems_records {gone new : List GroundItem}
    (hgone : ∀ item ∈ gone, item.id < 0x8000 ∧ InByte v item)
    (hnew : ∀ item ∈ new, item.id < 0x8000 ∧ InByte v item) (held : List ItemKey) :
    readItems v.x v.y (gone.flatMap (goneRecord v) ++ new.flatMap (newRecord v)) held =
      (new.map GroundItem.key).reverse ++ held.diff (gone.map GroundItem.key) := by
  induction gone generalizing held with
  | cons item gone ih =>
    obtain ⟨hid, hbyte⟩ := hgone item List.mem_cons_self
    rw [List.flatMap_cons, List.append_assoc, readItems_gone hid hbyte, List.map_cons,
      List.diff_cons]
    exact ih (fun a ha => hgone a (List.mem_cons_of_mem _ ha)) _
  | nil =>
    simp only [List.flatMap_nil, List.nil_append, List.map_nil, List.diff_nil]
    induction new generalizing held with
    | nil => rfl
    | cons item new ih =>
      obtain ⟨hid, hbyte⟩ := hnew item List.mem_cons_self
      rw [List.flatMap_cons, readItems_new hid hbyte, List.map_cons, List.reverse_cons,
        List.append_assoc]
      exact ih (fun a ha => hnew a (List.mem_cons_of_mem _ ha)) _

/-! ## What is around -/

theorem withinUpdateRadius_iff {x y range : Nat} :
    withinUpdateRadius v x y range = true ↔
      ∃ orig zone, serverFindZone v.x v.y = some orig ∧ serverFindZone x y = some zone ∧
        zone.plane = orig.plane ∧ absDiff zone.x orig.x ≤ range ∧ absDiff zone.y orig.y ≤ range := by
  unfold withinUpdateRadius
  cases serverFindZone v.x v.y with
  | none => simp
  | some orig =>
    cases serverFindZone x y with
    | none => simp
    | some zone =>
      simp only [Bool.and_eq_true, beq_iff_eq, decide_eq_true_eq]
      constructor
      · rintro ⟨⟨hplane, hx⟩, hy⟩
        exact ⟨orig, zone, rfl, rfl, hplane.symm, hx, hy⟩
      · rintro ⟨orig', zone', horig, hzone, hplane, hx, hy⟩
        obtain rfl := Option.some.inj horig
        obtain rfl := Option.some.inj hzone
        exact ⟨⟨hplane.symm, hx⟩, hy⟩

theorem withinUpdateRadius_mono {x y m n : Nat} (h : withinUpdateRadius v x y m = true)
    (hmn : m ≤ n) : withinUpdateRadius v x y n = true := by
  obtain ⟨orig, zone, horig, hzone, hplane, hx, hy⟩ := withinUpdateRadius_iff.1 h
  exact withinUpdateRadius_iff.2
    ⟨orig, zone, horig, hzone, hplane, Nat.le_trans hx hmn, Nat.le_trans hy hmn⟩

/-- Where a zone is, and on which plane. -/
theorem serverFindZone_spec {x y : Nat} {zone : Zone} (h : serverFindZone x y = some zone) :
    zone.x = x / 8 ∧ zone.y = (y - zone.plane * 944) / 8 ∧ zone.plane * 944 ≤ y ∧
      zone.x < zoneTotalX ∧ zone.y < zoneTotalY ∧ zone.plane < zoneMaxPlane := by
  unfold serverFindZone at h
  dsimp only at h
  have hplane : (if planeLevelInc < y then y / planeLevelInc else 0) * 944 ≤ y := by
    split
    · simp only [planeLevelInc]
      omega
    · omega
  generalize (if planeLevelInc < y then y / planeLevelInc else 0) = plane at h hplane
  split at h
  · cases h
  · next hin =>
    split at h
    · cases h
    · next hplanes =>
      obtain rfl := Option.some.inj h
      simp only [zoneMaxX, zoneMaxY, planeLevelInc, zoneMaxPlane] at hin hplanes
      simp only [zoneTotalX, zoneTotalY, zoneMaxX, zoneMaxY, zoneWidth, zoneMaxPlane,
        planeLevelInc]
      exact ⟨trivial, trivial, hplane, by omega, by omega, by omega⟩

/-- Three zones are less than a byte's reach. -/
theorem inByte_of_within {item : GroundItem} (h : withinUpdateRadius v item.x item.y 3 = true) :
    InByte v item := by
  obtain ⟨orig, zone, horig, hzone, hplane, hx, hy⟩ := withinUpdateRadius_iff.1 h
  obtain ⟨hox, hoy, hole, -⟩ := serverFindZone_spec horig
  obtain ⟨hzx, hzy, hzle, -⟩ := serverFindZone_spec hzone
  unfold absDiff at hx hy
  rw [hplane] at hzy hzle
  generalize orig.plane * 944 = level at *
  exact ⟨by omega, by omega⟩

theorem sqrt_lt_128 {a b : Nat} (h : Nat.sqrt (a ^ 2 + b ^ 2) < 128) : a < 128 ∧ b < 128 := by
  have hlt := Nat.sqrt_lt'.1 h
  constructor
  · by_contra hge
    have hsq : 128 ^ 2 ≤ a ^ 2 := Nat.pow_le_pow_left (by omega) 2
    omega
  · by_contra hge
    have hsq : 128 ^ 2 ≤ b ^ 2 := Nat.pow_le_pow_left (by omega) 2
    omega

theorem inByte_of_gone {item : GroundItem} (h : itemGone s v item = true) : InByte v item := by
  have hdist := of_decide_eq_true (Bool.and_eq_true_iff.1 h).2
  obtain ⟨hx, hy⟩ := sqrt_lt_128 hdist
  exact ⟨by omega, by omega⟩

/-- Two zones away is close enough for an item to be told it is to go. -/
theorem distance_of_within {item : GroundItem} (h : withinUpdateRadius v item.x item.y 2 = true) :
    v.distance item.x item.y < 128 := by
  obtain ⟨orig, zone, horig, hzone, hplane, hx, hy⟩ := withinUpdateRadius_iff.1 h
  obtain ⟨hox, hoy, hole, -⟩ := serverFindZone_spec horig
  obtain ⟨hzx, hzy, hzle, -⟩ := serverFindZone_spec hzone
  unfold absDiff at hx hy
  rw [hplane] at hzy hzle
  generalize orig.plane * 944 = level at *
  have hdx : ((item.x : Int) - v.x).natAbs ≤ 23 := by omega
  have hdy : ((item.y : Int) - v.y).natAbs ≤ 23 := by omega
  unfold Viewer.distance
  rw [Nat.sqrt_lt']
  have hx2 := Nat.pow_le_pow_left hdx 2
  have hy2 := Nat.pow_le_pow_left hdy 2
  omega

theorem serverGetZone_spec {x y : Int} {plane : Nat} {zone : Zone}
    (h : serverGetZone x y plane = some zone) :
    (zone.x : Int) = x ∧ (zone.y : Int) = y ∧ zone.plane = plane := by
  unfold serverGetZone at h
  split at h
  · cases h
  · split at h
    · cases h
    · obtain rfl := Option.some.inj h
      exact ⟨Int.toNat_of_nonneg (by omega), Int.toNat_of_nonneg (by omega), rfl⟩

theorem mem_zoneOffsets {d : Int} : d ∈ zoneOffsets ↔ -2 ≤ d ∧ d ≤ 2 := by
  simp only [zoneOffsets, List.mem_cons, List.not_mem_nil, or_false]
  omega

/-- The zones around are those within two that are not in the first row or column. -/
theorem mem_zonesAround {orig zone : Zone} :
    zone ∈ zonesAround orig ↔ zone ≠ orig ∧ zone.plane = orig.plane ∧
      absDiff zone.x orig.x ≤ 2 ∧ absDiff zone.y orig.y ≤ 2 ∧
      1 ≤ zone.x ∧ 1 ≤ zone.y ∧ zone.x < zoneTotalX ∧ zone.y < zoneTotalY ∧
      zone.plane < zoneMaxPlane := by
  unfold zonesAround absDiff
  simp only [List.mem_flatMap, List.mem_filterMap, mem_zoneOffsets]
  constructor
  · rintro ⟨dx, hdx, dy, hdy, h⟩
    split at h
    · cases h
    · next hne =>
      obtain ⟨hx, hy, hplane⟩ := serverGetZone_spec h
      unfold serverGetZone at h
      split at h
      · cases h
      · split at h
        · cases h
        · refine ⟨?_, hplane, by omega, by omega, by omega, by omega, by omega, by omega, by omega⟩
          rintro rfl
          exact hne ⟨by omega, by omega⟩
  · rintro ⟨hne, hplane, hx, hy, hx1, hy1, hx2, hy2, hz⟩
    refine ⟨(zone.x : Int) - orig.x, by omega, (zone.y : Int) - orig.y, by omega, ?_⟩
    rw [if_neg ?_, show (orig.x : Int) + (zone.x - orig.x) = zone.x by omega,
      show (orig.y : Int) + (zone.y - orig.y) = zone.y by omega]
    · unfold serverGetZone
      rw [if_neg (by omega), if_neg (by omega), ← hplane]
      rfl
    · rintro ⟨h0x, h0y⟩
      refine hne ?_
      obtain ⟨zx, zy, zp⟩ := zone
      obtain ⟨ox, oy, op⟩ := orig
      simp only [Zone.mk.injEq] at *
      exact ⟨by omega, by omega, hplane⟩

theorem zonesAround_nodup (orig : Zone) : (orig :: zonesAround orig).Nodup := by
  refine List.nodup_cons.2 ⟨fun h => (mem_zonesAround.1 h).1 rfl, ?_⟩
  unfold zonesAround
  rw [List.nodup_flatMap]
  have hoffsets : zoneOffsets.Nodup := by decide
  have hspec : ∀ {dx dy : Int} {zone : Zone}, (if dx = 0 ∧ dy = 0 then none
      else serverGetZone (orig.x + dx) (orig.y + dy) orig.plane) = some zone →
      (zone.x : Int) = orig.x + dx ∧ (zone.y : Int) = orig.y + dy := by
    intro dx dy zone h
    split at h
    · cases h
    · obtain ⟨hx, hy, -⟩ := serverGetZone_spec h
      exact ⟨hx, hy⟩
  refine ⟨fun dx _ => hoffsets.filterMap fun dy dy' zone h h' => ?_, ?_⟩
  · have hy := (hspec h).2
    have hy' := (hspec h').2
    omega
  · refine hoffsets.imp fun {dx dx'} hne => ?_
    intro zone h h'
    obtain ⟨dy, -, h⟩ := List.mem_filterMap.1 h
    obtain ⟨dy', -, h'⟩ := List.mem_filterMap.1 h'
    have hx := (hspec h).1
    have hx' := (hspec h').1
    omega

/-- A spawn in the first row or column of zones, which is looked into only by a
player in it. -/
def Edge (v : Viewer) (item : GroundItem) : Prop :=
  ∃ zone, serverFindZone item.x item.y = some zone ∧ serverFindZone v.x v.y ≠ some zone ∧
    (zone.x = 0 ∨ zone.y = 0)

theorem mem_itemsAround {item : GroundItem} (h : item ∈ itemsAround s v) :
    item ∈ groundItems s ∧ playerCanSeeItem s v.id item = true ∧
      withinUpdateRadius v item.x item.y 3 = true := by
  unfold itemsAround at h
  split at h
  · cases h
  · next orig horig =>
    obtain ⟨hitem, hsee⟩ := List.mem_filter.1 h
    rcases List.mem_append.1 hitem with hitem | hitem
    · obtain ⟨zone, hzone, hitem⟩ := List.mem_flatMap.1 hitem
      obtain ⟨hitem, hhome⟩ := List.mem_filter.1 hitem
      refine ⟨List.mem_append_left _ hitem, hsee, withinUpdateRadius_iff.2
        ⟨orig, zone, horig, by simpa using hhome, ?_⟩⟩
      rcases List.mem_cons.1 hzone with rfl | hzone
      · exact ⟨rfl, by simp [absDiff], by simp [absDiff]⟩
      · obtain ⟨-, hplane, hx, hy, -⟩ := mem_zonesAround.1 hzone
        exact ⟨hplane, by omega, by omega⟩
    · obtain ⟨hitem, hzone⟩ := List.mem_filter.1 hitem
      refine ⟨List.mem_append_right _ hitem, hsee, ?_⟩
      split at hzone
      · cases hzone
      · next zone hhome =>
        simp only [Bool.and_eq_true, beq_iff_eq, decide_eq_true_eq] at hzone
        exact withinUpdateRadius_iff.2 ⟨orig, zone, horig, hhome, hzone.1.1, hzone.1.2, hzone.2⟩

/-- Whatever the player can see within two zones is come to, but for spawns on the
edge. -/
theorem itemsAround_complete {item : GroundItem} (hitem : item ∈ groundItems s)
    (hsee : playerCanSeeItem s v.id item = true)
    (hnear : withinUpdateRadius v item.x item.y 2 = true)
    (hedge : item ∈ s.zoneItems → ¬ Edge v item) : item ∈ itemsAround s v := by
  obtain ⟨orig, zone, horig, hzone, hplane, hx, hy⟩ := withinUpdateRadius_iff.1 hnear
  unfold itemsAround
  rw [horig]
  refine List.mem_filter.2 ⟨?_, hsee⟩
  rcases List.mem_append.1 hitem with hitem | hitem
  · refine List.mem_append_left _ (List.mem_flatMap.2 ⟨zone, ?_, List.mem_filter.2
      ⟨hitem, by simpa using hzone⟩⟩)
    by_cases hown : zone = orig
    · exact hown ▸ List.mem_cons_self
    · have hin : ¬ (zone.x = 0 ∨ zone.y = 0) := fun h =>
        hedge hitem ⟨zone, hzone, by rw [horig]; simpa using Ne.symm hown, h⟩
      obtain ⟨-, -, -, hx2, hy2, hz⟩ := serverFindZone_spec hzone
      exact List.mem_cons_of_mem _ (mem_zonesAround.2
        ⟨hown, hplane, hx, hy, by omega, by omega, hx2, hy2, hz⟩)
  · refine List.mem_append_right _ (List.mem_filter.2 ⟨hitem, ?_⟩)
    rw [hzone]
    simp only [Bool.and_eq_true, beq_iff_eq, decide_eq_true_eq]
    exact ⟨⟨hplane, by omega⟩, by omega⟩

theorem uniqueId_inj {l : List GroundItem} (h : (l.map GroundItem.uniqueId).Nodup)
    {a b : GroundItem} (ha : a ∈ l) (hb : b ∈ l) (hab : a.uniqueId = b.uniqueId) : a = b :=
  List.inj_on_of_nodup_map h ha hb hab

/-- No item is come to twice. -/
theorem itemsAround_nodup (h : UidsOk s) : ((itemsAround s v).map GroundItem.uniqueId).Nodup := by
  unfold itemsAround
  split
  · exact List.nodup_nil
  · next orig _ =>
    have huids := h.nodup
    rw [groundItems, List.map_append, List.nodup_append] at huids
    refine List.Nodup.sublist (List.Sublist.map _ List.filter_sublist) ?_
    rw [List.map_append, List.nodup_append]
    refine ⟨?_, huids.2.1.sublist (List.Sublist.map _ List.filter_sublist), ?_⟩
    · rw [List.map_flatMap, List.nodup_flatMap]
      refine ⟨fun zone _ => huids.1.sublist (List.Sublist.map _ List.filter_sublist), ?_⟩
      refine (zonesAround_nodup orig).imp fun {zone zone'} hne => ?_
      intro u hu hu'
      obtain ⟨a, ha, rfl⟩ := List.mem_map.1 hu
      obtain ⟨b, hb, hab⟩ := List.mem_map.1 hu'
      obtain ⟨ha, hzone⟩ := List.mem_filter.1 ha
      obtain ⟨hb, hzone'⟩ := List.mem_filter.1 hb
      obtain rfl := uniqueId_inj huids.1 hb ha hab
      rw [beq_iff_eq] at hzone hzone'
      exact hne (Option.some.inj (hzone.symm.trans hzone'))
    · intro u hu u' hu'
      obtain ⟨a, ha, rfl⟩ := List.mem_map.1 hu
      obtain ⟨b, hb, rfl⟩ := List.mem_map.1 hu'
      obtain ⟨zone, -, ha⟩ := List.mem_flatMap.1 ha
      exact huids.2.2 _ (List.mem_map_of_mem (List.mem_filter.1 ha).1) _
        (List.mem_map_of_mem (List.mem_filter.1 hb).1)

/-! ## The list of known items -/

/-- What a known item has to do with the server's: a live item with its unique id
is the one it was copied from. -/
structure KnownItem (s : Server) (k : GroundItem) : Prop where
  uniqueId : k.uniqueId < s.groundItemCounter
  respawnTime : k.respawnTime ≤ s.tickCounter
  same : ∀ a ∈ groundItems s, a.uniqueId = k.uniqueId → SameItem k a

theorem KnownItem.evolves {s' : Server} {k : GroundItem} (h : KnownItem s k)
    (he : Evolves s s') : KnownItem s' k where
  uniqueId := Nat.lt_of_lt_of_le h.uniqueId he.counter
  respawnTime := Nat.le_trans h.respawnTime he.tick
  same a' ha' huid := by
    rcases he.items a' ha' with ⟨a, ha, hsame⟩ | hnew
    · exact (h.same a ha (hsame.uniqueId.symm.trans huid)).trans hsame
    · have hlt := h.uniqueId
      omega

theorem respawnTime_le {item : GroundItem} (h : playerCanSeeItem s v.id item = true) :
    item.respawnTime ≤ s.tickCounter := by
  unfold playerCanSeeItem at h
  split at h
  · cases h
  · omega

theorem KnownItem.of_around (hs : UidsOk s) {item : GroundItem} (h : item ∈ itemsAround s v) :
    KnownItem s item := by
  obtain ⟨hitem, hsee, -⟩ := mem_itemsAround h
  refine ⟨hs.fresh item hitem, respawnTime_le hsee, fun a ha huid => ?_⟩
  obtain rfl := uniqueId_inj hs.nodup ha hitem huid
  exact .refl a

/-- A copy is seen where the item is. -/
theorem canSee_copy {k a : GroundItem} (hk : k.respawnTime ≤ s.tickCounter) (h : SameItem k a)
    (ha : playerCanSeeItem s v.id a = true) : playerCanSeeItem s v.id k = true := by
  unfold playerCanSeeItem at ha ⊢
  split at ha
  · cases ha
  · rw [if_neg (by omega), ← h.creationTime, ← h.owner]
    exact ha

theorem find_isSome_iff {i x y id : Nat} :
    (serverFindGroundItem s i x y id).isSome = true ↔
      ∃ a ∈ groundItems s, playerCanSeeItem s i a = true ∧ a.key = ⟨id, x, y⟩ := by
  have hwanted : ∀ a : GroundItem, (playerCanSeeItem s i a && a.id == id && a.x == x && a.y == y) =
      true ↔ playerCanSeeItem s i a = true ∧ a.key = ⟨id, x, y⟩ := by
    intro a
    simp [GroundItem.key, and_assoc]
  unfold serverFindGroundItem
  dsimp only
  split
  · next k hk =>
    have hzone := congrArg Option.isSome hk
    rw [List.findIdx?_isSome, Option.isSome_some, List.any_eq_true] at hzone
    obtain ⟨a, ha, hfound⟩ := hzone
    exact iff_of_true rfl ⟨a, List.mem_append_left _ ha, (hwanted a).1 hfound⟩
  · next hnone =>
    rw [List.findIdx?_eq_none_iff] at hnone
    rw [Option.isSome_map, List.findIdx?_isSome, List.any_eq_true]
    constructor
    · rintro ⟨a, ha, hfound⟩
      exact ⟨a, List.mem_append_right _ ha, (hwanted a).1 hfound⟩
    · rintro ⟨a, ha, hfound⟩
      rcases List.mem_append.1 ha with ha | ha
      · have hnot := hnone a ha
        rw [(hwanted a).2 hfound] at hnot
        cases hnot
      · exact ⟨a, ha, (hwanted a).2 hfound⟩

/-- A known item whose own item is in sight and near enough stays. -/
theorem itemGone_false {k a : GroundItem} (hk : KnownItem s k) (ha : a ∈ groundItems s)
    (huid : a.uniqueId = k.uniqueId) (hsee : playerCanSeeItem s v.id a = true)
    (hnear : withinUpdateRadius v k.x k.y 3 = true) : itemGone s v k = false := by
  have hsame := hk.same a ha huid
  have hfound : (serverFindGroundItem s v.id k.x k.y k.id).isNone = false := by
    have hsome : (serverFindGroundItem s v.id k.x k.y k.id).isSome = true :=
      find_isSome_iff.2 ⟨a, ha, hsee, by simp [GroundItem.key, hsame.id, hsame.x, hsame.y]⟩
    rw [Option.isNone_eq_false_iff]
    exact hsome
  unfold itemGone
  rw [hfound, hnear, canSee_copy hk.respawnTime hsame hsee]
  rfl

/-! ## What an update needs -/

/-- The ground items within two zones that the player can see. -/
def visibleItems (s : Server) (v : Viewer) : List GroundItem :=
  (groundItems s).filter fun item =>
    playerCanSeeItem s v.id item && withinUpdateRadius v item.x item.y 2

theorem mem_visibleItems {item : GroundItem} :
    item ∈ visibleItems s v ↔ item ∈ groundItems s ∧ playerCanSeeItem s v.id item = true ∧
      withinUpdateRadius v item.x item.y 2 = true := by
  rw [visibleItems, List.mem_filter, Bool.and_eq_true]

/-- The items around that the player does not know. -/
def unknownAround (s : Server) (v : Viewer) : List GroundItem :=
  (itemsAround s v).filter fun item =>
    !v.knownItems.any fun known => known.uniqueId == item.uniqueId

/-- The condition on an update: the lists are below their limits and ids below
`0x8000`; a packet that has something in it is not refused; a known item that
the player cannot see any more has no identical one on its tile; and the spawns in
sight on the edge are known already. -/
structure SendOk (s : Server) (v : Viewer) : Prop where
  ids : ∀ a ∈ itemsAround s v, a.id < 0x8000
  around : (itemsAround s v).length ≤ maxNearbyItems
  limit : (keptItems s v).length + (unknownAround s v).length ≤ maxNearbyItems
  written : itemsDue s v = 0 ∨ FrameFits v (1 + 4 * itemsDue s v) ∨
    playerBufsize < 1 + 4 * itemsDue s v
  twins : ∀ k ∈ v.knownItems, ∀ a ∈ visibleItems s v, a.key = k.key →
    ∃ b ∈ visibleItems s v, b.uniqueId = k.uniqueId
  edges : ∀ a ∈ visibleItems s v, a ∈ s.zoneItems → Edge v a →
    ∃ k ∈ v.knownItems, k.uniqueId = a.uniqueId

/-- The client holds on the tiles within two zones what the player can see there. -/
def Mirrors (c : Sight) : Prop :=
  (c.held.filter fun k => withinUpdateRadius c.viewer k.x k.y 2).Perm
    ((visibleItems c.server c.viewer).map GroundItem.key)

structure SightInv (c : Sight) : Prop where
  uids : UidsOk c.server
  known : ∀ k ∈ c.viewer.knownItems, KnownItem c.server k
  nodup : (c.viewer.knownItems.map GroundItem.uniqueId).Nodup
  length : c.viewer.knownItems.length ≤ maxNearbyItems
  ids : ∀ k ∈ c.viewer.knownItems, k.id < 0x8000
  held : c.held.Perm (c.viewer.knownItems.map GroundItem.key)

theorem newItems_eq (h : SendOk s v) : newItems s v = unknownAround s v := by
  have hlimit := h.limit
  unfold newItems unknownItems playerGetNearbyItems
  rw [List.take_of_length_le h.around]
  exact List.take_of_length_le (by unfold unknownAround at hlimit; omega)

/-- The list after an update. -/
def knownAfter (s : Server) (v : Viewer) : List GroundItem := keptItems s v ++ unknownAround s v

section Update

variable {c : Sight}

theorem mem_unknownAround {item : GroundItem} :
    item ∈ unknownAround s v ↔
      item ∈ itemsAround s v ∧ ∀ k ∈ v.knownItems, k.uniqueId ≠ item.uniqueId := by
  simp [unknownAround]

theorem mem_keptItems {item : GroundItem} :
    item ∈ keptItems s v ↔ item ∈ v.knownItems ∧ itemGone s v item = false := by
  simp [keptItems]

theorem knownAfter_nodup (h : SightInv c) :
    ((knownAfter c.server c.viewer).map GroundItem.uniqueId).Nodup := by
  rw [knownAfter, List.map_append, List.nodup_append]
  refine ⟨h.nodup.sublist (List.Sublist.map _ List.filter_sublist),
    (itemsAround_nodup h.uids).sublist (List.Sublist.map _ List.filter_sublist), ?_⟩
  intro u hu u' hu'
  obtain ⟨a, ha, rfl⟩ := List.mem_map.1 hu
  obtain ⟨b, hb, rfl⟩ := List.mem_map.1 hu'
  exact (mem_unknownAround.1 hb).2 a (mem_keptItems.1 ha).1

theorem knownAfter_known (h : SightInv c) :
    ∀ k ∈ knownAfter c.server c.viewer, KnownItem c.server k := by
  intro k hk
  rcases List.mem_append.1 hk with hk | hk
  · exact h.known k (mem_keptItems.1 hk).1
  · exact .of_around h.uids (mem_unknownAround.1 hk).1

/-- What is on the list after an update, within two zones, is what the player can
see there. -/
theorem knownAfter_mirrors (h : SightInv c) (hok : SendOk c.server c.viewer) :
    (((knownAfter c.server c.viewer).filter
        fun k => withinUpdateRadius c.viewer k.x k.y 2).map GroundItem.key).Perm
      ((visibleItems c.server c.viewer).map GroundItem.key) := by
  refine perm_of_tags GroundItem.uniqueId
    ((knownAfter_nodup h).sublist (List.Sublist.map _ List.filter_sublist))
    (h.uids.nodup.sublist (List.Sublist.map _ List.filter_sublist)) ?_ ?_ ?_
  · -- a copy has the key of its item
    intro k hk a ha huid
    have hsame := (knownAfter_known h k (List.mem_filter.1 hk).1).same a
      (mem_visibleItems.1 ha).1 huid.symm
    simp [GroundItem.key, hsame.id, hsame.x, hsame.y]
  · -- what stays or is new is in sight
    intro k hk
    obtain ⟨hk, hnear⟩ := List.mem_filter.1 hk
    rcases List.mem_append.1 hk with hk | hk
    · obtain ⟨hknown, hgone⟩ := mem_keptItems.1 hk
      have hdist := distance_of_within hnear
      have hfound : (serverFindGroundItem c.server c.viewer.id k.x k.y k.id).isSome = true := by
        rw [← Option.isNone_eq_false_iff]
        unfold itemGone at hgone
        simp only [hdist, decide_true, Bool.and_true, Bool.or_eq_false_iff] at hgone
        exact hgone.1.1
      obtain ⟨a, ha, hsee, hkey⟩ := find_isSome_iff.1 hfound
      obtain ⟨hid, hx, hy⟩ := ItemKey.mk.inj hkey
      refine hok.twins k hknown a (mem_visibleItems.2 ⟨ha, hsee, ?_⟩) hkey
      rw [hx, hy]
      exact hnear
    · obtain ⟨ha, hsee, -⟩ := mem_itemsAround (mem_unknownAround.1 hk).1
      exact ⟨k, mem_visibleItems.2 ⟨ha, hsee, hnear⟩, rfl⟩
  · -- what is in sight is known and stays, or is new
    intro a ha
    obtain ⟨hitem, hsee, hnear⟩ := mem_visibleItems.1 ha
    by_cases hknown : ∃ k ∈ c.viewer.knownItems, k.uniqueId = a.uniqueId
    · obtain ⟨k, hk, huid⟩ := hknown
      have hsame := (h.known k hk).same a hitem huid.symm
      have hnear' : withinUpdateRadius c.viewer k.x k.y 2 = true := by
        rw [← hsame.x, ← hsame.y]
        exact hnear
      refine ⟨k, List.mem_filter.2 ⟨List.mem_append_left _ (mem_keptItems.2 ⟨hk, ?_⟩), hnear'⟩, huid⟩
      exact itemGone_false (h.known k hk) hitem huid.symm hsee
        (withinUpdateRadius_mono hnear' (by omega))
    · have haround : a ∈ itemsAround c.server c.viewer :=
        itemsAround_complete hitem hsee hnear fun hzone hedge => hknown (hok.edges a ha hzone hedge)
      refine ⟨a, List.mem_filter.2 ⟨List.mem_append_right _ (mem_unknownAround.2 ⟨haround, ?_⟩),
        hnear⟩, rfl⟩
      exact fun k hk huid => hknown ⟨k, hk, huid⟩

theorem SightInv.evolves (h : SightInv c) {s' : Server} (he : Evolves c.server s') :
    SightInv { c with server := s' } where
  uids := he.uids h.uids
  known k hk := (h.known k hk).evolves he
  nodup := h.nodup
  length := h.length
  ids := h.ids
  held := h.held

/-- What an update does: nothing, or the new list is in place and the client holds
its keys. -/
theorem send_spec (h : SightInv c) (hok : SendOk c.server c.viewer) {isaacOut : Nat → UInt32}
    {t : ItemTable} {tmpbuf : Vector UInt8 playerBufsize} {c' : Sight}
    (hs : sightStep isaacOut t c (.send tmpbuf) = .ok c') :
    ((playerSendGroundItems isaacOut c.server tmpbuf.toList c.viewer).2 = .failed ∧ c' = c) ∨
    ∃ out held, c' = { c with
        viewer := { c.viewer with
          knownItems := knownAfter c.server c.viewer, out := out }
        held := held } ∧
      held.Perm ((knownAfter c.server c.viewer).map GroundItem.key) := by
  have htmp : tmpbuf.toList.length = playerBufsize := tmpbuf.length_toList
  simp only [sightStep] at hs
  rcases playerSendGroundItems_cases isaacOut c.server h.length htmp with
    ⟨hfull, heq⟩ | ⟨d, hd, hpayload, heq⟩
  · rw [heq] at hs ⊢
    obtain rfl := Except.ok.inj hs
    exact .inl ⟨rfl, rfl⟩
  · have hroom : ¬ playerBufsize < 1 + 4 * itemsDue c.server c.viewer := by
      rw [← hd.offset]
      exact Nat.not_lt.2 hd.room
    have hnew := newItems_eq hok
    rw [hnew] at heq hpayload
    have hafter : keptItems c.server c.viewer ++ unknownAround c.server c.viewer =
        knownAfter c.server c.viewer := rfl
    rw [hafter] at heq
    have hheld : ((unknownAround c.server c.viewer).map GroundItem.key).reverse ++
        c.held.diff ((c.viewer.knownItems.filter (itemGone c.server c.viewer)).map
          GroundItem.key) |>.Perm ((knownAfter c.server c.viewer).map GroundItem.key) :=
      perm_update (itemGone c.server c.viewer) h.held
    refine .inr ?_
    by_cases hdue : itemsDue c.server c.viewer = 0
    · -- nothing to tell
      have hwrite : Viewer.writeUpdates isaacOut
          { c.viewer with knownItems := knownAfter c.server c.viewer } d =
          ({ c.viewer with knownItems := knownAfter c.server c.viewer }, .nothing) := by
        unfold Viewer.writeUpdates
        rw [if_pos (by rw [hd.count, hdue])]
      rw [heq, hwrite] at hs
      obtain rfl := Except.ok.inj hs
      refine ⟨c.viewer.out, c.held, rfl, ?_⟩
      rw [itemsDue, hnew, Nat.add_eq_zero_iff, List.countP_eq_length_filter,
        List.length_eq_zero_iff, List.length_eq_zero_iff] at hdue
      rw [hdue.1, hdue.2] at hheld
      simpa using hheld
    · have hfits : FrameFits c.viewer (1 + 4 * itemsDue c.server c.viewer) :=
        (hok.written.resolve_left hdue).resolve_right hroom
      have hnot := writeUpdates_failed_iff isaacOut
        { c.viewer with knownItems := knownAfter c.server c.viewer } hd (by decide)
      have hwrite : ∃ out, Viewer.writeUpdates isaacOut
          { c.viewer with knownItems := knownAfter c.server c.viewer } d =
          ({ c.viewer with knownItems := knownAfter c.server c.viewer, out := out },
            .packet d.payload) := by
        refine writeUpdates_sent isaacOut _ (by rw [hd.count]; exact hdue) fun hfailed => ?_
        exact hnot.1 hfailed (.inr hfits)
      obtain ⟨out, hwrite⟩ := hwrite
      rw [heq, hwrite] at hs
      obtain rfl := Except.ok.inj hs
      refine ⟨out, _, rfl, ?_⟩
      rw [hpayload, List.tail_cons]
      rw [readItems_records (v := c.viewer)]
      · exact hheld
      · intro item hitem
        obtain ⟨hk, hgone⟩ := List.mem_filter.1 hitem
        exact ⟨h.ids item hk, inByte_of_gone hgone⟩
      · intro item hitem
        have haround := (mem_unknownAround.1 hitem).1
        exact ⟨hok.ids item haround, inByte_of_within (mem_itemsAround haround).2.2⟩

/-- The new list keeps the invariant. -/
theorem SightInv.sent (h : SightInv c) (hok : SendOk c.server c.viewer) {out : Outgoing}
    {held : List ItemKey}
    (hheld : held.Perm ((knownAfter c.server c.viewer).map GroundItem.key)) :
    SightInv { c with
      viewer := { c.viewer with knownItems := knownAfter c.server c.viewer, out := out }
      held := held } where
  uids := h.uids
  known := knownAfter_known h
  nodup := knownAfter_nodup h
  length := by
    show (keptItems c.server c.viewer ++ unknownAround c.server c.viewer).length ≤ _
    rw [List.length_append]
    exact hok.limit
  ids k hk := by
    rcases List.mem_append.1 hk with hk | hk
    · exact h.ids k (mem_keptItems.1 hk).1
    · exact hok.ids k (mem_unknownAround.1 hk).1
  held := hheld

/-- The condition on an event: only an update has one. -/
def SightOk (c : Sight) : SightEvent → Prop
  | .send _ => SendOk c.server c.viewer
  | _ => True

theorem sightStep_inv (h : SightInv c) {isaacOut : Nat → UInt32} {t : ItemTable}
    {e : SightEvent} (hok : SightOk c e) {c' : Sight} (hs : sightStep isaacOut t c e = .ok c') :
    SightInv c' := by
  cases e with
  | ground e =>
    simp only [sightStep] at hs
    split at hs
    · cases hs
    · next s' hground =>
      obtain rfl := Except.ok.inj hs
      exact h.evolves (.ground hground)
  | spawn owner x y id stack =>
    obtain rfl := Except.ok.inj hs
    exact h.evolves (.add ..)
  | delobject i name x y =>
    obtain rfl := Except.ok.inj hs
    refine h.evolves ?_
    split
    · exact .delobject ..
    · exact .refl _
  | others players =>
    obtain rfl := Except.ok.inj hs
    exact h.evolves (.of_same rfl rfl rfl rfl)
  | move x y =>
    obtain rfl := Except.ok.inj hs
    exact ⟨h.uids, h.known, h.nodup, h.length, h.ids, h.held⟩
  | output out =>
    obtain rfl := Except.ok.inj hs
    exact ⟨h.uids, h.known, h.nodup, h.length, h.ids, h.held⟩
  | send tmpbuf =>
    rcases send_spec h hok hs with ⟨-, rfl⟩ | ⟨out, held, rfl, hheld⟩
    · exact h
    · exact h.sent hok hheld

end Update

/-! ## Any run -/

/-- The player has just come: neither side knows of an item. -/
structure SightStart (c : Sight) : Prop where
  uids : UidsOk c.server
  known : c.viewer.knownItems = []
  held : c.held = []

theorem SightStart.inv {c : Sight} (h : SightStart c) : SightInv c := by
  refine ⟨h.uids, ?_, ?_, ?_, ?_, ?_⟩
  · simp [h.known]
  · simp [h.known]
  · simp [h.known]
  · simp [h.known]
  · simp [h.known, h.held]

/-- In any run whose updates meet the condition, the client holds after each that
succeeds what the player can see within two zones. -/
theorem ground_mirrored (isaacOut : Nat → UInt32) (t : ItemTable)
    {tr : List (Sight × SightEvent)} {c : Sight}
    (hrun : Run SightStart (sightStep isaacOut t) tr c)
    (hok : ∀ x ∈ tr, SightOk x.1 x.2) :
    ∀ x ∈ tr, ∀ tmpbuf, x.2 = .send tmpbuf →
      (playerSendGroundItems isaacOut x.1.server tmpbuf.toList x.1.viewer).2 ≠ .failed →
      ∀ c', sightStep isaacOut t x.1 x.2 = .ok c' → Mirrors c' := by
  rintro ⟨a, e⟩ hx tmpbuf rfl hsent c' hs
  obtain ⟨tr', hpre, hrun'⟩ := hrun.reaches (mem_statesOf.2 (.inl ⟨_, hx⟩))
  have hinv : SightInv a := hrun'.invariant (fun _ h => h.inv)
    (fun b e b' hb hbok hbs => sightStep_inv hb hbok hbs) fun x hx => hok x (hpre.subset hx)
  have hsend : SendOk a.server a.viewer := hok _ hx
  rcases send_spec hinv hsend hs with ⟨hfailed, -⟩ | ⟨out, held, rfl, hheld⟩
  · exact absurd hfailed hsent
  · have hkeys := hheld.filter fun k => withinUpdateRadius a.viewer k.x k.y 2
    rw [List.filter_map] at hkeys
    exact hkeys.trans (knownAfter_mirrors hinv hsend)

/-- Two players, of whom the first watches the ground at (10, 10). -/
def onlooker : Sight where
  server := { players := fun j => if j < 2 then some { name := j } else none }
  viewer := { id := 0, x := 10, y := 10, out := { outbuf := List.replicate playerBufsize 0 } }

def emptyTmpbuf : Vector UInt8 playerBufsize := Vector.replicate playerBufsize 0

theorem onlooker_start : SightStart onlooker :=
  ⟨⟨List.nodup_nil, fun _ h => by cases h⟩, rfl, rfl⟩

def logsSpawned : Sight :=
  { onlooker with server := serverAddTempItem onlooker.server none 10 10 1 1 }

theorem ground_mirrored_logs : ∃ c',
    sightStep (fun _ => 0) smallTable logsSpawned (.send emptyTmpbuf) = .ok c' ∧ Mirrors c' := by
  have hspawn : Run SightStart (sightStep (fun _ => 0) smallTable) _ logsSpawned :=
    (Run.start onlooker_start).step (e := .spawn none 10 10 1 1) rfl
  obtain ⟨c', hsend⟩ :
      ∃ c', sightStep (fun _ => 0) smallTable logsSpawned (.send emptyTmpbuf) = .ok c' := by
    simp only [sightStep]
    split
    · exact ⟨_, rfl⟩
    · exact ⟨_, rfl⟩
  refine ⟨c', hsend, ground_mirrored _ _ (hspawn.step hsend) ?_ (logsSpawned, .send emptyTmpbuf)
    (by simp) emptyTmpbuf rfl (by decide) c' hsend⟩
  intro x hx
  simp only [List.nil_append, List.cons_append, List.mem_cons, List.not_mem_nil, or_false] at hx
  rcases hx with rfl | rfl
  · trivial
  · exact ⟨by decide, by decide, by decide, .inr (.inl (show _ ≤ _ by decide)),
      fun _ h => (by cases h), fun _ _ h => (by cases h)⟩

/-- Of two logs on the tile one is taken: the player's list keeps both. -/
theorem taken_twin_held :
    ¬ ∀ (isaacOut : Nat → UInt32) (t : ItemTable) (tr : List (Sight × SightEvent)) (c : Sight),
      Run SightStart (sightStep isaacOut t) tr c →
      (∀ x ∈ tr, (itemsAround x.1.server x.1.viewer).length ≤ maxNearbyItems) →
      ∀ x ∈ tr, ∀ tmpbuf, x.2 = .send tmpbuf →
        (playerSendGroundItems isaacOut x.1.server tmpbuf.toList x.1.viewer).2 ≠ .failed →
        ∀ c', sightStep isaacOut t x.1 x.2 = .ok c' → Mirrors c' := by
  intro h
  have hrun : Run SightStart (sightStep (fun _ => 0) smallTable) _ _ :=
    Run.of_exec [.spawn none 10 10 1 1, .spawn none 10 10 1 1, .send emptyTmpbuf,
      .ground (.take 1 10 10 1), .send emptyTmpbuf] onlooker_start rfl
  have hmirror := h _ _ _ _ hrun (by decide) _ (List.mem_of_getElem? (i := 4) rfl) emptyTmpbuf rfl
    (by decide) _ rfl
  have hlength := hmirror.length_eq
  revert hlength
  decide

end Sundae.Proofs
