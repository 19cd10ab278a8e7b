import Sundae.Lib.Cull
import Sundae.Proofs.Inventory
import Sundae.Ref.Death

/-!
# What is kept and what is dropped in death

The loop of `player_die` culls the slots by the value of their items, and ends.
What it puts on the ground for a stack it reads from where the slot was, so a
stack is dropped with the number of the slot then behind it, which is the
next one whose item is worth no less. The loop after it leaves one of every
stack that is kept, and nothing of the rest.
-/

namespace Sundae.Proofs

open Sundae.Ref Sundae.Lib

variable {t : GearTable} {s : Server} {i n most : Nat} {victor : Option Nat}
  {inv a b : List InvItem} {x : InvItem}

/-- What a slot counts in the search. -/
def slotValue (t : GearTable) (x : InvItem) : Nat := t.value x.id

/-! ## The search -/

/-- A search from slot `n` on that has come to `best`. -/
theorem search_spec (t : GearTable) (inv : List InvItem) (n : Nat) (best : Option Nat × Nat) :
    let found := (inv.zipIdx n).foldl (fun (best : Option Nat × Nat) (x, i) =>
      if t.value x.id < best.2 then (some i, t.value x.id) else best) best
    (found = best ∧ ∀ x ∈ inv, best.2 ≤ slotValue t x) ∨
      ∃ a x b, inv = a ++ x :: b ∧ FirstLeast (slotValue t) a x b ∧ slotValue t x < best.2 ∧
        found = (some (n + a.length), slotValue t x) := by
  induction inv generalizing n best with
  | nil => exact .inl ⟨rfl, by simp⟩
  | cons y inv ih =>
      simp only [List.zipIdx_cons, List.foldl_cons]
      by_cases hy : t.value y.id < best.2
      · rw [if_pos hy]
        rcases ih (n + 1) (some n, t.value y.id) with
          ⟨hsame, hall⟩ | ⟨a, x, b, rfl, hfirst, hlt, hfound⟩
        · exact .inr ⟨[], y, inv, rfl, ⟨by simp, hall⟩, hy, hsame⟩
        · refine .inr ⟨y :: a, x, b, rfl, ⟨?_, hfirst.back⟩, Nat.lt_trans hlt hy, ?_⟩
          · intro z hz
            rcases List.mem_cons.1 hz with rfl | hz
            · exact hlt
            · exact hfirst.front z hz
          · rw [hfound, List.length_cons]
            congr 2
            omega
      · rw [if_neg hy]
        rcases ih (n + 1) best with ⟨hsame, hall⟩ | ⟨a, x, b, rfl, hfirst, hlt, hfound⟩
        · refine .inl ⟨hsame, fun z hz => ?_⟩
          rcases List.mem_cons.1 hz with rfl | hz
          · exact Nat.le_of_not_lt hy
          · exact hall z hz
        · refine .inr ⟨y :: a, x, b, rfl, ⟨?_, hfirst.back⟩, hlt, ?_⟩
          · intro z hz
            rcases List.mem_cons.1 hz with rfl | hz
            · exact Nat.lt_of_lt_of_le hlt (Nat.le_of_not_lt hy)
            · exact hfirst.front z hz
          · rw [hfound, List.length_cons]
            congr 2
            omega

/-- The value no slot is found at. -/
def topValue : Nat := 4294967295

/-- The search finds the first slot of the least value, unless all have the
top value. -/
theorem lowestSlot_spec (t : GearTable) (inv : List InvItem) :
    (lowestSlot t inv = none ∧ ∀ x ∈ inv, topValue ≤ slotValue t x) ∨
      ∃ a x b, inv = a ++ x :: b ∧ FirstLeast (slotValue t) a x b ∧ slotValue t x < topValue ∧
        lowestSlot t inv = some a.length := by
  unfold lowestSlot
  rcases search_spec t inv 0 (none, topValue) with
    ⟨hsame, hall⟩ | ⟨a, x, b, hinv, hfirst, hlt, hfound⟩
  · exact .inl ⟨congrArg Prod.fst hsame, hall⟩
  · refine .inr ⟨a, x, b, hinv, hfirst, hlt, (congrArg Prod.fst hfound).trans ?_⟩
    rw [Nat.zero_add]

theorem searchLowest_eq (hok : InvOk t.toItemTable inv) :
    searchLowest t inv = .ok (lowestSlot t inv) := by
  have hall : (inv.all fun x => (t.byId x.id).isSome) = true :=
    List.all_eq_true.2 fun x hx => hok.configured x hx
  rw [searchLowest, hall, if_pos rfl]

/-! ## The loops -/

/-- The server with other slots for a player and more on the ground. -/
def leaving (s : Server) (i : Nat) (inv : List InvItem) (new : List GroundItem) (m : Nat) :
    Server :=
  { s.modify i fun p => { p with inventory := inv } with
    tempItems := s.tempItems ++ new, groundItemCounter := m }

theorem leaving_get (hlive : s.live i) (inv : List InvItem) (new : List GroundItem) (m : Nat) :
    (leaving s i inv new m).get i = { s.get i with inventory := inv } := by
  show (s.modify i fun p => { p with inventory := inv }).get i = _
  rw [Server.get_modify_self hlive]

theorem live_leaving (hlive : s.live i) (inv : List InvItem) (new : List GroundItem) (m : Nat) :
    (leaving s i inv new m).live i := by
  show (s.modify i fun p => { p with inventory := inv }).live i
  rw [Server.live_modify]
  exact hlive

theorem leaving_leaving (inv₁ inv₂ : List InvItem) (new₁ new₂ : List GroundItem) (m₁ m₂ : Nat) :
    leaving (leaving s i inv₁ new₁ m₁) i inv₂ new₂ m₂ =
      leaving s i inv₂ (new₁ ++ new₂) m₂ := by
  have hplayers : ((s.modify i fun p => { p with inventory := inv₁ }).modify i
      fun p => { p with inventory := inv₂ }).players =
      (s.modify i fun p => { p with inventory := inv₂ }).players := by
    rw [Server.modify_modify]
  unfold leaving
  simp only [List.append_assoc]
  congr 1

theorem leaving_self (h : (s.get i).inventory = inv) :
    leaving s i inv [] s.groundItemCounter = s := by
  have hsame : s.modify i (fun p => { p with inventory := inv }) = s :=
    Server.modify_eq_self (by rw [← h])
  unfold leaving
  rw [hsame, List.append_nil]

/-- What is put on the ground for a slot with `b` behind it. -/
def placed (t : GearTable) (x : InvItem) (b : List InvItem) : Nat :=
  if t.stackable x.id then (b.head?.getD x).stack else 1

/-- A drop at the feet of the dead, for whoever killed them. -/
structure LiesAt (p : Player) (victor : Option Nat) (g : GroundItem) : Prop where
  x : g.x = p.mob.x
  y : g.y = p.mob.y
  owner : g.owner = victor

theorem serverAddTempItem_lies (s : Server) (victor : Option Nat) (p : Player) (id stack : Nat) :
    ∃ g : GroundItem, g.id = id ∧ g.stack = stack ∧ LiesAt p victor g ∧
      serverAddTempItem s victor p.mob.x p.mob.y id stack =
        { s with
          tempItems := s.tempItems ++ [g]
          groundItemCounter := s.groundItemCounter + 1 } :=
  ⟨_, rfl, rfl, ⟨rfl, rfl, rfl⟩, rfl⟩

/-- A turn takes out the first slot of the least value. -/
theorem deathTurn_split (victor : Option Nat) (hlive : s.live i)
    (hok : InvOk t.toItemTable (s.get i).inventory)
    (hmost : most < (s.get i).inventory.length) (hinv : (s.get i).inventory = a ++ x :: b)
    (hslot : lowestSlot t (s.get i).inventory = some a.length)
    (hfirst : FirstLeast (slotValue t) a x b) :
    ∃ g : GroundItem, g.id = x.id ∧ g.stack = placed t x b ∧ LiesAt (s.get i) victor g ∧
      deathTurn t most victor i s =
        .ok (some (leaving s i (a ++ b) [g] (s.groundItemCounter + 1))) := by
  have hx : x ∈ (s.get i).inventory := by
    rw [hinv]
    simp
  obtain ⟨item, hc⟩ := Option.isSome_iff_exists.1 (hok.configured x hx)
  have ha : ∀ y ∈ a, y.id ≠ x.id := by
    intro y hy heq
    have hlt := hfirst.front y hy
    rw [slotValue, slotValue, heq] at hlt
    exact Nat.lt_irrefl _ hlt
  have hremove := playerInvRemoveId_split hinv hok.wf hc ha
  have hget : ((s.modify i fun p => { p with inventory := a ++ b }).get i).inventory = a ++ b := by
    rw [Server.get_modify_self hlive]
  have hplaced : (if item.weight = 0 then (b.head?.getD x).stack else 1) = placed t x b := by
    have hst := ItemTable.stackable_of_byId hc
    simp [placed, hst]
  obtain ⟨g, hid, hstack, hlies, hadd⟩ := serverAddTempItem_lies
    (s.modify i fun p => { p with inventory := a ++ b }) victor (s.get i) x.id (placed t x b)
  refine ⟨g, hid, hstack, hlies, ?_⟩
  have hitem := ItemTable.byId_id hc
  have hat : (a ++ x :: b)[a.length]? = some x := by simp
  have hsearch := searchLowest_eq hok
  rw [hslot] at hsearch
  unfold deathTurn
  simp only [if_neg (Nat.not_le.2 hmost), hsearch]
  simp only [hinv, hat, hc, hitem, hremove, hget, stackRead_split, hplaced, hadd]
  rfl

theorem deathTurn_none (hok : InvOk t.toItemTable (s.get i).inventory)
    (h : (s.get i).inventory.length ≤ most ∨ lowestSlot t (s.get i).inventory = none) :
    deathTurn t most victor i s = .ok none := by
  have hsearch := searchLowest_eq hok
  unfold deathTurn
  rcases h with h | h
  · simp only [if_pos h]
  · rw [h] at hsearch
    simp only [hsearch, ite_self]

/-- What the loop comes to. -/
structure Felled (t : GearTable) (most : Nat) (victor : Option Nat) (p : Player)
    (gone : List (InvItem × List InvItem)) (kept : List InvItem) (new : List GroundItem) :
    Prop where
  culled : Culled (slotValue t) p.inventory gone kept
  drops : new.map (fun g => (g.id, g.stack)) = gone.map fun g => (g.1.id, placed t g.1 g.2)
  lies : ∀ g ∈ new, LiesAt p victor g
  priced : ∀ g ∈ gone, slotValue t g.1 < topValue
  enough : gone = [] ∨ most ≤ kept.length
  few : kept.length ≤ most ∨ ∀ x ∈ kept, topValue ≤ slotValue t x

/-- Every turn takes a slot out, so the loop ends within as many turns as there
are slots. -/
theorem deathLoop_felled (most : Nat) (victor : Option Nat) (hlive : s.live i)
    (hok : InvOk t.toItemTable (s.get i).inventory)
    (hn : (s.get i).inventory.length ≤ n) :
    ∃ gone kept new m, Felled t most victor (s.get i) gone kept new ∧
      deathLoop t most victor i n s = .ok (leaving s i kept new m) := by
  induction n generalizing s with
  | zero =>
      have hnil : (s.get i).inventory.length ≤ most := by omega
      refine ⟨[], (s.get i).inventory, [], s.groundItemCounter,
        ⟨.stop _, rfl, by simp, by simp, .inl rfl, .inl hnil⟩, ?_⟩
      rw [leaving_self rfl, deathLoop, deathTurn_none hok (.inl hnil)]
  | succ n ih =>
      by_cases hmost : (s.get i).inventory.length ≤ most
      · refine ⟨[], (s.get i).inventory, [], s.groundItemCounter,
          ⟨.stop _, rfl, by simp, by simp, .inl rfl, .inl hmost⟩, ?_⟩
        rw [leaving_self rfl, deathLoop, deathTurn_none hok (.inl hmost)]
      · rcases lowestSlot_spec t (s.get i).inventory with
          ⟨hnone, hall⟩ | ⟨a, x, b, hinv, hfirst, hlt, hslot⟩
        · refine ⟨[], (s.get i).inventory, [], s.groundItemCounter,
            ⟨.stop _, rfl, by simp, by simp, .inl rfl, .inr hall⟩, ?_⟩
          rw [leaving_self rfl, deathLoop, deathTurn_none hok (.inr hnone)]
        · obtain ⟨g, hid, hstack, hlies, hturn⟩ := deathTurn_split victor hlive hok
            (Nat.lt_of_not_le hmost) hinv hslot hfirst
          have hlen : (a ++ b).length + 1 = (s.get i).inventory.length := by
            rw [hinv, List.length_append, List.length_append, List.length_cons]
            omega
          have hget := leaving_get hlive (a ++ b) [g] (s.groundItemCounter + 1)
          have hsub : (a ++ b).Sublist (s.get i).inventory := by
            rw [hinv]
            exact List.Sublist.append_left (List.sublist_cons_self x b) a
          obtain ⟨gone, kept, new, m, hfelled, hrun⟩ :=
            ih (live_leaving hlive (a ++ b) [g] (s.groundItemCounter + 1))
              (by rw [hget]; exact hok.sublist hsub)
              (by rw [hget]; show (a ++ b).length ≤ n; omega)
          have hculled := hfelled.culled
          rw [hget] at hculled
          refine ⟨(x, b) :: gone, kept, g :: new, m, ⟨?_, ?_, ?_, ?_, ?_, hfelled.few⟩, ?_⟩
          · rw [hinv]
            exact .take hfirst hculled
          · rw [List.map_cons, List.map_cons, hfelled.drops, hid, hstack]
          · intro g' hg'
            rcases List.mem_cons.1 hg' with rfl | hg'
            · exact hlies
            · obtain ⟨hx, hy, howner⟩ := hfelled.lies g' hg'
              rw [hget] at hx hy
              exact ⟨hx, hy, howner⟩
          · intro g' hg'
            rcases List.mem_cons.1 hg' with rfl | hg'
            · exact hlt
            · exact hfelled.priced g' hg'
          · refine .inr ?_
            rcases hfelled.enough with rfl | henough
            · have hall := hculled.length_eq
              have hsame : (a ++ b).length = kept.length := by simpa using hall.symm
              omega
            · exact henough
          · rw [deathLoop, hturn]
            show deathLoop t most victor i n _ = _
            rw [hrun, leaving_leaving]
            rfl

/-- One of a stack is kept. -/
def trimmed (t : GearTable) (x : InvItem) : InvItem :=
  if t.stackable x.id ∧ 1 < x.stack then x.setStack 1 else x

theorem trimmed_id (t : GearTable) (x : InvItem) : (trimmed t x).id = x.id := by
  unfold trimmed
  split <;> rfl

theorem trimLoop_eq (hlive : s.live i)
    (hok : InvOk t.toItemTable (s.get i).inventory)
    (hinv : (s.get i).inventory = a ++ b) :
    trimLoop t i b.length a.length s =
      .ok (leaving s i (a ++ b.map (trimmed t)) [] s.groundItemCounter) := by
  induction b generalizing a s with
  | nil =>
      rw [List.map_nil, leaving_self hinv]
      rfl
  | cons x b ih =>
      have hx : x ∈ (s.get i).inventory := by
        rw [hinv]
        simp
      obtain ⟨item, hc⟩ := Option.isSome_iff_exists.1 (hok.configured x hx)
      have hst := ItemTable.stackable_of_byId hc
      have hat : (a ++ x :: b)[a.length]? = some x := by simp
      rw [List.length_cons, trimLoop, hinv, hat]
      simp only [hc]
      by_cases hlarge : item.weight = 0 ∧ 1 < x.stack
      · have hid : t.stackable x.id = true := by rw [hst, decide_eq_true hlarge.1]
        have hwf := hok.wf
        rw [hinv] at hwf
        have ha : ∀ y ∈ a, y.id ≠ x.id := fun y hy =>
          ne_of_split hwf hid y (List.mem_append_left b hy)
        have hone : trimmed t x = x.setStack (x.stack - (x.stack - 1)) := by
          have hsub : x.stack - (x.stack - 1) = 1 := by omega
          rw [trimmed, if_pos ⟨hid, hlarge.2⟩, hsub]
        have hpart := removed_part (b := b) ha (show x.stack - 1 < x.stack by omega)
        rw [← hone] at hpart
        have hremove : playerInvRemoveId t.toItemTable s i x.id (x.stack - 1) = .ok (s.modify i
            fun p => { p with inventory := a ++ trimmed t x :: b }) := by
          rw [playerInvRemoveId_eq hok.wf hc, hinv, hlarge.1, hpart]
        rw [if_pos hlarge, ItemTable.byId_id hc, hremove]
        have hok' : InvOk t.toItemTable (a ++ trimmed t x :: b) := by
          rw [← hpart, ← hinv]
          exact removed_ok hok
        have hstep : s.modify i (fun p => { p with inventory := a ++ trimmed t x :: b }) =
            leaving s i (a ++ trimmed t x :: b) [] s.groundItemCounter := by
          unfold leaving
          rw [List.append_nil]
          rfl
        have hget := leaving_get hlive (a ++ trimmed t x :: b) [] s.groundItemCounter
        have hrest := ih (a := a ++ [trimmed t x])
          (live_leaving hlive (a ++ trimmed t x :: b) [] s.groundItemCounter)
          (by rw [hget]; exact hok') (by rw [hget]; simp)
        rw [List.length_append, List.length_singleton, leaving_leaving] at hrest
        show trimLoop t i b.length (a.length + 1) _ = _
        rw [hstep, hrest]
        simp [leaving]
      · have hsame : trimmed t x = x := by
          rw [trimmed, if_neg]
          rwa [hst, decide_eq_true_eq]
        rw [if_neg hlarge]
        have hrest := ih (a := a ++ [x]) hlive hok (by rw [hinv]; simp)
        rw [List.length_append, List.length_singleton] at hrest
        rw [hrest, List.map_cons, hsame]
        simp

/-! ## A fair death -/

/-- A death as it should be: of the slots those of the least worth are lost,
and lie on the ground as they were. -/
structure FairDeath (t : GearTable) (most : Nat) (victor : Option Nat) (p : Player)
    (inv : List InvItem) (drops : List GroundItem) : Prop where
  few : inv.length ≤ most
  fair : ∃ stays lost : List InvItem, (lost ++ stays).Perm p.inventory ∧
    inv.map InvItem.id = stays.map InvItem.id ∧
    (∀ x ∈ lost, ∀ y ∈ stays, slotValue t x ≤ slotValue t y) ∧
    drops.map (fun g => (g.id, g.stack)) = lost.map fun x => (x.id, x.stack)
  lies : ∀ g ∈ drops, LiesAt p victor g
  balance : ∀ k, held t.toItemTable k inv + groundOf k drops = held t.toItemTable k p.inventory

/-- No more slots than are kept have the top value; a stack that is lost is the
last slot of its worth or more, or as large as the next of these; a
stack that is kept is of one. -/
structure DiesRight (t : GearTable) (most : Nat) (inv : List InvItem) : Prop where
  priced : inv.countP (fun x => decide (topValue ≤ slotValue t x)) ≤ most
  lost : ∀ a x b, inv = a ++ x :: b → t.stackable x.id = true →
    most ≤ outlasting (slotValue t) a x b →
      ∀ y, b.find? (fun y => decide (slotValue t x ≤ slotValue t y)) = some y → y.stack = x.stack
  kept : ∀ a x b, inv = a ++ x :: b → t.stackable x.id = true →
    outlasting (slotValue t) a x b < most → x.stack ≤ 1

variable {p : Player} {gone : List (InvItem × List InvItem)} {kept : List InvItem}
  {new : List GroundItem}

theorem Felled.length_le_iff (h : Felled t most victor p gone kept new) :
    kept.length ≤ most ↔
      p.inventory.countP (fun x => decide (topValue ≤ slotValue t x)) ≤ most := by
  rw [← h.culled.perm.countP_eq, List.countP_append]
  have hgone : (gone.map Prod.fst).countP (fun x => decide (topValue ≤ slotValue t x)) = 0 := by
    refine List.countP_eq_zero.2 fun x hx => ?_
    obtain ⟨g, hg, rfl⟩ := List.mem_map.1 hx
    have hlt := h.priced g hg
    simpa using hlt
  rw [hgone, Nat.zero_add]
  constructor
  · exact fun hle => Nat.le_trans List.countP_le_length hle
  · intro hle
    rcases h.few with hfew | hall
    · exact hfew
    · rwa [List.countP_eq_length.2 fun x hx => decide_eq_true (hall x hx)] at hle

/-- As many slots are kept as may be. -/
theorem Felled.outlasting_iff (h : Felled t most victor p gone kept new)
    (hle : kept.length ≤ most) (hinv : p.inventory = a ++ x :: b) :
    kept.length ≤ outlasting (slotValue t) a x b ↔ most ≤ outlasting (slotValue t) a x b := by
  rcases h.enough with rfl | henough
  · have hlen := h.culled.length_eq
    have hlt : outlasting (slotValue t) a x b < p.inventory.length := by
      rw [hinv]
      exact outlasting_lt
    rw [List.length_nil] at hlen
    omega
  · rw [Nat.le_antisymm hle henough]

theorem Felled.ok (h : Felled t most victor p gone kept new)
    (hok : InvOk t.toItemTable p.inventory) : InvOk t.toItemTable (kept.map (trimmed t)) := by
  have hkept := hok.sublist h.culled.sublist
  refine ⟨?_, ?_, ?_, ?_⟩
  · have hids : InvItem.id ∘ trimmed t = InvItem.id := funext (trimmed_id t)
    rw [List.map_map, hids]
    exact hkept.single
  · intro x hx
    obtain ⟨y, hy, rfl⟩ := List.mem_map.1 hx
    rw [trimmed_id]
    exact hkept.configured y hy
  · intro x hx hid
    obtain ⟨y, hy, rfl⟩ := List.mem_map.1 hx
    rw [trimmed_id] at hid
    rw [trimmed, hid, if_neg (by simp)]
    exact hkept.unit y hy hid
  · rw [List.length_map]
    exact hkept.size

/-- A slot that stacks and its item are on one side only. -/
theorem Felled.apart (h : Felled t most victor p gone kept new)
    (hok : InvOk t.toItemTable p.inventory) (hx : x ∈ kept) (hid : t.stackable x.id = true) :
    ∀ g ∈ gone, g.1.id ≠ x.id := by
  intro g hg heq
  have hsym : ∀ {c d : Nat}, (c = d → t.stackable c = false) → d = c → t.stackable d = false :=
    fun h hdc => hdc ▸ h hdc.symm
  have hpair := (List.Perm.pairwise_iff hsym (h.culled.perm.map InvItem.id)).2 hok.single
  rw [List.map_append, List.pairwise_append] at hpair
  have hno := hpair.2.2 g.1.id (List.mem_map_of_mem (List.mem_map_of_mem hg)) x.id
    (List.mem_map_of_mem hx) heq
  rw [heq, hid] at hno
  cases hno

/-- Every slot that went was put down as it was. -/
theorem Felled.placed_eq (h : Felled t most victor p gone kept new)
    (hok : InvOk t.toItemTable p.inventory) (hle : kept.length ≤ most)
    (hright : DiesRight t most p.inventory) : ∀ g ∈ gone, placed t g.1 g.2 = g.1.stack := by
  intro g hg
  obtain ⟨a, b, hinv, hout, hback⟩ := h.culled.mem_gone_iff.1 hg
  rw [h.outlasting_iff hle hinv] at hout
  have hmem : g.1 ∈ p.inventory := by
    rw [hinv]
    simp
  cases hid : t.stackable g.1.id with
  | false => simp [placed, hid, hok.unit g.1 hmem hid]
  | true =>
      rw [placed, if_pos hid, hback, List.head?_filter]
      cases hfind : b.find? (fun y => decide (slotValue t g.1 ≤ slotValue t y)) with
      | none => rfl
      | some y => exact hright.lost a g.1 b hinv hid hout y hfind

theorem Felled.trimmed_eq (h : Felled t most victor p gone kept new) (hle : kept.length ≤ most)
    (hright : DiesRight t most p.inventory) : kept.map (trimmed t) = kept := by
  have hsame : ∀ x ∈ kept, trimmed t x = x := by
    intro x hx
    obtain ⟨a, b, hinv, hout⟩ := h.culled.mem_kept_iff.1 hx
    have hiff := h.outlasting_iff hle hinv
    rw [trimmed, if_neg]
    rintro ⟨hid, hlarge⟩
    have hone := hright.kept a x b hinv hid (by omega)
    omega
  calc
    kept.map (trimmed t) = kept.map id := List.map_congr_left hsame
    _ = kept := List.map_id kept

theorem Felled.fair (h : Felled t most victor p gone kept new)
    (hok : InvOk t.toItemTable p.inventory) (hright : DiesRight t most p.inventory) :
    FairDeath t most victor p (kept.map (trimmed t)) new := by
  have hle := h.length_le_iff.2 hright.priced
  have hdrops : new.map (fun g => (g.id, g.stack)) =
      (gone.map Prod.fst).map fun x => (x.id, x.stack) := by
    rw [h.drops, List.map_map]
    exact List.map_congr_left fun g hg => by
      rw [h.placed_eq hok hle hright g hg]
      rfl
  rw [h.trimmed_eq hle hright]
  refine ⟨hle, ⟨kept, gone.map Prod.fst, h.culled.perm, rfl, ?_, hdrops⟩, h.lies, fun k => ?_⟩
  · intro x hx y hy
    obtain ⟨g, hg, rfl⟩ := List.mem_map.1 hx
    exact h.culled.le g hg y hy
  · have hunits : (gone.map Prod.fst).map (fun x => (x.id, units t.toItemTable x)) =
        (gone.map Prod.fst).map fun x => (x.id, x.stack) := by
      refine List.map_congr_left fun x hx => ?_
      have hmem : x ∈ p.inventory := h.culled.perm.subset (List.mem_append_left kept hx)
      cases hid : t.stackable x.id with
      | true => rw [units_stackable hid]
      | false => rw [units_unstackable hid, hok.unit x hmem hid]
    have hground : groundOf k new = held t.toItemTable k (gone.map Prod.fst) := by
      rw [groundOf, held, ← tally_pairs, hdrops, ← hunits, tally_pairs]
    have hall : held t.toItemTable k (gone.map Prod.fst ++ kept) =
        held t.toItemTable k p.inventory := tally_perm h.culled.perm
    rw [held_append] at hall
    rw [hground, Nat.add_comm]
    exact hall

theorem Felled.right (h : Felled t most victor p gone kept new)
    (hok : InvOk t.toItemTable p.inventory)
    (hfair : FairDeath t most victor p (kept.map (trimmed t)) new) :
    DiesRight t most p.inventory := by
  have hle : kept.length ≤ most := by
    have hfew := hfair.few
    rwa [List.length_map] at hfew
  refine ⟨h.length_le_iff.1 hle, fun a x b hinv hid hout y hy => ?_,
    fun a x b hinv hid hout => ?_⟩
  · -- the drop for the slot is that of a slot of its item, and there is one
    have hgone : (x, b.filter fun y => decide (slotValue t x ≤ slotValue t y)) ∈ gone :=
      h.culled.mem_gone_iff.2 ⟨a, b, hinv, (h.outlasting_iff hle hinv).2 hout, rfl⟩
    have hplaced : placed t x (b.filter fun y => decide (slotValue t x ≤ slotValue t y)) =
        y.stack := by
      rw [placed, if_pos hid, List.head?_filter, hy]
      rfl
    obtain ⟨stays, lost, hperm, -, -, hdrops⟩ := hfair.fair
    have hdrop : (x.id, y.stack) ∈ lost.map fun z => (z.id, z.stack) := by
      rw [← hdrops, h.drops, ← hplaced]
      exact List.mem_map.2 ⟨_, hgone, rfl⟩
    obtain ⟨z, hz, hzx⟩ := List.mem_map.1 hdrop
    obtain ⟨hzid, hzstack⟩ := Prod.mk.inj hzx
    have hmem : x ∈ p.inventory := by
      rw [hinv]
      simp
    have hsame := hok.wf.eq_of_id hid hmem (hperm.subset (List.mem_append_left stays hz)) hzid
    rw [← hzstack, hsame]
  · -- nothing of its item is on the ground, so what is held has not changed
    have hkept : x ∈ kept := by
      refine h.culled.mem_kept_iff.2 ⟨a, b, hinv, ?_⟩
      have hiff := h.outlasting_iff hle hinv
      omega
    have hmem : x ∈ p.inventory := h.culled.sublist.subset hkept
    have hground : groundOf x.id new = 0 := by
      refine tally_eq_zero fun g hg heq => ?_
      have hdrop : (g.id, g.stack) ∈ new.map fun g => (g.id, g.stack) :=
        List.mem_map_of_mem hg
      rw [h.drops] at hdrop
      obtain ⟨g', hg', hpair⟩ := List.mem_map.1 hdrop
      obtain ⟨hid', -⟩ := Prod.mk.inj hpair
      exact h.apart hok hkept hid g' hg' (hid'.trans heq)
    have hbalance := hfair.balance x.id
    obtain ⟨j, hj⟩ := List.mem_iff_getElem?.1 hmem
    obtain ⟨l, hl⟩ := List.mem_iff_getElem?.1 (List.mem_map_of_mem (f := trimmed t) hkept)
    rw [hground, Nat.add_zero, held_stackable hok.wf hid hj rfl,
      held_stackable (h.ok hok).wf hid hl (trimmed_id t x)] at hbalance
    by_cases hlarge : 1 < x.stack
    · rw [trimmed, if_pos ⟨hid, hlarge⟩, InvItem.setStack_stack] at hbalance
      omega
    · omega

theorem playerDieItems_felled (t : GearTable) (s : Server) (skulled protectItem : Bool)
    (victor : Option Nat) {i : Nat} {bones : ItemConfig} (hlive : s.live i)
    (hbones : t.byName bonesName = some bones) (hok : InvOk t.toItemTable (s.get i).inventory) :
    ∃ gone kept new m, ∃ g : GroundItem,
      Felled t (keptMax skulled protectItem) victor (s.get i) gone kept new ∧
        g.id = bones.id ∧ g.stack = 1 ∧ LiesAt (s.get i) victor g ∧
        playerDieItems t s i victor skulled protectItem =
          .ok (leaving s i (kept.map (trimmed t)) (g :: new) m) := by
  obtain ⟨g, hid, hstack, hlies, hadd⟩ :=
    serverAddTempItem_lies s victor (s.get i) bones.id 1
  have hstart : serverAddTempItem s victor (s.get i).mob.x (s.get i).mob.y bones.id 1 =
      leaving s i (s.get i).inventory [g] (s.groundItemCounter + 1) := by
    rw [hadd, leaving, Server.modify_eq_self rfl]
  have hget := leaving_get hlive (s.get i).inventory [g] (s.groundItemCounter + 1)
  have hlive' := live_leaving hlive (s.get i).inventory [g] (s.groundItemCounter + 1)
  obtain ⟨gone, kept, new, m, hfelled, hloop⟩ :=
    deathLoop_felled (keptMax skulled protectItem) victor hlive'
      (by rw [hget]; exact hok) (by rw [hget])
  rw [hget] at hfelled
  rw [leaving_leaving] at hloop
  have hget₂ := leaving_get hlive kept ([g] ++ new) m
  have htrim : trimLoop t i kept.length 0 (leaving s i kept ([g] ++ new) m) = _ :=
    trimLoop_eq (a := []) (live_leaving hlive kept ([g] ++ new) m)
      (by rw [hget₂]; exact hok.sublist hfelled.culled.sublist) (by rw [hget₂]; rfl)
  refine ⟨gone, kept, new, m, g, hfelled, hid, hstack, hlies, ?_⟩
  simp only [playerDieItems, hbones, hstart]
  rw [hloop]
  simp only [hget₂]
  rw [htrim, leaving_leaving]
  simp [leaving]

/-- A death ends, and it is a fair one if and only if of the player's slots no
more than are kept have the top value, every stack that is lost is as large as
the next slot of its worth or more, and every stack that is kept is of one. -/
theorem death_fair_iff (t : GearTable) (s : Server) (skulled protectItem : Bool)
    (victor : Option Nat) {i : Nat} {bones : ItemConfig} (hlive : s.live i)
    (hbones : t.byName bonesName = some bones) (hok : InvOk t.toItemTable (s.get i).inventory) :
    ∃ s' g drops, playerDieItems t s i victor skulled protectItem = .ok s' ∧
      s'.tempItems = s.tempItems ++ g :: drops ∧
      g.id = bones.id ∧ g.stack = 1 ∧ LiesAt (s.get i) victor g ∧
      (FairDeath t (keptMax skulled protectItem) victor (s.get i) (s'.get i).inventory drops ↔
        DiesRight t (keptMax skulled protectItem) (s.get i).inventory) := by
  obtain ⟨gone, kept, new, m, g, hfelled, hid, hstack, hlies, hrun⟩ :=
    playerDieItems_felled t s skulled protectItem victor hlive hbones hok
  refine ⟨_, g, new, hrun, rfl, hid, hstack, hlies, ?_⟩
  rw [leaving_get hlive]
  exact ⟨hfelled.right hok, hfelled.fair hok⟩

/-- Bones, a rune that stacks and a log that does not. -/
def graveTable : GearTable where
  items := [⟨0, [bonesName], 1, 0⟩, ⟨1, [['r', 'u', 'n', 'e']], 0, 0⟩, ⟨2, [['l', 'o', 'g']], 1, 0⟩]
  id_eq i c h := by
    match i, h with
    | 0, h => cases h; rfl
    | 1, h => cases h; rfl
    | 2, h => cases h; rfl
  gear := fun _ => {}
  value := fun id => id
  projectiles := []

def graveServer (inv : List InvItem) : Server :=
  { players := fun i => if i = 0 then some { inventory := inv } else none, maxPlayerId := 1 }

/-- Runes behind a log are dropped as they were. -/
theorem death_fair_last : ∃ s' g drops,
    playerDieItems graveTable (graveServer [⟨2, 1, false⟩, ⟨1, 20, false⟩]) 0 none true false =
        .ok s' ∧
      s'.tempItems = [] ++ g :: drops ∧
      FairDeath graveTable 0 none ((graveServer [⟨2, 1, false⟩, ⟨1, 20, false⟩]).get 0)
        (s'.get 0).inventory drops := by
  have hok : InvOk graveTable.toItemTable [⟨2, 1, false⟩, ⟨1, 20, false⟩] :=
    ⟨by decide, by decide, by decide, by decide⟩
  obtain ⟨s', g, drops, hrun, htemp, -, -, -, hfair⟩ :=
    death_fair_iff graveTable (graveServer [⟨2, 1, false⟩, ⟨1, 20, false⟩]) true false none
      (show (graveServer _).live 0 from rfl) rfl hok
  refine ⟨s', g, drops, hrun, htemp, hfair.2 ⟨by decide, fun a x b hinv hid _ y hy => ?_,
    fun _ _ _ _ _ hout => absurd hout (Nat.not_lt_zero _)⟩⟩
  match a, hinv with
  | [], hinv =>
      obtain ⟨rfl, -⟩ := List.cons.inj hinv
      cases hid
  | [_], hinv =>
      obtain ⟨-, hrest⟩ := List.cons.inj hinv
      obtain ⟨-, rfl⟩ := List.cons.inj hrest
      cases hy
  | _ :: _ :: _, hinv =>
      have hlen : 2 = _ := congrArg List.length hinv
      simp at hlen

/-- Of runes in front of a log, which is worth more, one is dropped and the
rest are gone. -/
theorem stack_dropped_as_next :
    ¬ ∃ s' g drops,
      playerDieItems graveTable (graveServer [⟨1, 20, false⟩, ⟨2, 1, false⟩]) 0 none true false =
          .ok s' ∧
        s'.tempItems = [] ++ g :: drops ∧
        FairDeath graveTable 0 none ((graveServer [⟨1, 20, false⟩, ⟨2, 1, false⟩]).get 0)
          (s'.get 0).inventory drops := by
  rintro ⟨s', g, drops, hrun, htemp, hfair⟩
  have hgot : (playerDieItems graveTable (graveServer [⟨1, 20, false⟩, ⟨2, 1, false⟩]) 0 none
      true false).map (fun s' => ((s'.get 0).inventory,
        s'.tempItems.map fun g => (g.id, g.stack))) = .ok ([], [(0, 1), (1, 1), (2, 1)]) := by
    decide +kernel
  rw [hrun] at hgot
  obtain ⟨hinv, hground⟩ := Prod.mk.inj (Except.ok.inj hgot)
  rw [htemp] at hground
  obtain ⟨-, hdrops⟩ := List.cons.inj hground
  have hbalance := hfair.balance 1
  rw [hinv, groundOf, ← tally_pairs, hdrops] at hbalance
  have htwenty : 0 + 1 = 20 := hbalance
  omega

end Sundae.Proofs
