import Sundae.Proofs.Contact
import Sundae.Proofs.Session

/-!
# Who is told

Every function that sends a message about a friend sends one polarity only, so
what it does is said by a set: which slots are told of which name. The sets
below are read off the functions, each over the server the test is made on.
-/

namespace Sundae.Proofs

open Sundae.Ref

/-- `player_is_blocked(p, n, p->block_private)` -/
def hides (p : Player) (n : Int) : Bool := playerIsBlocked p n p.blockPrivate

theorem hides_iff {p : Player} {n : Int} :
    hides p n = true ↔ n ∈ p.ignoreList ∨ n ∉ p.friendList ∧ p.blockPrivate = true := by
  unfold hides playerIsBlocked playerHasIgnore playerHasFriend
  simp only [List.contains_iff_mem]
  by_cases hig : n ∈ p.ignoreList
  · simp [hig]
  · by_cases hfr : n ∈ p.friendList
    · simp [hig, hfr]
    · simp [hig, hfr]

/-- The tests of `player_notify_friend_online` and `_offline`. -/
def Tells (s : Server) (k : Nat) (n : Int) : Prop :=
  n ∈ (s.get k).friendList ∧ ∀ j, s.findName n = some j → hides (s.get j) (s.get k).name = false

instance (s : Server) (k : Nat) (n : Int) : Decidable (Tells s k n) :=
  decidable_of_iff (n ∈ (s.get k).friendList ∧
    ∀ j ∈ s.findName n, hides (s.get j) (s.get k).name = false) Iff.rfl

/-- Nothing happens but messages of one kind, to the slots `about` names and
about the names it gives. -/
def Told (online : Bool) (about : Nat → Int → Prop) (s s' : Server) : Prop :=
  ∃ l, s' = { s with notices := s.notices ++ l } ∧
    ∀ k n w, (⟨k, n, w⟩ : Notice) ∈ l ↔ w = online ∧ about k n

section

variable {online : Bool} {P Q : Nat → Int → Prop} {s s' s'' : Server}

theorem Told.refl (hP : ∀ k n, ¬ P k n) (s : Server) : Told online P s s := by
  refine ⟨[], by simp, fun k n w => ?_⟩
  constructor
  · intro h
    cases h
  · exact fun h => absurd h.2 (hP k n)

theorem Told.congr (h : Told online P s s') (hPQ : ∀ k n, P k n ↔ Q k n) : Told online Q s s' := by
  obtain ⟨l, hs', hl⟩ := h
  refine ⟨l, hs', fun k n w => ?_⟩
  rw [hl, hPQ]

theorem Told.trans (h : Told online P s s') (h' : Told online Q s' s'') :
    Told online (fun k n => P k n ∨ Q k n) s s'' := by
  obtain ⟨l, rfl, hl⟩ := h
  obtain ⟨l', rfl, hl'⟩ := h'
  refine ⟨l ++ l', by simp, fun k n w => ?_⟩
  rw [List.mem_append, hl, hl', and_or_left]

/-- A write after the messages might as well have come before. -/
theorem Told.modify (h : Told online P s s') (i : Nat) (f : Player → Player) :
    Told online P (s.modify i f) (s'.modify i f) := by
  obtain ⟨l, rfl, hl⟩ := h
  exact ⟨l, rfl, hl⟩

/-- A server that differs in the messages sent at most. -/
def SameBut (s s' : Server) : Prop := ∃ l, s' = { s with notices := l }

theorem Told.sameBut (h : Told online P s s') : SameBut s s' := by
  obtain ⟨l, rfl, -⟩ := h
  exact ⟨_, rfl⟩

theorem SameBut.trans (h : SameBut s s') (h' : SameBut s' s'') : SameBut s s'' := by
  obtain ⟨l, rfl⟩ := h
  obtain ⟨l', rfl⟩ := h'
  exact ⟨l', rfl⟩

theorem SameBut.tells (h : SameBut s s') {k : Nat} {n : Int} : Tells s' k n ↔ Tells s k n := by
  obtain ⟨l, rfl⟩ := h
  exact Iff.rfl

/-- A loop whose every turn sends what the turn would send at the start. -/
theorem foldl_told {α : Type} (online : Bool) (g : Server → α → Server)
    (about : α → Nat → Int → Prop) {s₀ s : Server} (hs : SameBut s₀ s)
    (hg : ∀ s, SameBut s₀ s → ∀ a, Told online (about a) s (g s a)) (as : List α) :
    Told online (fun k n => ∃ a ∈ as, about a k n) s (as.foldl g s) := by
  induction as generalizing s with
  | nil =>
      refine Told.refl (fun k n h => ?_) s
      obtain ⟨a, ha, -⟩ := h
      cases ha
  | cons a as ih =>
      have hfirst := hg s hs a
      have hrest := ih (hs.trans hfirst.sameBut)
      refine (hfirst.trans hrest).congr fun k n => ?_
      simp

theorem playerNotifyFriend_told (online : Bool) (s : Server) (i : Nat) (name : Int) :
    Told online (fun k n => k = i ∧ n = name ∧ Tells s i name) s
      (playerNotifyFriend online s i name) := by
  unfold playerNotifyFriend
  by_cases hfriend : name ∈ (s.get i).friendList
  · have hhas : playerHasFriend (s.get i) name = true := List.contains_iff_mem.2 hfriend
    simp only [hhas, Bool.not_true, Bool.false_eq_true, if_false]
    split
    · next hblocked =>
      obtain ⟨j, hj, hhides⟩ := (Option.any_eq_true _ _).1 hblocked
      refine Told.refl (fun k n h => ?_) s
      have hopen := h.2.2.2 j hj
      rw [hides, hhides] at hopen
      cases hopen
    · next hblocked =>
      have htells : Tells s i name := by
        refine ⟨hfriend, fun j hj => ?_⟩
        by_contra hhides
        exact hblocked ((Option.any_eq_true _ _).2 ⟨j, hj, Bool.not_eq_false _ ▸ hhides⟩)
      refine ⟨_, rfl, fun k n w => ?_⟩
      rw [List.mem_singleton, Notice.mk.injEq]
      constructor
      · rintro ⟨hk, hn, hw⟩
        exact ⟨hw, hk, hn, htells⟩
      · rintro ⟨hw, hk, hn, -⟩
        exact ⟨hk, hn, hw⟩
  · have hhas : playerHasFriend (s.get i) name = false :=
      Bool.eq_false_iff.2 fun h => hfriend (List.contains_iff_mem.1 h)
    simp only [hhas, Bool.not_false, if_true]
    exact Told.refl (fun k n h => hfriend h.2.2.1) s

theorem notifyNamed_told (online : Bool) (s : Server) (i : Nat) (entry : Int) :
    Told online (fun k n => s.findName entry = some k ∧ n = (s.get i).name ∧
      Tells s k (s.get i).name) s (notifyNamed online s i entry) := by
  unfold notifyNamed
  split
  · next hnone =>
    refine Told.refl (fun k n h => ?_) s
    rw [hnone] at h
    cases h.1
  · next j hj =>
    refine (playerNotifyFriend_told online s j _).congr fun k n => ?_
    rw [hj, Option.some.injEq]
    constructor
    · rintro ⟨rfl, h⟩
      exact ⟨rfl, h⟩
    · rintro ⟨rfl, h⟩
      exact ⟨rfl, h⟩

theorem serverRegister_told (online : Bool) (name : Int) (s : Server) :
    Told online (fun k n => k < s.maxPlayerId ∧ s.live k ∧ n = name ∧ Tells s k name) s
      (serverRegister online name s) := by
  have hturn : ∀ t, SameBut s t → ∀ i,
      Told online (fun k n => s.live i ∧ k = i ∧ n = name ∧ Tells s i name) t
        (if t.live i then ((t.get i).friendList.filter (· == name)).foldl
          (fun s _ => playerNotifyFriend online s i name) t else t) := by
    rintro t ⟨l, rfl⟩ i
    split
    · next hi =>
      have hloop := foldl_told online (fun s (_ : Int) => playerNotifyFriend online s i name)
        (fun _ k n => k = i ∧ n = name ∧ Tells s i name)
        (show SameBut s { s with notices := l } from ⟨l, rfl⟩)
        fun t ht _ => (playerNotifyFriend_told online t i name).congr fun k n => by rw [ht.tells]
      refine (hloop ((s.get i).friendList.filter (· == name))).congr fun k n => ?_
      constructor
      · rintro ⟨a, -, h⟩
        exact ⟨hi, h⟩
      · rintro ⟨-, h⟩
        exact ⟨name, List.mem_filter.2 ⟨h.2.2.1, by simp⟩, h⟩
    · next hi => exact Told.refl (fun k n h => hi h.1) _
  refine (foldl_told online _ _ ⟨s.notices, rfl⟩ hturn (List.range s.maxPlayerId)).congr
    fun k n => ?_
  constructor
  · rintro ⟨i, hi, hlive, rfl, h⟩
    exact ⟨List.mem_range.1 hi, hlive, h⟩
  · rintro ⟨hk, hlive, h⟩
    exact ⟨k, List.mem_range.2 hk, hlive, rfl, h⟩

theorem serverRegisterStatus_told (online : Bool) (s : Server) (i : Nat) :
    Told online (fun k n => k < s.maxPlayerId ∧ s.live k ∧ n = (s.get i).name ∧
      (s.get k).name ∉ (s.get i).friendList ∧ Tells s k (s.get i).name) s
      (serverRegisterStatus online s i) := by
  have hturn : ∀ t, SameBut s t → ∀ j,
      Told online (fun k n => s.live j ∧ k = j ∧ n = (s.get i).name ∧
        (s.get j).name ∉ (s.get i).friendList ∧ Tells s j (s.get i).name) t
        (if t.live j then ((t.get j).friendList.filter (· == (t.get i).name)).foldl
          (fun s _ => if playerHasFriend (s.get i) (s.get j).name then s
            else playerNotifyFriend online s j (s.get i).name) t else t) := by
    rintro t ⟨l, rfl⟩ j
    split
    · next hj =>
      have hloop := foldl_told online
        (fun s (_ : Int) => if playerHasFriend (s.get i) (s.get j).name then s
          else playerNotifyFriend online s j (s.get i).name)
        (fun _ k n => k = j ∧ n = (s.get i).name ∧ (s.get j).name ∉ (s.get i).friendList ∧
          Tells s j (s.get i).name)
        (show SameBut s { s with notices := l } from ⟨l, rfl⟩) fun t ht _ => by
          obtain ⟨l, rfl⟩ := ht
          split
          · next hhas =>
            exact Told.refl (fun k n h => h.2.2.1 (List.contains_iff_mem.1 hhas)) _
          · next hhas =>
            refine (playerNotifyFriend_told online _ j _).congr fun k n => ?_
            have hnot : (s.get j).name ∉ (s.get i).friendList :=
              fun h => hhas (List.contains_iff_mem.2 h)
            constructor
            · rintro ⟨hk, hn, h⟩
              exact ⟨hk, hn, hnot, h⟩
            · rintro ⟨hk, hn, -, h⟩
              exact ⟨hk, hn, h⟩
      refine (hloop ((s.get j).friendList.filter (· == (s.get i).name))).congr fun k n => ?_
      constructor
      · rintro ⟨a, -, h⟩
        exact ⟨hj, h⟩
      · rintro ⟨-, h⟩
        exact ⟨(s.get i).name, List.mem_filter.2 ⟨h.2.2.2.1, by simp⟩, h⟩
    · next hj => exact Told.refl (fun k n h => hj h.1) _
  refine (foldl_told online _ _ ⟨s.notices, rfl⟩ hturn (List.range s.maxPlayerId)).congr
    fun k n => ?_
  constructor
  · rintro ⟨j, hj, hlive, rfl, h⟩
    exact ⟨List.mem_range.1 hj, hlive, h⟩
  · rintro ⟨hk, hlive, h⟩
    exact ⟨k, List.mem_range.2 hk, hlive, rfl, h⟩

end

/-! ## The packets -/

def withFriend (n : Int) (p : Player) : Player := { p with friendList := p.friendList ++ [n] }

def withoutFriend (n : Int) (p : Player) : Player :=
  { p with friendList := p.friendList.erase n }

def withIgnore (n : Int) (p : Player) : Player := { p with ignoreList := p.ignoreList ++ [n] }

def withoutIgnore (n : Int) (p : Player) : Player :=
  { p with ignoreList := p.ignoreList.erase n }

/-- What a packet asks for: to be hidden, to block private messages, to block
trades. -/
structure Privacy where
  hideOnline : Bool
  blockPrivate : Bool
  blockTrade : Bool

/-- What is read of the packet before anything is done. -/
def privacyOf (p : Player) (data : List Nat) : Option Privacy :=
  let offset := if p.protocolRev < 115 then 2 else 1
  let hide := if p.protocolRev < 115 then bufGetu8 data 1 else some 0
  match hide, bufGetu8 data offset, bufGetu8 data (offset + 1), bufGetu8 data (offset + 2),
    bufGetu8 data (offset + 3) with
  | some hideOnline, some _blockPublic, some blockPrivate, some blockTrade, some _blockDuel =>
    some ⟨hideOnline != 0, blockPrivate != 0, blockTrade != 0⟩
  | _, _, _, _, _ => none

def withPrivacy (a : Privacy) (p : Player) : Player :=
  { p with blockPrivate := a.blockPrivate || a.hideOnline, blockTrade := a.blockTrade }

section

variable {p : Player} {m n : Int}

theorem hides_congr {q : Player} (h : hides p m = true ↔ hides q n = true) :
    hides p m = hides q n := Bool.eq_iff_iff.2 h

theorem hides_withFriend (h : m ≠ n) : hides (withFriend n p) m = hides p m := by
  apply hides_congr
  simp [hides_iff, withFriend, h]

theorem hides_withFriend_self (h : n ∉ p.ignoreList) : hides (withFriend n p) n = false := by
  rw [← Bool.not_eq_true, hides_iff]
  simp [withFriend, h]

theorem hides_withoutFriend (h : m ≠ n) : hides (withoutFriend n p) m = hides p m := by
  apply hides_congr
  simp [hides_iff, withoutFriend, List.mem_erase_of_ne h]

theorem hides_withoutFriend_open (h : p.blockPrivate = false) :
    hides (withoutFriend n p) m = hides p m := by
  apply hides_congr
  simp [hides_iff, withoutFriend, h]

/-- A friend that is on the list twice stays one. -/
theorem hides_withoutFriend_twice (h : n ∈ p.friendList.erase n) :
    hides (withoutFriend n p) n = hides p n := by
  apply hides_congr
  simp [hides_iff, withoutFriend, h, List.mem_of_mem_erase h]

theorem hides_withoutFriend_self (h : n ∉ p.friendList.erase n) (hblock : p.blockPrivate = true) :
    hides (withoutFriend n p) n = true := by
  rw [hides_iff]
  exact .inr ⟨h, hblock⟩

/-- Who is ignored stays so. -/
theorem hides_withoutFriend_mono (h : hides p n = true) : hides (withoutFriend n p) n = true := by
  rw [hides_iff] at h ⊢
  rcases h with h | ⟨h, hblock⟩
  · exact .inl h
  · exact .inr ⟨fun hmem => h (List.mem_of_mem_erase hmem), hblock⟩

theorem hides_withIgnore (h : m ≠ n) : hides (withIgnore n p) m = hides p m := by
  apply hides_congr
  simp [hides_iff, withIgnore, h]

theorem hides_withIgnore_self : hides (withIgnore n p) n = true := by
  rw [hides_iff]
  exact .inl (List.mem_append_right _ (List.mem_singleton_self n))

theorem hides_withoutIgnore (h : m ≠ n) : hides (withoutIgnore n p) m = hides p m := by
  apply hides_congr
  simp [hides_iff, withoutIgnore, List.mem_erase_of_ne h]

theorem hides_of_ignore (h : n ∈ p.ignoreList) : hides p n = true := hides_iff.2 (.inl h)

variable {a : Privacy}

/-- The setting does not matter to friends, nor to who is ignored. -/
theorem hides_withPrivacy_contact (h : playerHasContact p n = true) :
    hides (withPrivacy a p) n = hides p n := by
  apply hides_congr
  rw [hides_iff, hides_iff, withPrivacy]
  have hcontact : n ∈ p.friendList ∨ n ∈ p.ignoreList := by
    rwa [← mem_contacts, contacts, List.mem_append] at h
  rcases hcontact with h | h
  · simp [h]
  · simp [h]

theorem hides_withPrivacy_same (h : (a.blockPrivate || a.hideOnline) = p.blockPrivate) :
    hides (withPrivacy a p) n = hides p n := by
  apply hides_congr
  simp [hides_iff, withPrivacy, h]

theorem hides_withPrivacy_other (hn : n ∉ p.friendList)
    (h : (a.blockPrivate || a.hideOnline) = true) : hides (withPrivacy a p) n = true := by
  rw [hides_iff]
  exact .inr ⟨hn, h⟩

theorem hides_of_block (hn : n ∉ p.friendList) (h : p.blockPrivate = true) :
    hides p n = true := hides_iff.2 (.inr ⟨hn, h⟩)

end

section

variable {s : Server} {i : Nat}

theorem findName_modify {f : Player → Player} (hf : ∀ p, (f p).name = p.name) (n : Int) :
    (s.modify i f).findName n = s.findName n := by
  unfold Server.findName
  simp only [Server.modify_maxPlayerId, Server.live_modify, Server.get_modify_field Player.name hf]

theorem findIdx_of_mem {l : List Int} {n : Int} (hn : n ∈ l) :
    ∃ k, l.findIdx? (· == n) = some k := by
  apply Option.isSome_iff_exists.1
  rw [List.findIdx?_isSome]
  exact List.any_eq_true.2 ⟨n, hn, by simp⟩

/-- One is told that the other is there, and the other way round. -/
theorem playerAddFriend_found {n : Int} {j : Nat}
    (hroom : ¬ maxFriends ≤ (s.get i).friendList.length) (hj : s.findName n = some j) :
    Told true (fun k m => (k = i ∧ m = n ∧ Tells (s.modify i (withFriend n)) i n) ∨
      (k = j ∧ m = (s.get i).name ∧ Tells (s.modify i (withFriend n)) j (s.get i).name))
      (s.modify i (withFriend n)) (playerAddFriend s i n) := by
  have hfind : (s.modify i (withFriend n)).findName n = some j := by
    rw [findName_modify (f := withFriend n) fun _ => rfl, hj]
  have hname : ((s.modify i (withFriend n)).get i).name = (s.get i).name :=
    Server.get_modify_field Player.name fun p => rfl
  have hsome : ((s.modify i (withFriend n)).findName n).isSome = true := by
    rw [hfind]
    rfl
  have hadd : playerAddFriend s i n =
      notifyNamed true (playerNotifyFriend true (s.modify i (withFriend n)) i n) i n := by
    unfold playerAddFriend
    rw [if_neg hroom]
    exact if_pos hsome
  have hfirst := playerNotifyFriend_told true (s.modify i (withFriend n)) i n
  have hsecond := notifyNamed_told true (playerNotifyFriend true (s.modify i (withFriend n)) i n) i n
  rw [hadd]
  refine (hfirst.trans hsecond).congr fun k m => ?_
  obtain ⟨l, hl⟩ := hfirst.sameBut
  rw [hl]
  have hback : ∀ m, Server.findName { s.modify i (withFriend n) with notices := l } m =
    (s.modify i (withFriend n)).findName m := fun _ => rfl
  have hplayer : ∀ k, Server.get { s.modify i (withFriend n) with notices := l } k =
    (s.modify i (withFriend n)).get k := fun _ => rfl
  have htells : ∀ k m, Tells { s.modify i (withFriend n) with notices := l } k m ↔
    Tells (s.modify i (withFriend n)) k m := fun _ _ => Iff.rfl
  rw [hback, hfind, hplayer, hname, htells, Option.some.injEq]
  constructor
  · rintro (h | ⟨rfl, h⟩)
    · exact .inl h
    · exact .inr ⟨rfl, h⟩
  · rintro (h | ⟨rfl, h⟩)
    · exact .inl h
    · exact .inr ⟨rfl, h⟩

theorem playerAddFriend_absent {n : Int}
    (hroom : ¬ maxFriends ≤ (s.get i).friendList.length) (hnone : s.findName n = none) :
    Told false (fun k m => k = i ∧ m = n ∧ Tells (s.modify i (withFriend n)) i n)
      (s.modify i (withFriend n)) (playerAddFriend s i n) := by
  have hsome : ¬ ((s.modify i (withFriend n)).findName n).isSome = true := by
    rw [findName_modify (f := withFriend n) fun _ => rfl, hnone]
    exact Bool.false_ne_true
  have hadd : playerAddFriend s i n =
      playerNotifyFriend false (s.modify i (withFriend n)) i n := by
    unfold playerAddFriend
    rw [if_neg hroom]
    exact if_neg hsome
  rw [hadd]
  exact playerNotifyFriend_told false _ i n

/-- Only who blocks private messages tells the friend it removes. -/
theorem playerRemoveFriend_told {n : Int} (hn : n ∈ (s.get i).friendList) :
    Told false (fun k m => (s.get i).blockPrivate = true ∧ s.findName n = some k ∧
      m = (s.get i).name ∧ Tells s k (s.get i).name)
      (s.modify i (withoutFriend n)) (playerRemoveFriend s i n) := by
  obtain ⟨k, h⟩ := findIdx_of_mem hn
  have hwrite : ∀ s' : Server, s'.get i = s.get i →
      (s'.modify i fun p => { p with friendList := p.friendList.eraseIdx k }) =
        s'.modify i (withoutFriend n) := by
    intro s' hs'
    apply Server.modify_congr
    rw [hs', withoutFriend, erase_eq_eraseIdx h]
  unfold playerRemoveFriend
  rw [h]
  dsimp only
  split
  · next hblock =>
    have htold := notifyNamed_told false s i n
    obtain ⟨l, hl⟩ := htold.sameBut
    rw [hwrite _ (by rw [hl]; rfl)]
    refine (htold.modify i (withoutFriend n)).congr fun k m => ?_
    simp only [hblock, true_and]
  · next hblock =>
    rw [hwrite _ rfl]
    exact Told.refl (fun k m h => hblock h.1) _

theorem playerAddIgnore_told {n : Int} (hroom : ¬ maxIgnore ≤ (s.get i).ignoreList.length)
    (hn : n ∉ (s.get i).friendList) :
    Told false (fun k m => (s.get i).blockPrivate = false ∧ s.findName n = some k ∧
      m = (s.get i).name ∧ Tells s k (s.get i).name)
      (s.modify i (withIgnore n)) (playerAddIgnore s i n) := by
  have hhas : playerHasFriend (s.get i) n = false :=
    Bool.eq_false_iff.2 fun h => hn (List.contains_iff_mem.1 h)
  unfold playerAddIgnore
  rw [if_neg hroom, hhas, Bool.or_false]
  apply Told.modify
  split
  · next hblock =>
    have hopen : (s.get i).blockPrivate = false := by simpa using hblock
    exact (notifyNamed_told false s i n).congr fun k m => by simp only [hopen, true_and]
  · next hblock => exact Told.refl (fun k m h => hblock (by rw [h.1]; rfl)) s

theorem playerRemoveIgnore_told {n : Int} (hn : n ∈ (s.get i).ignoreList) :
    Told true (fun k m => s.findName n = some k ∧ m = (s.get i).name ∧
      Tells (s.modify i (withoutIgnore n)) k (s.get i).name)
      (s.modify i (withoutIgnore n)) (playerRemoveIgnore s i n) := by
  obtain ⟨k, h⟩ := findIdx_of_mem hn
  have hwrite : (s.modify i fun p => { p with ignoreList := p.ignoreList.eraseIdx k }) =
      s.modify i (withoutIgnore n) := by
    apply Server.modify_congr
    rw [withoutIgnore, erase_eq_eraseIdx h]
  unfold playerRemoveIgnore
  rw [h]
  dsimp only
  rw [hwrite]
  refine (notifyNamed_told true (s.modify i (withoutIgnore n)) i n).congr fun k m => ?_
  have hname : ((s.modify i (withoutIgnore n)).get i).name = (s.get i).name :=
    Server.get_modify_field Player.name fun p => rfl
  rw [findName_modify (f := withoutIgnore n) fun _ => rfl, hname]

theorem opCliPrivacySettings_short {data : List Nat} (h : privacyOf (s.get i) data = none) :
    opCliPrivacySettings s i data = s := by
  unfold privacyOf at h
  unfold opCliPrivacySettings
  grind

theorem privacyOf_some {p : Player} {data : List Nat} {a : Privacy}
    (h : privacyOf p data = some a) :
    let offset := if p.protocolRev < 115 then 2 else 1
    ∃ hide pub priv trade duel,
      (if p.protocolRev < 115 then bufGetu8 data 1 else some 0) = some hide ∧
        bufGetu8 data offset = some pub ∧ bufGetu8 data (offset + 1) = some priv ∧
        bufGetu8 data (offset + 2) = some trade ∧ bufGetu8 data (offset + 3) = some duel ∧
        a = { hideOnline := hide != 0, blockPrivate := priv != 0, blockTrade := trade != 0 } := by
  unfold privacyOf at h
  dsimp only at h
  split at h
  · next hide pub priv trade duel h1 h2 h3 h4 h5 =>
    exact ⟨hide, pub, priv, trade, duel, h1, h2, h3, h4, h5, (Option.some.inj h).symm⟩
  · cases h

theorem opCliPrivacySettings_reads {data : List Nat} {a : Privacy}
    (h : privacyOf (s.get i) data = some a) :
    opCliPrivacySettings s i data =
      let s' := if !(s.get i).blockPrivate && a.blockPrivate then
        serverRegisterHideStatus s i else s
      if (s.get i).blockPrivate && !a.blockPrivate then
        serverRegisterUnhideStatus (s'.modify i (withPrivacy a)) i
      else s'.modify i (withPrivacy a) := by
  obtain ⟨hide, pub, priv, trade, duel, h1, h2, h3, h4, h5, rfl⟩ := privacyOf_some h
  unfold opCliPrivacySettings
  dsimp only at h1 h2 h3 h4 h5 ⊢
  rw [h1, h2, h3, h4, h5]
  have hzero : (priv == 0) = !(priv != 0) := by rw [bne, Bool.not_not]
  dsimp only
  rw [hzero]
  rfl

/-- Everyone who is no friend is told when private messages are blocked, -/
theorem privacySettings_hides {data : List Nat} {a : Privacy}
    (h : privacyOf (s.get i) data = some a) (hold : (s.get i).blockPrivate = false)
    (hnew : a.blockPrivate = true) :
    Told false (fun k n => k < s.maxPlayerId ∧ s.live k ∧ n = (s.get i).name ∧
      (s.get k).name ∉ (s.get i).friendList ∧ Tells s k (s.get i).name)
      (s.modify i (withPrivacy a)) (opCliPrivacySettings s i data) := by
  rw [opCliPrivacySettings_reads h, hold, hnew]
  exact (serverRegisterStatus_told false s i).modify i (withPrivacy a)

/-- and again when they are let through, -/
theorem privacySettings_shows {data : List Nat} {a : Privacy}
    (h : privacyOf (s.get i) data = some a) (hold : (s.get i).blockPrivate = true)
    (hnew : a.blockPrivate = false) :
    Told true (fun k n => k < s.maxPlayerId ∧ s.live k ∧ n = (s.get i).name ∧
      (s.get k).name ∉ (s.get i).friendList ∧ Tells (s.modify i (withPrivacy a)) k (s.get i).name)
      (s.modify i (withPrivacy a)) (opCliPrivacySettings s i data) := by
  rw [opCliPrivacySettings_reads h, hold, hnew]
  refine (serverRegisterStatus_told true (s.modify i (withPrivacy a)) i).congr fun k n => ?_
  have hname : ∀ k, ((s.modify i (withPrivacy a)).get k).name = (s.get k).name :=
    fun k => Server.get_modify_field Player.name fun p => rfl
  have hfriends : ((s.modify i (withPrivacy a)).get i).friendList = (s.get i).friendList :=
    Server.get_modify_field Player.friendList fun p => rfl
  rw [hname, hname, hfriends, Server.live_modify]
  rfl

/-- and nobody otherwise. -/
theorem privacySettings_still {data : List Nat} {a : Privacy}
    (h : privacyOf (s.get i) data = some a) (hsame : a.blockPrivate = (s.get i).blockPrivate) :
    opCliPrivacySettings s i data = s.modify i (withPrivacy a) := by
  rw [opCliPrivacySettings_reads h, hsame]
  cases (s.get i).blockPrivate <;> rfl

end

end Sundae.Proofs
