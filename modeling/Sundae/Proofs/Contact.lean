import Sundae.Lib.Run
import Sundae.Proofs.Login
import Sundae.Proofs.Name
import Sundae.Ref.Contact

/-!
# Whether the contacts can be saved

The server keeps names as numbers and refuses a number it has in either list.
The database keeps the decoded names and refuses a name it has in either list.
Of the numbers from 1 on no two decode to one name; all the others decode to
one and the same.
-/

namespace Sundae.Proofs

open Sundae.Ref Sundae.Lib

/-- What a save writes a row for: the friends, then the ignores. -/
def contacts (p : Player) : List Int := p.friendList ++ p.ignoreList

/-- No name twice in the two lists, and neither list too long. -/
structure ContactsOk (p : Player) : Prop where
  nodup : (contacts p).Nodup
  friendsFit : p.friendList.length ≤ maxFriends
  ignoresFit : p.ignoreList.length ≤ maxIgnore
  inRange : ∀ n ∈ contacts p, InRange n

/-- `UNIQUE("player_id", "contact")` -/
def Saveable (p : Player) : Prop := ((contacts p).map mod37Namedec).Nodup

instance (p : Player) : Decidable (Saveable p) := inferInstanceAs (Decidable (List.Nodup _))

/-- A packet of the player in a slot that changes its contacts. -/
structure ContactEvent where
  op : ContactOp
  slot : Nat
  data : List Nat

def contactStep (s : Server) (e : ContactEvent) : Except Assert Server :=
  .ok (if s.live e.slot then contactPacket e.op s e.slot e.data else s)

/-! ## The lists after a packet -/

/-- What a packet makes of the lists of its player. -/
def listed (op : ContactOp) (target : Option Int) (p : Player) : List Int × List Int :=
  match op, target with
  | .addFriend, some n =>
    if playerHasContact p n = true ∨ maxFriends ≤ p.friendList.length then
      (p.friendList, p.ignoreList)
    else (p.friendList ++ [n], p.ignoreList)
  | .removeFriend, some n => (p.friendList.erase n, p.ignoreList)
  | .addIgnore, some n =>
    if playerHasContact p n = true ∨ maxIgnore ≤ p.ignoreList.length then
      (p.friendList, p.ignoreList)
    else (p.friendList, p.ignoreList ++ [n])
  | .removeIgnore, some n => (p.friendList, p.ignoreList.erase n)
  | _, _ => (p.friendList, p.ignoreList)

def lists (p : Player) : List Int × List Int := (p.friendList, p.ignoreList)

variable {s s' : Server} {i : Nat} {p q : Player}

/-- A step that only sends messages. -/
def Sends (s s' : Server) : Prop := ∃ l, s' = { s with notices := s.notices ++ l }

theorem Sends.refl (s : Server) : Sends s s := ⟨[], by simp⟩

theorem Sends.trans {s'' : Server} (h : Sends s s') (h' : Sends s' s'') : Sends s s'' := by
  obtain ⟨l, rfl⟩ := h
  obtain ⟨l', rfl⟩ := h'
  exact ⟨l ++ l', by simp⟩

theorem Sends.modify (h : Sends s s') (i : Nat) (f : Player → Player) :
    Sends (s.modify i f) (s'.modify i f) := by
  obtain ⟨l, rfl⟩ := h
  exact ⟨l, rfl⟩

theorem Sends.get (h : Sends s s') (k : Nat) : s'.get k = s.get k := by
  obtain ⟨l, rfl⟩ := h
  rfl

theorem Sends.live (h : Sends s s') (k : Nat) : s'.live k ↔ s.live k := by
  obtain ⟨l, rfl⟩ := h
  exact Iff.rfl

theorem playerNotifyFriend_sends (online : Bool) (s : Server) (i : Nat) (name : Int) :
    Sends s (playerNotifyFriend online s i name) := playerNotifyFriend_notices online s i name

theorem notifyNamed_sends (online : Bool) (s : Server) (i : Nat) (entry : Int) :
    Sends s (notifyNamed online s i entry) := by
  unfold notifyNamed
  split
  · exact .refl s
  · exact playerNotifyFriend_sends online s _ _

theorem serverRegisterStatus_sends (online : Bool) (s : Server) (i : Nat) :
    Sends s (serverRegisterStatus online s i) := by
  apply foldl_notices
  intro s k
  split
  · apply foldl_notices
    intro s _
    split
    · exact Sends.refl s
    · exact playerNotifyFriend_sends online s k _
  · exact Sends.refl s

/-- A packet writes its player once, and sends messages. -/
def WritesOnce (s : Server) (i : Nat) (q : Player) (s' : Server) : Prop :=
  Sends (s.modify i fun _ => q) s'

theorem WritesOnce.same (s : Server) (i : Nat) : WritesOnce s i (s.get i) s := by
  have hself : s.modify i (fun _ => s.get i) = s := Server.modify_eq_self rfl
  rw [WritesOnce, hself]
  exact .refl s

theorem WritesOnce.of_modify {f : Player → Player} (h : Sends (s.modify i f) s') :
    WritesOnce s i (f (s.get i)) s' := by
  have heq : s.modify i f = s.modify i fun _ => f (s.get i) := Server.modify_congr rfl
  rwa [WritesOnce, ← heq]

theorem WritesOnce.get (h : WritesOnce s i q s') (hi : s.live i) (k : Nat) :
    s'.get k = if k = i then q else s.get k := by
  rw [Sends.get h, Server.get_modify]
  simp only [hi, and_true]

theorem WritesOnce.live (h : WritesOnce s i q s') (k : Nat) : s'.live k ↔ s.live k := by
  rw [Sends.live h, Server.live_modify]

theorem playerAddFriend_writes (s : Server) (i : Nat) (entry : Int) :
    WritesOnce s i (if maxFriends ≤ (s.get i).friendList.length then s.get i else
      { s.get i with friendList := (s.get i).friendList ++ [entry] })
      (playerAddFriend s i entry) := by
  unfold playerAddFriend
  split
  · exact .same s i
  · apply WritesOnce.of_modify (f := fun p => { p with friendList := p.friendList ++ [entry] })
    simp only
    split
    · exact (playerNotifyFriend_sends true _ i entry).trans (notifyNamed_sends true _ i entry)
    · exact playerNotifyFriend_sends false _ i entry

theorem erase_eq_eraseIdx {l : List Int} {n : Int} {k : Nat}
    (h : l.findIdx? (· == n) = some k) : l.eraseIdx k = l.erase n := by
  rw [List.erase_eq_eraseP', List.eraseP_eq_eraseIdx, h]

theorem erase_of_findIdx {l : List Int} {n : Int} (h : l.findIdx? (· == n) = none) :
    l.erase n = l := by
  rw [List.erase_eq_eraseP', List.eraseP_eq_eraseIdx, h]

theorem playerRemoveFriend_writes (s : Server) (i : Nat) (entry : Int) :
    WritesOnce s i { s.get i with friendList := (s.get i).friendList.erase entry }
      (playerRemoveFriend s i entry) := by
  unfold playerRemoveFriend
  split
  · next h =>
    rw [erase_of_findIdx h]
    exact .same s i
  · next k h =>
    rw [← erase_eq_eraseIdx h]
    apply WritesOnce.of_modify (f := fun p => { p with friendList := p.friendList.eraseIdx k })
    apply Sends.modify
    split
    · exact notifyNamed_sends false s i entry
    · exact .refl s

theorem playerAddIgnore_writes (s : Server) (i : Nat) (entry : Int) :
    WritesOnce s i (if maxIgnore ≤ (s.get i).ignoreList.length then s.get i else
      { s.get i with ignoreList := (s.get i).ignoreList ++ [entry] })
      (playerAddIgnore s i entry) := by
  unfold playerAddIgnore
  split
  · exact .same s i
  · apply WritesOnce.of_modify (f := fun p => { p with ignoreList := p.ignoreList ++ [entry] })
    apply Sends.modify
    split
    · exact notifyNamed_sends false s i entry
    · exact .refl s

theorem playerRemoveIgnore_writes (s : Server) (i : Nat) (entry : Int) :
    WritesOnce s i { s.get i with ignoreList := (s.get i).ignoreList.erase entry }
      (playerRemoveIgnore s i entry) := by
  unfold playerRemoveIgnore
  split
  · next h =>
    rw [erase_of_findIdx h]
    exact .same s i
  · next k h =>
    rw [← erase_eq_eraseIdx h]
    apply WritesOnce.of_modify (f := fun p => { p with ignoreList := p.ignoreList.eraseIdx k })
    exact notifyNamed_sends true _ i entry

theorem opCliPrivacySettings_writes (s : Server) (i : Nat) (data : List Nat) :
    ∃ q, WritesOnce s i q (opCliPrivacySettings s i data) ∧ lists q = lists (s.get i) := by
  unfold opCliPrivacySettings
  simp only
  split
  · next hide _ priv trade _ _ _ _ _ _ =>
    refine ⟨{ s.get i with blockPrivate := priv != 0 || hide != 0, blockTrade := trade != 0 }, ?_, rfl⟩
    apply WritesOnce.of_modify (f := fun p => { p with
      blockPrivate := priv != 0 || hide != 0, blockTrade := trade != 0 })
    have hfirst : Sends s (if (!(s.get i).blockPrivate && priv != 0) = true then
        serverRegisterHideStatus s i else s) := by
      split
      · exact serverRegisterStatus_sends false s i
      · exact .refl s
    split
    · exact (hfirst.modify i _).trans (serverRegisterStatus_sends true _ i)
    · exact hfirst.modify i _
  · exact ⟨_, .same s i, rfl⟩

theorem contactPacket_writes (op : ContactOp) (s : Server) (i : Nat) (data : List Nat) :
    ∃ q, WritesOnce s i q (contactPacket op s i data) ∧
      lists q = listed op (bufGets64 data 1) (s.get i) := by
  have hstay : ∀ {l}, l = lists (s.get i) → ∃ q, WritesOnce s i q s ∧ lists q = l :=
    fun h => ⟨_, .same s i, h.symm⟩
  unfold contactPacket listed
  cases op with
  | privacySettings =>
      obtain ⟨q, hq, hlists⟩ := opCliPrivacySettings_writes s i data
      refine ⟨q, ?_, ?_⟩
      · cases bufGets64 data 1 <;> exact hq
      · cases bufGets64 data 1 <;> exact hlists
  | addFriend =>
      cases bufGets64 data 1 with
      | none => exact hstay rfl
      | some n =>
          simp only
          by_cases hhas : playerHasContact (s.get i) n = true
          · rw [if_pos hhas, if_pos (.inl hhas)]
            exact hstay rfl
          · rw [if_neg hhas]
            refine ⟨_, playerAddFriend_writes s i n, ?_⟩
            by_cases hfull : maxFriends ≤ (s.get i).friendList.length
            · rw [if_pos hfull, if_pos (.inr hfull)]
              rfl
            · rw [if_neg hfull, if_neg fun h => hfull (h.resolve_left hhas)]
              rfl
  | addIgnore =>
      cases bufGets64 data 1 with
      | none => exact hstay rfl
      | some n =>
          simp only
          by_cases hhas : playerHasContact (s.get i) n = true
          · rw [if_pos hhas, if_pos (.inl hhas)]
            exact hstay rfl
          · rw [if_neg hhas]
            refine ⟨_, playerAddIgnore_writes s i n, ?_⟩
            by_cases hfull : maxIgnore ≤ (s.get i).ignoreList.length
            · rw [if_pos hfull, if_pos (.inr hfull)]
              rfl
            · rw [if_neg hfull, if_neg fun h => hfull (h.resolve_left hhas)]
              rfl
  | removeFriend =>
      cases bufGets64 data 1 with
      | none => exact hstay rfl
      | some n => exact ⟨_, playerRemoveFriend_writes s i n, rfl⟩
  | removeIgnore =>
      cases bufGets64 data 1 with
      | none => exact hstay rfl
      | some n => exact ⟨_, playerRemoveIgnore_writes s i n, rfl⟩

/-! ## One more contact -/

theorem mem_contacts {n : Int} : n ∈ contacts p ↔ playerHasContact p n = true := by
  rw [contacts, List.mem_append, playerHasContact, Bool.or_eq_true, playerHasFriend,
    playerHasIgnore, List.contains_iff_mem, List.contains_iff_mem]

/-- The packet puts a name on a list. -/
def Adds (s : Server) (e : ContactEvent) (n : Int) : Prop :=
  s.live e.slot ∧ bufGets64 e.data 1 = some n ∧ playerHasContact (s.get e.slot) n = false ∧
    (e.op = .addFriend ∧ (s.get e.slot).friendList.length < maxFriends ∨
      e.op = .addIgnore ∧ (s.get e.slot).ignoreList.length < maxIgnore)

/-- No second contact that has no name of its own. -/
def OneUnnamed (s : Server) (e : ContactEvent) : Prop :=
  ∀ n, Adds s e n → n ≤ 0 → ∀ m ∈ contacts (s.get e.slot), 0 < m

/-- Taking a name off one list leaves the others in their order, and the other
list. -/
def KeepsOrder (s : Server) (e : ContactEvent) (s' : Server) : Prop :=
  ∀ n, bufGets64 e.data 1 = some n →
    (e.op = .removeFriend → lists (s'.get e.slot) =
      ((s.get e.slot).friendList.filter (· != n), (s.get e.slot).ignoreList)) ∧
    (e.op = .removeIgnore → lists (s'.get e.slot) =
      ((s.get e.slot).friendList, (s.get e.slot).ignoreList.filter (· != n)))

theorem namedec_eq_iff {m n : Int} (hm : InRange m) (hn : InRange n) :
    mod37Namedec m = mod37Namedec n ↔ m = n ∨ m ≤ 0 ∧ n ≤ 0 := by
  constructor
  · intro heq
    exact (accountKey_eq_iff hm hn).1 (congrArg accountKey heq)
  · have hinvalid : ∀ {k : Int}, k ≤ 0 → mod37Namedec k = invalidName := by
      intro k hk
      have hcases : k < 0 ∨ k = 0 := by omega
      rcases hcases with hneg | rfl
      · rw [mod37Namedec, if_pos hneg]
      · decide
    rintro (rfl | ⟨hm0, hn0⟩)
    · rfl
    · rw [hinvalid hm0, hinvalid hn0]

/-- A new name can be saved along with the others unless it and one of them
have none of their own. -/
theorem nodup_cons_iff {n : Int} {l : List Int} (hn : InRange n) (hl : ∀ m ∈ l, InRange m)
    (hnew : n ∉ l) (hsave : (l.map mod37Namedec).Nodup) :
    ((n :: l).map mod37Namedec).Nodup ↔ (n ≤ 0 → ∀ m ∈ l, 0 < m) := by
  rw [List.map_cons, List.nodup_cons]
  constructor
  · rintro ⟨hne, -⟩ hn0 m hm
    by_contra hm0
    exact hne (List.mem_map.2 ⟨m, hm, (namedec_eq_iff (hl m hm) hn).2 (.inr ⟨by omega, hn0⟩)⟩)
  · intro h
    refine ⟨fun hmem => ?_, hsave⟩
    obtain ⟨m, hm, heq⟩ := List.mem_map.1 hmem
    rcases (namedec_eq_iff (hl m hm) hn).1 heq with rfl | ⟨hm0, hn0⟩
    · exact hnew hm
    · have := h hn0 m hm
      omega

theorem lists_eq {l m : List Int} (h : lists q = (l, m)) :
    q.friendList = l ∧ q.ignoreList = m := Prod.mk.inj h

/-- Without a name in the packet the lists are what they were. -/
theorem listed_none (op : ContactOp) (p : Player) : listed op none p = lists p := by
  cases op <;> rfl

/-- A packet with a name adds it if it is to, the player does not have it and there is
room on the list. -/
theorem adds_iff {e : ContactEvent} {n m : Int} (hlive : s.live e.slot)
    (hdata : bufGets64 e.data 1 = some n) :
    Adds s e m ↔ m = n ∧ playerHasContact (s.get e.slot) n = false ∧
      (e.op = .addFriend ∧ (s.get e.slot).friendList.length < maxFriends ∨
        e.op = .addIgnore ∧ (s.get e.slot).ignoreList.length < maxIgnore) := by
  constructor
  · rintro ⟨-, hm, hroom⟩
    obtain rfl := Option.some.inj (hdata.symm.trans hm)
    exact ⟨rfl, hroom⟩
  · rintro ⟨rfl, hroom⟩
    exact ⟨hlive, hdata, hroom⟩

/-- A packet adds one contact, or none and takes some away. -/
theorem listed_cases {e : ContactEvent} (hlive : s.live e.slot)
    (hq : lists q = listed e.op (bufGets64 e.data 1) (s.get e.slot)) :
    (∃ n, Adds s e n ∧ (contacts q).Perm (n :: contacts (s.get e.slot))) ∨
      (∀ n, ¬ Adds s e n) ∧ (contacts q).Sublist (contacts (s.get e.slot)) := by
  have hother : ∀ {l m : List Int}, (∀ n, ¬ Adds s e n) → lists q = (l, m) →
      l.Sublist (s.get e.slot).friendList → m.Sublist (s.get e.slot).ignoreList →
      (∃ n, Adds s e n ∧ (contacts q).Perm (n :: contacts (s.get e.slot))) ∨
        (∀ n, ¬ Adds s e n) ∧ (contacts q).Sublist (contacts (s.get e.slot)) := by
    intro l m hadds hlists hl hm
    obtain ⟨hfriends, hignores⟩ := lists_eq hlists
    refine .inr ⟨hadds, ?_⟩
    rw [contacts, hfriends, hignores]
    exact hl.append hm
  cases hdata : bufGets64 e.data 1 with
  | none =>
      rw [hdata, listed_none] at hq
      refine hother (fun n h => ?_) hq (List.Sublist.refl _) (List.Sublist.refl _)
      simp [Adds, hdata] at h
  | some n =>
      have hadds : ∀ m, Adds s e m ↔ _ := fun m => adds_iff hlive hdata
      rw [hdata, listed.eq_def] at hq
      cases hop : e.op with
      | privacySettings =>
          rw [hop] at hq
          refine hother (fun m h => ?_) hq (List.Sublist.refl _) (List.Sublist.refl _)
          simp [hadds, hop] at h
      | removeFriend =>
          rw [hop] at hq
          refine hother (fun m h => ?_) hq List.erase_sublist (List.Sublist.refl _)
          simp [hadds, hop] at h
      | removeIgnore =>
          rw [hop] at hq
          refine hother (fun m h => ?_) hq (List.Sublist.refl _) List.erase_sublist
          simp [hadds, hop] at h
      | addFriend =>
          rw [hop] at hq
          dsimp only at hq
          split at hq
          · next hno =>
            refine hother (fun m h => ?_) hq (List.Sublist.refl _) (List.Sublist.refl _)
            simp only [hadds, hop, true_and, reduceCtorEq, false_and, or_false] at h
            rcases hno with hhas | hfull
            · exact absurd (hhas.symm.trans h.2.1) (by simp)
            · omega
          · next hyes =>
            obtain ⟨hhas, hroom⟩ := not_or.1 hyes
            obtain ⟨hfriends, hignores⟩ := lists_eq hq
            refine .inl ⟨n, (hadds n).2 ⟨rfl, by simpa using hhas, .inl ⟨hop, by omega⟩⟩, ?_⟩
            rw [contacts, hfriends, hignores, List.append_assoc]
            exact List.perm_middle
      | addIgnore =>
          rw [hop] at hq
          dsimp only at hq
          split at hq
          · next hno =>
            refine hother (fun m h => ?_) hq (List.Sublist.refl _) (List.Sublist.refl _)
            simp only [hadds, hop, true_and, reduceCtorEq, false_and, false_or] at h
            rcases hno with hhas | hfull
            · exact absurd (hhas.symm.trans h.2.1) (by simp)
            · omega
          · next hyes =>
            obtain ⟨hhas, hroom⟩ := not_or.1 hyes
            obtain ⟨hfriends, hignores⟩ := lists_eq hq
            refine .inl ⟨n, (hadds n).2 ⟨rfl, by simpa using hhas, .inr ⟨hop, by omega⟩⟩, ?_⟩
            rw [contacts, hfriends, hignores, ← List.append_assoc]
            exact List.perm_append_singleton _ _

/-- Neither list grows past its end. -/
theorem listed_fits {op : ContactOp} {target : Option Int} (h : ContactsOk p)
    (hq : lists q = listed op target p) :
    q.friendList.length ≤ maxFriends ∧ q.ignoreList.length ≤ maxIgnore := by
  have hfriends := h.friendsFit
  have hignores := h.ignoresFit
  unfold listed at hq
  split at hq
  · split at hq
    · obtain ⟨hf, hi⟩ := lists_eq hq
      rw [hf, hi]
      exact ⟨hfriends, hignores⟩
    · next n hno =>
      obtain ⟨hf, hi⟩ := lists_eq hq
      have hroom := (not_or.1 hno).2
      rw [hf, hi, List.length_append, List.length_singleton]
      exact ⟨by omega, hignores⟩
  · next n =>
    obtain ⟨hf, hi⟩ := lists_eq hq
    rw [hf, hi]
    exact ⟨Nat.le_trans List.erase_sublist.length_le hfriends, hignores⟩
  · split at hq
    · obtain ⟨hf, hi⟩ := lists_eq hq
      rw [hf, hi]
      exact ⟨hfriends, hignores⟩
    · next n hno =>
      obtain ⟨hf, hi⟩ := lists_eq hq
      have hroom := (not_or.1 hno).2
      rw [hf, hi, List.length_append, List.length_singleton]
      exact ⟨hfriends, by omega⟩
  · next n =>
    obtain ⟨hf, hi⟩ := lists_eq hq
    rw [hf, hi]
    exact ⟨hfriends, Nat.le_trans List.erase_sublist.length_le hignores⟩
  · obtain ⟨hf, hi⟩ := lists_eq hq
    rw [hf, hi]
    exact ⟨hfriends, hignores⟩

/-! ## One step -/

theorem contactsOk_step {e : ContactEvent} (hlive : s.live e.slot)
    (h : ContactsOk (s.get e.slot))
    (hq : lists q = listed e.op (bufGets64 e.data 1) (s.get e.slot)) : ContactsOk q := by
  obtain ⟨hfriends, hignores⟩ := listed_fits h hq
  rcases listed_cases hlive hq with ⟨n, hadds, hperm⟩ | ⟨-, hsub⟩
  · have hnew : n ∉ contacts (s.get e.slot) := fun hmem => by
      rw [mem_contacts, hadds.2.2.1] at hmem
      cases hmem
    refine ⟨hperm.nodup_iff.2 (List.nodup_cons.2 ⟨hnew, h.nodup⟩), hfriends, hignores,
      fun m hm => ?_⟩
    rcases List.mem_cons.1 (hperm.subset hm) with rfl | hm
    · exact inRange_gets64 hadds.2.1
    · exact h.inRange m hm
  · exact ⟨h.nodup.sublist hsub, hfriends, hignores, fun m hm => h.inRange m (hsub.subset hm)⟩

theorem saveable_step {e : ContactEvent} (hlive : s.live e.slot)
    (h : ContactsOk (s.get e.slot)) (hsave : Saveable (s.get e.slot))
    (hq : lists q = listed e.op (bufGets64 e.data 1) (s.get e.slot)) :
    Saveable q ↔ OneUnnamed s e := by
  rcases listed_cases hlive hq with ⟨n, hadds, hperm⟩ | ⟨hadds, hsub⟩
  · have hnew : n ∉ contacts (s.get e.slot) := fun hmem => by
      rw [mem_contacts, hadds.2.2.1] at hmem
      cases hmem
    rw [Saveable, (hperm.map mod37Namedec).nodup_iff,
      nodup_cons_iff (inRange_gets64 hadds.2.1) h.inRange hnew hsave]
    constructor
    · intro hone m hm
      obtain rfl := Option.some.inj (hadds.2.1.symm.trans hm.2.1)
      exact hone
    · exact fun hone => hone n hadds
  · exact iff_of_true (hsave.sublist (hsub.map _)) fun n hn => absurd hn (hadds n)

/-- A server whose players' contacts are in order, as a load leaves them. -/
def ContactStart (s : Server) : Prop := ∀ i, ContactsOk (s.get i) ∧ Saveable (s.get i)

theorem contactStep_get {e : ContactEvent} (hs : contactStep s e = .ok s') :
    (∀ k, s'.get k = s.get k) ∧ (∀ n, ¬ Adds s e n) ∧ ¬ s.live e.slot ∨
      s.live e.slot ∧ ∃ q, lists q = listed e.op (bufGets64 e.data 1) (s.get e.slot) ∧
        ∀ k, s'.get k = if k = e.slot then q else s.get k := by
  obtain rfl := Except.ok.inj hs
  by_cases hlive : s.live e.slot
  · rw [if_pos hlive]
    obtain ⟨q, hq, hlists⟩ := contactPacket_writes e.op s e.slot e.data
    exact .inr ⟨hlive, q, hlists, hq.get hlive⟩
  · rw [if_neg hlive]
    exact .inl ⟨fun _ => rfl, fun n h => hlive h.1, hlive⟩

theorem allOk_step {e : ContactEvent} (h : ∀ i, ContactsOk (s.get i))
    (hs : contactStep s e = .ok s') : ∀ i, ContactsOk (s'.get i) := by
  intro i
  rcases contactStep_get hs with ⟨hsame, -⟩ | ⟨hlive, q, hlists, hget⟩
  · rw [hsame]
    exact h i
  · rw [hget]
    split
    · exact contactsOk_step hlive (h _) hlists
    · exact h i

theorem allSaveable_step {e : ContactEvent} (h : ∀ i, ContactsOk (s.get i))
    (hsave : ∀ i, Saveable (s.get i)) (hs : contactStep s e = .ok s') :
    (∀ i, Saveable (s'.get i)) ↔ OneUnnamed s e := by
  rcases contactStep_get hs with ⟨hsame, hadds, -⟩ | ⟨hlive, q, hlists, hget⟩
  · refine iff_of_true (fun i => ?_) fun n hn => absurd hn (hadds n)
    rw [hsame]
    exact hsave i
  · rw [← saveable_step hlive (h _) (hsave _) hlists]
    constructor
    · intro hall
      have hslot := hall e.slot
      rwa [hget, if_pos rfl] at hslot
    · intro hq i
      rw [hget]
      split
      · exact hq
      · exact hsave i

theorem keepsOrder_step {e : ContactEvent} (h : ContactsOk (s.get e.slot))
    (hs : contactStep s e = .ok s') : KeepsOrder s e s' := by
  intro n hn
  obtain ⟨hfriends, hignores, -⟩ := List.nodup_append.1 h.nodup
  rcases contactStep_get hs with ⟨hsame, -, hdead⟩ | ⟨hlive, q, hlists, hget⟩
  · have hnone : s.get e.slot = {} := Server.get_of_not_live hdead
    rw [hsame, hnone]
    exact ⟨fun _ => rfl, fun _ => rfl⟩
  · rw [hget, if_pos rfl, hlists, hn, ← hfriends.erase_eq_filter, ← hignores.erase_eq_filter]
    exact ⟨fun hop => by rw [hop]; rfl, fun hop => by rw [hop]; rfl⟩

/-- In every run of contact packets no list has a name twice or too many names,
and a removal keeps the order of the others; the decoded names differ, so that
a save can store them all, if and only if no packet ever adds a second contact
that is not positive. -/
theorem contacts_saveable_iff {tr : List (Server × ContactEvent)} {s : Server}
    (hrun : Run ContactStart contactStep tr s) :
    (∀ c ∈ statesOf tr s, ∀ i, ContactsOk (c.get i)) ∧
      (∀ x ∈ tr, ∀ c', contactStep x.1 x.2 = .ok c' → KeepsOrder x.1 x.2 c') ∧
      ((∀ c ∈ statesOf tr s, ∀ i, Saveable (c.get i)) ↔ ∀ x ∈ tr, OneUnnamed x.1 x.2) := by
  have hok : ∀ c ∈ statesOf tr s, ∀ i, ContactsOk (c.get i) := by
    intro c hc
    obtain ⟨tr', -, hrun'⟩ := hrun.reaches hc
    exact hrun'.always (fun s hs i => (hs i).1) fun s e s' h hs => allOk_step h hs
  refine ⟨hok, fun x hx c' hc' => ?_, ?_⟩
  · exact keepsOrder_step (hok x.1 (mem_statesOf.2 (.inl ⟨x.2, hx⟩)) _) hc'
  · exact hrun.all_iff (fun s hs => ⟨fun i => (hs i).1, fun i => (hs i).2⟩)
      (fun s e s' h hs => allOk_step h hs) fun s e s' h hsave hs => allSaveable_step h hsave hs

/-- One player, who knows nobody. -/
def lonely : Server where
  players i := if i = 0 then some {} else none
  maxPlayerId := 1

theorem lonely_start : ContactStart lonely := by
  intro i
  have hget : lonely.get i = {} := by
    show ((if i = 0 then some {} else none : Option Player)).getD {} = {}
    split <;> rfl
  rw [hget]
  exact ⟨⟨List.nodup_nil, Nat.zero_le _, Nat.zero_le _, fun n hn => by cases hn⟩, List.nodup_nil⟩

/-- Friend 5, then ignore -1. -/
theorem contacts_saveable_iff_two : ∃ tr s,
    Run ContactStart contactStep tr s ∧ tr.length = 2 ∧
      ∀ c ∈ statesOf tr s, ∀ i, Saveable (c.get i) := by
  have hrun : Run ContactStart contactStep _ _ :=
    .of_exec [⟨.addFriend, 0, [26, 0, 0, 0, 0, 0, 0, 0, 5]⟩,
      ⟨.addIgnore, 0, [29, 255, 255, 255, 255, 255, 255, 255, 255]⟩] lonely_start rfl
  refine ⟨_, _, hrun, rfl, (contacts_saveable_iff hrun).2.2.2 ?_⟩
  intro x hx n hn hn0
  rcases List.mem_cons.1 hx with rfl | hx
  · intro m hm
    cases hm
  · obtain rfl := List.mem_singleton.1 hx
    decide

/-- Friend -2 and ignore -1 are both "-invalid-". -/
theorem invalid_twice : ¬ ∀ (tr : List (Server × ContactEvent)) (s : Server),
    Run ContactStart contactStep tr s → ∀ c ∈ statesOf tr s, ∀ i, Saveable (c.get i) := by
  intro h
  have hrun : Run ContactStart contactStep _ _ :=
    .of_exec [⟨.addFriend, 0, [26, 255, 255, 255, 255, 255, 255, 255, 254]⟩,
      ⟨.addIgnore, 0, [29, 255, 255, 255, 255, 255, 255, 255, 255]⟩] lonely_start rfl
  have hsave := h _ _ hrun _ (mem_statesOf.2 (.inr rfl)) 0
  exact absurd hsave (by decide)

end Sundae.Proofs
