import Sundae.Lib.Push
import Sundae.Proofs.Notice

/-!
# Who is seen online

A client shows a friend as it last heard of it: from the list sent at its
login, and from the updates after it. The updates are sent when something
changes, by functions that ask who is to be told before the change or after it.
Whether they add up is a matter of every run, with the players that have a slot
and have not logged in among those who send packets.
-/

namespace Sundae.Proofs

open Sundae.Lib Sundae.Ref

/-! ## The packets, case by case -/

/-- What a packet about contacts did, and what was asked for it. -/
inductive Deed (s : Server) (i : Nat) (data : List Nat) (s' : Server) : ContactOp → Prop
  | nothing {op : ContactOp} (hsame : s' = s) : Deed s i data s' op
  | befriends {n : Int} {j : Nat} (hdata : bufGets64 data 1 = some n)
      (hnew : playerHasContact (s.get i) n = false)
      (hroom : (s.get i).friendList.length < maxFriends) (hj : s.findName n = some j)
      (htold : Told true (fun k m => (k = i ∧ m = n ∧ Tells (s.modify i (withFriend n)) i n) ∨
        (k = j ∧ m = (s.get i).name ∧ Tells (s.modify i (withFriend n)) j (s.get i).name))
        (s.modify i (withFriend n)) s') : Deed s i data s' .addFriend
  | awaits {n : Int} (hnew : playerHasContact (s.get i) n = false) (hnone : s.findName n = none)
      (htold : Told false (fun k m => k = i ∧ m = n ∧ Tells (s.modify i (withFriend n)) i n)
        (s.modify i (withFriend n)) s') : Deed s i data s' .addFriend
  | unfriends {n : Int} (hdata : bufGets64 data 1 = some n) (hn : n ∈ (s.get i).friendList)
      (htold : Told false (fun k m => (s.get i).blockPrivate = true ∧ s.findName n = some k ∧
        m = (s.get i).name ∧ Tells s k (s.get i).name)
        (s.modify i (withoutFriend n)) s') : Deed s i data s' .removeFriend
  | ignores {n : Int} (hnew : playerHasContact (s.get i) n = false)
      (htold : Told false (fun k m => (s.get i).blockPrivate = false ∧ s.findName n = some k ∧
        m = (s.get i).name ∧ Tells s k (s.get i).name)
        (s.modify i (withIgnore n)) s') : Deed s i data s' .addIgnore
  | forgives {n : Int} (hdata : bufGets64 data 1 = some n) (hn : n ∈ (s.get i).ignoreList)
      (htold : Told true (fun k m => s.findName n = some k ∧ m = (s.get i).name ∧
        Tells (s.modify i (withoutIgnore n)) k (s.get i).name)
        (s.modify i (withoutIgnore n)) s') : Deed s i data s' .removeIgnore
  | hides {a : Privacy} (hdata : privacyOf (s.get i) data = some a)
      (hold : (s.get i).blockPrivate = false) (hnew : a.blockPrivate = true)
      (htold : Told false (fun k n => k < s.maxPlayerId ∧ s.live k ∧ n = (s.get i).name ∧
        (s.get k).name ∉ (s.get i).friendList ∧ Tells s k (s.get i).name)
        (s.modify i (withPrivacy a)) s') : Deed s i data s' .privacySettings
  | shows {a : Privacy} (hdata : privacyOf (s.get i) data = some a)
      (hold : (s.get i).blockPrivate = true) (hnew : a.blockPrivate = false)
      (htold : Told true (fun k n => k < s.maxPlayerId ∧ s.live k ∧ n = (s.get i).name ∧
        (s.get k).name ∉ (s.get i).friendList ∧
        Tells (s.modify i (withPrivacy a)) k (s.get i).name)
        (s.modify i (withPrivacy a)) s') : Deed s i data s' .privacySettings
  | still {a : Privacy} (hdata : privacyOf (s.get i) data = some a)
      (hsame : a.blockPrivate = (s.get i).blockPrivate) (hs' : s' = s.modify i (withPrivacy a)) :
      Deed s i data s' .privacySettings

section

variable {s s' : Server} {i : Nat} {data : List Nat}

theorem hasContact_false {p : Player} {n : Int} (h : playerHasContact p n = false) :
    n ∉ p.friendList ∧ n ∉ p.ignoreList := by
  have hno : n ∉ contacts p := fun hmem => by
    rw [mem_contacts, h] at hmem
    cases hmem
  rw [contacts, List.mem_append] at hno
  exact not_or.1 hno

theorem playerAddFriend_deed {n : Int} (hdata : bufGets64 data 1 = some n)
    (hnew : playerHasContact (s.get i) n = false) :
    Deed s i data (playerAddFriend s i n) .addFriend := by
  by_cases hroom : maxFriends ≤ (s.get i).friendList.length
  · refine .nothing ?_
    unfold playerAddFriend
    rw [if_pos hroom]
  · cases hfind : s.findName n with
    | none => exact .awaits hnew hfind (playerAddFriend_absent hroom hfind)
    | some j => exact .befriends hdata hnew (by omega) hfind (playerAddFriend_found hroom hfind)

theorem playerAddIgnore_deed {n : Int} (hnew : playerHasContact (s.get i) n = false) :
    Deed s i data (playerAddIgnore s i n) .addIgnore := by
  by_cases hroom : maxIgnore ≤ (s.get i).ignoreList.length
  · refine .nothing ?_
    unfold playerAddIgnore
    rw [if_pos hroom]
  · exact .ignores hnew (playerAddIgnore_told hroom (hasContact_false hnew).1)

theorem playerRemoveFriend_deed {n : Int} (hdata : bufGets64 data 1 = some n) :
    Deed s i data (playerRemoveFriend s i n) .removeFriend := by
  by_cases hn : n ∈ (s.get i).friendList
  · exact .unfriends hdata hn (playerRemoveFriend_told hn)
  · refine .nothing ?_
    have hnone : (s.get i).friendList.findIdx? (· == n) = none := by
      simpa using fun x hx hxn => hn (by subst hxn; exact hx)
    unfold playerRemoveFriend
    rw [hnone]

theorem playerRemoveIgnore_deed {n : Int} (hdata : bufGets64 data 1 = some n) :
    Deed s i data (playerRemoveIgnore s i n) .removeIgnore := by
  by_cases hn : n ∈ (s.get i).ignoreList
  · exact .forgives hdata hn (playerRemoveIgnore_told hn)
  · refine .nothing ?_
    have hnone : (s.get i).ignoreList.findIdx? (· == n) = none := by
      simpa using fun x hx hxn => hn (by subst hxn; exact hx)
    unfold playerRemoveIgnore
    rw [hnone]

theorem opCliPrivacySettings_deed :
    Deed s i data (opCliPrivacySettings s i data) .privacySettings := by
  cases hdata : privacyOf (s.get i) data with
  | none => exact .nothing (opCliPrivacySettings_short hdata)
  | some a =>
      cases hold : (s.get i).blockPrivate with
      | false =>
          cases hnew : a.blockPrivate with
          | false =>
              exact .still hdata (hnew.trans hold.symm)
                (privacySettings_still hdata (hnew.trans hold.symm))
          | true => exact .hides hdata hold hnew (privacySettings_hides hdata hold hnew)
      | true =>
          cases hnew : a.blockPrivate with
          | false => exact .shows hdata hold hnew (privacySettings_shows hdata hold hnew)
          | true =>
              exact .still hdata (hnew.trans hold.symm)
                (privacySettings_still hdata (hnew.trans hold.symm))

theorem contactPacket_deed (op : ContactOp) (s : Server) (i : Nat) (data : List Nat) :
    Deed s i data (contactPacket op s i data) op := by
  have hread : ∀ {op : ContactOp}, op ≠ .privacySettings → bufGets64 data 1 = none →
      contactPacket op s i data = s := by
    intro op hop hnone
    unfold contactPacket
    rw [hnone]
    cases op <;> first | rfl | exact absurd rfl hop
  cases op with
  | privacySettings =>
      have hpacket : contactPacket .privacySettings s i data = opCliPrivacySettings s i data := by
        unfold contactPacket
        cases bufGets64 data 1 <;> rfl
      rw [hpacket]
      exact opCliPrivacySettings_deed
  | addFriend =>
      cases hdata : bufGets64 data 1 with
      | none => exact .nothing (hread nofun hdata)
      | some n =>
          unfold contactPacket
          rw [hdata]
          dsimp only
          split
          · exact .nothing rfl
          · next hnew => exact playerAddFriend_deed hdata (Bool.eq_false_iff.2 hnew)
  | addIgnore =>
      cases hdata : bufGets64 data 1 with
      | none => exact .nothing (hread nofun hdata)
      | some n =>
          unfold contactPacket
          rw [hdata]
          dsimp only
          split
          · exact .nothing rfl
          · next hnew => exact playerAddIgnore_deed (Bool.eq_false_iff.2 hnew)
  | removeFriend =>
      cases hdata : bufGets64 data 1 with
      | none => exact .nothing (hread nofun hdata)
      | some n =>
          unfold contactPacket
          rw [hdata]
          exact playerRemoveFriend_deed hdata
  | removeIgnore =>
      cases hdata : bufGets64 data 1 with
      | none => exact .nothing (hread nofun hdata)
      | some n =>
          unfold contactPacket
          rw [hdata]
          exact playerRemoveIgnore_deed hdata

/-- A deed writes its player once, no session with it, and sends messages of
one kind. -/
theorem Deed.turn {op : ContactOp} (h : Deed s i data s' op) :
    ∃ f online about, Told online about (s.modify i f) s' ∧ ∀ p, (f p).session = p.session := by
  have hnone : ∀ t, Told true (fun _ _ => False) t t := fun t => .refl (fun _ _ h => h) t
  cases h with
  | nothing hsame =>
      subst hsame
      have hself : s'.modify i id = s' := Server.modify_eq_self rfl
      refine ⟨id, true, fun _ _ => False, ?_, fun _ => rfl⟩
      rw [hself]
      exact hnone s'
  | befriends _ _ _ _ htold => exact ⟨_, _, _, htold, fun _ => rfl⟩
  | awaits _ _ htold => exact ⟨_, _, _, htold, fun _ => rfl⟩
  | unfriends _ _ htold => exact ⟨_, _, _, htold, fun _ => rfl⟩
  | ignores _ htold => exact ⟨_, _, _, htold, fun _ => rfl⟩
  | forgives _ _ htold => exact ⟨_, _, _, htold, fun _ => rfl⟩
  | hides _ _ _ htold => exact ⟨_, _, _, htold, fun _ => rfl⟩
  | shows _ _ _ htold => exact ⟨_, _, _, htold, fun _ => rfl⟩
  | still _ _ hs' =>
      rw [hs']
      exact ⟨_, _, _, hnone _, fun _ => rfl⟩

end

/-! ## The system -/

/-- What decides who sees a player online, its session apart. -/
def outlook (p : Player) : List Int × List Int × Bool := (p.friendList, p.ignoreList, p.blockPrivate)

/-- The rest of the game. It leaves the lists and the setting alone, and has no
message about friends. -/
structure Aside extends Change where
  keeps : ∀ s s' k, run s = .ok s' → outlook (s'.get k) = outlook (s.get k)
  silent : ∀ s s', run s = .ok s' → s'.notices = s.notices

/-- The cases of the switch that are about contacts, by opcode. -/
def contactOp? : Nat → Option ContactOp
  | 26 => some .addFriend
  | 27 => some .removeFriend
  | 29 => some .addIgnore
  | 30 => some .removeIgnore
  | 31 => some .privacySettings
  | _ => none

def contactChange (op : ContactOp) (data : List Nat) (i : Nat) : Change where
  run s := .ok (contactPacket op s i data)
  session := by
    intro s s' j h
    obtain rfl := Except.ok.inj h
    obtain ⟨f, online, about, htold, hf⟩ := (contactPacket_deed op s i data).turn
    obtain ⟨l, hl⟩ := htold.sameBut
    rw [hl]
    show ((if j = i then (s.players i).map f else s.players j).map Player.session) = _
    split
    · next hj =>
      subst hj
      rw [Option.map_map]
      exact Option.map_congr fun p _ => hf p
    · rfl
  maxPlayerId := by
    intro s s' h
    obtain rfl := Except.ok.inj h
    obtain ⟨f, online, about, htold, hf⟩ := (contactPacket_deed op s i data).turn
    obtain ⟨l, hl⟩ := htold.sameBut
    rw [hl]
    rfl

/-- The cases of the switch that play the game, those about contacts among
them. -/
def contactGame (rest : Nat → List Nat → Nat → Aside) : Game := fun opcode data i =>
  match contactOp? opcode with
  | some op => contactChange op data i
  | none => (rest opcode data i).toChange

inductive PresenceMove where
  | connect
  | packet (i : Nat) (data : List Nat) (db : Loaded)
  | remove (i : Nat)
  | world (aside : Aside)

def PresenceMove.event : PresenceMove → NetEvent
  | .connect => .connect
  | .packet i data db => .packet i data db
  | .remove i => .remove i
  | .world aside => .world aside.toChange

/-- A step, and which of its friend messages `player_write_packet` refuses: 0
is the list a login is sent, the updates follow in their order. -/
structure PresenceEvent where
  move : PresenceMove
  refused : Nat → Bool

/-- The server, and what the client at a slot last heard of a name. -/
structure Presence where
  server : Server
  heard : Nat × Int → Bool

/-- The byte `player_send_init_friends` writes after the name of a friend: zero
or not, at every revision. -/
def initFriend (s : Server) (k : Nat) (n : Int) : Bool :=
  playerHasFriend (s.get k) n && (s.findName n).any fun j => !hides (s.get j) (s.get k).name

/-- A client that logs in starts from the list it is sent. -/
def heardAtLogin (c : Presence) (s' : Server) (refused : Nat → Bool) (x : Nat × Int) : Bool :=
  if (s'.get x.1).loginOk && !(c.server.get x.1).loginOk then
    !refused 0 && initFriend s' x.1 x.2
  else c.heard x

/-- The updates of a step that are not refused. -/
def updates (refused : Nat → Bool) (l : List Notice) : List ((Nat × Int) × Bool) :=
  ((l.zipIdx 1).filter fun x => !refused x.2).map fun x => ((x.1.slot, x.1.name), x.1.online)

def presenceStep (env : Env) (rest : Nat → List Nat → Nat → Aside) (c : Presence)
    (e : PresenceEvent) : Except Assert Presence :=
  match netStep env (contactGame rest) c.server e.move.event with
  | .error a => .error a
  | .ok s' => .ok ⟨s', hear (heardAtLogin c s' e.refused)
      (updates e.refused (s'.notices.drop c.server.notices.length))⟩

/-! ## What is to hold -/

/-- Player `n` would see `b` online: `b` is logged in, and `player_is_blocked`
is false. -/
def Online (s : Server) (n b : Int) : Prop :=
  ∃ j, s.live j ∧ (s.get j).loginOk = true ∧ (s.get j).name = b ∧ hides (s.get j) n = false

/-- What every logged-in player last heard of its friends is so. -/
def Consistent (s : Server) (heard : Nat × Int → Bool) : Prop :=
  ∀ k, s.live k → (s.get k).loginOk = true → ∀ b ∈ (s.get k).friendList,
    (heard (k, b) = true ↔ Online s (s.get k).name b)

/-- Every logged-in player has a name. -/
def Named (s : Server) : Prop :=
  ∀ k, s.live k → (s.get k).loginOk = true → (s.get k).name ≠ -1

section

variable {s s' : Server} {heard : Nat × Int → Bool} {i j k : Nat} {n b : Int}
variable {f : Player → Player}

theorem findName_some (h : s.findName n = some j) : s.live j ∧ (s.get j).name = n := by
  have hj := List.find?_some h
  simpa using hj

theorem findName_self (hs : Sessions s) (hk : s.live k) (hname : (s.get k).name ≠ -1) :
    s.findName (s.get k).name = some k := by
  have hsome : serverHasPlayer s (s.get k).name = true :=
    findName_isSome.2 ⟨k, hs.bound k hk, hk, rfl⟩
  obtain ⟨j, hj⟩ := Option.isSome_iff_exists.1 hsome
  obtain ⟨hlive, hsame⟩ := findName_some hj
  by_cases hjk : j = k
  · rw [hj, hjk]
  · exact absurd (hs.names k j (Ne.symm hjk) hk hlive hsame.symm) hname

theorem session_name {p q : Player} (h : q.session = p.session) : q.name = p.name :=
  congrArg Session.name h

theorem session_loginOk {p q : Player} (h : q.session = p.session) : q.loginOk = p.loginOk :=
  congrArg Session.loginOk h

theorem SameSessions.of_modify (i : Nat) (hf : ∀ p, (f p).session = p.session) :
    SameSessions s (s.modify i f) where
  live _ := Server.live_modify
  name _ := Server.get_modify_field Player.name fun p => session_name (hf p)
  loginOk _ := Server.get_modify_field Player.loginOk fun p => session_loginOk (hf p)
  loginStage _ := Server.get_modify_field Player.loginStage fun p =>
    congrArg Session.loginStage (hf p)
  maxPlayerId := rfl

theorem SameSessions.sessions (h : SameSessions s s') (hs : Sessions s) : Sessions s' :=
  hs.moves (h.moves hs 0)

theorem SameSessions.named (h : SameSessions s s') (hn : Named s) : Named s' := by
  intro k hk hok
  rw [h.loginOk] at hok
  rw [h.name]
  exact hn k ((h.live k).1 hk) hok

/-- Nobody who is logged in shares its name. -/
theorem online_own (hs : Sessions s) (hn : Named s) (hi : s.live i) :
    Online s n (s.get i).name ↔ (s.get i).loginOk = true ∧ hides (s.get i) n = false := by
  constructor
  · rintro ⟨j, hj, hok, hname, hopen⟩
    by_cases hji : j = i
    · subst hji
      exact ⟨hok, hopen⟩
    · exact absurd (hs.names j i hji hj hi hname) (hn j hj hok)
  · rintro ⟨hok, hopen⟩
    exact ⟨i, hi, hok, rfl, hopen⟩

/-- A write is seen under its player's name only. -/
theorem online_turn (hf : ∀ p, (f p).session = p.session) (hb : b ≠ (s.get i).name) :
    Online (s.modify i f) n b ↔ Online s n b := by
  have hne : ∀ j, (s.get j).name = b → j ≠ i := by
    intro j hj hji
    subst hji
    exact hb hj.symm
  constructor
  · rintro ⟨j, hj, hok, hname, hopen⟩
    rw [(SameSessions.of_modify i hf).name] at hname
    rw [Server.get_modify_ne (hne j hname)] at hok hopen
    exact ⟨j, Server.live_modify.1 hj, hok, hname, hopen⟩
  · rintro ⟨j, hj, hok, hname, hopen⟩
    have hget := Server.get_modify_ne (f := f) (s := s) (hne j hname)
    refine ⟨j, Server.live_modify.2 hj, ?_, ?_, ?_⟩
    · rw [hget, hok]
    · rw [hget, hname]
    · rw [hget, hopen]

/-- Who has a name of its own is found under it. -/
theorem tells_own (hs : Sessions s) (hi : s.live i) (hname : (s.get i).name ≠ -1) :
    Tells s k (s.get i).name ↔
      (s.get i).name ∈ (s.get k).friendList ∧ hides (s.get i) (s.get k).name = false := by
  have hfind := findName_self hs hi hname
  constructor
  · rintro ⟨hmem, hopen⟩
    exact ⟨hmem, hopen i hfind⟩
  · rintro ⟨hmem, hopen⟩
    refine ⟨hmem, fun j hj => ?_⟩
    obtain rfl := Option.some.inj (hfind.symm.trans hj)
    exact hopen

/-- What the messages of a step leave a client with. -/
def HearsOf (heard : Nat × Int → Bool) (online : Bool) (about : Nat → Int → Prop)
    (heard' : Nat × Int → Bool) : Prop :=
  ∀ k b, (about k b → heard' (k, b) = online) ∧ (¬ about k b → heard' (k, b) = heard (k, b))

/-- One player's lists or setting are written, and some are told: the others
of its name only, and whoever has it as a friend whenever it begins or ceases to
be seen; what the player itself sees stays with its list. -/
theorem consistent_turn {online : Bool} {about : Nat → Int → Prop} {heard' : Nat × Int → Bool}
    (hs : Sessions s) (hn : Named s) (hc : Consistent s heard) (hi : s.live i)
    (hf : ∀ p, (f p).session = p.session) (hsame : SameBut (s.modify i f) s')
    (hheard : HearsOf heard online about heard')
    (hname : ∀ k b, about k b → k ≠ i → b = (s.get i).name)
    (hquiet : (s.get i).loginOk = false → online = true → ∀ k, k ≠ i → s.live k →
      (s.get k).loginOk = true → ¬ about k (s.get i).name)
    (hothers : (s.get i).loginOk = true → ∀ k, k ≠ i → s.live k → (s.get k).loginOk = true →
      (s.get i).name ∈ (s.get k).friendList →
        (about k (s.get i).name → (hides (f (s.get i)) (s.get k).name = !online)) ∧
        (¬ about k (s.get i).name →
          hides (f (s.get i)) (s.get k).name = hides (s.get i) (s.get k).name))
    (hown : (s.get i).loginOk = true → ∀ b ∈ (f (s.get i)).friendList,
      (about i b → (online = true ↔ Online (s.modify i f) (s.get i).name b)) ∧
      (¬ about i b → (heard (i, b) = true ↔ Online (s.modify i f) (s.get i).name b))) :
    Consistent s' heard' := by
  obtain ⟨l, rfl⟩ := hsame
  show Consistent (s.modify i f) heard'
  have hsess := SameSessions.of_modify (s := s) i hf
  intro k hk hok b hb
  rw [hsess.loginOk] at hok
  rw [hsess.name]
  rw [hsess.live] at hk
  by_cases hki : k = i
  · subst hki
    rw [Server.get_modify_self hi] at hb
    by_cases habout : about k b
    · rw [(hheard k b).1 habout]
      exact (hown hok b hb).1 habout
    · rw [(hheard k b).2 habout]
      exact (hown hok b hb).2 habout
  · rw [Server.get_modify_ne hki] at hb
    by_cases hbi : b = (s.get i).name
    · subst hbi
      have hafter : Online (s.modify i f) (s.get k).name (s.get i).name ↔
          (s.get i).loginOk = true ∧ hides (f (s.get i)) (s.get k).name = false := by
        have h := online_own (i := i) (n := (s.get k).name) (hsess.sessions hs) (hsess.named hn)
          (Server.live_modify.2 hi)
        rwa [hsess.name, hsess.loginOk, Server.get_modify_self hi] at h
      rw [hafter]
      cases hoki : (s.get i).loginOk with
      | false =>
          have hfalse : heard' (k, (s.get i).name) = false := by
            by_cases habout : about k (s.get i).name
            · rw [(hheard k _).1 habout]
              by_contra honline
              exact hquiet hoki (by simpa using honline) k hki hk hok habout
            · rw [(hheard k _).2 habout]
              by_contra hyes
              have honline := (hc k hk hok _ hb).1 (by simpa using hyes)
              rw [online_own hs hn hi, hoki] at honline
              cases honline.1
          rw [hfalse]
          exact ⟨fun h => absurd h Bool.false_ne_true, fun h => absurd h.1 Bool.false_ne_true⟩
      | true =>
          obtain ⟨htold, hsilent⟩ := hothers hoki k hki hk hok hb
          by_cases habout : about k (s.get i).name
          · rw [(hheard k _).1 habout, htold habout]
            cases online <;> simp
          · rw [(hheard k _).2 habout, hsilent habout, hc k hk hok _ hb, online_own hs hn hi, hoki]
    · have habout : ¬ about k b := fun h => hbi (hname k b h hki)
      rw [(hheard k b).2 habout, online_turn hf hbi]
      exact hc k hk hok b hb

/-- What `player_notify_friend_online` asks after the write. -/
theorem tells_turn (hs : Sessions s) (hi : s.live i) (hf : ∀ p, (f p).session = p.session)
    (hname : (s.get i).name ≠ -1) :
    Tells (s.modify i f) k (s.get i).name ↔
      (s.get i).name ∈ ((s.modify i f).get k).friendList ∧
        hides (f (s.get i)) (s.get k).name = false := by
  have hsess := SameSessions.of_modify (s := s) i hf
  have hown := tells_own (k := k) (hsess.sessions hs) (Server.live_modify.2 hi)
    (by rwa [hsess.name])
  rwa [hsess.name, hsess.name, Server.get_modify_self hi] at hown

/-- Whoever is seen is found. -/
theorem Online.found (hs : Sessions s) (hn : Named s) (h : Online s n b) :
    ∃ j, s.findName b = some j ∧ hides (s.get j) n = false := by
  obtain ⟨j, hj, hok, rfl, hopen⟩ := h
  exact ⟨j, findName_self hs hj (hn j hj hok), hopen⟩

/-- What a player sees of a friend it keeps changes only if the friend is
itself. -/
theorem own_keeps (hs : Sessions s) (hn : Named s) (hc : Consistent s heard) (hi : s.live i)
    (hf : ∀ p, (f p).session = p.session) (hok : (s.get i).loginOk = true)
    (hb : b ∈ (s.get i).friendList)
    (hself : b = (s.get i).name → hides (f (s.get i)) b = hides (s.get i) b) :
    heard (i, b) = true ↔ Online (s.modify i f) (s.get i).name b := by
  have hsess := SameSessions.of_modify (s := s) i hf
  rw [hc i hi hok b hb]
  by_cases hbi : b = (s.get i).name
  · have hafter := online_own (i := i) (n := (s.get i).name) (hsess.sessions hs) (hsess.named hn)
      (Server.live_modify.2 hi)
    rw [hsess.name, hsess.loginOk, Server.get_modify_self hi] at hafter
    have hsame := hself hbi
    rw [hbi] at hsame ⊢
    rw [hafter, online_own hs hn hi, hsame]
  · exact (online_turn hf hbi).symm

end

/-! ## Each deed -/

section

variable {s s' : Server} {heard heard' : Nat × Int → Bool} {i j : Nat} {n : Int} {a : Privacy}
variable (hs : Sessions s) (hn : Named s) (hc : Consistent s heard) (hi : s.live i)

/-- A friend that is there is added by a player that is logged in only if it
is logged in too, or is not seen and was not before; a player that is not
logged in is announced to nobody. -/
structure BefriendSafe (s : Server) (heard : Nat × Int → Bool) (i : Nat) (n : Int) (j : Nat) :
    Prop where
  unheard : (s.get i).loginOk = true →
    hides ((s.modify i (withFriend n)).get j) (s.get i).name = true → heard (i, n) = false
  here : (s.get i).loginOk = true →
    hides ((s.modify i (withFriend n)).get j) (s.get i).name = false → (s.get j).loginOk = true
  quiet : (s.get i).loginOk = false → (s.get j).loginOk = true →
    ¬ Tells (s.modify i (withFriend n)) j (s.get i).name

include hs hn hc hi

theorem consistent_befriends (hnew : playerHasContact (s.get i) n = false)
    (hj : s.findName n = some j) (hsafe : BefriendSafe s heard i n j)
    (hsame : SameBut (s.modify i (withFriend n)) s')
    (hheard : HearsOf heard true (fun k m =>
      (k = i ∧ m = n ∧ Tells (s.modify i (withFriend n)) i n) ∨
        (k = j ∧ m = (s.get i).name ∧ Tells (s.modify i (withFriend n)) j (s.get i).name)) heard') :
    Consistent s' heard' := by
  have hf : ∀ p, (withFriend n p).session = p.session := fun _ => rfl
  have hsess := SameSessions.of_modify (s := s) i hf
  obtain ⟨hjlive, hjname⟩ := findName_some hj
  obtain ⟨hfriend, hignore⟩ := hasContact_false hnew
  have hfind : (s.modify i (withFriend n)).findName n = some j := by
    rw [findName_modify (f := withFriend n) fun _ => rfl, hj]
  refine consistent_turn hs hn hc hi hf hsame hheard ?_ ?_ ?_ ?_
  · rintro k b (⟨rfl, -⟩ | ⟨-, rfl, -⟩) hki
    · exact absurd rfl hki
    · rfl
  · rintro hok - k hki hk hokk (⟨rfl, -⟩ | ⟨rfl, -, htells⟩)
    · exact hki rfl
    · exact hsafe.quiet hok hokk htells
  · intro hok k hki hk hokk hmem
    constructor
    · rintro (⟨rfl, -⟩ | ⟨rfl, -, -⟩)
      · exact absurd rfl hki
      · rw [hjname]
        exact hides_withFriend_self hignore
    · intro hsilent
      by_cases hkn : (s.get k).name = n
      · exfalso
        have hkj : s.findName n = some k := hkn ▸ findName_self hs hk (hn k hk hokk)
        obtain rfl := Option.some.inj (hj.symm.trans hkj)
        apply hsilent
        refine .inr ⟨rfl, rfl, (tells_turn hs hi hf (hn i hi hok)).2 ⟨?_, ?_⟩⟩
        · rwa [Server.get_modify_ne hki]
        · rw [hkn]
          exact hides_withFriend_self hignore
      · exact hides_withFriend hkn
  · intro hok b hb
    have hseen : hides ((s.modify i (withFriend n)).get j) (s.get i).name = false →
        Online (s.modify i (withFriend n)) (s.get i).name n := by
      intro hopen
      refine ⟨j, Server.live_modify.2 hjlive, ?_, ?_, hopen⟩
      · rw [hsess.loginOk, hsafe.here hok hopen]
      · rw [hsess.name, hjname]
    constructor
    · intro habout
      have hbn : b = n ∧ Tells (s.modify i (withFriend n)) i n := by
        rcases habout with ⟨-, rfl, htells⟩ | ⟨rfl, rfl, htells⟩
        · exact ⟨rfl, htells⟩
        · rw [hjname] at htells ⊢
          exact ⟨rfl, htells⟩
      obtain ⟨rfl, htells⟩ := hbn
      have hopen := htells.2 j hfind
      rw [hsess.name] at hopen
      exact ⟨fun _ => hseen hopen, fun _ => rfl⟩
    · intro hsilent
      rcases List.mem_append.1 hb with hold | hnewb
      · have hbn : b ≠ n := fun h => hfriend (h ▸ hold)
        exact own_keeps hs hn hc hi hf hok hold fun _ => hides_withFriend hbn
      · obtain rfl := List.mem_singleton.1 hnewb
        have hclosed : hides ((s.modify i (withFriend b)).get j) (s.get i).name = true := by
          by_contra hopen
          apply hsilent
          refine .inl ⟨rfl, rfl, ?_, fun k hk => ?_⟩
          · rw [Server.get_modify_self hi]
            exact hb
          · obtain rfl := Option.some.inj (hfind.symm.trans hk)
            rw [hsess.name]
            exact Bool.eq_false_iff.2 hopen
        rw [hsafe.unheard hok hclosed]
        refine ⟨fun h => absurd h Bool.false_ne_true, fun h => ?_⟩
        obtain ⟨k, hk, hopen⟩ := h.found (hsess.sessions hs) (hsess.named hn)
        obtain rfl := Option.some.inj (hfind.symm.trans hk)
        rw [hclosed] at hopen
        cases hopen

theorem consistent_awaits (hnew : playerHasContact (s.get i) n = false)
    (hnone : s.findName n = none) (hsame : SameBut (s.modify i (withFriend n)) s')
    (hheard : HearsOf heard false (fun k m =>
      k = i ∧ m = n ∧ Tells (s.modify i (withFriend n)) i n) heard') :
    Consistent s' heard' := by
  have hf : ∀ p, (withFriend n p).session = p.session := fun _ => rfl
  have hsess := SameSessions.of_modify (s := s) i hf
  have hfriend := (hasContact_false hnew).1
  have hfind : (s.modify i (withFriend n)).findName n = none := by
    rw [findName_modify (f := withFriend n) fun _ => rfl, hnone]
  refine consistent_turn hs hn hc hi hf hsame hheard ?_ ?_ ?_ ?_
  · exact fun k b habout hki => absurd habout.1 hki
  · exact fun _ h => absurd h Bool.false_ne_true
  · intro hok k hki hk hokk hmem
    refine ⟨fun habout => absurd habout.1 hki, fun _ => ?_⟩
    have hkn : (s.get k).name ≠ n := by
      intro h
      have hkfind := findName_self hs hk (hn k hk hokk)
      rw [h, hnone] at hkfind
      cases hkfind
    exact hides_withFriend hkn
  · intro hok b hb
    have hunseen : ¬ Online (s.modify i (withFriend n)) (s.get i).name n := by
      intro h
      obtain ⟨k, hk, -⟩ := h.found (hsess.sessions hs) (hsess.named hn)
      rw [hfind] at hk
      cases hk
    constructor
    · rintro ⟨-, rfl, -⟩
      exact ⟨fun h => absurd h Bool.false_ne_true, fun h => absurd h hunseen⟩
    · intro hsilent
      rcases List.mem_append.1 hb with hold | hnewb
      · have hbn : b ≠ n := fun h => hfriend (h ▸ hold)
        exact own_keeps hs hn hc hi hf hok hold fun _ => hides_withFriend hbn
      · obtain rfl := List.mem_singleton.1 hnewb
        exfalso
        apply hsilent
        refine ⟨rfl, rfl, ?_, fun k hk => ?_⟩
        · rw [Server.get_modify_self hi]
          exact hb
        · rw [hfind] at hk
          cases hk

/-- A friend that is on the list twice is not removed by a hidden player whom
it would be told of. -/
def UnfriendSafe (s : Server) (i : Nat) (n : Int) : Prop :=
  (s.get i).loginOk = true → (s.get i).blockPrivate = true → n ∈ (s.get i).friendList.erase n →
    ∀ k, s.findName n = some k → (s.get k).loginOk = true → ¬ Tells s k (s.get i).name

theorem consistent_unfriends (hsafe : UnfriendSafe s i n)
    (hsame : SameBut (s.modify i (withoutFriend n)) s')
    (hheard : HearsOf heard false (fun k m => (s.get i).blockPrivate = true ∧
      s.findName n = some k ∧ m = (s.get i).name ∧ Tells s k (s.get i).name) heard') :
    Consistent s' heard' := by
  have hf : ∀ p, (withoutFriend n p).session = p.session := fun _ => rfl
  refine consistent_turn hs hn hc hi hf hsame hheard ?_ ?_ ?_ ?_
  · exact fun k b habout _ => habout.2.2.1
  · exact fun _ h => absurd h Bool.false_ne_true
  · intro hok k hki hk hokk hmem
    constructor
    · rintro ⟨hblock, hfind, -, htells⟩
      rw [(findName_some hfind).2]
      have hlast : n ∉ (s.get i).friendList.erase n :=
        fun htwice => hsafe hok hblock htwice k hfind hokk htells
      exact hides_withoutFriend_self hlast hblock
    · intro hsilent
      by_cases hkn : (s.get k).name = n
      · cases hblock : (s.get i).blockPrivate with
        | false => exact hides_withoutFriend_open hblock
        | true =>
            have hclosed : hides (s.get i) (s.get k).name = true := by
              by_contra hopen
              apply hsilent
              refine ⟨hblock, hkn ▸ findName_self hs hk (hn k hk hokk), rfl, ?_⟩
              exact (tells_own hs hi (hn i hi hok)).2 ⟨hmem, Bool.eq_false_iff.2 hopen⟩
            rw [hclosed, hkn]
            exact hides_withoutFriend_mono (hkn ▸ hclosed)
      · exact hides_withoutFriend hkn
  · intro hok b hb
    constructor
    · rintro ⟨hblock, hfind, rfl, htells⟩
      have hname := (findName_some hfind).2
      rw [hname] at hb
      exact absurd htells (hsafe hok hblock hb i hfind hok)
    · intro _
      apply own_keeps hs hn hc hi hf hok (List.mem_of_mem_erase hb)
      intro _
      by_cases hbn : b = n
      · rw [hbn] at hb ⊢
        exact hides_withoutFriend_twice hb
      · exact hides_withoutFriend hbn

theorem consistent_ignores (hnew : playerHasContact (s.get i) n = false)
    (hsame : SameBut (s.modify i (withIgnore n)) s')
    (hheard : HearsOf heard false (fun k m => (s.get i).blockPrivate = false ∧
      s.findName n = some k ∧ m = (s.get i).name ∧ Tells s k (s.get i).name) heard') :
    Consistent s' heard' := by
  have hf : ∀ p, (withIgnore n p).session = p.session := fun _ => rfl
  have hfriend := (hasContact_false hnew).1
  refine consistent_turn hs hn hc hi hf hsame hheard ?_ ?_ ?_ ?_
  · exact fun k b habout _ => habout.2.2.1
  · exact fun _ h => absurd h Bool.false_ne_true
  · intro hok k hki hk hokk hmem
    constructor
    · rintro ⟨-, hfind, -, -⟩
      rw [(findName_some hfind).2]
      exact hides_withIgnore_self
    · intro hsilent
      by_cases hkn : (s.get k).name = n
      · have hclosed : hides (s.get i) (s.get k).name = true := by
          cases hblock : (s.get i).blockPrivate with
          | true => exact hides_of_block (hkn ▸ hfriend) hblock
          | false =>
              by_contra hopen
              apply hsilent
              refine ⟨hblock, hkn ▸ findName_self hs hk (hn k hk hokk), rfl, ?_⟩
              exact (tells_own hs hi (hn i hi hok)).2 ⟨hmem, Bool.eq_false_iff.2 hopen⟩
        rw [hclosed, hkn]
        exact hides_withIgnore_self
      · exact hides_withIgnore hkn
  · intro hok b hb
    have hbn : b ≠ n := fun h => hfriend (h ▸ hb)
    constructor
    · rintro ⟨-, hfind, rfl, -⟩
      exact absurd (findName_some hfind).2 hbn
    · exact fun _ => own_keeps hs hn hc hi hf hok hb fun _ => hides_withIgnore hbn

/-- A player that is not logged in is announced to nobody. -/
def ForgiveSafe (s : Server) (i : Nat) (n : Int) : Prop :=
  (s.get i).loginOk = false → ∀ k, s.findName n = some k → (s.get k).loginOk = true →
    ¬ Tells (s.modify i (withoutIgnore n)) k (s.get i).name

theorem consistent_forgives (hold : n ∈ (s.get i).ignoreList) (hsafe : ForgiveSafe s i n)
    (hsame : SameBut (s.modify i (withoutIgnore n)) s')
    (hheard : HearsOf heard true (fun k m => s.findName n = some k ∧ m = (s.get i).name ∧
      Tells (s.modify i (withoutIgnore n)) k (s.get i).name) heard') :
    Consistent s' heard' := by
  have hf : ∀ p, (withoutIgnore n p).session = p.session := fun _ => rfl
  have hsess := SameSessions.of_modify (s := s) i hf
  refine consistent_turn hs hn hc hi hf hsame hheard ?_ ?_ ?_ ?_
  · exact fun k b habout _ => habout.2.1
  · rintro hok - k hki hk hokk ⟨hfind, -, htells⟩
    exact hsafe hok k hfind hokk htells
  · intro hok k hki hk hokk hmem
    have hturn := tells_turn (k := k) hs hi hf (hn i hi hok)
    rw [Server.get_modify_ne hki] at hturn
    constructor
    · rintro ⟨-, -, htells⟩
      exact (hturn.1 htells).2
    · intro hsilent
      by_cases hkn : (s.get k).name = n
      · have hclosed : hides (withoutIgnore n (s.get i)) (s.get k).name = true := by
          by_contra hopen
          apply hsilent
          refine ⟨hkn ▸ findName_self hs hk (hn k hk hokk), rfl, ?_⟩
          exact hturn.2 ⟨hmem, Bool.eq_false_iff.2 hopen⟩
        rw [hclosed, hkn]
        exact (hides_of_ignore hold).symm
      · exact hides_withoutIgnore hkn
  · intro hok b hb
    have hturn := tells_turn (k := i) hs hi hf (hn i hi hok)
    rw [Server.get_modify_self hi] at hturn
    constructor
    · rintro ⟨-, rfl, htells⟩
      have hown := online_own (i := i) (n := (s.get i).name) (hsess.sessions hs) (hsess.named hn)
        (Server.live_modify.2 hi)
      rw [hsess.name, hsess.loginOk, Server.get_modify_self hi] at hown
      exact ⟨fun _ => hown.2 ⟨hok, (hturn.1 htells).2⟩, fun _ => rfl⟩
    · intro hsilent
      apply own_keeps hs hn hc hi hf hok hb
      intro hbi
      by_cases hbn : b = n
      · have hclosed : hides (withoutIgnore n (s.get i)) b = true := by
          by_contra hopen
          apply hsilent
          subst hbi
          refine ⟨?_, rfl, hturn.2 ⟨hb, Bool.eq_false_iff.2 hopen⟩⟩
          rw [← hbn]
          exact findName_self hs hi (hn i hi hok)
        rw [hclosed, hbn]
        exact (hides_of_ignore hold).symm
      · exact hides_withoutIgnore hbn

theorem own_keeps_privacy (hok : (s.get i).loginOk = true) {b : Int}
    (hb : b ∈ (s.get i).friendList) :
    heard (i, b) = true ↔ Online (s.modify i (withPrivacy a)) (s.get i).name b :=
  own_keeps hs hn hc hi (fun _ => rfl) hok hb fun _ =>
    hides_withPrivacy_contact (mem_contacts.1 (List.mem_append_left _ hb))

theorem consistent_hides (hnew : a.blockPrivate = true)
    (hsame : SameBut (s.modify i (withPrivacy a)) s')
    (hheard : HearsOf heard false (fun k n => k < s.maxPlayerId ∧ s.live k ∧ n = (s.get i).name ∧
      (s.get k).name ∉ (s.get i).friendList ∧ Tells s k (s.get i).name) heard') :
    Consistent s' heard' := by
  have hf : ∀ p, (withPrivacy a p).session = p.session := fun _ => rfl
  have hset : (a.blockPrivate || a.hideOnline) = true := by rw [hnew, Bool.true_or]
  refine consistent_turn hs hn hc hi hf hsame hheard ?_ ?_ ?_ ?_
  · exact fun k b habout _ => habout.2.2.1
  · exact fun _ h => absurd h Bool.false_ne_true
  · intro hok k hki hk hokk hmem
    constructor
    · rintro ⟨-, -, -, hno, -⟩
      exact hides_withPrivacy_other hno hset
    · intro hsilent
      by_cases hfriend : (s.get k).name ∈ (s.get i).friendList
      · exact hides_withPrivacy_contact (mem_contacts.1 (List.mem_append_left _ hfriend))
      · rw [hides_withPrivacy_other hfriend hset]
        by_contra hopen
        apply hsilent
        refine ⟨hs.bound k hk, hk, rfl, hfriend, ?_⟩
        exact (tells_own hs hi (hn i hi hok)).2 ⟨hmem, by simpa using Ne.symm hopen⟩
  · intro hok b hb
    refine ⟨?_, fun _ => own_keeps_privacy hs hn hc hi hok hb⟩
    rintro ⟨-, -, rfl, hno, -⟩
    exact absurd hb hno

/-- A player that is not logged in is announced to nobody. -/
def ShowSafe (s : Server) (i : Nat) (a : Privacy) : Prop :=
  (s.get i).loginOk = false → ∀ k, s.live k → (s.get k).loginOk = true →
    (s.get k).name ∉ (s.get i).friendList → ¬ Tells (s.modify i (withPrivacy a)) k (s.get i).name

theorem consistent_shows (hold : (s.get i).blockPrivate = true) (hsafe : ShowSafe s i a)
    (hsame : SameBut (s.modify i (withPrivacy a)) s')
    (hheard : HearsOf heard true (fun k n => k < s.maxPlayerId ∧ s.live k ∧ n = (s.get i).name ∧
      (s.get k).name ∉ (s.get i).friendList ∧
        Tells (s.modify i (withPrivacy a)) k (s.get i).name) heard') :
    Consistent s' heard' := by
  have hf : ∀ p, (withPrivacy a p).session = p.session := fun _ => rfl
  refine consistent_turn hs hn hc hi hf hsame hheard ?_ ?_ ?_ ?_
  · exact fun k b habout _ => habout.2.2.1
  · rintro hok - k hki hk hokk ⟨-, -, -, hno, htells⟩
    exact hsafe hok k hk hokk hno htells
  · intro hok k hki hk hokk hmem
    have hturn := tells_turn (k := k) hs hi hf (hn i hi hok)
    rw [Server.get_modify_ne hki] at hturn
    constructor
    · rintro ⟨-, -, -, -, htells⟩
      exact (hturn.1 htells).2
    · intro hsilent
      by_cases hfriend : (s.get k).name ∈ (s.get i).friendList
      · exact hides_withPrivacy_contact (mem_contacts.1 (List.mem_append_left _ hfriend))
      · rw [hides_of_block hfriend hold]
        by_contra hopen
        apply hsilent
        refine ⟨hs.bound k hk, hk, rfl, hfriend, ?_⟩
        exact hturn.2 ⟨hmem, Bool.eq_false_iff.2 hopen⟩
  · intro hok b hb
    refine ⟨?_, fun _ => own_keeps_privacy hs hn hc hi hok hb⟩
    rintro ⟨-, -, rfl, hno, -⟩
    exact absurd hb hno

/-- Who asks to be hidden and lets private messages through, as before, is a
friend of nobody that it has not as a contact itself. -/
def StillSafe (s : Server) (i : Nat) (a : Privacy) : Prop :=
  (s.get i).loginOk = true → a.blockPrivate = false → a.hideOnline = true →
    ∀ k, s.live k → (s.get k).loginOk = true → (s.get i).name ∈ (s.get k).friendList →
      playerHasContact (s.get i) (s.get k).name = true

theorem consistent_still (hold : a.blockPrivate = (s.get i).blockPrivate)
    (hsafe : StillSafe s i a) : Consistent (s.modify i (withPrivacy a)) heard := by
  have hf : ∀ p, (withPrivacy a p).session = p.session := fun _ => rfl
  have hheard : HearsOf heard false (fun _ _ => False) heard :=
    fun k b => ⟨fun h => h.elim, fun _ => rfl⟩
  refine consistent_turn hs hn hc hi hf ⟨_, rfl⟩ hheard ?_ ?_ ?_ ?_
  · exact fun k b h _ => h.elim
  · exact fun _ h => absurd h Bool.false_ne_true
  · intro hok k hki hk hokk hmem
    refine ⟨fun h => h.elim, fun _ => ?_⟩
    by_cases hset : (a.blockPrivate || a.hideOnline) = (s.get i).blockPrivate
    · exact hides_withPrivacy_same hset
    · have hask : a.blockPrivate = false ∧ a.hideOnline = true := by
        rw [← hold] at hset
        revert hset
        cases a.blockPrivate <;> cases a.hideOnline <;> simp
      exact hides_withPrivacy_contact (hsafe hok hask.1 hask.2 k hk hokk hmem)
  · exact fun hok b hb => ⟨fun h => h.elim, fun _ => own_keeps_privacy hs hn hc hi hok hb⟩

end

end Sundae.Proofs
