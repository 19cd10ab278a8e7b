import Sundae.Proofs.Presence

/-!
# What the clients show

A whole step of the system, seen from the clients: a packet about contacts, a
login with the list it is sent, a player leaving, and everything that is not
seen. The steps that leave a client wrong are excluded one by one, each by a
condition on the state it finds.
-/

namespace Sundae.Proofs

open Sundae.Lib Sundae.Ref

/-! ## Contact packets -/

/-- Nothing is added, taken off or set that leaves a client wrong. -/
def ContactSafe (s : Server) (heard : Nat × Int → Bool) (i : Nat) (data : List Nat) :
    ContactOp → Prop
  | .addFriend => ∀ n j, bufGets64 data 1 = some n → playerHasContact (s.get i) n = false →
      (s.get i).friendList.length < maxFriends → s.findName n = some j →
        BefriendSafe s heard i n j
  | .removeFriend => ∀ n, bufGets64 data 1 = some n → UnfriendSafe s i n
  | .addIgnore => True
  | .removeIgnore => ∀ n, bufGets64 data 1 = some n → n ∈ (s.get i).ignoreList → ForgiveSafe s i n
  | .privacySettings => ∀ a, privacyOf (s.get i) data = some a →
      if a.blockPrivate = (s.get i).blockPrivate then StillSafe s i a
      else (s.get i).blockPrivate = true → ShowSafe s i a

section

variable {s s' : Server} {heard held : Nat × Int → Bool} {i : Nat} {data : List Nat}
variable {refused : Nat → Bool}

/-- What a client holds after messages of one kind, none of them refused. -/
theorem hear_told {online : Bool} {about : Nat → Int → Prop} {t : Server}
    (htold : Told online about t s') (hnotes : t.notices = s.notices)
    (hrefused : ∀ m, refused m = false) :
    HearsOf held online about
      (hear held (updates refused (s'.notices.drop s.notices.length))) := by
  obtain ⟨l, rfl, hl⟩ := htold
  have hdrop : (t.notices ++ l).drop s.notices.length = l := by
    rw [hnotes]
    exact List.drop_left
  have hall : updates refused l = l.map fun x => ((x.slot, x.name), x.online) := by
    unfold updates
    have hfilter : ((l.zipIdx 1).filter fun x => !refused x.2) = l.zipIdx 1 :=
      List.filter_eq_self.2 fun x _ => by rw [hrefused, Bool.not_false]
    rw [hfilter]
    have hfst := List.zipIdx_map_fst 1 l
    conv => rhs; rw [← hfst]
    rw [List.map_map]
    rfl
  have hmem : ∀ (x : Nat × Int) w, (x, w) ∈ updates refused l ↔
      w = online ∧ about x.1 x.2 := by
    rintro ⟨k, b⟩ w
    rw [hall, ← hl k b w, List.mem_map]
    constructor
    · rintro ⟨⟨k', b', w'⟩, hx, heq⟩
      simp only [Prod.mk.injEq] at heq
      obtain ⟨⟨rfl, rfl⟩, rfl⟩ := heq
      exact hx
    · exact fun hx => ⟨_, hx, rfl⟩
  intro k b
  dsimp only
  rw [hdrop]
  exact hear_uniform (fun x => about x.1 x.2) hmem (k, b)

/-- A packet about contacts leaves every client right. -/
theorem consistent_contact {op : ContactOp} (hs : Sessions s) (hn : Named s)
    (hc : Consistent s heard) (hi : s.live i) (hdeed : Deed s i data s' op)
    (hsafe : ContactSafe s heard i data op) (hrefused : ∀ m, refused m = false) :
    Consistent s' (hear heard (updates refused (s'.notices.drop s.notices.length))) := by
  have hquiet : s'.notices = s.notices →
      hear heard (updates refused (s'.notices.drop s.notices.length)) = heard := by
    intro h
    rw [h, List.drop_length]
    rfl
  cases hdeed with
  | nothing hsame =>
      subst hsame
      rw [hquiet rfl]
      exact hc
  | befriends hdata hnew hroom hj htold =>
      exact consistent_befriends hs hn hc hi hnew hj (hsafe _ _ hdata hnew hroom hj)
        htold.sameBut (hear_told htold rfl hrefused)
  | awaits hnew hnone htold =>
      exact consistent_awaits hs hn hc hi hnew hnone htold.sameBut (hear_told htold rfl hrefused)
  | unfriends hdata _ htold =>
      exact consistent_unfriends hs hn hc hi (hsafe _ hdata) htold.sameBut
        (hear_told htold rfl hrefused)
  | ignores hnew htold =>
      exact consistent_ignores hs hn hc hi hnew htold.sameBut (hear_told htold rfl hrefused)
  | forgives hdata hold htold =>
      exact consistent_forgives hs hn hc hi hold (hsafe _ hdata hold) htold.sameBut
        (hear_told htold rfl hrefused)
  | hides hdata hold hnew htold =>
      exact consistent_hides hs hn hc hi hnew htold.sameBut (hear_told htold rfl hrefused)
  | @shows a hdata hold hnew htold =>
      have hne : a.blockPrivate ≠ (s.get i).blockPrivate := by
        rw [hnew, hold]
        exact Bool.false_ne_true
      have hshow := hsafe a hdata
      rw [if_neg hne] at hshow
      exact consistent_shows hs hn hc hi hold (hshow hold) htold.sameBut
        (hear_told htold rfl hrefused)
  | still hdata hsame hs' =>
      have hstill := hsafe _ hdata
      rw [if_pos hsame] at hstill
      rw [hquiet (by rw [hs']; rfl), hs']
      exact consistent_still hs hn hc hi hsame hstill

end

/-! ## Steps that nobody sees -/

/-- The same players are logged in, under the same names, and look out as
before. -/
structure SameSeen (s s' : Server) : Prop where
  ok : ∀ k, s'.live k ∧ (s'.get k).loginOk = true ↔ s.live k ∧ (s.get k).loginOk = true
  name : ∀ k, s.live k → (s.get k).loginOk = true → (s'.get k).name = (s.get k).name
  outlook : ∀ k, s.live k → (s.get k).loginOk = true → outlook (s'.get k) = outlook (s.get k)

section

variable {env : Env} {s s' : Server} {heard : Nat × Int → Bool} {i : Nat} {data : List Nat}

theorem hides_outlook {p q : Player} (h : outlook q = outlook p) (n : Int) :
    hides q n = hides p n := by
  obtain ⟨hfriends, hrest⟩ := Prod.mk.inj h
  obtain ⟨hignores, hblock⟩ := Prod.mk.inj hrest
  apply hides_congr
  rw [hides_iff, hides_iff, hfriends, hignores, hblock]

theorem SameSeen.refl (s : Server) : SameSeen s s :=
  ⟨fun _ => Iff.rfl, fun _ _ _ => rfl, fun _ _ _ => rfl⟩

theorem SameSeen.trans {s'' : Server} (h : SameSeen s s') (h' : SameSeen s' s'') :
    SameSeen s s'' := by
  refine ⟨fun k => (h'.ok k).trans (h.ok k), fun k hk hok => ?_, fun k hk hok => ?_⟩
  · obtain ⟨hk', hok'⟩ := (h.ok k).2 ⟨hk, hok⟩
    rw [h'.name k hk' hok', h.name k hk hok]
  · obtain ⟨hk', hok'⟩ := (h.ok k).2 ⟨hk, hok⟩
    rw [h'.outlook k hk' hok', h.outlook k hk hok]

theorem SameSeen.online (h : SameSeen s s') {n b : Int} : Online s' n b ↔ Online s n b := by
  constructor
  · rintro ⟨j, hj, hok, hname, hopen⟩
    obtain ⟨hj', hok'⟩ := (h.ok j).1 ⟨hj, hok⟩
    rw [h.name j hj' hok'] at hname
    rw [hides_outlook (h.outlook j hj' hok')] at hopen
    exact ⟨j, hj', hok', hname, hopen⟩
  · rintro ⟨j, hj, hok, hname, hopen⟩
    obtain ⟨hj', hok'⟩ := (h.ok j).2 ⟨hj, hok⟩
    refine ⟨j, hj', hok', ?_, ?_⟩
    · rw [h.name j hj hok, hname]
    · rw [hides_outlook (h.outlook j hj hok), hopen]

theorem SameSeen.consistent (h : SameSeen s s') (hc : Consistent s heard) :
    Consistent s' heard := by
  intro k hk hok b hb
  obtain ⟨hk', hok'⟩ := (h.ok k).1 ⟨hk, hok⟩
  have hfriends : (s'.get k).friendList = (s.get k).friendList :=
    congrArg Prod.fst (h.outlook k hk' hok')
  rw [hfriends] at hb
  rw [h.online, h.name k hk' hok']
  exact hc k hk' hok' b hb

theorem SameSeen.named (h : SameSeen s s') (hn : Named s) : Named s' := by
  intro k hk hok
  obtain ⟨hk', hok'⟩ := (h.ok k).1 ⟨hk, hok⟩
  rw [h.name k hk' hok']
  exact hn k hk' hok'

theorem SameSeen.of_aside {aside : Aside} (h : aside.run s = .ok s') : SameSeen s s' := by
  have hsess : SameSessions s s' := .of_change h
  refine ⟨fun k => ?_, fun k _ _ => hsess.name k, fun k _ _ => aside.keeps s s' k h⟩
  rw [hsess.live, hsess.loginOk]

theorem atSwitch_outlook {opcode : Nat} {p q : Player}
    (h : atSwitch env p data = some (opcode, q)) : outlook q = outlook p := by
  unfold atSwitch at h
  unfold outlook
  grind

theorem SameSeen.of_switch {opcode : Nat} {p : Player}
    (h : atSwitch env (s.get i) data = some (opcode, p)) :
    SameSeen s (s.modify i fun _ => p) := by
  have hsess := SameSessions.of_switch h
  have hout := atSwitch_outlook h
  refine ⟨fun k => ?_, fun k _ _ => hsess.name k, fun k _ _ => ?_⟩
  · rw [hsess.live, hsess.loginOk]
  · rw [Server.get_modify]
    split
    · next hk => rw [hout, hk.1]
    · rfl

/-- What happens to a player who is not logged in, and stays so, is not seen. -/
theorem SameSeen.of_stranger {f : Player → Player} (hi : s.live i)
    (hold : (s.get i).loginOk = false) (hnew : (f (s.get i)).loginOk = false) :
    SameSeen s (s.modify i f) := by
  have hne : ∀ k, (s.get k).loginOk = true → k ≠ i := by
    intro k hok hki
    rw [hki, hold] at hok
    cases hok
  refine ⟨fun k => ?_, fun k _ hok => ?_, fun k _ hok => ?_⟩
  · rw [Server.live_modify]
    by_cases hki : k = i
    · rw [hki, Server.get_modify_self hi, hold, hnew]
    · rw [Server.get_modify_ne hki]
  · rw [Server.get_modify_ne (hne k hok)]
  · rw [Server.get_modify_ne (hne k hok)]

theorem SameSeen.of_connect (s : Server) : SameSeen s (playerCreate s) := by
  unfold playerCreate
  split
  · exact .refl s
  · next slot hfree =>
    have hdead : ¬ s.live slot := freeSlot_dead hfree
    have hget : ∀ k, k ≠ slot → Server.get { s with
        players := fun j => if j = slot then some {} else s.players j
        maxPlayerId := max s.maxPlayerId (slot + 1) } k = s.get k := by
      intro k hk
      simp only [Server.get, hk, if_false]
    have hne : ∀ k, s.live k → k ≠ slot := by
      intro k hk hks
      exact hdead (hks ▸ hk)
    refine ⟨fun k => ?_, fun k hk _ => ?_, fun k hk _ => ?_⟩
    · by_cases hks : k = slot
      · subst hks
        refine iff_of_false (fun h => ?_) fun h => hdead h.1
        simp [Server.get] at h
      · rw [hget k hks]
        simp only [Server.live, hks, if_false]
    · rw [hget k (hne k hk)]
    · rw [hget k (hne k hk)]

end

/-! ## Packets about sessions -/

section

variable {env : Env} {s s' : Server} {heard : Nat × Int → Bool} {i : Nat}
variable {data : List Nat} {db : Loaded}

/-- A packet that neither lets a login in nor plays the game is not seen and
tells nobody. -/
theorem processPacket_unseen (game : Game) (hs : Sessions s) (hi : s.live i)
    (ha : ¬ PacketAccepted env s i data db) :
    (∃ s', processPacket env game s i data db = .ok s' ∧ SameSeen s s' ∧
      s'.notices = s.notices) ∨
      ∃ opcode p, atSwitch env (s.get i) data = some (opcode, p) ∧
        processPacket env game s i data db = (game opcode data i).run (s.modify i fun _ => p) := by
  cases hok : (s.get i).loginOk with
  | false =>
      rcases processPacket_other game hi ha with
        ⟨s', hres, f, rfl, hmodest⟩ | ⟨opcode, p, hsw, -, -, -, hres⟩
      · exact .inl ⟨_, hres, .of_stranger hi hok (hmodest.loginOk.trans hok), rfl⟩
      · exact .inr ⟨opcode, p, hsw, hres⟩
  | true =>
      have hgot := hs.stage i hi hok
      cases hsw : atSwitch env (s.get i) data with
      | none =>
          obtain ⟨g, hres, hg⟩ := processPacket_return game db hsw
          have hsame : g (s.get i) = s.get i := by
            rcases hg with hg | ⟨hzero, -⟩
            · exact hg
            · rw [hgot] at hzero
              cases hzero
          rw [Server.modify_eq_self hsame] at hres
          exact .inl ⟨s, hres, .refl s, rfl⟩
      | some x =>
          obtain ⟨opcode, p⟩ := x
          have hstage : ((s.modify i fun _ => p).get i).loginStage = .gotLogin := by
            rw [Server.get_modify_self hi, (atSwitch_keeps hsw).2.2, hgot]
          have hstay : SameSeen s (s.modify i fun _ => p) := .of_switch hsw
          rw [processPacket_switch hsw]
          unfold packetSwitch
          split
          · refine .inl ⟨_, rfl, ?_⟩
            unfold opCliRegister
            rw [if_pos hstage]
            exact ⟨hstay, rfl⟩
          · split
            · refine .inl ⟨_, rfl, ?_⟩
              unfold opCliLogin
              rw [if_pos hstage]
              exact ⟨hstay, rfl⟩
            · exact .inr ⟨opcode, p, rfl, rfl⟩

/-- A login that is let in writes what was loaded, and tells those who have its
name on their lists. -/
theorem opCliLogin_enters (hi : s.live i) (h : LoginAccepted env s i data db) :
    ∃ f, opCliLogin env s i data db =
        serverRegister true (f (s.get i)).name (s.modify i f) ∧
      (f (s.get i)).loginOk = true ∧
      outlook (f (s.get i)) = (db.friendList, db.ignoreList, db.blockPrivate) ∧
      some (f (s.get i)).name = packetName env (s.get i) data := by
  have hreads := processCredentials_reads env hi data
  obtain ⟨hstage, hread, hreply⟩ := h
  obtain ⟨c, hs', -, hname⟩ := hreads.writes
  unfold opCliLogin
  rw [if_neg hstage]
  split
  · next s' heq =>
    rw [heq] at hread
    cases hread
  · next s' heq =>
    rw [heq] at hs' hname
    simp only at hs' hname
    simp only [hreply, if_true, Server.modify_modify, hs', Server.get_modify_self hi]
    exact ⟨fun p => { applyLoaded db (withCredentials c p) with loginOk := true }, rfl, rfl, rfl,
      hname trivial⟩

theorem processPacket_enters (game : Game) (hi : s.live i) (ha : PacketAccepted env s i data db) :
    ∃ f, processPacket env game s i data db =
        .ok (serverRegister true (f (s.get i)).name (s.modify i f)) ∧
      (f (s.get i)).loginOk = true ∧
      outlook (f (s.get i)) = (db.friendList, db.ignoreList, db.blockPrivate) ∧
      some (f (s.get i)).name = loginPacketName env s i data := by
  obtain ⟨⟨opcode, p⟩, hsw, hop, hlogin⟩ := ha
  have hlive : (s.modify i fun _ => p).live i := Server.live_modify.2 hi
  have hget : (s.modify i fun _ => p).get i = p := Server.get_modify_self hi
  obtain ⟨f, hres, hok, hout, hname⟩ := opCliLogin_enters hlive hlogin
  rw [hget] at hres hok hout hname
  rw [Server.modify_modify] at hres
  refine ⟨fun _ => f p, ?_, hok, hout, ?_⟩
  · rw [processPacket_switch hsw]
    unfold packetSwitch
    rw [if_neg (by omega), if_pos hop, hres]
  · rw [hname, loginPacketName, hsw]
    rfl

/-- Such a login has a name, and of the names on its list those that are found
are logged in or not seen. -/
def LoginSafe (env : Env) (s : Server) (i : Nat) (data : List Nat) (db : Loaded) : Prop :=
  ∀ n, loginPacketName env s i data = some n → n ≠ -1 ∧
    ∀ b ∈ db.friendList, ∀ j, (s.modify i fun p => { p with name := n }).findName b = some j →
      j ≠ i → (s.get j).loginOk = true ∨ hides (s.get j) n = true

theorem findName_congr {t : Server} (hmax : t.maxPlayerId = s.maxPlayerId)
    (hlive : ∀ k, t.live k ↔ s.live k) (hname : ∀ k, (t.get k).name = (s.get k).name) (n : Int) :
    t.findName n = s.findName n := by
  unfold Server.findName
  simp only [hmax, hlive, hname]

theorem consistent_login {f : Player → Player} {heard' : Nat × Int → Bool} {n : Int}
    (hs' : Sessions (s.modify i f)) (hn' : Named (s.modify i f)) (hc : Consistent s heard)
    (hi : s.live i) (hold : (s.get i).loginOk = false) (hnew : (f (s.get i)).loginOk = true)
    (hname : (f (s.get i)).name = n)
    (hsafe : ∀ b ∈ (f (s.get i)).friendList, ∀ j, (s.modify i f).findName b = some j → j ≠ i →
      (s.get j).loginOk = true ∨ hides (s.get j) n = true)
    (hsame : SameBut (s.modify i f) s')
    (hheard : HearsOf (fun x => if x.1 = i then initFriend (s.modify i f) i x.2 else heard x) true
      (fun k m => k < s.maxPlayerId ∧ s.live k ∧ m = n ∧ Tells (s.modify i f) k n) heard') :
    Consistent s' heard' := by
  obtain ⟨l, rfl⟩ := hsame
  show Consistent (s.modify i f) heard'
  have hi' : (s.modify i f).live i := Server.live_modify.2 hi
  have hself : (s.modify i f).get i = f (s.get i) := Server.get_modify_self hi
  have hown : ∀ m, Online (s.modify i f) m n ↔ hides (f (s.get i)) m = false := by
    intro m
    have h := online_own (i := i) (n := m) hs' hn' hi'
    rw [hself, hname, hnew] at h
    rw [h, eq_self_iff_true, true_and]
  have hnone : n ≠ -1 := by
    have h := hn' i hi' (by rw [hself, hnew])
    rwa [hself, hname] at h
  have htells : ∀ k, Tells (s.modify i f) k n ↔ n ∈ ((s.modify i f).get k).friendList ∧
      hides (f (s.get i)) ((s.modify i f).get k).name = false := by
    intro k
    have h := tells_own (k := k) hs' hi' (by rwa [hself, hname])
    rwa [hself, hname] at h
  intro k hk hok b hb
  have hk' : s.live k := Server.live_modify.1 hk
  obtain ⟨htold, hsilent⟩ := hheard k b
  by_cases habout : b = n ∧ hides (f (s.get i)) ((s.modify i f).get k).name = false
  · obtain ⟨rfl, hopen⟩ := habout
    rw [htold ⟨hs'.bound k hk, hk', rfl, (htells k).2 ⟨hb, hopen⟩⟩, hown]
    exact ⟨fun _ => hopen, fun _ => rfl⟩
  · rw [hsilent fun h => habout ⟨h.2.2.1, ((htells k).1 h.2.2.2).2⟩]
    dsimp only
    by_cases hki : k = i
    · subst hki
      rw [hself] at hb ⊢
      rw [if_pos rfl, initFriend, hself, playerHasFriend, List.contains_iff_mem.2 hb,
        Bool.true_and, Option.any_eq_true]
      constructor
      · rintro ⟨j, hj, hopen⟩
        obtain ⟨hjlive, hjname⟩ := findName_some hj
        have hjopen : hides ((s.modify k f).get j) (f (s.get k)).name = false := by
          simpa using hopen
        refine ⟨j, hjlive, ?_, hjname, hjopen⟩
        by_cases hjk : j = k
        · rw [hjk, hself, hnew]
        · rw [Server.get_modify_ne hjk] at hjopen ⊢
          rcases hsafe b hb j hj hjk with hjok | hclosed
          · exact hjok
          · rw [hname, hclosed] at hjopen
            cases hjopen
      · intro h
        obtain ⟨j, hj, hopen⟩ := h.found hs' hn'
        exact ⟨j, hj, by rw [hopen, Bool.not_false]⟩
    · rw [if_neg hki]
      rw [Server.get_modify_ne hki] at hok hb habout ⊢
      rw [hc k hk' hok b hb]
      have hother : ∀ j, (s.get j).loginOk = true → j ≠ i := by
        intro j hjok hji
        rw [hji, hold] at hjok
        cases hjok
      constructor
      · rintro ⟨j, hj, hjok, hjname, hopen⟩
        have hget := Server.get_modify_ne (f := f) (s := s) (hother j hjok)
        refine ⟨j, Server.live_modify.2 hj, ?_, ?_, ?_⟩
        · rw [hget, hjok]
        · rw [hget, hjname]
        · rw [hget, hopen]
      · rintro ⟨j, hj, hjok, hjname, hopen⟩
        have hji : j ≠ i := by
          rintro rfl
          rw [hself] at hjname hopen
          exact habout ⟨hjname.symm.trans hname, hopen⟩
        rw [Server.get_modify_ne hji] at hjok hjname hopen
        exact ⟨j, Server.live_modify.1 hj, hjok, hjname, hopen⟩

end

/-! ## Leaving -/

section

variable {s : Server} {heard heard' : Nat × Int → Bool} {i : Nat}

/-- The server without the player of a slot. -/
def without (s : Server) (i : Nat) : Server :=
  { s with players := fun j => if j = i then none else s.players j }

theorem without_live {k : Nat} (h : (without s i).live k) : k ≠ i ∧ s.live k := by
  unfold Server.live without at h
  dsimp only at h
  split at h
  · cases h
  · next hki => exact ⟨hki, h⟩

theorem without_get {k : Nat} (h : k ≠ i) : (without s i).get k = s.get k := by
  simp only [Server.get, without, h, if_false]

theorem online_without {n b : Int} :
    Online (without s i) n b ↔ ∃ j, j ≠ i ∧ s.live j ∧ (s.get j).loginOk = true ∧
      (s.get j).name = b ∧ hides (s.get j) n = false := by
  constructor
  · rintro ⟨j, hj, h⟩
    obtain ⟨hji, hlive⟩ := without_live hj
    rw [without_get hji] at h
    exact ⟨j, hji, hlive, h⟩
  · rintro ⟨j, hji, hlive, h⟩
    refine ⟨j, ?_, ?_⟩
    · simpa only [Server.live, without, hji, if_false] using hlive
    · rw [without_get hji]
      exact h

theorem consistent_leaves (hs : Sessions s) (hn : Named s) (hc : Consistent s heard)
    (hi : s.live i)
    (hheard : HearsOf heard false (fun k m => k < s.maxPlayerId ∧ s.live k ∧
      m = (s.get i).name ∧ Tells s k (s.get i).name) heard') :
    Consistent (without s i) heard' := by
  intro k hk hok b hb
  obtain ⟨hki, hk'⟩ := without_live hk
  rw [without_get hki] at hok hb ⊢
  obtain ⟨htold, hsilent⟩ := hheard k b
  rw [online_without]
  by_cases hbi : b = (s.get i).name
  · subst hbi
    have hgone : ¬ ∃ j, j ≠ i ∧ s.live j ∧ (s.get j).loginOk = true ∧
        (s.get j).name = (s.get i).name ∧ hides (s.get j) (s.get k).name = false := by
      rintro ⟨j, hji, hj, hjok, hjname, -⟩
      exact hn j hj hjok (hs.names j i hji hj hi hjname)
    by_cases htells : Tells s k (s.get i).name
    · rw [htold ⟨hs.bound k hk', hk', rfl, htells⟩]
      exact iff_of_false Bool.false_ne_true hgone
    · rw [hsilent fun h => htells h.2.2.2, hc k hk' hok _ hb, online_own hs hn hi]
      refine iff_of_false (fun h => htells ?_) hgone
      exact (tells_own hs hi (hn i hi h.1)).2 ⟨hb, h.2⟩
  · rw [hsilent fun h => hbi h.2.2.1, hc k hk' hok b hb]
    constructor
    · rintro ⟨j, hj, hjok, hjname, hopen⟩
      refine ⟨j, ?_, hj, hjok, hjname, hopen⟩
      rintro rfl
      exact hbi hjname.symm
    · rintro ⟨j, -, h⟩
      exact ⟨j, h⟩

end

/-! ## Whole runs -/

/-- A packet that leaves every client right. -/
def PacketSafe (env : Env) (c : Presence) (i : Nat) (data : List Nat) (db : Loaded) : Prop :=
  (PacketAccepted env c.server i data db → LoginSafe env c.server i data db) ∧
    ∀ opcode p op, atSwitch env (c.server.get i) data = some (opcode, p) →
      contactOp? opcode = some op →
        ContactSafe (c.server.modify i fun _ => p) c.heard i data op

/-- A step that leaves every client right: no message about a friend is
refused, and a packet is safe. -/
def PresenceSafe (env : Env) (c : Presence) (e : PresenceEvent) : Prop :=
  (∀ m, e.refused m = false) ∧
    match e.move with
    | .packet i data db => c.server.live i → PacketSafe env c i data db
    | _ => True

/-- What every run keeps. -/
structure Seen (c : Presence) : Prop where
  sessions : Sessions c.server
  named : Named c.server
  right : Consistent c.server c.heard

section

variable {env : Env} {rest : Nat → List Nat → Nat → Aside} {c c' : Presence} {s' : Server}
variable {e : PresenceEvent} {refused : Nat → Bool}

/-- Without a login, and without a message, the clients know what they knew. -/
theorem heardAtLogin_same
    (h : ∀ k, s'.live k → (s'.get k).loginOk = true → (c.server.get k).loginOk = true) :
    heardAtLogin c s' refused = c.heard := by
  funext x
  unfold heardAtLogin
  split
  · next hnew =>
    rw [Bool.and_eq_true, Bool.not_eq_true'] at hnew
    by_cases hlive : s'.live x.1
    · rw [h x.1 hlive hnew.1] at hnew
      cases hnew.2
    · rw [Server.get_of_not_live hlive] at hnew
      cases hnew.1
  · rfl

theorem hear_silent {held : Nat × Int → Bool} {s : Server} (h : s'.notices = s.notices) :
    hear held (updates refused (s'.notices.drop s.notices.length)) = held := by
  rw [h, List.drop_length]
  rfl

theorem SameSeen.heard (h : SameSeen c.server s') (hsilent : s'.notices = c.server.notices) :
    hear (heardAtLogin c s' refused)
      (updates refused (s'.notices.drop c.server.notices.length)) = c.heard := by
  rw [hear_silent hsilent, heardAtLogin_same fun k hk hok => ((h.ok k).1 ⟨hk, hok⟩).2]

theorem SameSeen.seen (h : SameSeen c.server s') (hs' : Sessions s') (hc : Seen c)
    (hsilent : s'.notices = c.server.notices) :
    Seen ⟨s', hear (heardAtLogin c s' refused)
      (updates refused (s'.notices.drop c.server.notices.length))⟩ := by
  refine ⟨hs', h.named hc.named, ?_⟩
  rw [h.heard hsilent]
  exact h.consistent hc.right

theorem playerCreate_notices (s : Server) : (playerCreate s).notices = s.notices := by
  unfold playerCreate
  split <;> rfl

theorem seen_leaves {i : Nat} (hc : Seen c) (hs' : Sessions (serverRemovePlayer c.server i))
    (hrefused : ∀ m, refused m = false) :
    Seen ⟨serverRemovePlayer c.server i,
      hear (heardAtLogin c (serverRemovePlayer c.server i) refused)
        (updates refused ((serverRemovePlayer c.server i).notices.drop
          c.server.notices.length))⟩ := by
  by_cases hgo : c.server.live i ∧ (c.server.get i).logoutConfirmed
  · have htold := serverRegister_told false (c.server.get i).name c.server
    obtain ⟨l, hl⟩ := htold.sameBut
    have hleft : serverRemovePlayer c.server i = { without c.server i with notices := l } := by
      unfold serverRemovePlayer
      rw [if_pos hgo]
      dsimp only
      rw [hl]
      rfl
    have hnotes : (serverRemovePlayer c.server i).notices =
        (serverRegister false (c.server.get i).name c.server).notices := by
      rw [hleft, hl]
    have hbase : heardAtLogin c (serverRemovePlayer c.server i) refused = c.heard := by
      rw [hleft]
      apply heardAtLogin_same
      intro k hk hok
      have hki := (without_live hk).1
      rwa [show Server.get { without c.server i with notices := l } k = c.server.get k
        from without_get hki] at hok
    refine ⟨hs', ?_, ?_⟩
    · intro k hk hok
      rw [hleft] at hk hok ⊢
      obtain ⟨hki, hk'⟩ := without_live hk
      rw [show Server.get { without c.server i with notices := l } k = c.server.get k
        from without_get hki] at hok ⊢
      exact hc.named k hk' hok
    · show Consistent (serverRemovePlayer c.server i) (hear _ _)
      rw [hbase, hnotes, hleft]
      exact consistent_leaves hc.sessions hc.named hc.right hgo.1 (hear_told htold rfl hrefused)
  · have hstay : serverRemovePlayer c.server i = c.server := by
      unfold serverRemovePlayer
      rw [if_neg hgo]
    rw [hstay] at hs' ⊢
    exact (SameSeen.refl c.server).seen hs' hc rfl

theorem seen_login {game : Game} {i : Nat} {data : List Nat} {db : Loaded} (hc : Seen c)
    (hi : c.server.live i) (ha : PacketAccepted env c.server i data db)
    (hsafe : LoginSafe env c.server i data db) (hrefused : ∀ m, refused m = false)
    (hs : processPacket env game c.server i data db = .ok s') (hs' : Sessions s') :
    Seen ⟨s', hear (heardAtLogin c s' refused)
      (updates refused (s'.notices.drop c.server.notices.length))⟩ := by
  obtain ⟨f, hres, hok, hout, hname⟩ := processPacket_enters game hi ha
  rw [hres] at hs
  obtain rfl := Except.ok.inj hs
  have hself : (c.server.modify i f).get i = f (c.server.get i) := Server.get_modify_self hi
  have hfriends : (f (c.server.get i)).friendList = db.friendList := congrArg Prod.fst hout
  obtain ⟨hnone, hnames⟩ := hsafe _ hname.symm
  have hold : (c.server.get i).loginOk = false := by
    by_contra hyes
    obtain ⟨x, hsw, -, hstage, -⟩ := ha
    obtain ⟨hname', hok', hstage'⟩ := atSwitch_keeps (Option.mem_def.1 hsw)
    rw [Server.get_modify_self hi, hstage'] at hstage
    exact hstage (hc.sessions.stage i hi (by simpa using hyes))
  have htold := serverRegister_told true (f (c.server.get i)).name (c.server.modify i f)
  have hsame := htold.sameBut
  have hts : Sessions (c.server.modify i f) := by
    obtain ⟨l, hl⟩ := hsame
    rw [hl] at hs'
    exact ⟨hs'.bound, hs'.range, hs'.names, hs'.stage⟩
  have htn : Named (c.server.modify i f) := by
    intro k hk hokk
    by_cases hki : k = i
    · rw [hki, hself]
      exact hnone
    · rw [Server.get_modify_ne hki] at hokk ⊢
      exact hc.named k (Server.live_modify.1 hk) hokk
  have hbase : heardAtLogin c (serverRegister true (f (c.server.get i)).name
      (c.server.modify i f)) refused = fun x =>
        if x.1 = i then initFriend (c.server.modify i f) i x.2 else c.heard x := by
    obtain ⟨l, hl⟩ := hsame
    rw [hl]
    have hget : ∀ k, Server.get { c.server.modify i f with notices := l } k =
        (c.server.modify i f).get k := fun _ => rfl
    have hinit : ∀ b, initFriend { c.server.modify i f with notices := l } i b =
        initFriend (c.server.modify i f) i b := fun _ => rfl
    funext x
    unfold heardAtLogin
    by_cases hx : x.1 = i
    · rw [if_pos hx, hx, hget, hself, hok, hold, hrefused, hinit]
      rfl
    · rw [if_neg hx, hget, Server.get_modify_ne hx, Bool.and_not_self]
      exact if_neg Bool.false_ne_true
  refine ⟨hs', ?_, ?_⟩
  · obtain ⟨l, hl⟩ := hsame
    rw [hl]
    exact htn
  · show Consistent _ (hear _ _)
    rw [hbase]
    refine consistent_login hts htn hc.right hi hold hok rfl ?_ hsame ?_
    · intro b hb j hj hji
      rw [hfriends] at hb
      refine hnames b hb j ?_ hji
      rw [← hj]
      apply findName_congr
      · rfl
      · exact fun k => by rw [Server.live_modify, Server.live_modify]
      · intro k
        by_cases hki : k = i
        · rw [hki, Server.get_modify_self hi, hself]
        · rw [Server.get_modify_ne hki, Server.get_modify_ne hki]
    · refine hear_told (htold.congr fun k m => ?_) rfl hrefused
      rw [Server.live_modify]
      rfl

theorem presenceStep_net (hstep : presenceStep env rest c e = .ok c') :
    netStep env (contactGame rest) c.server e.move.event = .ok c'.server := by
  unfold presenceStep at hstep
  split at hstep
  · cases hstep
  · next s' hs =>
    obtain rfl := Except.ok.inj hstep
    exact hs

theorem seen_step (hc : Seen c) (hsafe : PresenceSafe env c e)
    (hstep : presenceStep env rest c e = .ok c') : Seen c' := by
  obtain ⟨hrefused, hmove⟩ := hsafe
  unfold presenceStep at hstep
  split at hstep
  · cases hstep
  · next s' hs =>
    obtain rfl := Except.ok.inj hstep
    have hs' := sessions_step hc.sessions hs
    obtain ⟨move, refused⟩ := e
    cases move with
    | connect =>
        obtain rfl := Except.ok.inj hs
        exact (SameSeen.of_connect c.server).seen hs' hc (playerCreate_notices c.server)
    | remove i =>
        obtain rfl := Except.ok.inj hs
        exact seen_leaves hc hs' hrefused
    | world aside => exact (SameSeen.of_aside hs).seen hs' hc (aside.silent _ _ hs)
    | packet i data db =>
        simp only [PresenceMove.event, netStep] at hs
        split at hs
        · next hi =>
          obtain ⟨hlogin, hcontact⟩ := hmove hi
          by_cases ha : PacketAccepted env c.server i data db
          · exact seen_login hc hi ha (hlogin ha) hrefused hs hs'
          · rcases processPacket_unseen (contactGame rest) hc.sessions hi ha with
              ⟨t, hres, hseen, hsilent⟩ | ⟨opcode, p, hsw, hres⟩
            · rw [hres] at hs
              obtain rfl := Except.ok.inj hs
              exact hseen.seen hs' hc hsilent
            · have hsess : SameSessions c.server (c.server.modify i fun _ => p) := .of_switch hsw
              have hseen : SameSeen c.server (c.server.modify i fun _ => p) := .of_switch hsw
              rw [hres] at hs
              unfold contactGame at hs
              split at hs
              · next op hop =>
                obtain rfl := Except.ok.inj hs
                have hdeed := contactPacket_deed op (c.server.modify i fun _ => p) i data
                have hchange : (contactChange op data i).run (c.server.modify i fun _ => p) =
                    .ok (contactPacket op (c.server.modify i fun _ => p) i data) := rfl
                have hsess' := hsess.trans (.of_change hchange)
                refine ⟨hs', hsess'.named hc.named, ?_⟩
                show Consistent _ (hear _ _)
                rw [heardAtLogin_same fun k _ hok => by rwa [hsess'.loginOk] at hok]
                exact consistent_contact (s := c.server.modify i fun _ => p)
                  (hsess.sessions hc.sessions) (hseen.named hc.named) (hseen.consistent hc.right)
                  (Server.live_modify.2 hi) hdeed (hcontact opcode p op hsw hop) hrefused
              · have haside : SameSeen (c.server.modify i fun _ => p) s' := .of_aside hs
                have hquiet := (rest opcode data i).silent (c.server.modify i fun _ => p) s' hs
                exact (hseen.trans haside).seen hs' hc hquiet
        · next hi =>
          obtain rfl := Except.ok.inj hs
          exact (SameSeen.refl c.server).seen hs' hc rfl

end

/-- Nobody is connected. -/
def PresenceStart (c : Presence) : Prop := NoPlayers c.server

/-- In every run whose steps are all safe, what a logged-in player last heard
of each of its friends is so. -/
theorem friends_seen {env : Env} {rest : Nat → List Nat → Nat → Aside}
    {tr : List (Presence × PresenceEvent)} {c : Presence}
    (hrun : Run PresenceStart (presenceStep env rest) tr c)
    (hsafe : ∀ x ∈ tr, PresenceSafe env x.1 x.2) :
    ∀ d ∈ statesOf tr c, Consistent d.server d.heard := by
  intro d hd
  obtain ⟨tr', hpre, hrun'⟩ := hrun.reaches hd
  have hseen : Seen d := by
    refine hrun'.invariant (fun c hc => ?_) (fun c e c' hc hx hs => seen_step hc hx hs)
      fun x hx => hsafe x (hpre.subset hx)
    exact ⟨hc.sessions, fun k hk => absurd hk (hc k), fun k hk => absurd hk (hc k)⟩
  exact hseen.right

/-- A game of which nothing but the contacts is played. -/
def contactsOnly : Nat → List Nat → Nat → Aside := fun i data now =>
  { idleGame i data now with
    keeps := fun s s' k h => by cases h; rfl
    silent := fun s s' h => by cases h; rfl }

/-- A step none of whose messages is refused. -/
def PresenceMove.heard (m : PresenceMove) : PresenceEvent := ⟨m, fun _ => false⟩

/-- Players 1 and 2 log in, and 1 adds 2 as a friend. -/
def oneAddsTwo : List PresenceEvent :=
  [.connect, .connect, .packet 0 (loginPacket [0, 0, 0, 0, 0, 0, 0, 1]) {},
    .packet 1 (loginPacket [0, 0, 0, 0, 0, 0, 0, 2]) {},
    .packet 0 [26, 0, 0, 0, 0, 0, 0, 0, 2] {}].map PresenceMove.heard

def unconnected : Presence := ⟨{}, fun _ => false⟩

theorem unconnected_start : PresenceStart unconnected := noPlayers_boot

/-- Both players are in, and the one has heard of the other. -/
theorem friends_seen_two : ∃ tr c,
    exec (presenceStep plainKey contactsOnly) unconnected oneAddsTwo = .ok (tr, c) ∧
      c.heard (0, 2) = true ∧ ∀ d ∈ statesOf tr c, Consistent d.server d.heard := by
  have hrun : Run PresenceStart (presenceStep plainKey contactsOnly) _ _ :=
    Run.of_exec oneAddsTwo unconnected_start rfl
  refine ⟨_, _, rfl, by decide, friends_seen hrun ?_⟩
  intro x hx
  simp only [List.mem_cons, List.not_mem_nil, or_false] at hx
  rcases hx with rfl | rfl | rfl | rfl | rfl
  · exact ⟨fun _ => rfl, trivial⟩
  · exact ⟨fun _ => rfl, trivial⟩
  · refine ⟨fun _ => rfl, fun _ => ⟨fun _ n hn => ?_, fun opcode p op hsw hop => ?_⟩⟩
    · obtain rfl := Option.some.inj hn
      exact ⟨by decide, fun b hb => absurd hb List.not_mem_nil⟩
    · obtain ⟨rfl, rfl⟩ := Prod.mk.inj (Option.some.inj hsw)
      cases hop
  · refine ⟨fun _ => rfl, fun _ => ⟨fun _ n hn => ?_, fun opcode p op hsw hop => ?_⟩⟩
    · obtain rfl := Option.some.inj hn
      exact ⟨by decide, fun b hb => absurd hb List.not_mem_nil⟩
    · obtain ⟨rfl, rfl⟩ := Prod.mk.inj (Option.some.inj hsw)
      cases hop
  · refine ⟨fun _ => rfl, fun _ => ⟨fun ha => ?_, fun opcode p op hsw hop => ?_⟩⟩
    · exact absurd ha (by decide)
    · obtain ⟨rfl, rfl⟩ := Prod.mk.inj (Option.some.inj hsw)
      obtain rfl := Option.some.inj hop
      intro n j hn hnew hroom hj
      obtain rfl := Option.some.inj hn
      obtain rfl := Option.some.inj hj
      exact ⟨by decide, by decide, by decide⟩

/-- Then 2 asks to be hidden, and leaves private messages on: 1 is not told. -/
theorem hidden_unheard : ¬ ∀ (env : Env) (rest : Nat → List Nat → Nat → Aside)
    (tr : List (Presence × PresenceEvent)) (c : Presence),
    Run PresenceStart (presenceStep env rest) tr c →
      ∀ d ∈ statesOf tr c, Consistent d.server d.heard := by
  intro h
  have hrun : Run PresenceStart (presenceStep plainKey contactsOnly) _ _ :=
    Run.of_exec (oneAddsTwo ++ [PresenceMove.heard (.packet 1 [31, 1, 0, 0, 0, 0] {})])
      unconnected_start rfl
  have hright := h _ _ _ _ hrun _ (mem_statesOf.2 (.inr rfl)) 0 (by decide) (by decide) 2
    (by decide)
  obtain ⟨j, hj, hok, hname, hopen⟩ := hright.1 (by decide)
  have hs := hrun.always (fun c hc => hc.sessions) fun c e c' hc hstep =>
    sessions_step hc (presenceStep_net hstep)
  have hj1 : j = 1 := by
    by_contra hne
    have hnone := hs.names j 1 hne hj (by decide) hname
    rw [hname] at hnone
    cases hnone
  subst hj1
  exact absurd hopen (by decide)

end Sundae.Proofs
