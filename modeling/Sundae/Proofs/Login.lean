import Sundae.Ref.Incoming

/-!
# What a packet can do to a session

One lemma per function of the login path, each saying everything the function
can do: which credentials it may leave in the player, that it touches no other
slot, and what makes it succeed. The packets of a connection as a whole are
then one case list, `processPacket_eq`, from which it follows that a name has one
session and that nothing of the game is reached before the login.
-/

namespace Sundae.Proofs

open Sundae.Ref

/-! ## Names that are taken -/

theorem findName_isSome {s : Server} {name : Int} :
    serverHasPlayer s name = true ↔
      ∃ i, i < s.maxPlayerId ∧ s.live i ∧ (s.get i).name = name := by
  simp [serverHasPlayer, Server.findName]

/-- A write that leaves the name alone leaves the test alone. -/
theorem serverHasPlayer_modify {s : Server} {i : Nat} {f : Player → Player} {name : Int}
    (hf : (f (s.get i)).name = (s.get i).name) :
    serverHasPlayer (s.modify i f) name = serverHasPlayer s name := by
  have hname : ∀ j, ((s.modify i f).get j).name = (s.get j).name := by
    intro j
    rw [Server.get_modify]
    split
    · next h => rw [hf, h.1]
    · rfl
  simp [serverHasPlayer, Server.findName, hname]

/-! ## Free slots -/

theorem freeSlot_dead {s : Server} {n slot j : Nat} (h : freeSlot s n slot = some j) :
    ¬ s.live j := by
  induction n generalizing slot with
  | zero => cases h
  | succ n ih =>
      rw [freeSlot] at h
      split at h
      · exact ih h
      · next hdead =>
        obtain rfl := Option.some.inj h
        exact hdead

/-! ## Friend notices -/

theorem playerNotifyFriend_notices (online : Bool) (s : Server) (i : Nat) (name : Int) :
    ∃ l, playerNotifyFriend online s i name = { s with notices := s.notices ++ l } := by
  have hsame : s = { s with notices := s.notices ++ [] } := by simp
  unfold playerNotifyFriend
  split
  · exact ⟨[], hsame⟩
  · simp only
    split
    · exact ⟨[], hsame⟩
    · exact ⟨_, rfl⟩

/-- A fold of steps that only send notices only sends notices. -/
theorem foldl_notices {α : Type} {g : Server → α → Server}
    (hg : ∀ s a, ∃ l, g s a = { s with notices := s.notices ++ l }) (as : List α) (s : Server) :
    ∃ l, as.foldl g s = { s with notices := s.notices ++ l } := by
  induction as generalizing s with
  | nil => exact ⟨[], by simp⟩
  | cons a as ih =>
      obtain ⟨l, hl⟩ := hg s a
      obtain ⟨l', hl'⟩ := ih (g s a)
      refine ⟨l ++ l', ?_⟩
      rw [List.foldl_cons, hl', hl]
      simp

theorem serverRegister_notices (online : Bool) (name : Int) (s : Server) :
    ∃ l, serverRegister online name s = { s with notices := s.notices ++ l } := by
  apply foldl_notices
  intro s i
  split
  · apply foldl_notices
    intro s _
    exact playerNotifyFriend_notices online s i name
  · exact ⟨[], by simp⟩

/-! ## Credentials -/

/-- What `process_login` and `process_login_isaac` may write. -/
structure Credentials where
  name : Int
  password : List Nat
  protocolRev : Nat
  isaacSeed : List Nat
  isaacCount : Nat
  isaacReady : Bool

def credentials (p : Player) : Credentials :=
  ⟨p.name, p.password, p.protocolRev, p.isaacSeed, p.isaacCount, p.isaacReady⟩

def withCredentials (c : Credentials) (p : Player) : Player :=
  { p with
    name := c.name, password := c.password, protocolRev := c.protocolRev
    isaacSeed := c.isaacSeed, isaacCount := c.isaacCount, isaacReady := c.isaacReady }

section

variable (c d : Credentials) (p : Player)

@[simp] theorem withCredentials_name : (withCredentials c p).name = c.name := rfl
@[simp] theorem withCredentials_loginOk : (withCredentials c p).loginOk = p.loginOk := rfl
@[simp] theorem withCredentials_loginStage :
    (withCredentials c p).loginStage = p.loginStage := rfl
@[simp] theorem credentials_name : (credentials p).name = p.name := rfl

end

/-- A name that fits 64 bits with a sign. -/
def InRange (name : Int) : Prop := name < 2 ^ 63

/-- The name after the credentials were read: the one before, or one that
nobody had. -/
def NameFree (s : Server) (old new : Int) : Prop :=
  new = old ∨ (serverHasPlayer s new = false ∧ InRange new)

theorem NameFree.of_modify {s : Server} {i : Nat} {f : Player → Player} {old new : Int}
    (hf : (f (s.get i)).name = (s.get i).name) (h : NameFree (s.modify i f) old new) :
    NameFree s old new := by
  rcases h with heq | ⟨hno, hrange⟩
  · exact .inl heq
  · rw [serverHasPlayer_modify hf] at hno
    exact .inr ⟨hno, hrange⟩

theorem inRange_wrap64 (n : Int) : InRange (wrap64 n) := by
  have h := Int.bmod_lt (x := n) (m := 2 ^ 64) (by omega)
  unfold InRange wrap64
  omega

theorem inRange_gets64 {b : List Nat} {offset : Nat} {n : Int}
    (h : bufGets64 b offset = some n) : InRange n := by
  unfold bufGets64 at h
  split at h
  · next x y _ _ =>
    obtain rfl := Option.some.inj h
    exact inRange_wrap64 ((x * 4294967296 + y : Nat) : Int)
  · cases h

theorem inRange_zero : InRange 0 := by
  unfold InRange
  decide

theorem inRange_nameenc (name : List Char) : InRange (mod37Nameenc name) := by
  have hfold : ∀ (cs : List Char) (n : Int), InRange n →
      InRange (cs.foldl (fun encoded c => wrap64 (encoded * 37 + nameencDigit c)) n) := by
    intro cs
    induction cs with
    | nil => exact fun n hn => hn
    | cons c cs ih => exact fun n _ => ih _ (inRange_wrap64 _)
  unfold mod37Nameenc
  split
  · exact inRange_zero
  · exact hfold _ 0 inRange_zero

/-- The name in a login packet, for the protocol the player is at. -/
def packetName (env : Env) (p : Player) (data : List Nat) : Option Int :=
  if p.protocolRev = 110 then bufGets64 data 3
  else if p.protocolRev = 203 then
    (readBlock data 5).bind fun e =>
      (env.rsaDecrypt e.1).bind fun decrypted =>
        (readName 20 (decrypted.drop 21)).map fun username =>
          mod37Nameenc ((cString username).map Char.ofNat)
  else some p.name

/-- Everything reading credentials can do to the server: write some in the
player, with a name that was free, the one of the packet on success. -/
structure ReadsTo (s : Server) (i : Nat) (name : Option Int) (r : Server × Bool) : Prop where
  writes : ∃ c, r.1 = s.modify i (withCredentials c) ∧ NameFree s (s.get i).name c.name ∧
    (r.2 = true → some c.name = name)

/-- Credentials that are what they were. -/
theorem ReadsTo.same (s : Server) (i : Nat) (name : Option Int) : ReadsTo s i name (s, false) := by
  exact ⟨credentials (s.get i), (Server.modify_eq_self rfl).symm, .inl rfl, by simp⟩

/-- Credentials other than the name were read before. -/
theorem ReadsTo.after {s : Server} {i : Nat} {name : Option Int} {r : Server × Bool}
    {f : Player → Player} (d : Credentials) (hi : s.live i) (hname : d.name = (s.get i).name)
    (hf : f (s.get i) = withCredentials d (s.get i))
    (h : ReadsTo (s.modify i f) i name r) : ReadsTo s i name r := by
  obtain ⟨c, hr, hfree, hok⟩ := h.writes
  refine ⟨c, ?_, ?_, hok⟩
  · rw [hr, Server.modify_modify]
    apply Server.modify_congr
    rw [hf]
    rfl
  · have hsame : (f (s.get i)).name = (s.get i).name := by rw [hf, withCredentials_name, hname]
    rw [Server.get_modify_self hi, hsame] at hfree
    exact hfree.of_modify hsame

section

variable {env : Env} {s : Server} {i : Nat}

theorem processLogin_reads (data : List Nat) (offset : Nat) :
    ReadsTo s i (bufGets64 data (offset + 2)) (processLogin env s i data offset) := by
  unfold processLogin
  split
  · exact .same ..
  · split
    · next name hver hname =>
      split
      · exact .same ..
      · next hfree =>
        split
        · exact .same ..
        · next password hpw =>
          refine ⟨⟨{ credentials (s.get i) with password := cString password, name := name },
            ?_, ?_, fun _ => hname.symm⟩⟩
          · exact Server.modify_congr rfl
          · exact .inr ⟨by simpa using hfree, inRange_gets64 hname⟩
    · exact .same ..

theorem loginName_reads (decrypted : List Nat) :
    ReadsTo s i ((readName 20 (decrypted.drop 21)).map fun username =>
      mod37Nameenc ((cString username).map Char.ofNat)) (loginName s i decrypted) := by
  unfold loginName
  split
  · exact .same ..
  · next username hname =>
    rw [hname]
    simp only [Option.map_some]
    split
    · exact .same ..
    · next hfree =>
      have hnew : NameFree s (s.get i).name (mod37Nameenc ((cString username).map Char.ofNat)) :=
        .inr ⟨by simpa using hfree, inRange_nameenc _⟩
      split
      · refine ⟨⟨{ credentials (s.get i) with
          name := mod37Nameenc ((cString username).map Char.ofNat) }, ?_, hnew, by simp⟩⟩
        exact Server.modify_congr rfl
      · next password hpw =>
        refine ⟨⟨{ credentials (s.get i) with
          name := mod37Nameenc ((cString username).map Char.ofNat)
          password := cString password }, ?_, hnew, fun _ => rfl⟩⟩
        simp only
        rw [Server.modify_modify]
        exact Server.modify_congr rfl

theorem loginDecrypted_reads (hi : s.live i) (decrypted : List Nat) :
    ReadsTo s i ((readName 20 (decrypted.drop 21)).map fun username =>
      mod37Nameenc ((cString username).map Char.ofNat)) (loginDecrypted s i decrypted) := by
  unfold loginDecrypted
  split
  · exact .same ..
  · split
    · exact .same ..
    · next seed hseed =>
      apply ReadsTo.after { credentials (s.get i) with
          isaacSeed := seed, isaacCount := 0, isaacReady := true } hi rfl
        (f := fun p => { p with isaacSeed := seed, isaacCount := 0, isaacReady := true }) rfl
      dsimp only
      split
      · exact .same ..
      · exact loginName_reads decrypted

theorem processLoginIsaac_reads (hi : s.live i) (data : List Nat) (offset : Nat) :
    ReadsTo s i ((readBlock data (offset + 4)).bind fun e =>
      (env.rsaDecrypt e.1).bind fun decrypted =>
        (readName 20 (decrypted.drop 21)).map fun username =>
          mod37Nameenc ((cString username).map Char.ofNat))
      (processLoginIsaac env s i data offset) := by
  unfold processLoginIsaac
  split
  · next revision _ _ hrev _ =>
    apply ReadsTo.after { credentials (s.get i) with protocolRev := revision % 256 } hi rfl
      (f := fun p => { p with protocolRev := revision % 256 }) rfl
    dsimp only
    split
    · exact .same ..
    · next encrypted _ hblock =>
      rw [hblock, Option.bind_some]
      split
      · exact .same ..
      · next decrypted hrsa =>
        rw [hrsa, Option.bind_some]
        exact loginDecrypted_reads (Server.live_modify.2 hi) decrypted
  · exact .same ..

theorem processCredentials_reads (env : Env) (hi : s.live i) (data : List Nat) :
    ReadsTo s i (packetName env (s.get i) data) (processCredentials env s i data 1) := by
  unfold processCredentials packetName
  split
  · exact processLogin_reads data 1
  · split
    · exact processLoginIsaac_reads hi data 1
    · exact ⟨credentials (s.get i), (Server.modify_eq_self rfl).symm, .inl rfl, fun _ => rfl⟩

end

/-! ## Registration and login -/

/-- A login that is let in: it is the connection's first, its credentials can
be read under a name that is free, and the load succeeds for an account that
is not banned. -/
def LoginAccepted (env : Env) (s : Server) (i : Nat) (data : List Nat) (db : Loaded) : Prop :=
  (s.get i).loginStage ≠ .gotLogin ∧ (processCredentials env s i data 1).2 = true ∧
    loginReply db.res db.now db.banEndDate = .ok

instance (env : Env) (s : Server) (i : Nat) (data : List Nat) (db : Loaded) :
    Decidable (LoginAccepted env s i data db) :=
  inferInstanceAs (Decidable (_ ∧ _ ∧ _))

/-- What a write may do to a session that it does not log in: the name it takes
is free, and after `LOGIN_STAGE_GOT_LOGIN` it takes none. -/
structure Modest (s : Server) (p q : Player) : Prop where
  name : NameFree s p.name q.name
  loginOk : q.loginOk = p.loginOk
  gotLogin : p.loginStage = .gotLogin → q.name = p.name ∧ q.loginStage = .gotLogin

/-- A step that writes to one slot, and there modestly. -/
def WritesTo (s : Server) (i : Nat) (s' : Server) : Prop :=
  ∃ f, s' = s.modify i f ∧ Modest s (s.get i) (f (s.get i))

section

variable {env : Env} {s : Server} {i : Nat}

theorem WritesTo.same : WritesTo s i s :=
  ⟨id, (Server.modify_eq_self rfl).symm, .inl rfl, rfl, fun h => ⟨rfl, h⟩⟩

/-- What follows the reading of the credentials. -/
theorem ReadsTo.then {name : Option Int} {r : Server × Bool} (h : ReadsTo s i name r)
    (hstage : (s.get i).loginStage ≠ .gotLogin) {g : Player → Player}
    (hname : ∀ p, (g p).name = p.name) (hok : ∀ p, (g p).loginOk = p.loginOk) :
    WritesTo s i (r.1.modify i g) := by
  obtain ⟨c, hr, hfree, -⟩ := h.writes
  refine ⟨fun p => g (withCredentials c p), ?_, ?_, ?_, fun h => absurd h hstage⟩
  · rw [hr, Server.modify_modify]
  · rw [hname]
    exact hfree
  · rw [hok]
    rfl

theorem opCliRegister_writes (hi : s.live i) (data : List Nat) :
    WritesTo s i (opCliRegister env s i data) := by
  have hreads := processCredentials_reads env hi data
  unfold opCliRegister
  split
  · exact .same
  · next hstage =>
    split
    · next s' heq =>
      rw [heq] at hreads
      exact hreads.then hstage (fun _ => rfl) fun _ => rfl
    · next s' heq =>
      rw [heq] at hreads
      exact hreads.then hstage (fun _ => rfl) fun _ => rfl

theorem opCliLogin_refused (hi : s.live i) {data : List Nat} {db : Loaded}
    (h : ¬ LoginAccepted env s i data db) : WritesTo s i (opCliLogin env s i data db) := by
  have hreads := processCredentials_reads env hi data
  unfold opCliLogin
  split
  · exact .same
  · next hstage =>
    split
    · next s' heq =>
      rw [heq] at hreads
      exact hreads.then hstage (fun _ => rfl) fun _ => rfl
    · next s' heq =>
      have hreply : loginReply db.res db.now db.banEndDate ≠ .ok := by
        intro hreply
        exact h ⟨hstage, by rw [heq], hreply⟩
      rw [heq] at hreads
      simp only [hreply, if_false, confirmLogout, Server.modify_modify]
      exact hreads.then hstage (fun _ => rfl) fun _ => rfl

theorem opCliLogin_accepted (hi : s.live i) {data : List Nat} {db : Loaded}
    (h : LoginAccepted env s i data db) :
    ∃ f l, opCliLogin env s i data db = { s.modify i f with notices := s.notices ++ l } ∧
      NameFree s (s.get i).name (f (s.get i)).name ∧ (f (s.get i)).loginOk = true ∧
      (f (s.get i)).loginStage = .gotLogin ∧
      some (f (s.get i)).name = packetName env (s.get i) data := by
  have hreads := processCredentials_reads env hi data
  obtain ⟨hstage, hread, hreply⟩ := h
  obtain ⟨c, hs', hfree, hname⟩ := hreads.writes
  unfold opCliLogin
  rw [if_neg hstage]
  split
  · next s' heq =>
    rw [heq] at hread
    cases hread
  · next s' heq =>
    rw [heq] at hs' hname
    simp only at hs' hname
    simp only [hreply, if_true, Server.modify_modify, hs']
    obtain ⟨l, hl⟩ := serverRegister_notices true
      ((s.modify i fun p => applyLoaded db (withCredentials c p)).get i).name
      (s.modify i fun p => { applyLoaded db (withCredentials c p) with loginOk := true })
    refine ⟨fun p => { applyLoaded db (withCredentials c p) with loginOk := true }, l,
      hl, hfree, rfl, rfl, hname trivial⟩

end

/-! ## The packet as a whole -/

/-- What a packet comes to before the switch: the opcode and the player that
the switch sees. `none` is a return before it. -/
def atSwitch (env : Env) (p : Player) (data : List Nat) : Option (Nat × Player) :=
  match bufGetu8 data 0 with
  | none => none
  | some opcode =>
    if p.loginStage = .zero then
      if opcode = 2 ∨ opcode = 0 ∨ opcode = 19 then some (opcode, { p with protocolRev := 110 })
      else none
    else if p.protocolRev = 203 then
      if p.isaacReady then
        some (opcodesIn203 ((opcode + (256 - env.isaacNext p.isaacSeed p.isaacCount % 256)) % 256),
          { p with isaacCount := p.isaacCount + 1 })
      else some (opcodesIn203 opcode, p)
    else some (opcode, p)

/-- Such a packet is a login that is let in. -/
def PacketAccepted (env : Env) (s : Server) (i : Nat) (data : List Nat) (db : Loaded) : Prop :=
  ∃ x ∈ atSwitch env (s.get i) data,
    (x.1 = 0 ∨ x.1 = 19) ∧ LoginAccepted env (s.modify i fun _ => x.2) i data db

instance (env : Env) (s : Server) (i : Nat) (data : List Nat) (db : Loaded) :
    Decidable (PacketAccepted env s i data db) :=
  inferInstanceAs (Decidable (∃ x ∈ _, _))

/-- The name it carries. -/
def loginPacketName (env : Env) (s : Server) (i : Nat) (data : List Nat) : Option Int :=
  (atSwitch env (s.get i) data).bind fun x => packetName env x.2 data

theorem atSwitch_keeps {env : Env} {p q : Player} {data : List Nat} {opcode : Nat}
    (h : atSwitch env p data = some (opcode, q)) :
    q.name = p.name ∧ q.loginOk = p.loginOk ∧ q.loginStage = p.loginStage := by
  unfold atSwitch at h
  grind

section

variable {env : Env} {game : Game} {s : Server} {i : Nat} {data : List Nat} {db : Loaded}

theorem processPacket_switch {opcode : Nat} {p : Player}
    (h : atSwitch env (s.get i) data = some (opcode, p)) :
    processPacket env game s i data db =
      packetSwitch env game (s.modify i fun _ => p) i data db opcode := by
  unfold atSwitch at h
  unfold processPacket
  cases hop : bufGetu8 data 0 with
  | none =>
    rw [hop] at h
    cases h
  | some opcode' =>
    rw [hop] at h
    simp only at h ⊢
    split at h
    · next hzero =>
      rw [if_pos hzero]
      split at h
      · next hlogin =>
        obtain ⟨rfl, rfl⟩ := Prod.mk.inj (Option.some.inj h)
        rw [if_pos hlogin]
        congr 1
        exact Server.modify_congr rfl
      · cases h
    · next hzero =>
      rw [if_neg hzero]
      unfold decodeOpcode
      dsimp only
      split at h
      · next hrev =>
        rw [if_pos hrev]
        split at h
        · next hready =>
          obtain ⟨rfl, rfl⟩ := Prod.mk.inj (Option.some.inj h)
          rw [if_pos hready]
          congr 1
          exact Server.modify_congr rfl
        · next hready =>
          obtain ⟨rfl, rfl⟩ := Prod.mk.inj (Option.some.inj h)
          rw [if_neg hready]
          congr 1
          exact (Server.modify_eq_self rfl).symm
      · next hrev =>
        obtain ⟨rfl, rfl⟩ := Prod.mk.inj (Option.some.inj h)
        rw [if_neg hrev]
        congr 1
        exact (Server.modify_eq_self rfl).symm

/-- A packet that does not reach the switch is dropped, or is the session
request. -/
theorem processPacket_return (game : Game) (db : Loaded) (h : atSwitch env (s.get i) data = none) :
    ∃ f, processPacket env game s i data db = .ok (s.modify i f) ∧
      (f (s.get i) = s.get i ∨ (s.get i).loginStage = .zero ∧
        f (s.get i) = { s.get i with protocolRev := 203, loginStage := .session }) := by
  have hsame : (Except.ok s : Except Assert Server) = .ok (s.modify i id) := by
    rw [Server.modify_eq_self rfl]
  unfold atSwitch at h
  unfold processPacket
  cases hop : bufGetu8 data 0 with
  | none => exact ⟨id, hsame, .inl rfl⟩
  | some opcode =>
    rw [hop] at h
    simp only at h ⊢
    split at h
    · next hzero =>
      rw [if_pos hzero]
      split at h
      · cases h
      · next hlogin =>
        rw [if_neg hlogin]
        split
        · exact ⟨_, rfl, .inr ⟨hzero, rfl⟩⟩
        · exact ⟨id, hsame, .inl rfl⟩
    · exfalso
      split at h
      · split at h <;> cases h
      · cases h

/-- A packet that is let in writes a session under the name it carries, and
sends notices. -/
theorem processPacket_accepted (game : Game) (hi : s.live i) (h : PacketAccepted env s i data db) :
    ∃ f l, processPacket env game s i data db =
        .ok { s.modify i f with notices := s.notices ++ l } ∧
      NameFree s (s.get i).name (f (s.get i)).name ∧ (f (s.get i)).loginOk = true ∧
      (f (s.get i)).loginStage = .gotLogin ∧
      some (f (s.get i)).name = loginPacketName env s i data := by
  obtain ⟨⟨opcode, p⟩, hsw, hop, hlogin⟩ := h
  have hlive : (s.modify i fun _ => p).live i := Server.live_modify.2 hi
  have hget : (s.modify i fun _ => p).get i = p := Server.get_modify_self hi
  obtain ⟨f, l, hres, hfree, hok, hgot, hname⟩ := opCliLogin_accepted hlive hlogin
  rw [hget] at hfree hok hgot hname
  refine ⟨fun _ => f p, l, ?_, ?_, hok, hgot, ?_⟩
  · rw [processPacket_switch hsw]
    unfold packetSwitch
    rw [if_neg (by omega), if_pos hop, hres, Server.modify_modify]
    rfl
  · rw [(atSwitch_keeps hsw).1] at hfree
    exact hfree.of_modify (atSwitch_keeps hsw).1
  · rw [hname, loginPacketName, hsw]
    rfl

/-- Any other packet writes modestly to its own slot, or is handed to the game. -/
theorem processPacket_other (game : Game) (hi : s.live i) (h : ¬ PacketAccepted env s i data db) :
    (∃ s', processPacket env game s i data db = .ok s' ∧ WritesTo s i s') ∨
      ∃ opcode p, atSwitch env (s.get i) data = some (opcode, p) ∧
        opcode ≠ 2 ∧ opcode ≠ 0 ∧ opcode ≠ 19 ∧
        processPacket env game s i data db = (game opcode data i).run (s.modify i fun _ => p) := by
  cases hsw : atSwitch env (s.get i) data with
  | none =>
      obtain ⟨f, hres, hf⟩ := processPacket_return game db hsw
      refine .inl ⟨_, hres, f, rfl, ?_⟩
      rcases hf with hf | ⟨hzero, hf⟩
      · rw [hf]
        exact ⟨.inl rfl, rfl, fun h => ⟨rfl, h⟩⟩
      · rw [hf]
        exact ⟨.inl rfl, rfl, fun h => by rw [hzero] at h; cases h⟩
  | some x =>
      obtain ⟨opcode, p⟩ := x
      obtain ⟨hname, hok, hstage⟩ := atSwitch_keeps hsw
      have hlive : (s.modify i fun _ => p).live i := Server.live_modify.2 hi
      have hget : (s.modify i fun _ => p).get i = p := Server.get_modify_self hi
      have hback : ∀ s', WritesTo (s.modify i fun _ => p) i s' → WritesTo s i s' := by
        intro s' ⟨f, hs', hmodest⟩
        rw [hget] at hmodest
        refine ⟨fun _ => f p, ?_, ?_, ?_, ?_⟩
        · rw [hs', Server.modify_modify]
        · rw [← hname]
          exact hmodest.name.of_modify hname
        · rw [hmodest.loginOk, hok]
        · rw [← hname, ← hstage]
          exact hmodest.gotLogin
      have hrefused : opcode = 0 ∨ opcode = 19 →
          ¬ LoginAccepted env (s.modify i fun _ => p) i data db := by
        intro hop hlogin
        exact h ⟨_, hsw, hop, hlogin⟩
      rw [processPacket_switch hsw]
      unfold packetSwitch
      split
      · exact .inl ⟨_, rfl, hback _ (opCliRegister_writes hlive data)⟩
      · next hreg =>
        split
        · next hop => exact .inl ⟨_, rfl, hback _ (opCliLogin_refused hlive (hrefused hop))⟩
        · next hop => exact .inr ⟨opcode, p, rfl, hreg, by omega, by omega, rfl⟩

end

end Sundae.Proofs
