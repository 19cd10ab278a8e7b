import Sundae.Ref.Account
import Sundae.Ref.Buffer
import Sundae.Ref.Entity

/-!
# Sessions

`process_packet` as far as the switch, its cases for registration and login
with `process_login` and `process_login_isaac`, and the coming and going of
connections: `player_create` and the removal in `server_tick`. What the
database answers to a login comes with the packet; the cases of the switch
that play the game are a parameter.
-/

namespace Sundae.Ref

/-- What is not in the repository: the RSA of the key in use, and the
keystream ISAAC gives for a key. -/
structure Env where
  rsaDecrypt : List Nat → Option (List Nat)
  isaacNext : List Nat → Nat → Nat

/-- What `player_load` returned at time `now`, and what it left in the player. -/
structure Loaded where
  res : Int := 0
  now : Int := 0
  banEndDate : Int := 0
  mob : Mob := ⟨0, 0⟩
  blockPrivate : Bool := false
  blockTrade : Bool := false
  friendList : List Int := []
  ignoreList : List Int := []
  inventory : List InvItem := []
  bank : List BankItem := []

namespace Server

/-- `server_find_player_name37`. -/
def findName (s : Server) (name : Int) : Option Nat :=
  (List.range s.maxPlayerId).find? fun i => decide (s.live i) && (s.get i).name == name

end Server

def serverHasPlayer (s : Server) (name : Int) : Bool := (s.findName name).isSome

def playerHasFriend (p : Player) (name : Int) : Bool := p.friendList.contains name

def playerHasIgnore (p : Player) (name : Int) : Bool := p.ignoreList.contains name

def playerIsBlocked (p : Player) (speaker : Int) (flag : Bool) : Bool :=
  if playerHasIgnore p speaker then true
  else if playerHasFriend p speaker then false
  else flag

/-- `player_notify_friend_online` and `player_notify_friend_offline`. -/
def playerNotifyFriend (online : Bool) (s : Server) (i : Nat) (name : Int) : Server :=
  if !playerHasFriend (s.get i) name then s
  else
    let blocked := (s.findName name).any fun j =>
      playerIsBlocked (s.get j) (s.get i).name (s.get j).blockPrivate
    if blocked then s else { s with notices := s.notices ++ [⟨i, name, online⟩] }

/-- `server_register_login` and `server_register_logout`: one notice for every
entry of a friend list that names the player. -/
def serverRegister (online : Bool) (name : Int) (s : Server) : Server :=
  (List.range s.maxPlayerId).foldl (fun s i =>
    if s.live i then
      ((s.get i).friendList.filter (· == name)).foldl
        (fun s _ => playerNotifyFriend online s i name) s
    else s) s

/-! ## The login packets -/

/-- `isspace` in the C locale. -/
def isspace (b : Nat) : Bool := b == 32 || (9 ≤ b && b ≤ 13)

/-- A byte with the length of what follows, at most 128, and that much. -/
def readBlock (data : List Nat) (offset : Nat) : Option (List Nat × Nat) :=
  match bufGetu8 data offset with
  | none => none
  | some n =>
    if 128 < n then none
    else if data.length < offset + 1 + n then none
    else some ((data.drop (offset + 1)).take n, offset + 1 + n)

/-- The loop over the blocks of the old login: what each adds to the password.
Past what was decrypted the source copies what its stack holds. -/
def loginBlocks (env : Env) (data : List Nat) : Nat → Nat → Option (List Nat)
  | 0, _ => some []
  | n + 1, offset =>
    match readBlock data offset with
    | none => none
    | some (encrypted, offset) =>
      match env.rsaDecrypt encrypted with
      | none => none
      | some decrypted =>
        (loginBlocks env data n offset).map ((decrypted.drop 8).take 7 ++ ·)

/-- A C string in a buffer. -/
def cString (b : List Nat) : List Nat := b.takeWhile fun c => c != 0 && !isspace c

def processLogin (env : Env) (s : Server) (i : Nat) (data : List Nat) (offset : Nat) :
    Server × Bool :=
  if (s.get i).name ≠ -1 then (s, false)
  else
    match bufGetu16 data offset, bufGets64 data (offset + 2) with
    | some _ver, some name =>
      if serverHasPlayer s name then (s, false)
      else
        match loginBlocks env data 3 (offset + 10) with
        | none => (s, false)
        | some password =>
          (s.modify i fun p => { p with password := cString password, name := name }, true)
    | _, _ => (s, false)

/-- The loops that read `username` and `password`: `n` bytes, or up to a blank. -/
def readName : Nat → List Nat → Option (List Nat)
  | 0, _ => some []
  | _ + 1, [] => none
  | n + 1, b :: bs => if isspace b then some [] else (readName n bs).map (b :: ·)

/-- The key of four words. -/
def readSeed (b : List Nat) (offset : Nat) : Option (List Nat) :=
  match bufGetu32 b offset, bufGetu32 b (offset + 4), bufGetu32 b (offset + 8),
    bufGetu32 b (offset + 12) with
  | some k, some l, some m, some n => some [k, l, m, n]
  | _, _, _, _ => none

/-- From the name in the decrypted block on. The name is the player's before
the password has been read. -/
def loginName (s : Server) (i : Nat) (decrypted : List Nat) : Server × Bool :=
  match readName 20 (decrypted.drop 21) with
  | none => (s, false)
  | some username =>
    let name := mod37Nameenc ((cString username).map Char.ofNat)
    if serverHasPlayer s name then (s, false)
    else
      let s := s.modify i fun p => { p with name := name }
      match readName 20 (decrypted.drop 42) with
      | none => (s, false)
      | some password => (s.modify i fun p => { p with password := cString password }, true)

/-- The decrypted block: a magic number, the key, a `uid`, name and password. -/
def loginDecrypted (s : Server) (i : Nat) (decrypted : List Nat) : Server × Bool :=
  if bufGetu8 decrypted 0 ≠ some 10 then (s, false)
  else
    match readSeed decrypted 1 with
    | none => (s, false)
    | some seed =>
      let s := s.modify i fun p => { p with isaacSeed := seed, isaacCount := 0, isaacReady := true }
      match bufGetu32 decrypted 17 with
      | none => (s, false)
      | some _uid => loginName s i decrypted

def processLoginIsaac (env : Env) (s : Server) (i : Nat) (data : List Nat) (offset : Nat) :
    Server × Bool :=
  match bufGetu8 data offset, bufGetu16 data (offset + 1), bufGetu8 data (offset + 3) with
  | some _reconnecting, some revision, some _limit30 =>
    -- the revision is 16 bits wide, the field 8
    let s := s.modify i fun p => { p with protocolRev := revision % 256 }
    match readBlock data (offset + 4) with
    | none => (s, false)
    | some (encrypted, _) =>
      match env.rsaDecrypt encrypted with
      | none => (s, false)
      | some decrypted => loginDecrypted s i decrypted
  | _, _, _ => (s, false)

/-- `switch (p->protocol_rev)`: at any other revision nothing is read. -/
def processCredentials (env : Env) (s : Server) (i : Nat) (data : List Nat) (offset : Nat) :
    Server × Bool :=
  if (s.get i).protocolRev = 110 then processLogin env s i data offset
  else if (s.get i).protocolRev = 203 then processLoginIsaac env s i data offset
  else (s, true)

/-! ## The switch -/

def confirmLogout (s : Server) (i : Nat) : Server :=
  s.modify i fun p => { p with logoutConfirmed := true }

def opCliRegister (env : Env) (s : Server) (i : Nat) (data : List Nat) : Server :=
  if (s.get i).loginStage = .gotLogin then s
  else
    match processCredentials env s i data 1 with
    | (s, false) => confirmLogout s i
    | (s, true) => s.modify i fun p =>
        { p with loginStage := .gotLogin, logoutConfirmed := true, password := [] }

/-- What a load leaves in the player, whether it succeeds or not. -/
def applyLoaded (db : Loaded) (p : Player) : Player :=
  { p with
    loginStage := .gotLogin, password := [], mob := db.mob
    blockPrivate := db.blockPrivate, blockTrade := db.blockTrade
    friendList := db.friendList, ignoreList := db.ignoreList
    inventory := db.inventory, bank := db.bank }

def opCliLogin (env : Env) (s : Server) (i : Nat) (data : List Nat) (db : Loaded) : Server :=
  if (s.get i).loginStage = .gotLogin then s
  else
    match processCredentials env s i data 1 with
    | (s, false) => confirmLogout s i
    | (s, true) =>
      let s := s.modify i (applyLoaded db)
      if loginReply db.res db.now db.banEndDate = .ok then
        serverRegister true (s.get i).name (s.modify i fun p => { p with loginOk := true })
      else confirmLogout s i

/-- `opcodes_in_203`; what `init_opcodes_203` does not set is zero, and zero is
`OP_CLI_LOGIN`. -/
def opcodesIn203 (opcode : Nat) : Nat :=
  ([(0, 0), (2, 2), (216, 3), (67, 5), (102, 6), (38, 7), (1, 19), (195, 26), (167, 27),
    (218, 28), (132, 29), (241, 30), (64, 31), (104, 202), (23, 205), (22, 206), (212, 207),
    (254, 211), (60, 212), (111, 213), (165, 214), (16, 215), (221, 216), (236, 217), (166, 218),
    (113, 219), (4, 220), (99, 222), (180, 223), (249, 224), (50, 225), (229, 226), (137, 227),
    (171, 228), (127, 229), (79, 230), (29, 231), (55, 232), (230, 233), (46, 234), (142, 235),
    (235, 236), (116, 237), (14, 238), (161, 239), (91, 240), (115, 241), (136, 242), (135, 243),
    (190, 244), (153, 245), (90, 246), (170, 248), (169, 249), (53, 250), (246, 251), (247, 252),
    (187, 255)].find? fun e : Nat × Nat => e.1 == opcode).elim 0 Prod.snd

/-- What identifies a session: the fields that only `process_packet` and the
login functions write. -/
structure Session where
  name : Int
  loginStage : LoginStage
  protocolRev : Nat
  isaacSeed : List Nat
  isaacReady : Bool
  loginOk : Bool
  deriving DecidableEq, Repr

def Player.session (p : Player) : Session :=
  ⟨p.name, p.loginStage, p.protocolRev, p.isaacSeed, p.isaacReady, p.loginOk⟩

/-- A change of the server that leaves every session what it is: what the rest
of the source can do to it. -/
structure Change where
  run : Server → Except Assert Server
  session : ∀ s s' i, run s = .ok s' →
    (s'.players i).map Player.session = (s.players i).map Player.session
  maxPlayerId : ∀ s s', run s = .ok s' → s'.maxPlayerId = s.maxPlayerId

/-- The other cases of the switch, by opcode, packet and slot. -/
abbrev Game := Nat → List Nat → Nat → Change

/-- The opcode the switch sees, and the keystream that was used up for it. -/
def decodeOpcode (env : Env) (s : Server) (i opcode : Nat) : Nat × Server :=
  let p := s.get i
  if p.protocolRev = 203 then
    if p.isaacReady then
      (opcodesIn203 ((opcode + (256 - env.isaacNext p.isaacSeed p.isaacCount % 256)) % 256),
        s.modify i fun p => { p with isaacCount := p.isaacCount + 1 })
    else (opcodesIn203 opcode, s)
  else (opcode, s)

/-- `switch (opcode)` -/
def packetSwitch (env : Env) (game : Game) (s : Server) (i : Nat) (data : List Nat) (db : Loaded)
    (opcode : Nat) : Except Assert Server :=
  if opcode = 2 then .ok (opCliRegister env s i data)
  else if opcode = 0 ∨ opcode = 19 then .ok (opCliLogin env s i data db)
  else (game opcode data i).run s

def processPacket (env : Env) (game : Game) (s : Server) (i : Nat) (data : List Nat)
    (db : Loaded) : Except Assert Server :=
  match bufGetu8 data 0 with
  | none => .ok s
  | some opcode =>
    if (s.get i).loginStage = .zero then
      if opcode = 2 ∨ opcode = 0 ∨ opcode = 19 then
        packetSwitch env game (s.modify i fun p => { p with protocolRev := 110 }) i data db opcode
      else if opcode = 32 then
        .ok (s.modify i fun p => { p with protocolRev := 203, loginStage := .session })
      else .ok s
    else
      packetSwitch env game (decodeOpcode env s i opcode).2 i data db (decodeOpcode env s i opcode).1

/-! ## Connections -/

/-- The first of `n` slots from `slot` on that is free. -/
def freeSlot (s : Server) : Nat → Nat → Option Nat
  | 0, _ => none
  | n + 1, slot => if s.live slot then freeSlot s n (slot + 1) else some slot

/-- `player_create` -/
def playerCreate (s : Server) : Server :=
  match freeSlot s maxPlayers 0 with
  | none => s
  | some slot =>
    { s with
      players := fun j => if j = slot then some {} else s.players j
      maxPlayerId := max s.maxPlayerId (slot + 1) }

/-- The removal of a player whose `logout_confirmed` is set. -/
def serverRemovePlayer (s : Server) (i : Nat) : Server :=
  if s.live i ∧ (s.get i).logoutConfirmed then
    let s := serverRegister false (s.get i).name s
    { s with players := fun j => if j = i then none else s.players j }
  else s

/-- What happens to sessions. -/
inductive NetEvent where
  | connect
  | packet (i : Nat) (data : List Nat) (db : Loaded)
  | remove (i : Nat)
  | world (change : Change)

def netStep (env : Env) (game : Game) (s : Server) : NetEvent → Except Assert Server
  | .connect => .ok (playerCreate s)
  | .packet i data db => if s.live i then processPacket env game s i data db else .ok s
  | .remove i => .ok (serverRemovePlayer s i)
  | .world change => change.run s

end Sundae.Ref
