import Sundae.Ref.Incoming

/-!
# Friends and ignores

The contact lists of `player.c`, the packets that change them, the privacy
settings, and the messages about who is online that `server.c` sends for them.
-/

namespace Sundae.Ref

def maxFriends : Nat := 200
def maxIgnore : Nat := 100

/-- `server_find_player_name37` and a message to who is found: that the player
in slot `i` is there, or is not. -/
def notifyNamed (online : Bool) (s : Server) (i : Nat) (entry : Int) : Server :=
  match s.findName entry with
  | none => s
  | some j => playerNotifyFriend online s j (s.get i).name

/-! ## The lists -/

def playerAddFriend (s : Server) (i : Nat) (entry : Int) : Server :=
  if maxFriends ≤ (s.get i).friendList.length then s
  else
    let s := s.modify i fun p => { p with friendList := p.friendList ++ [entry] }
    if (s.findName entry).isSome then
      notifyNamed true (playerNotifyFriend true s i entry) i entry
    else playerNotifyFriend false s i entry

def playerRemoveFriend (s : Server) (i : Nat) (entry : Int) : Server :=
  match (s.get i).friendList.findIdx? (· == entry) with
  | none => s
  | some k =>
    -- the entry is still there when its player is told
    let s := if (s.get i).blockPrivate then notifyNamed false s i entry else s
    s.modify i fun p => { p with friendList := p.friendList.eraseIdx k }

def playerAddIgnore (s : Server) (i : Nat) (entry : Int) : Server :=
  if maxIgnore ≤ (s.get i).ignoreList.length then s
  else
    let s :=
      if !(s.get i).blockPrivate || playerHasFriend (s.get i) entry then
        notifyNamed false s i entry
      else s
    s.modify i fun p => { p with ignoreList := p.ignoreList ++ [entry] }

def playerRemoveIgnore (s : Server) (i : Nat) (entry : Int) : Server :=
  match (s.get i).ignoreList.findIdx? (· == entry) with
  | none => s
  | some k =>
    let s := s.modify i fun p => { p with ignoreList := p.ignoreList.eraseIdx k }
    notifyNamed true s i entry

/-! ## Hiding -/

/-- `server_register_hide_status` and `server_register_unhide_status`: a
message to everyone who has the player as a friend and is not the player's. -/
def serverRegisterStatus (online : Bool) (s : Server) (i : Nat) : Server :=
  (List.range s.maxPlayerId).foldl (fun s k =>
    if s.live k then
      ((s.get k).friendList.filter (· == (s.get i).name)).foldl (fun s _ =>
        if playerHasFriend (s.get i) (s.get k).name then s
        else playerNotifyFriend online s k (s.get i).name) s
    else s) s

def serverRegisterHideStatus (s : Server) (i : Nat) : Server := serverRegisterStatus false s i

def serverRegisterUnhideStatus (s : Server) (i : Nat) : Server := serverRegisterStatus true s i

/-! ## Packets -/

/-- The cases of the switch that are about contacts. -/
inductive ContactOp where
  | addFriend
  | removeFriend
  | addIgnore
  | removeIgnore
  | privacySettings
  deriving DecidableEq, Repr

/-- A contact of its own: neither list has it. -/
def playerHasContact (p : Player) (target : Int) : Bool :=
  playerHasFriend p target || playerHasIgnore p target

/-- `OP_CLI_PRIVACY_SETTINGS`. Hiding altogether was a setting of its own until
revision 115. -/
def opCliPrivacySettings (s : Server) (i : Nat) (data : List Nat) : Server :=
  let p := s.get i
  let offset := if p.protocolRev < 115 then 2 else 1
  let hide := if p.protocolRev < 115 then bufGetu8 data 1 else some 0
  match hide, bufGetu8 data offset, bufGetu8 data (offset + 1), bufGetu8 data (offset + 2),
    bufGetu8 data (offset + 3) with
  | some hideOnline, some _blockPublic, some blockPrivate, some blockTrade, some _blockDuel =>
    let s := if !p.blockPrivate && blockPrivate != 0 then serverRegisterHideStatus s i else s
    let s := s.modify i fun p =>
      { p with
        blockPrivate := blockPrivate != 0 || hideOnline != 0
        blockTrade := blockTrade != 0 }
    if p.blockPrivate && blockPrivate == 0 then serverRegisterUnhideStatus s i else s
  | _, _, _, _, _ => s

def contactPacket (op : ContactOp) (s : Server) (i : Nat) (data : List Nat) : Server :=
  match op, bufGets64 data 1 with
  | .addFriend, some target =>
    if playerHasContact (s.get i) target then s else playerAddFriend s i target
  | .removeFriend, some target => playerRemoveFriend s i target
  | .addIgnore, some target =>
    if playerHasContact (s.get i) target then s else playerAddIgnore s i target
  | .removeIgnore, some target => playerRemoveIgnore s i target
  | .privacySettings, _ => opCliPrivacySettings s i data
  | _, none => s

end Sundae.Ref
