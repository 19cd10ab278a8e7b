import Sundae.Ref.Database

/-!
# Logging in, saving and leaving

`player_load`, `player_save`, `player_destroy` and what `OP_CLI_LOGIN` does
once `process_login` has set the name and the password. `time(NULL)` is an
argument; a login asks for it twice, within one call.
-/

namespace Sundae.Ref

open Sundae.Lib

/-- `calloc`. -/
def Columns.zero : Columns :=
  { rpgClass := 0, x := 0, y := 0, cameraAuto := 0, hairColour := 0, topColour := 0
    legColour := 0, headSprite := 0, bodySprite := 0 }

/-- The player of a connection that has sent a name and a password and has
never been loaded. -/
def Profile.named (name : Int) (password : List Char) : Profile :=
  { name := name, password := password, columns := Columns.zero }

/-- `start_tile_x` and `start_tile_y` of the server. -/
structure StartTile where
  x : Int
  y : Int

/-- What `player_load` sets before it asks the database. -/
def loadDefaults (tile : StartTile) (p : Profile) : Profile :=
  { p with
    columns := { p.columns with
      rpgClass := 255, x := tile.x, y := tile.y
      hairColour := 2, topColour := 8, legColour := 14, headSprite := 1, bodySprite := 2
      -- skill 3 is hits
      skills := (List.range 16).map fun i => if i = 3 then (10, 10, 4000) else (1, 1, 0) }
    -- `ANIM_LEGS1 + 1`
    legSprite := 3 }

def playerLoad (h : PwHash) (tile : StartTile) : Query Int := do
  Act.modify (loadDefaults tile)
  databaseLoadPlayer h

inductive LoginReply where
  /-- `RESP_RATE_LIMIT` -/
  | rateLimit
  /-- `RESP_TEMP_DISABLED` -/
  | tempDisabled
  /-- what `player_load` returned -/
  | refused (res : Int)
  /-- `RESP_LOGIN_OK` -/
  | ok
  deriving DecidableEq, Repr

/-- What is answered to a login, from the result of the load. -/
def loginReply (res now banEndDate : Int) : LoginReply :=
  if res = -1 then .rateLimit
  else if now < banEndDate then .tempDisabled
  else if 0 < res then .refused res
  else .ok

/-- What a login that succeeded sets. -/
def loggedIn (tile : StartTile) (now : Int) (p : Profile) : Profile :=
  let columns :=
    if p.columns.loginDate = 0 then { p.columns with x := tile.x, y := tile.y } else p.columns
  { p with columns := { columns with loginDate := now } }

/-- `OP_CLI_LOGIN` from `player_load` on. -/
def loginLoad (h : PwHash) (tile : StartTile) (now : Int) (c : Store Rows) (p : Profile) :
    LoginReply × Store Rows × Profile :=
  let (res, c, p) := playerLoad h tile c p
  let p := { p with password := [] }
  let reply := loginReply (res.getD (-1)) now p.columns.banEndDate
  (reply, c, if reply = .ok then loggedIn tile now p else p)

/-- `play_time += time(NULL) - login_date` -/
def addPlayTime (now : Int) (p : Profile) : Profile :=
  { p with
    columns := { p.columns with playTime := p.columns.playTime + (now - p.columns.loginDate) } }

def playerSave (now : Int) (c : Store Rows) (p : Profile) : Store Rows × Profile :=
  if p.columns.loginDate ≠ 0 then
    ((databaseSavePlayer c (addPlayTime now p)).2.1, addPlayTime now p)
  else (c, p)

def playerDestroy (now : Int) (c : Store Rows) (p : Profile) : Store Rows :=
  (playerSave now c p).1

/-! ## The saves of a stay -/

/-- A player from its login on, with what its saves depend on. -/
structure Stay where
  store : Store Rows
  /-- `none` once the player is freed -/
  player : Option Profile
  /-- `save_timer` of the server -/
  serverTimer : Nat := 0
  /-- `save_timer` of the player, 16 bits wide -/
  playerTimer : Nat := 0

inductive StayEvent where
  /-- What is done in the database for this or for other players. -/
  | query (f : Store Rows → Store Rows)
  /-- Whatever else is done to the player. -/
  | act (f : Profile → Profile)
  /-- The player's turn in `server_tick`. -/
  | turn (now : Int)
  /-- The end of its update. -/
  | updated (now : Int)
  /-- The timers of the server. -/
  | tickEnd
  | destroy (now : Int)

namespace Stay

def save (s : Stay) (now : Int) : Stay :=
  match s.player with
  | none => s
  | some p =>
    let (store, player) := playerSave now s.store p
    { s with store := store, player := some player }

/-- `++save_timer` -/
def nextTimer (s : Stay) : Nat := (s.playerTimer + 1) % 65536

def step (s : Stay) : StayEvent → Stay
  | .query f => { s with store := f s.store }
  | .act f => { s with player := s.player.map f }
  | .turn now => if s.serverTimer = 0 then s.save now else s
  | .updated now =>
    match s.player with
    | none => s
    | some p =>
      if p.columns.loginDate ≠ 0 then
        if s.nextTimer = 500 then { s.save now with playerTimer := 0 }
        else { s with playerTimer := s.nextTimer }
      else s
  | .tickEnd => { s with serverTimer := if 0 < s.serverTimer then s.serverTimer - 1 else 500 }
  | .destroy now => { s.save now with player := none }

def run (s : Stay) (es : List StayEvent) : Stay := es.foldl step s

end Stay

end Sundae.Ref
