import Sundae.Ref.Account
import Sundae.Ref.Buffer

/-!
# The appearance and the settings of the client

`OP_CLI_ACCEPT_DESIGN` and `OP_CLI_SAVE_SETTING` of `incoming.c`, as far as
they write what a save is to keep. What `player_init_class` and
`player_init_adventurer` give a new character is left to the inventory.
-/

namespace Sundae.Ref

/-- `(void)buf_getu8(data, offset++, len, &field)`: a short packet leaves the
field as it was. -/
def readInto (data : List Nat) (offset : Nat) (field : Int) : Int :=
  ((bufGetu8 data offset).map Int.ofNat).getD field

/-- `ANIM_HEAD1`, `ANIM_HEAD2`, `ANIM_HEAD3`, `ANIM_HEAD4`, `ANIM_FHEAD1` -/
def heads : List Int := [0, 5, 6, 7, 3]

/-- `ANIM_BODY1`, `ANIM_FBODY1` -/
def bodies : List Int := [1, 4]

/-- A sprite that is not one of those offered becomes the first of them. -/
def offered (sprites : List Int) (first sprite : Int) : Int :=
  (if sprite ∈ sprites then sprite else first) + 1

def atMost (max colour : Int) : Int := if max < colour then 0 else colour

def opCliAcceptDesign (protocolRev : Nat) (data : List Nat) (p : Profile) : Profile :=
  let c := p.columns
  { p with
    gender := (readInto data 1 p.gender).toNat
    -- one choice of legs, whatever was sent: `ANIM_LEGS1 + 1`
    legSprite := 3
    columns := { c with
      headSprite := offered heads 0 (readInto data 2 c.headSprite)
      bodySprite := offered bodies 1 (readInto data 3 c.bodySprite)
      hairColour := atMost 9 (readInto data 5 c.hairColour)
      topColour := atMost 14 (readInto data 6 c.topColour)
      legColour := atMost 14 (readInto data 7 c.legColour)
      skinColour := atMost 4 (readInto data 8 c.skinColour)
      rpgClass := if protocolRev < 154 then readInto data 9 c.rpgClass else 0 } }

def opCliSaveSetting (data : List Nat) (p : Profile) : Profile :=
  match bufGetu8 data 1, bufGetu8 data 2 with
  | some id, some value =>
    -- `client_settings[id]`, of which there are three
    match id with
    | 0 => { p with columns := { p.columns with cameraAuto := value } }
    | 1 => { p with columns := { p.columns with oneMouseButton := value } }
    | 2 => { p with clientSetting2 := value }
    | _ => p
  | _, _ => p

end Sundae.Ref
