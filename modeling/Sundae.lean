import Sundae.Lib.Act
import Sundae.Lib.Approach
import Sundae.Lib.Bits
import Sundae.Lib.Checked
import Sundae.Lib.Climb
import Sundae.Lib.Codec
import Sundae.Lib.Countdown
import Sundae.Lib.Cull
import Sundae.Lib.Entries
import Sundae.Lib.Field
import Sundae.Lib.Flags
import Sundae.Lib.Layout
import Sundae.Lib.Lossless
import Sundae.Lib.Mirror
import Sundae.Lib.Nibble
import Sundae.Lib.Numeral
import Sundae.Lib.Pairing
import Sundae.Lib.Push
import Sundae.Lib.Roster
import Sundae.Lib.Run
import Sundae.Lib.Shelf
import Sundae.Lib.Smart
import Sundae.Lib.Tally
import Sundae.Lib.Turns
import Sundae.Ref.Account
import Sundae.Ref.Action
import Sundae.Ref.Appearance
import Sundae.Ref.Archive
import Sundae.Ref.Bank
import Sundae.Ref.Bits
import Sundae.Ref.Buffer
import Sundae.Ref.Chat
import Sundae.Ref.Collision
import Sundae.Ref.Combat
import Sundae.Ref.Config
import Sundae.Ref.Contact
import Sundae.Ref.Database
import Sundae.Ref.Death
import Sundae.Ref.Design
import Sundae.Ref.Entity
import Sundae.Ref.Equip
import Sundae.Ref.Expiry
import Sundae.Ref.Framing
import Sundae.Ref.Ground
import Sundae.Ref.Incoming
import Sundae.Ref.Inventory
import Sundae.Ref.Looks
import Sundae.Ref.LuaStack
import Sundae.Ref.MapLoad
import Sundae.Ref.Mob
import Sundae.Ref.Movement
import Sundae.Ref.Name
import Sundae.Ref.Outgoing
import Sundae.Ref.Pack
import Sundae.Ref.Parse
import Sundae.Ref.Prayer
import Sundae.Ref.Random
import Sundae.Ref.Restore
import Sundae.Ref.Sale
import Sundae.Ref.Script
import Sundae.Ref.Shop
import Sundae.Ref.Sight
import Sundae.Ref.Slots
import Sundae.Ref.Stat
import Sundae.Ref.Talk
import Sundae.Ref.Text
import Sundae.Ref.Tick
import Sundae.Ref.Trade
import Sundae.Ref.Vars
import Sundae.Ref.View
import Sundae.Ref.Walk
import Sundae.Ref.Watch
import Sundae.Ref.Zone
import Sundae.Proofs.Account
import Sundae.Proofs.Appearance
import Sundae.Proofs.Archive
import Sundae.Proofs.Bank
import Sundae.Proofs.Bargain
import Sundae.Proofs.Barter
import Sundae.Proofs.Bits
import Sundae.Proofs.Chat
import Sundae.Proofs.Cipher
import Sundae.Proofs.Clock
import Sundae.Proofs.Collision
import Sundae.Proofs.Combat
import Sundae.Proofs.Consent
import Sundae.Proofs.Contact
import Sundae.Proofs.Damage
import Sundae.Proofs.Database
import Sundae.Proofs.Death
import Sundae.Proofs.Delivery
import Sundae.Proofs.Drift
import Sundae.Proofs.Duel
import Sundae.Proofs.Equip
import Sundae.Proofs.Evolve
import Sundae.Proofs.Exchange
import Sundae.Proofs.Expiry
import Sundae.Proofs.Framing
import Sundae.Proofs.Friends
import Sundae.Proofs.Gate
import Sundae.Proofs.Ground
import Sundae.Proofs.Inventory
import Sundae.Proofs.Kept
import Sundae.Proofs.Legacy
import Sundae.Proofs.Life
import Sundae.Proofs.Locs
import Sundae.Proofs.Login
import Sundae.Proofs.Looks
import Sundae.Proofs.Lookup
import Sundae.Proofs.LuaStack
import Sundae.Proofs.MapLoad
import Sundae.Proofs.Member
import Sundae.Proofs.Movement
import Sundae.Proofs.Name
import Sundae.Proofs.Nearby
import Sundae.Proofs.Notice
import Sundae.Proofs.Offer
import Sundae.Proofs.Orderly
import Sundae.Proofs.Outgoing
import Sundae.Proofs.Pack
import Sundae.Proofs.Paired
import Sundae.Proofs.Pairs
import Sundae.Proofs.Parse
import Sundae.Proofs.Partner
import Sundae.Proofs.Path
import Sundae.Proofs.Plane
import Sundae.Proofs.PlayTime
import Sundae.Proofs.Prayer
import Sundae.Proofs.Presence
import Sundae.Proofs.Random
import Sundae.Proofs.Reach
import Sundae.Proofs.Registry
import Sundae.Proofs.Relog
import Sundae.Proofs.Removal
import Sundae.Proofs.Reset
import Sundae.Proofs.Restock
import Sundae.Proofs.Restore
import Sundae.Proofs.Sale
import Sundae.Proofs.Script
import Sundae.Proofs.Session
import Sundae.Proofs.Shop
import Sundae.Proofs.Sides
import Sundae.Proofs.Sight
import Sundae.Proofs.Slots
import Sundae.Proofs.Spelling
import Sundae.Proofs.Stance
import Sundae.Proofs.Stat
import Sundae.Proofs.Steady
import Sundae.Proofs.Talk
import Sundae.Proofs.Tamed
import Sundae.Proofs.Text
import Sundae.Proofs.Told
import Sundae.Proofs.Vars
import Sundae.Proofs.View
import Sundae.Proofs.Walk
import Sundae.Proofs.Watch
import Sundae.Proofs.World
import Sundae.Proofs.Zone
