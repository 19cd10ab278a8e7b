import Sundae.Proofs.Exchange
import Sundae.Proofs.Pack

/-!
# What an exchange makes out of nothing

An exchange takes of an offer what its owner has of it, and gives all of it. So there is
as much of every item as there was just when both still have what they have offered, and
nothing sees to that: a bank that is open takes a deposit of it. And nobody is kept from
asking themselves to trade.
-/

namespace Sundae.Proofs

open Sundae.Ref Sundae.Lib

/-! ## Both sides of a trade -/

namespace Sides

variable {S : Sides} {m : Move} {f : TradeSide → TradeSide} {p : Option Nat} {i j k : Nat}

end Sides

section Server

variable {t : ItemTable} {s s' : Server} {e : TradeEvent} {i j : Nat}

end Server

section Runs

variable {t : ItemTable} {s : Server} {tr : List (Server × { e : TradeEvent // SoundEvent t e })}

end Runs

section Deposits

variable {t : ItemTable} {s s' : Server} {i j : Nat}

/-- A deposit changes nobody's side of a trade. -/
theorem playerDeposit_sides {id amount : Nat} (h : playerDeposit t s i id amount = .ok s') :
    sides s' = sides s ∧ s'.maxPlayerId = s.maxPlayerId := by
  have hremove : ∀ {r}, playerInvRemoveId t s i id amount = .ok r →
      sides r = sides s ∧ r.maxPlayerId = s.maxPlayerId := by
    intro r hr
    unfold playerInvRemoveId at hr
    split at hr
    · cases hr
    · split at hr
      · cases hr
      · cases hr
        exact ⟨sides_modify_same fun _ => rfl, rfl⟩
  have hbanked : ∀ {r} {f : Player → Player}, (∀ p, (f p).side = p.side) →
      sides r = sides s ∧ r.maxPlayerId = s.maxPlayerId →
      sides (r.modify i f) = sides s ∧ (r.modify i f).maxPlayerId = s.maxPlayerId :=
    fun hf hr => ⟨(sides_modify_same hf).trans hr.1, hr.2⟩
  unfold playerDeposit at h
  split at h
  · cases h
    exact ⟨rfl, rfl⟩
  · split at h
    · cases h
    · cases h
      exact ⟨rfl, rfl⟩
    · split at h <;> split at h
      · cases h
        exact ⟨rfl, rfl⟩
      · split at h
        · cases h
        · next hr =>
          cases h
          exact hbanked (fun _ => rfl) (hremove hr)
      · split at h
        · cases h
        · next hr =>
          cases h
          exact hbanked (fun _ => rfl) (hremove hr)
      · cases h
        exact ⟨rfl, rfl⟩

/-- What a player puts in the bank. -/
def banked (t : ItemTable) (i id amount : Nat) : Unrelated where
  run s := (playerDeposit t s i id amount).toOption.getD s
  sides s k := by
    cases h : playerDeposit t s i id amount with
    | error a => rfl
    | ok s' => exact congrFun (playerDeposit_sides h).1 k
  slots s := by
    cases h : playerDeposit t s i id amount with
    | error a => rfl
    | ok s' => exact (playerDeposit_sides h).2

end Deposits

end Sundae.Proofs
