import Sundae.Proofs.Session

/-!
# What a connection can do before it has logged in

`process_packet` drops the packets of a new connection unless they ask for a session, a
registration or a login. After the session request it no longer looks: the switch is gone
through by whoever has asked for a session, has registered or has been refused, and not
only by who has logged in.
-/

namespace Sundae.Proofs

open Sundae.Lib Sundae.Ref

/-! ## Asking to be let in -/

/-- A session request, a registration or a login. -/
def Asks (env : Env) (p : Player) (data : List Nat) : Prop :=
  (p.loginStage = .zero ∧ bufGetu8 data 0 = some 32) ∨
    ∃ x ∈ atSwitch env p data, x.1 = 2 ∨ x.1 = 0 ∨ x.1 = 19

/-- The slot's connection has been let in, and it has not been removed since. -/
def LoggedIn (env : Env) (pre : List (Server × NetEvent)) (i : Nat) : Prop :=
  ∃ a c data db b, pre = a ++ (c, .packet i data db) :: b ∧ c.live i ∧
    PacketAccepted env c i data db ∧ ∀ x ∈ b, x.1.live i

/-- Whatever the cases of the switch do, a packet that asks for nothing changes nothing as
long as its connection has not been let in. -/
def Gated (env : Env) (pre : List (Server × NetEvent)) (s : Server) (e : NetEvent) : Prop :=
  ∀ i data db, e = .packet i data db → s.live i → ¬ Asks env (s.get i) data →
    ¬ LoggedIn env pre i → ∀ game, processPacket env game s i data db = .ok s

/-- What comes to the switch asks to be let in, or it is of a connection whose stage was
set by a login that was let in. -/
def SwitchOk (env : Env) (s : Server) (e : NetEvent) : Prop :=
  ∀ i data db, e = .packet i data db → s.live i → ∀ x ∈ atSwitch env (s.get i) data,
    (x.1 = 2 ∨ x.1 = 0 ∨ x.1 = 19) ∨
      (s.get i).loginStage = .gotLogin ∧ (s.get i).loginOk = true

section

variable {env : Env} {game : Game} {s s' : Server} {e : NetEvent} {i j : Nat} {data : List Nat}
  {db : Loaded}

/-- The gate: at stage zero only what asks comes to the switch. -/
theorem stage_of_switch {opcode : Nat} {p q : Player} (h : atSwitch env p data = some (opcode, q))
    (hopcode : ¬ (opcode = 2 ∨ opcode = 0 ∨ opcode = 19)) : p.loginStage ≠ .zero := by
  intro hzero
  unfold atSwitch at h
  cases hop : bufGetu8 data 0 with
  | none =>
      rw [hop] at h
      cases h
  | some first =>
      rw [hop] at h
      dsimp only at h
      rw [if_pos hzero] at h
      split at h
      · next hlogin =>
        obtain ⟨rfl, -⟩ := Prod.mk.inj (Option.some.inj h)
        exact hopcode hlogin
      · cases h

/-- A packet that does not come to the switch and asks for no session is dropped. -/
theorem processPacket_dropped (hswitch : atSwitch env (s.get i) data = none)
    (hasks : ¬ Asks env (s.get i) data) : processPacket env game s i data db = .ok s := by
  unfold atSwitch at hswitch
  unfold processPacket
  cases hop : bufGetu8 data 0 with
  | none => rfl
  | some opcode =>
      rw [hop] at hswitch
      dsimp only at hswitch ⊢
      split at hswitch
      · next hzero =>
        rw [if_pos hzero]
        split at hswitch
        · cases hswitch
        · next hlogin =>
          rw [if_neg hlogin, if_neg fun heq => hasks (.inl ⟨hzero, by rw [hop, heq]⟩)]
      · split at hswitch
        · split at hswitch <;> cases hswitch
        · cases hswitch

/-- A case of the switch that stops the server. -/
def stoppingGame : Game := fun _ _ _ =>
  ⟨fun _ => .error .itemConfig, fun _ _ _ h => (nomatch h), fun _ _ h => (nomatch h)⟩

/-- One attempt, where the slots that are logged in are those that have been let in. -/
theorem gated_iff {pre : List (Server × NetEvent)} (h : Sessions s)
    (hlogin : ∀ i, s.live i → ((s.get i).loginOk = true ↔ LoggedIn env pre i)) :
    Gated env pre s e ↔ SwitchOk env s e := by
  constructor
  · intro hgated i data db he hi x hx
    obtain ⟨opcode, p⟩ := x
    by_cases hopcode : opcode = 2 ∨ opcode = 0 ∨ opcode = 19
    · exact .inl hopcode
    · right
      by_contra hnot
      have hout : ¬ LoggedIn env pre i := by
        intro hin
        have hok := (hlogin i hi).2 hin
        exact hnot ⟨h.stage i hi hok, hok⟩
      have hasks : ¬ Asks env (s.get i) data := by
        rintro (⟨hzero, -⟩ | ⟨y, hy, hyop⟩)
        · exact stage_of_switch hx hopcode hzero
        · obtain rfl := Option.some.inj (Eq.trans (Eq.symm hx) hy)
          exact hopcode hyop
      have hsame := hgated i data db he hi hasks hout stoppingGame
      rw [processPacket_switch hx, packetSwitch, if_neg (by omega), if_neg (by omega)] at hsame
      cases hsame
  · intro hok i data db he hi hasks hout game
    refine processPacket_dropped ?_ hasks
    refine Option.eq_none_iff_forall_not_mem.2 fun x hx => ?_
    rcases hok i data db he hi x hx with hopcode | ⟨-, hin⟩
    · exact hasks (.inr ⟨x, hx, hopcode⟩)
    · exact hout ((hlogin i hi).1 hin)

/-! ## Who is logged in -/

theorem loginOk_connect (hj : (playerCreate s).live j) :
    ((playerCreate s).get j).loginOk = true ↔ s.live j ∧ (s.get j).loginOk = true := by
  revert hj
  unfold playerCreate
  split
  · exact fun hj => (and_iff_right hj).symm
  · next slot hslot =>
    intro hj
    by_cases hjs : j = slot
    · subst hjs
      refine iff_of_false (by simp [Server.get]) fun h => (freeSlot_dead hslot) h.1
    · simp only [Server.live, Server.get, hjs, if_false] at hj ⊢
      exact (and_iff_right hj).symm

theorem loginOk_remove (hj : (serverRemovePlayer s i).live j) :
    ((serverRemovePlayer s i).get j).loginOk = true ↔ s.live j ∧ (s.get j).loginOk = true := by
  revert hj
  unfold serverRemovePlayer
  split
  · obtain ⟨l, hl⟩ := serverRegister_notices false (s.get i).name s
    simp only [hl]
    intro hj
    have hne : j ≠ i := by
      rintro rfl
      simp [Server.live] at hj
    simp only [Server.live, Server.get, hne, if_false] at hj ⊢
    exact (and_iff_right hj).symm
  · exact fun hj => (and_iff_right hj).symm

/-- A packet logs in its own slot, and only if it is let in. -/
theorem loginOk_packet (h : Sessions s) (hi : s.live i)
    (hs : processPacket env game s i data db = .ok s') :
    (s'.live j ↔ s.live j) ∧ (s.live j → ((s'.get j).loginOk = true ↔
      (s.get j).loginOk = true ∨ j = i ∧ PacketAccepted env s i data db)) := by
  by_cases haccepted : PacketAccepted env s i data db
  · obtain ⟨-, hi', hok, -, hrest⟩ := accepted_moves h hi haccepted hs
    by_cases hji : j = i
    · subst hji
      exact ⟨iff_of_true hi' hi, fun _ => iff_of_true hok (.inr ⟨rfl, haccepted⟩)⟩
    · obtain ⟨hlive, hget⟩ := hrest j hji
      rw [hget]
      exact ⟨hlive, fun _ => (or_iff_left fun hself => hji hself.1).symm⟩
  · have hplain : ∀ {p q : Prop}, (p ↔ q) → (p ↔ q ∨ j = i ∧ PacketAccepted env s i data db) :=
      fun hpq => hpq.trans (or_iff_left fun hself => haccepted hself.2).symm
    rcases processPacket_other game hi haccepted with ⟨t, hres, f, rfl, hf⟩ |
      ⟨opcode, p, hswitch, -, -, -, hres⟩
    · obtain rfl := Except.ok.inj (hres.symm.trans hs)
      refine ⟨Server.live_modify, fun _ => hplain ?_⟩
      by_cases hji : j = i
      · subst hji
        rw [Server.get_modify_self hi, hf.loginOk]
      · rw [Server.get_modify_ne hji]
    · rw [hres] at hs
      have hsame := (SameSessions.of_switch hswitch).trans (.of_change hs)
      exact ⟨hsame.live j, fun _ => hplain (by rw [hsame.loginOk])⟩

/-- A slot is logged in after a step if it was before, or was let in by it. -/
theorem loginOk_step (h : Sessions s) (hs : netStep env game s e = .ok s') (hj : s'.live j) :
    (s'.get j).loginOk = true ↔ s.live j ∧ ((s.get j).loginOk = true ∨
      ∃ data db, e = .packet j data db ∧ PacketAccepted env s j data db) := by
  cases e with
  | connect =>
      obtain rfl := Except.ok.inj hs
      rw [loginOk_connect hj]
      simp
  | remove i =>
      obtain rfl := Except.ok.inj hs
      rw [loginOk_remove hj]
      simp
  | world change =>
      have hsame : SameSessions s s' := .of_change hs
      rw [hsame.loginOk]
      simp [(hsame.live j).1 hj]
  | packet i data db =>
      unfold netStep at hs
      dsimp only at hs
      split at hs
      · next hi =>
        obtain ⟨hlive, hok⟩ := loginOk_packet (j := j) h hi hs
        rw [hok (hlive.1 hj), and_iff_right (hlive.1 hj)]
        refine or_congr_right ?_
        constructor
        · rintro ⟨rfl, haccepted⟩
          exact ⟨data, db, rfl, haccepted⟩
        · rintro ⟨data', db', he, haccepted⟩
          cases he
          exact ⟨rfl, haccepted⟩
      · next hi =>
        obtain rfl := Except.ok.inj hs
        rw [and_iff_right hj]
        refine (or_iff_left ?_).symm
        rintro ⟨data', db', he, -⟩
        cases he
        exact hi hj

theorem loggedIn_append {pre : List (Server × NetEvent)} :
    LoggedIn env (pre ++ [(s, e)]) j ↔ s.live j ∧ (LoggedIn env pre j ∨
      ∃ data db, e = .packet j data db ∧ PacketAccepted env s j data db) := by
  constructor
  · rintro ⟨a, c, data, db, b, htr, hlive, haccepted, hall⟩
    rcases List.eq_nil_or_concat b with rfl | ⟨b', x, rfl⟩
    · obtain ⟨rfl, hx⟩ := List.append_inj' htr rfl
      obtain ⟨rfl, rfl⟩ := Prod.mk.inj (List.cons.inj hx).1
      exact ⟨hlive, .inr ⟨data, db, rfl, haccepted⟩⟩
    · rw [List.concat_eq_append, ← List.cons_append, ← List.append_assoc] at htr
      obtain ⟨rfl, hx⟩ := List.append_inj' htr rfl
      obtain rfl := (List.cons.inj hx).1
      rw [List.concat_eq_append] at hall
      exact ⟨hall _ (List.mem_append_right _ List.mem_cons_self), .inl ⟨a, c, data, db, b', rfl,
        hlive, haccepted, fun y hy => hall y (List.mem_append_left _ hy)⟩⟩
  · rintro ⟨hlive, ⟨a, c, data, db, b, rfl, hc, haccepted, hall⟩ | ⟨data, db, rfl, haccepted⟩⟩
    · refine ⟨a, c, data, db, b ++ [(s, e)], by rw [List.append_assoc, List.cons_append], hc,
        haccepted, fun y hy => ?_⟩
      rcases List.mem_append.1 hy with hy | hy
      · exact hall y hy
      · obtain rfl := List.mem_singleton.1 hy
        exact hlive
    · exact ⟨pre, s, data, db, [], rfl, hlive, haccepted, fun y hy => (nomatch hy)⟩

/-- Along a run the slots that are logged in are those that have been let in. -/
theorem loginOk_iff_loggedIn {tr : List (Server × NetEvent)}
    (hrun : Run NoPlayers (netStep env game) tr s) :
    Sessions s ∧ ∀ j, s.live j → ((s.get j).loginOk = true ↔ LoggedIn env tr j) := by
  induction hrun with
  | start hs => exact ⟨hs.sessions, fun j hj => absurd hj (hs j)⟩
  | step hrun hs ih =>
      obtain ⟨hsessions, hlogin⟩ := ih
      refine ⟨sessions_step hsessions hs, fun j hj => ?_⟩
      rw [loginOk_step hsessions hs hj, loggedIn_append]
      exact and_congr_right fun hlive => or_congr_left (hlogin j hlive)

end

/-! ## Whole runs -/

/-- A packet that asks for nothing, before its connection has logged in. -/
def Idle (env : Env) (x : Server × NetEvent) : Prop :=
  ∃ i data db, x.2 = .packet i data db ∧ x.1.live i ∧ ¬ Asks env (x.1.get i) data ∧
    (x.1.get i).loginOk = false

open Classical in
/-- Where that holds, such packets may as well not have been sent: without them the run
comes to the same state, for everybody. -/
theorem gated_run_without {env : Env} {game : Game} {tr : List (Server × NetEvent)} {s : Server}
    (hrun : Run NoPlayers (netStep env game) tr s) (hok : ∀ x ∈ tr, SwitchOk env x.1 x.2) :
    Run NoPlayers (netStep env game) (tr.filter fun x => ¬ Idle env x) s := by
  induction hrun with
  | start hs => exact .start hs
  | @step tr s s' e hrun hs ih =>
      have hrest := ih fun x hx => hok x (List.mem_append_left _ hx)
      rw [List.filter_append]
      by_cases hidle : Idle env (s, e)
      · obtain ⟨i, data, db, rfl, hi, hasks, hout⟩ := id hidle
        obtain ⟨hsessions, hlogin⟩ := loginOk_iff_loggedIn hrun
        have hgated := (gated_iff hsessions hlogin).2
          (hok _ (List.mem_append_right _ List.mem_cons_self))
        have hsame := hgated i data db rfl hi hasks
          (fun hin => Bool.false_ne_true (hout.symm.trans ((hlogin i hi).2 hin))) game
        unfold netStep at hs
        dsimp only at hs
        rw [if_pos hi, hsame] at hs
        obtain rfl := Except.ok.inj hs
        rw [List.filter_cons_of_neg (by simpa using hidle), List.filter_nil, List.append_nil]
        exact hrest
      · rw [List.filter_cons_of_pos (by simpa using hidle), List.filter_nil]
        exact hrest.step hs

end Sundae.Proofs
