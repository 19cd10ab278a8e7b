import Sundae.Lib.Run
import Sundae.Proofs.Login
import Sundae.Proofs.Name

/-!
# One session for each account

The login test compares numbers, the database decoded names. The two agree on
positive names. All the others are one account to the database, and to the test
as many as there are numbers.
-/

namespace Sundae.Proofs

open Sundae.Lib Sundae.Ref

/-- No two logged-in players are bound to one account. -/
def OnePerAccount (s : Server) : Prop :=
  ∀ i j, i ≠ j → s.live i → s.live j → (s.get i).loginOk → (s.get j).loginOk →
    accountKey (mod37Namedec (s.get i).name) ≠ accountKey (mod37Namedec (s.get j).name)

/-- No two logged-in players go by names that decode to nothing. -/
def OneNameless (s : Server) : Prop :=
  ∀ i j, i ≠ j → s.live i → s.live j → (s.get i).loginOk → (s.get j).loginOk →
    ¬ ((s.get i).name ≤ 0 ∧ (s.get j).name ≤ 0)

/-- A login that is let in under a name that decodes to nothing finds no other
such session. -/
def NamelessAlone (env : Env) (s : Server) : NetEvent → Prop
  | .packet i data db =>
    s.live i → PacketAccepted env s i data db →
      ∀ name ∈ loginPacketName env s i data, name ≤ 0 →
        ∀ j, j ≠ i → s.live j → (s.get j).loginOk → 0 < (s.get j).name
  | _ => True

/-! ## What the uniqueness test keeps -/

/-- Names differ wherever one has been given. -/
structure Sessions (s : Server) : Prop where
  bound : ∀ i, s.live i → i < s.maxPlayerId
  range : ∀ i, s.live i → InRange (s.get i).name
  names : ∀ i j, i ≠ j → s.live i → s.live j → (s.get i).name = (s.get j).name →
    (s.get i).name = -1
  stage : ∀ i, s.live i → (s.get i).loginOk → (s.get i).loginStage = .gotLogin

theorem onePerAccount_iff {s : Server} (h : Sessions s) : OnePerAccount s ↔ OneNameless s := by
  unfold OnePerAccount OneNameless
  constructor
  · intro hone i j hij hi hj hoki hokj hboth
    apply hone i j hij hi hj hoki hokj
    rw [accountKey_eq_iff (h.range i hi) (h.range j hj)]
    exact .inr hboth
  · intro hone i j hij hi hj hoki hokj hkey
    rw [accountKey_eq_iff (h.range i hi) (h.range j hj)] at hkey
    apply hone i j hij hi hj hoki hokj
    rcases hkey with heq | hboth
    · have hi1 := h.names i j hij hi hj heq
      omega
    · exact hboth

/-- A step that changes one slot's session at most: the others stay, and the
one that changes has no name, keeps its name, or takes a free one. -/
structure Moves (s s' : Server) (i : Nat) : Prop where
  others : ∀ j, j ≠ i → s'.live j → s.live j ∧ (s'.get j).name = (s.get j).name ∧
    (s'.get j).loginOk = (s.get j).loginOk ∧ (s'.get j).loginStage = (s.get j).loginStage
  max : s.maxPlayerId ≤ s'.maxPlayerId
  self : s'.live i → i < s'.maxPlayerId ∧ ((s'.get i).name = -1 ∨
    s.live i ∧ NameFree s (s.get i).name (s'.get i).name)
  stage : s'.live i → (s'.get i).loginOk → (s'.get i).loginStage = .gotLogin

section

variable {s s' : Server} {i : Nat}

/-- A name that nobody had differs from every other. -/
theorem NameFree.ne_other (h : Sessions s) {j : Nat} (hij : j ≠ i) (hi : s.live i) (hj : s.live j)
    {new : Int} (hfree : NameFree s (s.get i).name new) (heq : new = (s.get j).name) :
    new = -1 := by
  rcases hfree with hold | ⟨hno, -⟩
  · subst hold
    exact h.names i j (Ne.symm hij) hi hj heq
  · exfalso
    have hyes : serverHasPlayer s new = true :=
      findName_isSome.2 ⟨j, h.bound j hj, hj, heq.symm⟩
    rw [hno] at hyes
    cases hyes

theorem NameFree.inRange {old new : Int} (hfree : NameFree s old new) (hold : InRange old) :
    InRange new := by
  rcases hfree with rfl | ⟨-, hrange⟩
  · exact hold
  · exact hrange

theorem Sessions.moves (h : Sessions s) (hm : Moves s s' i) : Sessions s' where
  bound := by
    intro j hj
    by_cases hji : j = i
    · subst hji
      exact (hm.self hj).1
    · exact Nat.lt_of_lt_of_le (h.bound j (hm.others j hji hj).1) hm.max
  range := by
    intro j hj
    by_cases hji : j = i
    · subst hji
      rcases (hm.self hj).2 with hnone | ⟨hlive, hfree⟩
      · rw [hnone]
        unfold InRange
        omega
      · exact hfree.inRange (h.range j hlive)
    · obtain ⟨hlive, hname, -⟩ := hm.others j hji hj
      rw [hname]
      exact h.range j hlive
  names := by
    intro j k hjk hj hk heq
    by_cases hji : j = i
    · subst hji
      rcases (hm.self hj).2 with hnone | ⟨hlive, hfree⟩
      · exact hnone
      · obtain ⟨hlivek, hnamek, -⟩ := hm.others k (Ne.symm hjk) hk
        rw [hnamek] at heq
        exact hfree.ne_other h (Ne.symm hjk) hlive hlivek heq
    · obtain ⟨hlivej, hnamej, -⟩ := hm.others j hji hj
      by_cases hki : k = i
      · subst hki
        rw [heq]
        rcases (hm.self hk).2 with hnone | ⟨hlive, hfree⟩
        · exact hnone
        · exact hfree.ne_other h hji hlive hlivej (heq.symm.trans hnamej)
      · obtain ⟨hlivek, hnamek, -⟩ := hm.others k hki hk
        rw [hnamej] at heq ⊢
        rw [hnamek] at heq
        exact h.names j k hjk hlivej hlivek heq
  stage := by
    intro j hj hok
    by_cases hji : j = i
    · subst hji
      exact hm.stage hj hok
    · obtain ⟨hlive, -, hok', hstage⟩ := hm.others j hji hj
      rw [hok'] at hok
      rw [hstage]
      exact h.stage j hlive hok

/-- A step that logs nobody in and renames nobody who is logged in. -/
def Quiet (s s' : Server) : Prop :=
  ∀ j, s'.live j → (s'.get j).loginOk →
    s.live j ∧ (s.get j).loginOk ∧ (s'.get j).name = (s.get j).name

theorem OneNameless.quiet (h : OneNameless s) (hq : Quiet s s') : OneNameless s' := by
  intro j k hjk hj hk hokj hokk
  obtain ⟨hj', hokj', hnamej⟩ := hq j hj hokj
  obtain ⟨hk', hokk', hnamek⟩ := hq k hk hokk
  rw [hnamej, hnamek]
  exact h j k hjk hj' hk' hokj' hokk'

end

/-! ## Each event -/

/-- The same sessions, as far as uniqueness and names see them. -/
structure SameSessions (s s' : Server) : Prop where
  live : ∀ j, s'.live j ↔ s.live j
  name : ∀ j, (s'.get j).name = (s.get j).name
  loginOk : ∀ j, (s'.get j).loginOk = (s.get j).loginOk
  loginStage : ∀ j, (s'.get j).loginStage = (s.get j).loginStage
  maxPlayerId : s'.maxPlayerId = s.maxPlayerId

namespace SameSessions

variable {s s' s'' : Server}

theorem refl (s : Server) : SameSessions s s :=
  ⟨fun _ => Iff.rfl, fun _ => rfl, fun _ => rfl, fun _ => rfl, rfl⟩

theorem trans (h : SameSessions s s') (h' : SameSessions s' s'') : SameSessions s s'' where
  live j := (h'.live j).trans (h.live j)
  name j := (h'.name j).trans (h.name j)
  loginOk j := (h'.loginOk j).trans (h.loginOk j)
  loginStage j := (h'.loginStage j).trans (h.loginStage j)
  maxPlayerId := h'.maxPlayerId.trans h.maxPlayerId

theorem of_change {change : Change} (h : change.run s = .ok s') : SameSessions s s' := by
  have hmap := fun j => change.session s s' j h
  have hget : ∀ j, (s'.get j).session = (s.get j).session := by
    intro j
    have hj := hmap j
    unfold Server.get
    cases hp : s.players j with
    | none =>
        rw [hp] at hj
        rw [Option.map_eq_none_iff.1 hj]
    | some p =>
        rw [hp] at hj
        obtain ⟨q, hq, hsession⟩ := Option.map_eq_some_iff.1 hj
        rw [hq]
        exact hsession
  refine ⟨?_, fun j => congrArg Session.name (hget j), fun j => congrArg Session.loginOk (hget j),
    fun j => congrArg Session.loginStage (hget j), change.maxPlayerId s s' h⟩
  intro j
  have hj := congrArg Option.isSome (hmap j)
  rw [Option.isSome_map, Option.isSome_map] at hj
  unfold Server.live
  rw [hj]

/-- The player the switch sees has the session that came to it. -/
theorem of_switch {env : Env} {i opcode : Nat} {data : List Nat} {p : Player}
    (h : atSwitch env (s.get i) data = some (opcode, p)) :
    SameSessions s (s.modify i fun _ => p) := by
  obtain ⟨hname, hok, hstage⟩ := atSwitch_keeps h
  have hfield : ∀ {β : Type} (π : Player → β), π p = π (s.get i) →
      ∀ j, π ((s.modify i fun _ => p).get j) = π (s.get j) := by
    intro β π hπ j
    rw [Server.get_modify]
    split
    · next hj => rw [hπ, hj.1]
    · rfl
  exact ⟨fun j => Server.live_modify, hfield Player.name hname, hfield Player.loginOk hok,
    hfield Player.loginStage hstage, rfl⟩

theorem quiet (h : SameSessions s s') : Quiet s s' := by
  intro j hj hok
  rw [h.loginOk] at hok
  exact ⟨(h.live j).1 hj, hok, h.name j⟩

theorem moves (h : Sessions s) (hs : SameSessions s s') (i : Nat) : Moves s s' i where
  others := fun j _ hj => ⟨(hs.live j).1 hj, hs.name j, hs.loginOk j, hs.loginStage j⟩
  max := Nat.le_of_eq hs.maxPlayerId.symm
  self := by
    intro hi
    have hi' := (hs.live i).1 hi
    rw [hs.maxPlayerId]
    exact ⟨h.bound i hi', .inr ⟨hi', .inl (hs.name i)⟩⟩
  stage := by
    intro hi hok
    rw [hs.loginOk] at hok
    rw [hs.loginStage]
    exact h.stage i ((hs.live i).1 hi) hok

end SameSessions

section

variable {env : Env} {game : Game} {s s' : Server} {i : Nat}

/-- A write to a live slot, as a move; notices are not looked at. -/
theorem moves_modify {f : Player → Player} (h : Sessions s) (hi : s.live i)
    (hfree : NameFree s (s.get i).name (f (s.get i)).name)
    (hstage : (f (s.get i)).loginOk → (f (s.get i)).loginStage = .gotLogin)
    (hs' : SameSessions (s.modify i f) s') : Moves s s' i where
  others := by
    intro j hji hj
    have hlive := (hs'.live j).1 hj
    rw [Server.live_modify] at hlive
    rw [hs'.name, hs'.loginOk, hs'.loginStage, Server.get_modify_ne hji]
    exact ⟨hlive, rfl, rfl, rfl⟩
  max := Nat.le_of_eq hs'.maxPlayerId.symm
  self := by
    intro _
    rw [hs'.maxPlayerId, hs'.name, Server.get_modify_self hi]
    exact ⟨h.bound i hi, .inr ⟨hi, hfree⟩⟩
  stage := by
    intro _ hok
    rw [hs'.loginOk, Server.get_modify_self hi] at hok
    rw [hs'.loginStage, Server.get_modify_self hi]
    exact hstage hok

theorem WritesTo.moves (h : Sessions s) (hi : s.live i) (hw : WritesTo s i s') :
    Moves s s' i ∧ Quiet s s' := by
  obtain ⟨f, rfl, hf⟩ := hw
  have hgot : (f (s.get i)).loginOk → (s.get i).loginStage = .gotLogin := by
    intro hok
    rw [hf.loginOk] at hok
    exact h.stage i hi hok
  constructor
  · apply moves_modify h hi hf.name _ (.refl _)
    intro hok
    exact (hf.gotLogin (hgot hok)).2
  · intro j hj hok
    rw [Server.live_modify] at hj
    by_cases hji : j = i
    · subst hji
      rw [Server.get_modify_self hi] at hok ⊢
      exact ⟨hj, hf.loginOk ▸ hok, (hf.gotLogin (hgot hok)).1⟩
    · rw [Server.get_modify_ne hji] at hok ⊢
      exact ⟨hj, hok, rfl⟩

theorem connect_moves (h : Sessions s) : (∃ i, Moves s (playerCreate s) i) ∧
    Quiet s (playerCreate s) := by
  have hsame := SameSessions.refl s
  unfold playerCreate
  split
  · exact ⟨⟨0, hsame.moves h 0⟩, hsame.quiet⟩
  · next slot _ =>
    refine ⟨⟨slot, ?_, Nat.le_max_left .., ?_, ?_⟩, ?_⟩
    · intro j hj hlive
      simp only [Server.live, hj, if_false] at hlive
      simp only [Server.get, hj, if_false]
      exact ⟨hlive, trivial, trivial, trivial⟩
    · intro _
      have hmax : slot < max s.maxPlayerId (slot + 1) := by omega
      exact ⟨hmax, .inl (by simp [Server.get])⟩
    · intro _ hok
      simp [Server.get] at hok
    · intro j hj hok
      by_cases hjs : j = slot
      · subst hjs
        simp [Server.get] at hok
      · simp only [Server.live, Server.get, hjs, if_false] at hj hok ⊢
        exact ⟨hj, hok, trivial⟩

theorem remove_moves (h : Sessions s) (i : Nat) :
    Moves s (serverRemovePlayer s i) i ∧ Quiet s (serverRemovePlayer s i) := by
  unfold serverRemovePlayer
  split
  · obtain ⟨l, hl⟩ := serverRegister_notices false (s.get i).name s
    simp only [hl]
    have hother : ∀ j, (if j = i then none else s.players j).isSome = true →
        j ≠ i ∧ s.live j := by
      intro j hj
      split at hj
      · cases hj
      · next hji => exact ⟨hji, hj⟩
    refine ⟨⟨?_, Nat.le_refl _, ?_, ?_⟩, ?_⟩
    · intro j hj hlive
      simp only [Server.get, hj, if_false]
      exact ⟨(hother j hlive).2, trivial, trivial, trivial⟩
    · intro hlive
      exact absurd rfl (hother i hlive).1
    · intro hlive
      exact absurd rfl (hother i hlive).1
    · intro j hlive hok
      obtain ⟨hji, hj⟩ := hother j hlive
      simp only [Server.get, hji, if_false] at hok ⊢
      exact ⟨hj, hok, trivial⟩
  · exact ⟨(SameSessions.refl s).moves h i, (SameSessions.refl s).quiet⟩

/-- A packet that lets a login in. -/
theorem accepted_moves (h : Sessions s) (hi : s.live i) {data : List Nat} {db : Loaded}
    (ha : PacketAccepted env s i data db)
    (hs : processPacket env game s i data db = .ok s') :
    Moves s s' i ∧ s'.live i ∧ (s'.get i).loginOk ∧
      some (s'.get i).name = loginPacketName env s i data ∧
      ∀ j, j ≠ i → (s'.live j ↔ s.live j) ∧ s'.get j = s.get j := by
  obtain ⟨f, l, hres, hfree, hok, hgot, hname⟩ := processPacket_accepted game hi ha
  rw [hres] at hs
  obtain rfl := Except.ok.inj hs
  have hget : ∀ j, Server.get { s.modify i f with notices := s.notices ++ l } j =
      (s.modify i f).get j := fun _ => rfl
  refine ⟨?_, ?_, ?_, ?_, ?_⟩
  · apply moves_modify h hi hfree (fun _ => hgot)
    exact ⟨fun _ => Iff.rfl, fun _ => rfl, fun _ => rfl, fun _ => rfl, rfl⟩
  · exact Server.live_modify.2 hi
  · rw [hget, Server.get_modify_self hi, hok]
  · rw [hget, Server.get_modify_self hi, hname]
  · intro j hj
    rw [hget, Server.get_modify_ne hj]
    exact ⟨Server.live_modify, rfl⟩

/-- Any other packet. -/
theorem other_moves (h : Sessions s) (hi : s.live i) {data : List Nat} {db : Loaded}
    (ha : ¬ PacketAccepted env s i data db)
    (hs : processPacket env game s i data db = .ok s') : Moves s s' i ∧ Quiet s s' := by
  rcases processPacket_other game hi ha with ⟨t, hres, hw⟩ | ⟨opcode, p, hsw, -, -, -, hres⟩
  · rw [hres] at hs
    obtain rfl := Except.ok.inj hs
    exact hw.moves h hi
  · rw [hres] at hs
    have hsame := (SameSessions.of_switch hsw).trans (.of_change hs)
    exact ⟨hsame.moves h i, hsame.quiet⟩

/-- What one step does to the sessions: it is quiet, or lets one login in. -/
inductive StepKind (env : Env) (s : Server) (e : NetEvent) (s' : Server) : Prop where
  | quiet (hcond : NamelessAlone env s e) (hq : Quiet s s')
  | login (i : Nat) (data : List Nat) (db : Loaded) (he : e = .packet i data db)
      (hi : s.live i) (ha : PacketAccepted env s i data db) (hi' : s'.live i)
      (hok : (s'.get i).loginOk) (hname : some (s'.get i).name = loginPacketName env s i data)
      (hrest : ∀ j, j ≠ i → (s'.live j ↔ s.live j) ∧ s'.get j = s.get j)

theorem netStep_kind (h : Sessions s) {e : NetEvent} (hs : netStep env game s e = .ok s') :
    (∃ i, Moves s s' i) ∧ StepKind env s e s' := by
  cases e with
  | connect =>
      obtain rfl := Except.ok.inj hs
      obtain ⟨hm, hq⟩ := connect_moves h
      exact ⟨hm, .quiet trivial hq⟩
  | packet i data db =>
      simp only [netStep] at hs
      split at hs
      · next hi =>
        by_cases ha : PacketAccepted env s i data db
        · obtain ⟨hm, hi', hok, hname, hrest⟩ := accepted_moves h hi ha hs
          exact ⟨⟨i, hm⟩, .login i data db rfl hi ha hi' hok hname hrest⟩
        · obtain ⟨hm, hq⟩ := other_moves h hi ha hs
          exact ⟨⟨i, hm⟩, .quiet (fun _ ha' => absurd ha' ha) hq⟩
      · next hi =>
        obtain rfl := Except.ok.inj hs
        have hsame := SameSessions.refl s
        exact ⟨⟨i, hsame.moves h i⟩, .quiet (fun hi' => absurd hi' hi) hsame.quiet⟩
  | remove i =>
      obtain rfl := Except.ok.inj hs
      obtain ⟨hm, hq⟩ := remove_moves h i
      exact ⟨⟨i, hm⟩, .quiet trivial hq⟩
  | world change =>
      have hsame : SameSessions s s' := .of_change hs
      exact ⟨⟨0, hsame.moves h 0⟩, .quiet trivial hsame.quiet⟩

theorem sessions_step {e : NetEvent} (h : Sessions s) (hs : netStep env game s e = .ok s') :
    Sessions s' := by
  obtain ⟨⟨i, hm⟩, -⟩ := netStep_kind h hs
  exact h.moves hm

theorem oneNameless_step {e : NetEvent} (h : Sessions s) (hone : OneNameless s)
    (hs : netStep env game s e = .ok s') : OneNameless s' ↔ NamelessAlone env s e := by
  obtain ⟨-, hkind⟩ := netStep_kind h hs
  cases hkind with
  | quiet hcond hq => exact ⟨fun _ => hcond, fun _ => hone.quiet hq⟩
  | login i data db he hi ha hi' hok hname hrest =>
      subst he
      constructor
      · intro hone' _ _ name hn hle j hji hj hokj
        obtain ⟨hlivej, hgetj⟩ := hrest j hji
        rw [Option.mem_def, ← hname, Option.some.injEq] at hn
        rw [← hgetj] at hokj ⊢
        by_contra hneg
        exact hone' j i hji (hlivej.2 hj) hi' hokj hok ⟨by omega, by omega⟩
      · intro hcond
        have hpos : (s'.get i).name ≤ 0 → ∀ j, j ≠ i → s'.live j → (s'.get j).loginOk →
            0 < (s'.get j).name := by
          intro hle j hji hj hokj
          obtain ⟨hlivej, hgetj⟩ := hrest j hji
          rw [hgetj] at hokj ⊢
          exact hcond hi ha _ hname.symm hle j hji (hlivej.1 hj) hokj
        intro j k hjk hj hk hokj hokk ⟨hlej, hlek⟩
        by_cases hji : j = i
        · subst hji
          have := hpos hlej k (Ne.symm hjk) hk hokk
          omega
        · by_cases hki : k = i
          · subst hki
            have := hpos hlek j hji hj hokj
            omega
          · obtain ⟨hlivej, hgetj⟩ := hrest j hji
            obtain ⟨hlivek, hgetk⟩ := hrest k hki
            rw [hgetj] at hokj hlej
            rw [hgetk] at hokk hlek
            exact hone j k hjk (hlivej.1 hj) (hlivek.1 hk) hokj hokk ⟨hlej, hlek⟩

end

/-! ## Whole runs -/

/-- A server that nobody has connected to yet. -/
def NoPlayers (s : Server) : Prop := ∀ i, ¬ s.live i

theorem noPlayers_boot : NoPlayers {} := fun _ => Bool.false_ne_true

theorem NoPlayers.sessions {s : Server} (h : NoPlayers s) : Sessions s :=
  ⟨fun i hi => absurd hi (h i), fun i hi => absurd hi (h i), fun i _ _ hi => absurd hi (h i),
    fun i hi => absurd hi (h i)⟩

/-- In every run, from a server without players, no two logged-in players are
ever bound to one account exactly when no login is let in under a nameless
number beside a nameless session. -/
theorem one_session_iff {env : Env} {game : Game} {tr : List (Server × NetEvent)} {s : Server}
    (hrun : Run NoPlayers (netStep env game) tr s) :
    (∀ c ∈ statesOf tr s, OnePerAccount c) ↔ ∀ x ∈ tr, NamelessAlone env x.1 x.2 := by
  have hinit : ∀ s, NoPlayers s → Sessions s ∧ OnePerAccount s := by
    intro s hs
    exact ⟨hs.sessions, fun i _ _ hi => absurd hi (hs i)⟩
  apply hrun.all_iff hinit
  · intro s e s' hs h
    exact sessions_step hs h
  · intro s e s' hs hone h
    rw [onePerAccount_iff (sessions_step hs h)]
    exact oneNameless_step hs ((onePerAccount_iff hs).1 hone) h

/-- A key whose decryption is the bytes as they came. -/
def plainKey : Env := { rsaDecrypt := some, isaacNext := fun _ _ => 0 }

/-- A world in which nothing else happens. -/
def idleGame : Game := fun _ _ _ => ⟨.ok, fun s s' i h => by cases h; rfl,
  fun s s' h => by cases h; rfl⟩

/-- An old login packet for a name, with three blocks of password. -/
def loginPacket (name : List Nat) : List Nat :=
  let block := [15] ++ List.replicate 8 0 ++ [97, 98, 99, 32, 32, 32, 32]
  [0, 0, 110] ++ name ++ block ++ block ++ block

/-- Two players log in under two names. -/
theorem one_session_iff_two : ∃ tr s,
    exec (netStep plainKey idleGame) ({} : Server)
      [.connect, .connect, .packet 0 (loginPacket [0, 0, 0, 0, 0, 0, 0, 1]) {},
        .packet 1 (loginPacket [0, 0, 0, 0, 0, 0, 0, 2]) {}] = .ok (tr, s) ∧
    ∀ c ∈ statesOf tr s, OnePerAccount c := by
  have hrun : Run NoPlayers (netStep plainKey idleGame) _ _ :=
    Run.of_exec [.connect, .connect, .packet 0 (loginPacket [0, 0, 0, 0, 0, 0, 0, 1]) {},
      .packet 1 (loginPacket [0, 0, 0, 0, 0, 0, 0, 2]) {}] noPlayers_boot rfl
  refine ⟨_, _, rfl, (one_session_iff hrun).2 ?_⟩
  intro x hx
  simp only [List.mem_cons, List.not_mem_nil, or_false] at hx
  rcases hx with rfl | rfl | rfl | rfl
  · trivial
  · trivial
  · intro _ _ name hname hle
    obtain rfl := Option.some.inj hname
    exact absurd hle (by decide)
  · intro _ _ name hname hle
    obtain rfl := Option.some.inj hname
    exact absurd hle (by decide)

/-- Two players log in as `-2` and as `-3`: two sessions of the one account
that goes by the placeholder. -/
theorem nameless_twice : ¬ ∀ (env : Env) (game : Game) (tr : List (Server × NetEvent)) (s : Server),
    Run NoPlayers (netStep env game) tr s → ∀ c ∈ statesOf tr s, OnePerAccount c := by
  intro hall
  have hrun : Run NoPlayers (netStep plainKey idleGame) _ _ :=
    Run.of_exec [.connect, .connect,
      .packet 0 (loginPacket [255, 255, 255, 255, 255, 255, 255, 254]) {},
      .packet 1 (loginPacket [255, 255, 255, 255, 255, 255, 255, 253]) {}] noPlayers_boot rfl
  have hone := hall plainKey idleGame _ _ hrun _ (mem_statesOf.2 (.inr rfl))
  exact hone 0 1 (by decide) (by decide) (by decide) (by decide) (by decide) (by decide)

end Sundae.Proofs
