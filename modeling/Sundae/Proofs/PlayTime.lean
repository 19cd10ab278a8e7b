import Mathlib.Algebra.Ring.Int.Defs
import Mathlib.Data.List.Induction
import Sundae.Proofs.Account

/-!
# The time a player has played

A save adds the time since the login to what the player has, and the login
stays where it was, so the next save adds the same time again. What a save
stores is right exactly when the saves before it had nothing to add.
-/

namespace Sundae.Proofs

open Sundae.Ref Sundae.Lib Sundae.Lib.Act

/-! ## What a save stores -/

def storedPlayTime (name : Int) (d : Rows) : Option Int :=
  (d.find? (mod37Namedec name)).map fun a => a.columns.playTime

/-- The save of a player that the database says it has carried out. -/
def Done (c : Store Rows) (p : Profile) : Prop := (databaseSavePlayer c p).1.isSome = true

variable {c : Store Rows} {p : Profile} {key : List Char} {d : Rows}

/-- There is an account of this name. -/
def HasKey (key : List Char) (d : Rows) : Prop := ∃ a ∈ d.accounts, a.key = key

theorem hasKey_update {q : Account → Bool} {f : Account → Account} (hf : ∀ a, (f a).id = a.id)
    (hkey : ∀ a, (f a).key = a.key) (h : HasKey key d) : HasKey key (d.update q f hf) := by
  obtain ⟨a, ha, rfl⟩ := h
  refine ⟨if q a = true then f a else a, List.mem_map_of_mem ha, ?_⟩
  split
  · exact hkey a
  · rfl

theorem hasKey_of_known (h : known d p = true) : HasKey (accountKey (mod37Namedec p.name)) d := by
  obtain ⟨a, hfind⟩ := Option.isSome_iff_exists.1 h
  exact ⟨a, find_key hfind⟩

theorem savePlayerFrom_hasKey (p : Profile) :
    Keeps false (HasKey key) (savePlayerFrom p) :=
  Keeps.bind (Keeps.each _ fun _ => stmtBind_keeps) fun _ => Keeps.bind stmtBind_keeps fun _ =>
    Keeps.call_bind (fun d hd => hasKey_update (f := fun a => { a with columns := saveColumns p })
      (fun _ => rfl) (fun _ => rfl) hd) fun d _ => by
      cases (d.find? (mod37Namedec p.name)).map Account.id with
      | none => exact Keeps.fail
      | some playerId =>
          exact Keeps.bind
            (saveRest_keeps p fun f hf ht d hd => hasKey_update hf (fun a => (ht a).1) hd)
            fun _ => Keeps.bind Keeps.commit fun _ => Keeps.pure 0

/-- A save that is carried out starts from no open transaction. -/
theorem Done.start (h : Done c p) : ¬ c.isOpen ∧ c.fails c.calls = false := by
  have hnot : ¬ (c.isOpen ∨ c.fails c.calls = true) := by
    intro hb
    unfold Done databaseSavePlayer at h
    rw [start_bind_none hb] at h
    cases h
  obtain ⟨ho, hf⟩ := not_or.1 hnot
  exact ⟨ho, Bool.eq_false_iff.2 hf⟩

/-- What is found for the name has the play time of the player saved. -/
theorem storedPlayTime_of_done (h : Done c p) :
    storedPlayTime p.name (databaseSavePlayer c p).2.1.saved = some p.columns.playTime := by
  obtain ⟨ho, hf⟩ := h.start
  have hcl := databaseSavePlayer_closes (m := p) ho hf
  have hok := hcl.done.1 h
  have hrows := Store.rows_of_closed (hcl.closed.2 hok)
  have hrun : databaseSavePlayer c p = savePlayerFrom p c.opened p := by
    unfold databaseSavePlayer
    rw [start_bind ho hf, get_bind]
  have hplayed : Played (accountKey (mod37Namedec p.name)) p.columns.playTime
      (databaseSavePlayer c p).2.1.saved := by
    have hens := savePlayerFrom_played p c.opened p (by rwa [← hrun])
    rwa [← hrun, hrows] at hens
  have hkey : HasKey (accountKey (mod37Namedec p.name)) (databaseSavePlayer c p).2.1.saved := by
    have hkept := savePlayerFrom_hasKey p c.opened p
      ⟨fun h => absurd h Bool.false_ne_true, hasKey_of_known hok.2⟩
    rw [← hrun] at hkept
    exact hrows ▸ hkept.2
  obtain ⟨a, ha, hakey⟩ := hkey
  have hfound : ((databaseSavePlayer c p).2.1.saved.find? (mod37Namedec p.name)).isSome = true := by
    unfold Rows.find?
    rw [List.find?_isSome]
    exact ⟨a, ha, by simpa using hakey⟩
  obtain ⟨b, hb⟩ := Option.isSome_iff_exists.1 hfound
  obtain ⟨hmem, hbkey⟩ := find_key hb
  rw [storedPlayTime, hb, Option.map_some, hplayed b hmem hbkey]

/-! ## The saves of a stay -/

/-- Whatever is done to the player leaves its name, its login and its time. -/
def LeavesTime : StayEvent → Prop
  | .act f => ∀ p, (f p).name = p.name ∧ (f p).columns.loginDate = p.columns.loginDate ∧
      (f p).columns.playTime = p.columns.playTime
  | _ => True

/-- There is a player whom `player_save` does not pass over. -/
def loggedOn (s : Stay) : Bool := s.player.any fun p => decide (p.columns.loginDate ≠ 0)

/-- When the event saves the player, at which time: the global timer, the
player's own one, and the removal. -/
def saveTime (s : Stay) : StayEvent → Option Int
  | .turn now => if loggedOn s ∧ s.serverTimer = 0 then some now else none
  | .updated now => if loggedOn s ∧ s.nextTimer = 500 then some now else none
  | .destroy now => if loggedOn s then some now else none
  | _ => none

/-- The times of all the saves there are. -/
def saveTimes (s : Stay) : List StayEvent → List Int
  | [] => []
  | e :: es => (saveTime s e).toList ++ saveTimes (s.step e) es

theorem run_concat (s : Stay) (es : List StayEvent) (e : StayEvent) :
    s.run (es ++ [e]) = (s.run es).step e := List.foldl_concat ..

theorem saveTimes_concat (s : Stay) (es : List StayEvent) (e : StayEvent) :
    saveTimes s (es ++ [e]) = saveTimes s es ++ (saveTime (s.run es) e).toList := by
  induction es generalizing s with
  | nil => simp [saveTimes, Stay.run]
  | cons e' es ih =>
      rw [List.cons_append, saveTimes, ih, saveTimes, List.append_assoc]
      rfl

/-- How much the saves of a stay have added, if it began at `date`. -/
def counted (date : Int) (times : List Int) : Int := (times.map (· - date)).sum

theorem counted_concat (date now : Int) (times : List Int) :
    counted date (times ++ [now]) = counted date times + (now - date) := by
  simp [counted]

/-- A player that has been given the time since its login once for each of
these saves. -/
structure Counts (first : Profile) (times : List Int) (p : Profile) : Prop where
  name : p.name = first.name
  date : p.columns.loginDate = first.columns.loginDate
  time : p.columns.playTime = first.columns.playTime + counted first.columns.loginDate times

section

variable {first : Profile} {times : List Int} {s : Stay}

theorem Counts.add (h : Counts first times p) (now : Int) :
    Counts first (times ++ [now]) (addPlayTime now p) := by
  refine ⟨h.name, h.date, ?_⟩
  have htime := h.time
  have hdate := h.date
  show p.columns.playTime + (now - p.columns.loginDate) = _
  rw [counted_concat]
  omega

/-- What a save makes of the player. -/
theorem save_player (hs : ∀ p ∈ s.player, Counts first times p) (now : Int) :
    ∀ p ∈ (s.save now).player,
      Counts first (times ++ (if loggedOn s then some now else none).toList) p := by
  unfold Stay.save
  cases hplayer : s.player with
  | none =>
      intro p hp
      rw [hplayer] at hp
      cases hp
  | some q =>
      have hq := hs q hplayer
      intro p hp
      obtain rfl := Option.some.inj hp
      unfold playerSave
      by_cases hdate : q.columns.loginDate = 0
      · simpa [loggedOn, hplayer, hdate] using hq
      · simpa [loggedOn, hplayer, hdate] using hq.add now

theorem step_player (hs : ∀ p ∈ s.player, Counts first times p) {e : StayEvent}
    (he : LeavesTime e) :
    ∀ p ∈ (s.step e).player, Counts first (times ++ (saveTime s e).toList) p := by
  cases e with
  | query f => simpa [saveTime, Stay.step] using hs
  | act f =>
      intro p hp
      obtain ⟨q, hq, rfl⟩ := Option.map_eq_some_iff.1 hp
      have hcounts := hs q hq
      obtain ⟨hname, hdate, htime⟩ := he q
      simpa [saveTime] using
        ⟨hname.trans hcounts.name, hdate.trans hcounts.date, htime.trans hcounts.time⟩
  | turn now =>
      unfold Stay.step saveTime
      by_cases htimer : s.serverTimer = 0
      · simpa [htimer] using save_player hs now
      · simpa [htimer] using hs
  | updated now =>
      have hsave := save_player hs now
      unfold Stay.step saveTime
      cases hplayer : s.player with
      | none =>
          intro p hp
          rw [hplayer] at hp
          cases hp
      | some q =>
          by_cases hdate : q.columns.loginDate = 0
          · simpa [loggedOn, hplayer, hdate] using hs
          · by_cases htimer : s.nextTimer = 500
            · simpa [loggedOn, hplayer, hdate, htimer] using hsave
            · simpa [loggedOn, hplayer, hdate, htimer] using hs
  | tickEnd => simpa [saveTime, Stay.step] using hs
  | destroy now =>
      intro p hp
      cases hp

theorem run_player (hs : ∀ p ∈ s.player, Counts first [] p) {es : List StayEvent}
    (hes : ∀ e ∈ es, LeavesTime e) :
    ∀ p ∈ (s.run es).player, Counts first (saveTimes s es) p := by
  induction es using List.reverseRecOn with
  | nil => exact hs
  | append_singleton es e ih =>
      rw [saveTimes_concat, run_concat]
      exact step_player (ih fun e' he' => hes e' (List.mem_append_left _ he'))
        (hes e (List.mem_append_right _ (List.mem_singleton_self e)))

end

/-! ## What is stored after a save -/

/-- The event saves the player at this time, and the database carries it out. -/
def SavedAt (s : Stay) (e : StayEvent) (now : Int) : Prop :=
  saveTime s e = some now ∧ ∀ p ∈ s.player, Done s.store (addPlayTime now p)

section

variable {s : Stay} {e : StayEvent} {now : Int}

theorem save_store (hs : loggedOn s = true) (now : Int) :
    ∃ p, s.player = some p ∧
      (s.save now).store = (databaseSavePlayer s.store (addPlayTime now p)).2.1 := by
  obtain ⟨p, hp, hdate⟩ := (Option.any_eq_true _ _).1 hs
  refine ⟨p, hp, ?_⟩
  unfold Stay.save playerSave
  simp only [hp, if_pos (of_decide_eq_true hdate)]

/-- Every event that saves does it with `player_save`. -/
theorem step_store (h : saveTime s e = some now) :
    ∃ p, s.player = some p ∧
      (s.step e).store = (databaseSavePlayer s.store (addPlayTime now p)).2.1 := by
  have hwhen : ∀ (c : Prop) [Decidable c] (t : Int),
      (if loggedOn s = true ∧ c then some t else none) = some now →
        loggedOn s = true ∧ c ∧ t = now := by
    intro c _ t hif
    split at hif
    · next hc => exact ⟨hc.1, hc.2, Option.some.inj hif⟩
    · cases hif
  cases e with
  | query f => cases h
  | act f => cases h
  | tickEnd => cases h
  | turn t =>
      obtain ⟨hon, htimer, rfl⟩ := hwhen _ t h
      obtain ⟨p, hp, hstore⟩ := save_store hon t
      exact ⟨p, hp, by simpa [Stay.step, htimer] using hstore⟩
  | updated t =>
      obtain ⟨hon, htimer, rfl⟩ := hwhen _ t h
      obtain ⟨p, hp, hstore⟩ := save_store hon t
      have hdate : p.columns.loginDate ≠ 0 := by simpa [loggedOn, hp] using hon
      exact ⟨p, hp, by simpa [Stay.step, hp, hdate, htimer] using hstore⟩
  | destroy t =>
      have hon : loggedOn s = true ∧ True ∧ t = now := hwhen True t (by simpa [saveTime] using h)
      obtain ⟨hon, -, rfl⟩ := hon
      exact save_store hon t

theorem storedPlayTime_step {first : Profile} {times : List Int} (h : SavedAt s e now)
    (hs : ∀ p ∈ s.player, Counts first times p) :
    storedPlayTime first.name (s.step e).store.saved =
      some (first.columns.playTime + counted first.columns.loginDate times +
        (now - first.columns.loginDate)) := by
  obtain ⟨p, hp, hstore⟩ := step_store h.1
  obtain ⟨hname, hdate, htime⟩ := hs p hp
  have hstored := storedPlayTime_of_done (h.2 p hp)
  rw [hstore, ← hname, ← hdate]
  rw [← hdate] at htime
  rw [← htime]
  exact hstored

end

/-- The state a login leaves: nobody has a timer but the server. -/
def stayOf (c : Store Rows) (p : Profile) (serverTimer : Nat) : Stay where
  store := c
  player := some p
  serverTimer := serverTimer

theorem loginLoad_date {h : PwHash} {tile : StartTile} {now : Int} {c₀ c : Store Rows}
    {p₀ p : Profile} (hlogin : loginLoad h tile now c₀ p₀ = (.ok, c, p)) :
    p.columns.loginDate = now := by
  unfold loginLoad at hlogin
  simp only [Prod.mk.injEq] at hlogin
  obtain ⟨hok, -, hp⟩ := hlogin
  rw [if_pos hok] at hp
  rw [← hp]
  rfl

/-- After every save of a stay the account has the time it was loaded with and
the time since the login, exactly when no such save comes after others that
had time to add. -/
theorem play_time_iff (h : PwHash) (tile : StartTile) (now : Int) (c₀ c : Store Rows) (name : Int)
    (password : List Char) (p : Profile) (serverTimer : Nat) (es : List StayEvent)
    (hlogin : loginLoad h tile now c₀ (Profile.named name password) = (.ok, c, p))
    (hes : ∀ e ∈ es, LeavesTime e) :
    (∀ pre e post t, es = pre ++ e :: post → SavedAt ((stayOf c p serverTimer).run pre) e t →
        storedPlayTime p.name (((stayOf c p serverTimer).run pre).step e).store.saved =
          some (p.columns.playTime + (t - now))) ↔
      ∀ pre e post t, es = pre ++ e :: post → SavedAt ((stayOf c p serverTimer).run pre) e t →
        counted now (saveTimes (stayOf c p serverTimer) pre) = 0 := by
  have hdate := loginLoad_date hlogin
  have hstart : ∀ q ∈ (stayOf c p serverTimer).player, Counts p [] q := by
    intro q hq
    obtain rfl := Option.some.inj hq
    exact ⟨rfl, rfl, by simp [counted]⟩
  -- a save stores what the saves before it have added, and what it adds itself
  have hstored : ∀ pre e post t, es = pre ++ e :: post →
      SavedAt ((stayOf c p serverTimer).run pre) e t →
        storedPlayTime p.name (((stayOf c p serverTimer).run pre).step e).store.saved =
          some (p.columns.playTime + counted now (saveTimes (stayOf c p serverTimer) pre) +
            (t - now)) := by
    intro pre e post t hsplit hsaved
    have hpre : ∀ e' ∈ pre, LeavesTime e' := by
      intro e' he'
      exact hes e' (by simp [hsplit, he'])
    have hstep := storedPlayTime_step hsaved (run_player hstart hpre)
    rwa [hdate] at hstep
  constructor
  · intro hright pre e post t hsplit hsaved
    have hboth := (hstored pre e post t hsplit hsaved).symm.trans
      (hright pre e post t hsplit hsaved)
    have hsum := Option.some.inj hboth
    omega
  · intro hnone pre e post t hsplit hsaved
    rw [hstored pre e post t hsplit hsaved, hnone pre e post t hsplit hsaved, Int.add_zero]

/-- A login at time 10, of a player that has not played yet. -/
def loginAtTen : LoginReply × Store Rows × Profile :=
  loginLoad plainHash ⟨0, 0⟩ 10 (playedStore fun _ => false) (Profile.named 5 ['p'])

theorem play_time_iff_two :
    (∀ pre e post t, [StayEvent.turn 11, .destroy 12] = pre ++ e :: post →
        SavedAt ((stayOf loginAtTen.2.1 loginAtTen.2.2 0).run pre) e t →
          storedPlayTime loginAtTen.2.2.name
              (((stayOf loginAtTen.2.1 loginAtTen.2.2 0).run pre).step e).store.saved =
            some (loginAtTen.2.2.columns.playTime + (t - 10))) ↔
      ∀ pre e post t, [StayEvent.turn 11, .destroy 12] = pre ++ e :: post →
        SavedAt ((stayOf loginAtTen.2.1 loginAtTen.2.2 0).run pre) e t →
          counted 10 (saveTimes (stayOf loginAtTen.2.1 loginAtTen.2.2 0) pre) = 0 :=
  play_time_iff plainHash ⟨0, 0⟩ 10 (playedStore fun _ => false) _ 5 ['p'] _ 0
    [.turn 11, .destroy 12] (Prod.ext (by decide) rfl) (by simp [LeavesTime])

/-- A save one second after the login and one with the removal a second later:
three seconds are stored where two have passed. -/
theorem play_time_counted_twice :
    loginAtTen.1 = .ok ∧ loginAtTen.2.2.columns.playTime = 0 ∧
      saveTime (stayOf loginAtTen.2.1 loginAtTen.2.2 0) (.turn 11) = some 11 ∧
        saveTime ((stayOf loginAtTen.2.1 loginAtTen.2.2 0).run [.turn 11]) (.destroy 12) = some 12 ∧
          storedPlayTime 5
            ((stayOf loginAtTen.2.1 loginAtTen.2.2 0).run [.turn 11, .destroy 12]).store.saved =
              some 3 := by
  refine ⟨?_, ?_, ?_, ?_, ?_⟩ <;> decide +kernel

end Sundae.Proofs
