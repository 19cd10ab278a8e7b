import Mathlib.Data.List.InsertIdx
import Sundae.Proofs.Script

/-!
# One place for every script that waits

A coroutine that is alive and does not run is in one place of the three tables,
and in one only. The account is kept of all the records: whoever is alive is
registered once, except for the kill hooks, which run before they are
registered and are loose until they first yield. A call moves a record from one
place to another; what ends a script takes it from its place and clears the
flags of its player and its NPC.
-/

namespace Sundae.Proofs

open Sundae.Ref Sundae.Lib

variable {depth : Nat} {e e' : Engine} {tr : List (Engine × ScriptEvent)} {r : Nat}
variable {loose : List Nat}

/-! ## Calls and their ends -/

/-- A place in one of the tables. -/
inductive Place where
  | player (player : Nat)
  | paused (i : Nat)
  | loc (i : Nat)

def holds (e : Engine) : Place → Option Nat
  | .player player => e.playerScripts player
  | .paused i => e.pausedScripts[i]?
  | .loc i => e.deleteLocs[i]?.map (·.script)

def Alive (e : Engine) (r : Nat) : Prop := r < e.count ∧ (e.scripts r).dead = false

/-- The coroutine waits to be resumed. -/
def Suspended (e : Engine) (r : Nat) : Prop := Alive e r ∧ r ∉ e.running

/-- What the end of a script leaves behind. A script that was paused gave up
its player before. -/
structure Cleared (e : Engine) (r : Nat) : Prop where
  nowhere : ∀ place, holds e place ≠ some r
  player : (e.scripts r).paused = false → (e.scripts r).cleanUp ≠ .nothing →
    e.playerScripts (e.scripts r).player = none ∧ e.playerBusy (e.scripts r).player = false
  npcs : ∀ npc ∈ (e.scripts r).madeBusy, e.npcBusy npc = false

/-- No cancelling has failed, every coroutine that waits is in one place, and
every busy NPC belongs to a script that has not ended. -/
structure InOrder (e : Engine) : Prop where
  raised : e.raised = false
  place : ∀ r, Suspended e r → ∃! place, holds e place = some r
  npcs : ∀ npc, e.npcBusy npc = true → ∃ r, Alive e r ∧ npc ∈ (e.scripts r).madeBusy

/-- Every script that ends in the step is cleared up after. -/
def EndsClear (e e' : Engine) : Prop :=
  ∀ r, (e.scripts r).dead = false → (e'.scripts r).dead = true → Cleared e' r

/-! ## The account of the tables -/

def locScripts (e : Engine) : List Nat := e.deleteLocs.map (·.script)

/-- How often the record is in the tables, if its player is the one it is
registered for. -/
def registrations (e : Engine) (r : Nat) : Nat :=
  (if e.playerScripts (e.scripts r).player = some r then 1 else 0) +
    e.pausedScripts.count r + (locScripts e).count r

/-- The account, with some records that are loose. -/
structure Books (e : Engine) (loose : List Nat) : Prop where
  once : ∀ r, (Alive e r ∧ r ∉ loose) ∧ registrations e r = 1 ∨
    ¬ (Alive e r ∧ r ∉ loose) ∧ registrations e r = 0
  players : ∀ player r, e.playerScripts player = some r → (e.scripts r).player = player ∧
    (e.scripts r).paused = false ∧ (e.scripts r).cleanUp ≠ .nothing ∧
    ((e.scripts r).inMulti = none ∨ (e.scripts r).inMulti = some player)
  waiting : ∀ r, r ∈ e.pausedScripts ∨ r ∈ locScripts e →
    ((e.scripts r).paused = true ∨ (e.scripts r).cleanUp = .nothing) ∧
      (e.scripts r).inMulti = none
  unplaced : ∀ r ∈ loose, Alive e r
  distinct : loose.Nodup

theorem count_eraseIdx {l : List Nat} {i a : Nat} (h : l[i]? = some a) (r : Nat) :
    (l.eraseIdx i).count r + (if a = r then 1 else 0) = l.count r := by
  obtain ⟨hi, rfl⟩ := List.getElem?_eq_some_iff.1 h
  have hl : l = l.take i ++ l[i] :: l.drop (i + 1) := by simp
  have hcount := congrArg (List.count r) hl
  rw [List.count_append, List.count_cons] at hcount
  rw [List.eraseIdx_eq_take_drop_succ, List.count_append, hcount]
  simp only [beq_iff_eq]
  omega

namespace Books

variable (h : Books e loose)
include h

theorem alive_of_player {player : Nat} (hp : e.playerScripts player = some r) :
    Alive e r ∧ r ∉ loose ∧ r ∉ e.pausedScripts ∧ r ∉ locScripts e := by
  have hplayer := (h.players player r hp).1
  have hreg : registrations e r = 1 + e.pausedScripts.count r + (locScripts e).count r := by
    rw [registrations, hplayer, if_pos hp]
  rcases h.once r with ⟨hal, h1⟩ | ⟨-, h0⟩
  · exact ⟨hal.1, hal.2, List.count_eq_zero.1 (by omega), List.count_eq_zero.1 (by omega)⟩
  · omega

theorem alive_of_paused (hr : r ∈ e.pausedScripts) :
    Alive e r ∧ r ∉ loose ∧ e.pausedScripts.count r = 1 ∧ r ∉ locScripts e ∧
      ∀ player, e.playerScripts player ≠ some r := by
  have hpos := List.count_pos_iff.2 hr
  rcases h.once r with ⟨hal, h1⟩ | ⟨-, h0⟩
  · unfold registrations at h1
    refine ⟨hal.1, hal.2, by omega, List.count_eq_zero.1 (by omega), fun player hp => ?_⟩
    exact (h.alive_of_player hp).2.2.1 hr
  · unfold registrations at h0
    omega

theorem alive_of_loc (hr : r ∈ locScripts e) :
    Alive e r ∧ r ∉ loose ∧ (locScripts e).count r = 1 ∧ r ∉ e.pausedScripts ∧
      ∀ player, e.playerScripts player ≠ some r := by
  have hpos := List.count_pos_iff.2 hr
  rcases h.once r with ⟨hal, h1⟩ | ⟨-, h0⟩
  · unfold registrations at h1
    refine ⟨hal.1, hal.2, by omega, List.count_eq_zero.1 (by omega), fun player hp => ?_⟩
    exact (h.alive_of_player hp).2.2.2 hr
  · unfold registrations at h0
    omega

/-- What is loose, and what is not alive, is in no table. -/
theorem nowhere (hr : ¬ (Alive e r ∧ r ∉ loose)) : ∀ place, holds e place ≠ some r := by
  intro place hplace
  cases place with
  | player player =>
      have ha := h.alive_of_player hplace
      exact hr ⟨ha.1, ha.2.1⟩
  | paused i =>
      have ha := h.alive_of_paused (List.mem_of_getElem? hplace)
      exact hr ⟨ha.1, ha.2.1⟩
  | loc i =>
      have hmem : r ∈ locScripts e := by
        refine List.mem_of_getElem? (i := i) ?_
        rw [locScripts, List.getElem?_map]
        exact hplace
      have ha := h.alive_of_loc hmem
      exact hr ⟨ha.1, ha.2.1⟩

theorem zero_of_loose (hr : r ∈ loose) : registrations e r = 0 := by
  rcases h.once r with ⟨hal, -⟩ | ⟨-, h0⟩
  · exact absurd hr hal.2
  · exact h0

end Books

/-- Taking a record out of its place. -/
theorem Books.takeOut {p : Nat → Option Nat} {l : List Nat} {d : List DeleteLoc}
    (h : Books e loose) (hal : Alive e r) (hr : r ∉ loose)
    (hp : ∀ player s, p player = some s → e.playerScripts player = some s)
    (hl : ∀ s ∈ l, s ∈ e.pausedScripts)
    (hd : ∀ s ∈ d.map (·.script), s ∈ locScripts e)
    (hreg : ∀ s, registrations { e with playerScripts := p, pausedScripts := l, deleteLocs := d } s +
      (if s = r then 1 else 0) = registrations e s) :
    Books { e with playerScripts := p, pausedScripts := l, deleteLocs := d } (r :: loose) := by
  constructor
  · intro s
    have hs := hreg s
    have hal' : Alive { e with playerScripts := p, pausedScripts := l, deleteLocs := d } s ↔
      Alive e s := Iff.rfl
    by_cases hsr : s = r
    · subst hsr
      rw [if_pos rfl] at hs
      have h1 := (h.once s).resolve_right fun hn => hn.1 ⟨hal, hr⟩
      exact .inr ⟨fun hn => hn.2 (List.mem_cons_self ..), by omega⟩
    · rw [if_neg hsr, Nat.add_zero] at hs
      rw [hs, hal', List.mem_cons, not_or]
      simpa [hsr] using h.once s
  · exact fun player s hs => h.players player s (hp player s hs)
  · exact fun s hs => h.waiting s (hs.imp (hl s) (hd s))
  · intro s hs
    rcases List.mem_cons.1 hs with rfl | hs
    · exact hal
    · exact h.unplaced s hs
  · exact List.nodup_cons.2 ⟨hr, h.distinct⟩

theorem Books.unregister {player : Nat} (h : Books e loose)
    (hp : e.playerScripts player = some r) : Books (e.register player none) (r :: loose) := by
  obtain ⟨hal, hr, -, -⟩ := h.alive_of_player hp
  have hmono : ∀ q s, Function.update e.playerScripts player none q = some s →
      e.playerScripts q = some s := by
    intro q s hs
    by_cases hq : q = player
    · subst hq
      rw [Function.update_self] at hs
      cases hs
    · rwa [Function.update_of_ne hq] at hs
  refine h.takeOut (l := e.pausedScripts) (d := e.deleteLocs) hal hr hmono
    (fun _ hs => hs) (fun _ hs => hs) ?_
  intro s
  have hplayer := (h.players player r hp).1
  show (if Function.update e.playerScripts player none (e.scripts s).player = some s then 1 else 0) +
    e.pausedScripts.count s + (locScripts e).count s + _ = registrations e s
  unfold registrations
  by_cases hsr : s = r
  · subst hsr
    simp [hplayer, hp]
    omega
  · have hsame : (Function.update e.playerScripts player none (e.scripts s).player = some s) ↔
        e.playerScripts (e.scripts s).player = some s := by
      refine ⟨hmono _ s, fun hs => ?_⟩
      by_cases hq : (e.scripts s).player = player
      · rw [hq, hp] at hs
        exact absurd (Option.some.inj hs).symm hsr
      · rwa [Function.update_of_ne hq]
    simp [hsame, hsr]

theorem Books.unpause {i : Nat} (h : Books e loose) (hi : e.pausedScripts[i]? = some r) :
    Books { e with pausedScripts := e.pausedScripts.eraseIdx i } (r :: loose) := by
  obtain ⟨hal, hr, -⟩ := h.alive_of_paused (List.mem_of_getElem? hi)
  refine h.takeOut (p := e.playerScripts) (d := e.deleteLocs) hal hr (fun _ _ hs => hs)
    (fun _ hs => List.mem_of_mem_eraseIdx hs) (fun _ hs => hs) ?_
  intro s
  have hc := count_eraseIdx hi s
  have hif : (if r = s then 1 else 0) = if s = r then 1 else 0 := by simp [eq_comm]
  show (if e.playerScripts (e.scripts s).player = some s then 1 else 0) +
    (e.pausedScripts.eraseIdx i).count s + (locScripts e).count s + _ = registrations e s
  unfold registrations
  omega

theorem Books.unloc {i : Nat} (h : Books e loose) (hi : (locScripts e)[i]? = some r) :
    Books { e with deleteLocs := e.deleteLocs.eraseIdx i } (r :: loose) := by
  obtain ⟨hal, hr, -⟩ := h.alive_of_loc (List.mem_of_getElem? hi)
  have herase := (List.eraseIdx_map (·.script) e.deleteLocs i).symm
  refine h.takeOut (p := e.playerScripts) (l := e.pausedScripts) hal hr (fun _ _ hs => hs)
    (fun _ hs => hs) (fun _ hs => List.mem_of_mem_eraseIdx (herase ▸ hs)) ?_
  intro s
  have hc := count_eraseIdx hi s
  have hif : (if r = s then 1 else 0) = if s = r then 1 else 0 := by simp [eq_comm]
  show (if e.playerScripts (e.scripts s).player = some s then 1 else 0) +
    e.pausedScripts.count s + ((e.deleteLocs.eraseIdx i).map (·.script)).count s + _ =
      registrations e s
  rw [herase]
  unfold registrations
  unfold locScripts at *
  omega

/-- Putting a loose record in a place. -/
theorem Books.putIn {p : Nat → Option Nat} {l : List Nat} {d : List DeleteLoc}
    (h : Books e (r :: loose))
    (hp : ∀ player s, p player = some s → e.playerScripts player = some s ∨
      s = r ∧ (e.scripts r).player = player ∧
        (e.scripts r).paused = false ∧ (e.scripts r).cleanUp ≠ .nothing ∧
        ((e.scripts r).inMulti = none ∨ (e.scripts r).inMulti = some player))
    (hw : ∀ s, s ∈ l ∨ s ∈ d.map (·.script) → (s ∈ e.pausedScripts ∨ s ∈ locScripts e) ∨
      s = r ∧ ((e.scripts r).paused = true ∨ (e.scripts r).cleanUp = .nothing) ∧
        (e.scripts r).inMulti = none)
    (hreg : ∀ s, registrations { e with playerScripts := p, pausedScripts := l, deleteLocs := d } s =
      registrations e s + (if s = r then 1 else 0)) :
    Books { e with playerScripts := p, pausedScripts := l, deleteLocs := d } loose := by
  obtain ⟨hr, hnodup⟩ := List.nodup_cons.1 h.distinct
  have hal := h.unplaced r (List.mem_cons_self ..)
  constructor
  · intro s
    have hs := hreg s
    by_cases hsr : s = r
    · subst hsr
      have h0 := h.zero_of_loose (List.mem_cons_self ..)
      rw [if_pos rfl] at hs
      exact .inl ⟨⟨hal, hr⟩, by omega⟩
    · rw [if_neg hsr, Nat.add_zero] at hs
      rw [hs]
      have hal' : Alive { e with playerScripts := p, pausedScripts := l, deleteLocs := d } s ↔
        Alive e s := Iff.rfl
      rw [hal']
      simpa [hsr] using h.once s
  · intro player s hs
    rcases hp player s hs with hold | ⟨rfl, hnew⟩
    · exact h.players player s hold
    · exact hnew
  · intro s hs
    rcases hw s hs with hold | ⟨rfl, hnew⟩
    · exact h.waiting s hold
    · exact hnew
  · exact fun s hs => h.unplaced s (List.mem_cons_of_mem r hs)
  · exact hnodup

/-- What may be registered for the player. -/
def FitsPlayer (s : PlayerScript) (player : Nat) : Prop :=
  s.player = player ∧ s.paused = false ∧ s.cleanUp ≠ .nothing ∧
    (s.inMulti = none ∨ s.inMulti = some player)

/-- What may be paused. -/
def FitsPaused (s : PlayerScript) : Prop :=
  (s.paused = true ∨ s.cleanUp = .nothing) ∧ s.inMulti = none

theorem Books.enroll {player : Nat} (h : Books e (r :: loose))
    (hnone : e.playerScripts player = none) (hfit : FitsPlayer (e.scripts r) player) :
    Books (e.register player (some r)) loose := by
  refine h.putIn (l := e.pausedScripts) (d := e.deleteLocs) ?_ (fun s hs => .inl hs) ?_
  · intro q s hs
    by_cases hq : q = player
    · subst hq
      rw [Function.update_self] at hs
      exact .inr ⟨(Option.some.inj hs).symm, hfit⟩
    · rw [Function.update_of_ne hq] at hs
      exact .inl hs
  · intro s
    show (if Function.update e.playerScripts player (some r) (e.scripts s).player = some s
      then 1 else 0) + e.pausedScripts.count s + (locScripts e).count s = registrations e s + _
    unfold registrations
    by_cases hq : (e.scripts s).player = player
    · rw [hq, Function.update_self, hnone]
      simp only [Option.some.injEq, eq_comm (a := r), reduceCtorEq, if_false]
      omega
    · have hsr : s ≠ r := fun hsr => hq (hsr ▸ hfit.1)
      rw [Function.update_of_ne hq, if_neg hsr, Nat.add_zero]

theorem Books.enterPaused (h : Books e (r :: loose)) (hfit : FitsPaused (e.scripts r)) :
    Books { e with pausedScripts := e.pausedScripts ++ [r] } loose := by
  refine h.putIn (p := e.playerScripts) (d := e.deleteLocs) (fun _ _ hs => .inl hs) ?_ ?_
  · rintro s (hs | hs)
    · rcases List.mem_append.1 hs with hs | hs
      · exact .inl (.inl hs)
      · exact .inr ⟨List.mem_singleton.1 hs, hfit⟩
    · exact .inl (.inr hs)
  · intro s
    show _ + (e.pausedScripts ++ [r]).count s + (locScripts e).count s = registrations e s + _
    rw [List.count_append, List.count_singleton]
    unfold registrations
    simp only [beq_iff_eq, eq_comm (a := r)]
    omega

theorem Books.enterLoc {timer : Int} (h : Books e (r :: loose))
    (hfit : FitsPaused (e.scripts r)) :
    Books { e with deleteLocs := e.deleteLocs ++ [DeleteLoc.mk timer r] } loose := by
  refine h.putIn (p := e.playerScripts) (l := e.pausedScripts) (fun _ _ hs => .inl hs) ?_ ?_
  · rintro s (hs | hs)
    · exact .inl (.inl hs)
    · rw [List.map_append] at hs
      rcases List.mem_append.1 hs with hs | hs
      · exact .inl (.inr hs)
      · exact .inr ⟨List.mem_singleton.1 hs, hfit⟩
  · intro s
    show _ + e.pausedScripts.count s +
      ((e.deleteLocs ++ [DeleteLoc.mk timer r]).map (·.script)).count s = registrations e s + _
    rw [List.map_append, List.count_append, List.map_singleton, List.count_singleton]
    unfold registrations locScripts
    simp only [beq_iff_eq, eq_comm (a := r)]
    omega

/-- A loose record may be changed, as nothing is said of it while it lives. -/
theorem Books.edit {f : PlayerScript → PlayerScript} (h : Books e (r :: loose))
    (hdead : (f (e.scripts r)).dead = false) : Books (e.modifyScript r f) (r :: loose) := by
  have hnowhere := h.nowhere fun hn => hn.2 (List.mem_cons_self ..)
  have hloc : r ∉ locScripts e := by
    intro hr
    exact (h.alive_of_loc hr).2.1 (List.mem_cons_self ..)
  have hpaused : r ∉ e.pausedScripts := by
    intro hr
    exact (h.alive_of_paused hr).2.1 (List.mem_cons_self ..)
  have hother : ∀ s, s ≠ r → (e.modifyScript r f).scripts s = e.scripts s :=
    fun s hs => Function.update_of_ne hs _ _
  have hself : (e.modifyScript r f).scripts r = f (e.scripts r) := Function.update_self ..
  have hal : ∀ s, Alive (e.modifyScript r f) s ↔ Alive e s := by
    intro s
    by_cases hs : s = r
    · subst hs
      have hr := h.unplaced s (List.mem_cons_self ..)
      exact ⟨fun _ => hr, fun _ => ⟨hr.1, hself ▸ hdead⟩⟩
    · unfold Alive
      rw [hother s hs]
      exact Iff.rfl
  constructor
  · intro s
    by_cases hs : s = r
    · subst hs
      refine .inr ⟨fun hn => hn.2 (List.mem_cons_self ..), ?_⟩
      show (if e.playerScripts ((e.modifyScript s f).scripts s).player = some s then 1 else 0) +
        e.pausedScripts.count s + (locScripts e).count s = 0
      have hplayers : ∀ player, e.playerScripts player ≠ some s :=
        fun player => hnowhere (.player player)
      rw [if_neg (hplayers _), List.count_eq_zero.2 hpaused, List.count_eq_zero.2 hloc]
    · have hreg : registrations (e.modifyScript r f) s = registrations e s := by
        show (if e.playerScripts ((e.modifyScript r f).scripts s).player = some s then 1 else 0) +
          e.pausedScripts.count s + (locScripts e).count s = _
        rw [hother s hs]
        rfl
      rw [hal, hreg]
      exact h.once s
  · intro player s hs
    have hsr : s ≠ r := fun hsr => hnowhere (.player player) (hsr ▸ hs)
    rw [hother s hsr]
    exact h.players player s hs
  · intro s hs
    have hsr : s ≠ r := by
      rintro rfl
      exact hs.elim hpaused hloc
    rw [hother s hsr]
    exact h.waiting s hs
  · intro s hs
    exact (hal s).2 (h.unplaced s hs)
  · exact h.distinct

theorem Books.die (h : Books e (r :: loose)) : Books (e.die r) loose := by
  obtain ⟨hr, hnodup⟩ := List.nodup_cons.1 h.distinct
  have hnowhere := h.nowhere fun hn => hn.2 (List.mem_cons_self ..)
  have hother : ∀ s, s ≠ r → (e.die r).scripts s = e.scripts s :=
    fun s hs => Function.update_of_ne hs _ _
  have hself : ((e.die r).scripts r).dead = true := by simp
  have hplayer : ∀ s, ((e.die r).scripts s).player = (e.scripts s).player := by
    intro s
    by_cases hs : s = r
    · subst hs
      simp
    · rw [hother s hs]
  have hreg : ∀ s, registrations (e.die r) s = registrations e s := by
    intro s
    unfold registrations
    rw [hplayer]
    rfl
  constructor
  · intro s
    rw [hreg]
    by_cases hs : s = r
    · subst hs
      refine .inr ⟨fun hn => ?_, h.zero_of_loose (List.mem_cons_self ..)⟩
      exact absurd (hself.symm.trans hn.1.2) (by decide)
    · have hal : Alive (e.die r) s ↔ Alive e s := by
        unfold Alive
        rw [hother s hs]
        exact Iff.rfl
      rw [hal]
      simpa [hs] using h.once s
  · intro player s hs
    have hsr : s ≠ r := fun hsr => hnowhere (.player player) (hsr ▸ hs)
    rw [hother s hsr]
    exact h.players player s hs
  · intro s hs
    have hsr : s ≠ r := by
      rintro rfl
      rcases hs with hs | hs
      · exact (h.alive_of_paused hs).2.1 (List.mem_cons_self ..)
      · exact (h.alive_of_loc hs).2.1 (List.mem_cons_self ..)
    rw [hother s hsr]
    exact h.waiting s hs
  · intro s hs
    have hsr : s ≠ r := fun hsr => hr (hsr ▸ hs)
    have hal := h.unplaced s (List.mem_cons_of_mem r hs)
    exact ⟨hal.1, (hother s hsr).symm ▸ hal.2⟩
  · exact hnodup

theorem Books.new {s : PlayerScript} (h : Books e loose) (hs : s.dead = false) :
    Books (e.newPlayerScript s) (e.count :: loose) := by
  have hfresh : ¬ (Alive e e.count ∧ e.count ∉ loose) := fun hn => Nat.lt_irrefl _ hn.1.1
  have hnowhere := h.nowhere hfresh
  have hother : ∀ q, q ≠ e.count → (e.newPlayerScript s).scripts q = e.scripts q :=
    fun q hq => Function.update_of_ne hq _ _
  have hself : (e.newPlayerScript s).scripts e.count = s := Function.update_self ..
  have hpaused : e.count ∉ e.pausedScripts := fun hr => hfresh ⟨(h.alive_of_paused hr).1,
    (h.alive_of_paused hr).2.1⟩
  have hloc : e.count ∉ locScripts e := fun hr => hfresh ⟨(h.alive_of_loc hr).1,
    (h.alive_of_loc hr).2.1⟩
  constructor
  · intro q
    by_cases hq : q = e.count
    · subst hq
      refine .inr ⟨fun hn => hn.2 (List.mem_cons_self ..), ?_⟩
      show (if e.playerScripts _ = some e.count then 1 else 0) +
        e.pausedScripts.count e.count + (locScripts e).count e.count = 0
      have hplayers : ∀ player, e.playerScripts player ≠ some e.count :=
        fun player => hnowhere (.player player)
      rw [if_neg (hplayers _), List.count_eq_zero.2 hpaused, List.count_eq_zero.2 hloc]
    · have hal : Alive (e.newPlayerScript s) q ↔ Alive e q := by
        unfold Alive
        rw [hother q hq]
        have hlt : q < (e.newPlayerScript s).count ↔ q < e.count := by
          show q < e.count + 1 ↔ _
          omega
        rw [hlt]
      have hreg : registrations (e.newPlayerScript s) q = registrations e q := by
        show (if e.playerScripts ((e.newPlayerScript s).scripts q).player = some q then 1 else 0) +
          e.pausedScripts.count q + (locScripts e).count q = _
        rw [hother q hq]
        rfl
      rw [hal, hreg]
      simpa [hq] using h.once q
  · intro player q hq
    have hne : q ≠ e.count := fun hne => hnowhere (.player player) (hne ▸ hq)
    rw [hother q hne]
    exact h.players player q hq
  · intro q hq
    have hne : q ≠ e.count := by
      rintro rfl
      exact hq.elim hpaused hloc
    rw [hother q hne]
    exact h.waiting q hq
  · intro q hq
    rcases List.mem_cons.1 hq with rfl | hq
    · exact ⟨Nat.lt_succ_self _, (congrArg PlayerScript.dead hself).trans hs⟩
    · have hal := h.unplaced q hq
      exact ⟨Nat.lt_succ_of_lt hal.1, (hother q (Nat.ne_of_lt hal.1)).symm ▸ hal.2⟩
  · exact List.nodup_cons.2 ⟨fun hn => hfresh.elim ⟨h.unplaced _ hn, fun _ => by
      exact Nat.lt_irrefl _ (h.unplaced _ hn).1⟩, h.distinct⟩

/-- Of two records, what the account looks at is the same. -/
structure Alike (s s' : PlayerScript) : Prop where
  player : s'.player = s.player
  npc : s'.npc = s.npc
  paused : s'.paused = s.paused
  cleanUp : s'.cleanUp = s.cleanUp
  dead : s'.dead = s.dead
  inMulti : s'.inMulti = s.inMulti
  madeBusy : s.madeBusy ⊆ s'.madeBusy

theorem Alike.refl (s : PlayerScript) : Alike s s :=
  ⟨rfl, rfl, rfl, rfl, rfl, rfl, fun _ h => h⟩

/-- The tables are the same, and of the records what is looked at. -/
structure SameBooks (e e' : Engine) : Prop where
  scripts : ∀ r, Alike (e.scripts r) (e'.scripts r)
  count : e'.count = e.count
  playerScripts : e'.playerScripts = e.playerScripts
  pausedScripts : e'.pausedScripts = e.pausedScripts
  locScripts : locScripts e' = locScripts e

theorem SameBooks.alive (h : SameBooks e e') (r : Nat) : Alive e' r ↔ Alive e r := by
  unfold Alive
  rw [h.count, (h.scripts r).dead]

theorem Books.same (hb : Books e loose) (h : SameBooks e e') : Books e' loose := by
  constructor
  · intro r
    have hreg : registrations e' r = registrations e r := by
      unfold registrations
      rw [(h.scripts r).player, h.playerScripts, h.pausedScripts, h.locScripts]
    rw [hreg, h.alive]
    exact hb.once r
  · intro player r hr
    rw [h.playerScripts] at hr
    have hs := h.scripts r
    rw [hs.player, hs.paused, hs.cleanUp, hs.inMulti]
    exact hb.players player r hr
  · intro r hr
    rw [h.pausedScripts, h.locScripts] at hr
    have hs := h.scripts r
    rw [hs.paused, hs.cleanUp, hs.inMulti]
    exact hb.waiting r hr
  · intro r hr
    exact (h.alive r).2 (hb.unplaced r hr)
  · exact hb.distinct

theorem sameBooks_modify {f : PlayerScript → PlayerScript} (hf : ∀ s, Alike s (f s)) (r : Nat) :
    SameBooks e (e.modifyScript r f) := by
  refine ⟨fun s => ?_, rfl, rfl, rfl, rfl⟩
  by_cases hs : s = r
  · subst hs
    have hself : (e.modifyScript s f).scripts s = f (e.scripts s) := Function.update_self ..
    rw [hself]
    exact hf _
  · have hother : (e.modifyScript r f).scripts s = e.scripts s := Function.update_of_ne hs _ _
    rw [hother]
    exact .refl _

/-! ## What runs -/

/-- Kill hooks above what C code runs, or above one coroutine or loop. -/
inductive Stacked : List Frame → Prop where
  | nil : Stacked []
  | one (f : Frame) : Stacked [f]
  | kill (player r : Nat) {rest : List Frame} (h : Stacked rest) :
      Stacked (.kill player r :: rest)

def hookOf : Frame → Option (Nat × Nat)
  | .kill player r => some (player, r)
  | _ => none

/-- The kill hooks that have not yielded, and their players. -/
def hooks (stack : List Frame) : List (Nat × Nat) := stack.filterMap hookOf

/-- What holds of the coroutine while its frame is on the stack. -/
def FrameOk (e : Engine) : Frame → Prop
  | .process player r | .answer player r =>
    e.playerScripts player = some r ∧ e.playerThere player = true
  | .kill player r => FitsPlayer (e.scripts r) player ∧ (e.scripts r).inMulti = none ∧
    e.playerScripts player = none ∧ e.playerBusy player = true ∧ e.playerThere player = true
  | .paused i r => e.pausedScripts[i]? = some r
  | .loc i r => (locScripts e)[i]? = some r
  | .pausedFrom _ | .locsFrom _ => True

/-- The invariant. -/
structure Tidy (e : Engine) : Prop where
  books : Books e ((hooks e.stack).map Prod.snd)
  stacked : Stacked e.stack
  players : ((hooks e.stack).map Prod.fst).Nodup
  frames : ∀ f ∈ e.stack, FrameOk e f
  npcs : ∀ npc, e.npcBusy npc = true → ∃ r, Alive e r ∧ npc ∈ (e.scripts r).madeBusy
  raised : e.raised = false
  active : ∀ f ∈ e.stack, SetsActive f → ∀ r, f.script = some r → e.activeScript = some r

/-- A step as it should be. -/
def GoodStep (e e' : Engine) : Prop := Tidy e' ∧ EndsClear e e'

theorem endsClear_of_dead (h : ∀ r, (e'.scripts r).dead = true → (e.scripts r).dead = true) :
    EndsClear e e' := by
  intro r hr hr'
  rw [h r hr'] at hr
  cases hr

theorem mem_hooks {stack : List Frame} {player : Nat} :
    (player, r) ∈ hooks stack ↔ Frame.kill player r ∈ stack := by
  unfold hooks
  rw [List.mem_filterMap]
  constructor
  · rintro ⟨f, hf, ho⟩
    cases f with
    | kill player' r' =>
        cases ho
        exact hf
    | _ => cases ho
  · exact fun hf => ⟨_, hf, rfl⟩

/-- The coroutine below a kill hook is none of the hooks, and alone there. -/
theorem Stacked.rest_nil {f : Frame} {rest : List Frame} (h : Stacked (f :: rest))
    (hf : hookOf f = none) : rest = [] := by
  cases h with
  | one => rfl
  | kill player r h => cases hf

theorem Stacked.tail {f : Frame} {rest : List Frame} (h : Stacked (f :: rest)) :
    Stacked rest := by
  cases h with
  | one => exact .nil
  | kill player r h => exact h

/-- Nothing but what is on the stack changes, and nothing on it is a hook. -/
theorem Tidy.restack (h : Tidy e) (hh : hooks e.stack = []) {stack : List Frame}
    (hs : Stacked stack) (hh' : hooks stack = []) (hf : ∀ f ∈ stack, FrameOk e f)
    (ha : ∀ f ∈ stack, SetsActive f → ∀ r, f.script = some r → e.activeScript = some r) :
    Tidy { e with stack := stack } := by
  have hb := h.books
  rw [hh] at hb
  constructor
  · show Books _ ((hooks stack).map Prod.snd)
    rw [hh']
    exact ⟨hb.once, hb.players, hb.waiting, hb.unplaced, hb.distinct⟩
  · exact hs
  · show ((hooks stack).map Prod.fst).Nodup
    rw [hh']
    exact List.nodup_nil
  · exact hf
  · exact h.npcs
  · exact h.raised
  · exact ha

/-- A loop of the tick in place of what was at the bottom. -/
theorem Tidy.loop (h : Tidy e) (hh : hooks e.stack = []) {g : Frame} (hg : g.script = none) :
    Tidy { e with stack := [g] } := by
  cases g with
  | pausedFrom i =>
      refine h.restack hh (.one _) rfl (fun f hf => ?_) (fun f hf hset => ?_)
      · obtain rfl := List.mem_singleton.1 hf
        trivial
      · obtain rfl := List.mem_singleton.1 hf
        exact hset.elim
  | locsFrom i =>
      refine h.restack hh (.one _) rfl (fun f hf => ?_) (fun f hf hset => ?_)
      · obtain rfl := List.mem_singleton.1 hf
        trivial
      · obtain rfl := List.mem_singleton.1 hf
        exact hset.elim
  | _ => cases hg

theorem Tidy.bottom (h : Tidy e) {f : Frame} {rest : List Frame} (hs : e.stack = f :: rest)
    (hf : hookOf f = none) : rest = [] ∧ hooks e.stack = [] := by
  have hst := h.stacked
  rw [hs] at hst
  have hrest := hst.rest_nil hf
  subst hrest
  exact ⟨rfl, by simp [hs, hooks, hf]⟩

theorem Tidy.popped (h : Tidy e) (hh : hooks e.stack = []) : Tidy { e with stack := [] } :=
  h.restack hh .nil rfl (fun _ hf => nomatch hf) (fun _ hf => nomatch hf)

/-- Nothing changes that the invariant looks at, except that flags of players
whose hooks do not run may. -/
theorem Tidy.same (h : Tidy e) (hb : SameBooks e e') (hs : e'.stack = e.stack)
    (hthere : e'.playerThere = e.playerThere)
    (hbusy : ∀ player r, (player, r) ∈ hooks e.stack → e.playerBusy player = true →
      e'.playerBusy player = true)
    (hnpc : ∀ npc, e'.npcBusy npc = true → e.npcBusy npc = true ∨
      ∃ r, Alive e r ∧ npc ∈ (e'.scripts r).madeBusy)
    (hraised : e'.raised = false) (ha : e'.activeScript = e.activeScript) : GoodStep e e' := by
  refine ⟨?_, endsClear_of_dead fun r hr => (hb.scripts r).dead ▸ hr⟩
  constructor
  · rw [hs]
    exact h.books.same hb
  · rw [hs]
    exact h.stacked
  · rw [hs]
    exact h.players
  · intro f hf
    rw [hs] at hf
    have hok := h.frames f hf
    cases f with
    | process player r => exact ⟨hb.playerScripts ▸ hok.1, hthere ▸ hok.2⟩
    | answer player r => exact ⟨hb.playerScripts ▸ hok.1, hthere ▸ hok.2⟩
    | kill player r =>
        obtain ⟨⟨h1, h2, h3, h4⟩, hm, hnone, hby, hth⟩ := hok
        have hl := hb.scripts r
        refine ⟨⟨hl.player.trans h1, hl.paused.trans h2, ?_, ?_⟩, hl.inMulti.trans hm,
          hb.playerScripts ▸ hnone, hbusy player r (mem_hooks.2 hf) hby, hthere ▸ hth⟩
        · rw [hl.cleanUp]
          exact h3
        · rw [hl.inMulti]
          exact h4
    | paused i r =>
        show e'.pausedScripts[i]? = some r
        rw [hb.pausedScripts]
        exact hok
    | loc i r =>
        show (locScripts e')[i]? = some r
        rw [hb.locScripts]
        exact hok
    | pausedFrom i => trivial
    | locsFrom i => trivial
  · intro npc hn
    rcases hnpc npc hn with hold | ⟨r, hal, hmem⟩
    · obtain ⟨r, hal, hmem⟩ := h.npcs npc hold
      exact ⟨r, (hb.alive r).2 hal, (hb.scripts r).madeBusy hmem⟩
    · exact ⟨r, (hb.alive r).2 hal, hmem⟩
  · exact hraised
  · intro f hf hset r hr
    rw [ha]
    exact h.active f (hs ▸ hf) hset r hr

/-- With no coroutine on the stack. -/
theorem tidy_idle (hb : Books e [])
    (hs : e.stack = [] ∨ ∃ g : Frame, e.stack = [g] ∧ g.script = none)
    (hnpcs : ∀ npc, e.npcBusy npc = true → ∃ r, Alive e r ∧ npc ∈ (e.scripts r).madeBusy)
    (hraised : e.raised = false) : Tidy e := by
  have hidle : Tidy { e with stack := [] } :=
    ⟨⟨hb.once, hb.players, hb.waiting, hb.unplaced, hb.distinct⟩, .nil, List.nodup_nil,
      fun _ hf => absurd hf List.not_mem_nil, hnpcs, hraised,
      fun _ hf => absurd hf List.not_mem_nil⟩
  rcases hs with hs | ⟨g, hs, hg⟩
  · rw [← hs] at hidle
    exact hidle
  · have hloop := hidle.loop rfl hg
    have heq : ({ { e with stack := [] } with stack := [g] } : Engine) = e := by rw [← hs]
    rw [heq] at hloop
    exact hloop

/-! ## The end of a registered script -/

def freed (npcBusy : Nat → Bool) : Option Nat → Nat → Bool
  | none => npcBusy
  | some npc => Function.update npcBusy npc false

/-- What cancelling does, and coming to the end. -/
def ending (e : Engine) (player r : Nat) : Engine :=
  { e with
    scripts := Function.update e.scripts r { e.scripts r with dead := true }
    playerScripts := Function.update e.playerScripts player none
    playerBusy := Function.update e.playerBusy player false
    npcBusy := freed e.npcBusy (e.scripts r).npc }

/-- Of the NPCs the script made busy, only its own may still be. -/
def OthersFree (e : Engine) (r : Nat) : Prop :=
  ∀ npc ∈ (e.scripts r).madeBusy, e.npcBusy npc = true → (e.scripts r).npc = some npc

theorem freed_eq_true {npcBusy : Nat → Bool} {npc n : Nat} {o : Option Nat}
    (h : freed npcBusy o n = true) (ho : o = some npc) : n ≠ npc ∧ npcBusy n = true := by
  subst ho
  have hne : n ≠ npc := by
    rintro rfl
    rw [freed, Function.update_self] at h
    cases h
  rw [freed, Function.update_of_ne hne] at h
  exact ⟨hne, h⟩

theorem freed_le {npcBusy : Nat → Bool} {n : Nat} {o : Option Nat}
    (h : freed npcBusy o n = true) : npcBusy n = true := by
  cases o with
  | none => exact h
  | some npc => exact (freed_eq_true h rfl).2

theorem OthersFree.free (h : OthersFree e r) {npc : Nat} (hn : npc ∈ (e.scripts r).madeBusy) :
    freed e.npcBusy (e.scripts r).npc npc = false := by
  by_contra hf
  have htrue : freed e.npcBusy (e.scripts r).npc npc = true := by simpa using hf
  exact (freed_eq_true htrue (h npc hn (freed_le htrue))).1 rfl

theorem Books.ended {player : Nat} (h : Books e loose) (hp : e.playerScripts player = some r) :
    Books (ending e player r) loose := by
  have hd := (h.unregister hp).die
  exact ⟨hd.once, hd.players, hd.waiting, hd.unplaced, hd.distinct⟩

theorem ended_npcs {player : Nat} (h : OthersFree e r)
    (hn : ∀ npc, e.npcBusy npc = true → ∃ s, Alive e s ∧ npc ∈ (e.scripts s).madeBusy) (npc : Nat)
    (hb : (ending e player r).npcBusy npc = true) :
    ∃ s, Alive (ending e player r) s ∧ npc ∈ ((ending e player r).scripts s).madeBusy := by
  obtain ⟨s, hal, hmem⟩ := hn npc (freed_le hb)
  have hs : s ≠ r := by
    rintro rfl
    rw [show (ending e player s).npcBusy npc = false from h.free hmem] at hb
    cases hb
  have hother : (ending e player r).scripts s = e.scripts s := Function.update_of_ne hs _ _
  refine ⟨s, ⟨hal.1, ?_⟩, ?_⟩
  · rw [hother]
    exact hal.2
  · rw [hother]
    exact hmem

theorem ended_clear {player : Nat} (hb : Books (ending e player r) loose)
    (hplayer : (e.scripts r).player = player) (h : OthersFree e r) :
    EndsClear e (ending e player r) := by
  intro q hq hq'
  have hself : (ending e player r).scripts r = { e.scripts r with dead := true } :=
    Function.update_self ..
  have hqr : q = r := by
    by_contra hne
    have hother : (ending e player r).scripts q = e.scripts q := Function.update_of_ne hne _ _
    rw [hother, hq] at hq'
    cases hq'
  subst hqr
  constructor
  · refine hb.nowhere fun hn => ?_
    have hdead := hn.1.2
    rw [hself] at hdead
    cases hdead
  · intro _ _
    rw [hself]
    show Function.update e.playerScripts player none (e.scripts q).player = none ∧
      Function.update e.playerBusy player false (e.scripts q).player = false
    rw [hplayer, Function.update_self, Function.update_self]
    exact ⟨rfl, rfl⟩
  · intro npc hmem
    rw [hself] at hmem
    exact h.free hmem

/-- A script that waits is cancelled, whatever runs. -/
theorem Tidy.ended {player : Nat} (h : Tidy e) (hp : e.playerScripts player = some r)
    (hr : r ∉ e.running) (hfree : OthersFree e r) : GoodStep e (ending e player r) := by
  obtain ⟨hal, hloose, -, -⟩ := h.books.alive_of_player hp
  have hb := h.books.ended hp
  refine ⟨⟨hb, h.stacked, h.players, ?_, ended_npcs hfree h.npcs, h.raised, h.active⟩,
    ended_clear hb (h.books.players player r hp).1 hfree⟩
  intro f hf
  have hok := h.frames f hf
  have hnot : ∀ s, f.script = some s → s ≠ r := by
    rintro s hs rfl
    exact hr (List.mem_filterMap.2 ⟨f, hf, hs⟩)
  have hother : ∀ q s, f.script = some s → e.playerScripts q = some s →
      Function.update e.playerScripts player none q = some s := by
    intro q s hs hq
    have hne : q ≠ player := by
      rintro rfl
      exact hnot s hs (Option.some.inj (hq.symm.trans hp))
    rwa [Function.update_of_ne hne]
  cases f with
  | process q s => exact ⟨hother q s rfl hok.1, hok.2⟩
  | answer q s => exact ⟨hother q s rfl hok.1, hok.2⟩
  | kill q s =>
      have hs : (ending e player r).scripts s = e.scripts s :=
        Function.update_of_ne (hnot s rfl) _ _
      have hne : q ≠ player := by
        rintro rfl
        rw [hok.2.2.1] at hp
        cases hp
      show FitsPlayer ((ending e player r).scripts s) q ∧ _ ∧
        Function.update e.playerScripts player none q = none ∧
        Function.update e.playerBusy player false q = true ∧ _
      rw [hs, Function.update_of_ne hne, Function.update_of_ne hne]
      exact hok
  | paused i s => exact hok
  | loc i s => exact hok
  | pausedFrom i => trivial
  | locsFrom i => trivial

def NpcThere (e : Engine) (r : Nat) : Prop :=
  ∀ npc, (e.scripts r).npc = some npc → e.npcThere npc = true

theorem npcUnbusyWith_there {nested : Engine → Nat → Engine} {o : Option Nat}
    (h : ∀ npc, o = some npc → e.npcThere npc = true) :
    npcUnbusyWith nested e o = { e with npcBusy := freed e.npcBusy o } := by
  cases o with
  | none => rfl
  | some npc =>
      show (if e.npcThere npc then e.setNpcBusy npc false else nested e npc) = _
      rw [if_pos (h npc rfl)]
      rfl

theorem playerBusyWith_there {nested : Engine → Nat → Engine} {player : Nat} (busy : Bool)
    (h : e.playerThere player = true) :
    playerBusyWith nested e player busy = e.setPlayerBusy player busy :=
  if_pos h

theorem cancel_eq {player : Nat} (hp : e.playerScripts player = some r) (hr : r ∉ e.running)
    (hthere : e.playerThere player = true) (hnpc : NpcThere e r) :
    scriptEngineCancel (depth + 1) e player = ending e player r := by
  show cancelWith _ e player = _
  unfold cancelWith
  rw [hp]
  dsimp only
  rw [npcUnbusyWith_there hnpc, playerBusyWith_there
    (e := { e with npcBusy := freed e.npcBusy (e.scripts r).npc }) false hthere]
  exact if_neg hr

/-! ## The moves of what is at the bottom -/

/-- What a call changes in the record of its coroutine. -/
structure Edits (f : PlayerScript → PlayerScript) : Prop where
  player : ∀ s, (f s).player = s.player
  cleanUp : ∀ s, (f s).cleanUp = s.cleanUp
  dead : ∀ s, (f s).dead = s.dead
  madeBusy : ∀ s, (f s).madeBusy = s.madeBusy

section

variable {f : PlayerScript → PlayerScript} (hf : Edits f)
include hf

theorem Edits.dead_eq (q : Nat) : ((e.modifyScript r f).scripts q).dead = (e.scripts q).dead := by
  by_cases hq : q = r
  · subst hq
    have hself : (e.modifyScript q f).scripts q = f (e.scripts q) := Function.update_self ..
    rw [hself, hf.dead]
  · have hother : (e.modifyScript r f).scripts q = e.scripts q := Function.update_of_ne hq _ _
    rw [hother]

theorem Edits.madeBusy_eq (q : Nat) :
    ((e.modifyScript r f).scripts q).madeBusy = (e.scripts q).madeBusy := by
  by_cases hq : q = r
  · subst hq
    have hself : (e.modifyScript q f).scripts q = f (e.scripts q) := Function.update_self ..
    rw [hself, hf.madeBusy]
  · have hother : (e.modifyScript r f).scripts q = e.scripts q := Function.update_of_ne hq _ _
    rw [hother]

theorem Edits.npcs (h : Tidy e) (hscripts : e'.scripts = (e.modifyScript r f).scripts)
    (hcount : e'.count = e.count) (hnpc : e'.npcBusy = e.npcBusy) (npc : Nat)
    (hb : e'.npcBusy npc = true) : ∃ r, Alive e' r ∧ npc ∈ (e'.scripts r).madeBusy := by
  rw [hnpc] at hb
  obtain ⟨q, hal, hmem⟩ := h.npcs npc hb
  refine ⟨q, ⟨hcount ▸ hal.1, ?_⟩, ?_⟩
  · rw [hscripts, hf.dead_eq]
    exact hal.2
  · rw [hscripts, hf.madeBusy_eq]
    exact hmem

/-- A call that leaves no coroutine on the stack. -/
theorem Edits.step (h : Tidy e) (hscripts : e'.scripts = (e.modifyScript r f).scripts)
    (hcount : e'.count = e.count) (hnpc : e'.npcBusy = e.npcBusy) (hraised : e'.raised = false)
    (hs : e'.stack = [] ∨ ∃ g : Frame, e'.stack = [g] ∧ g.script = none) (hb : Books e' []) :
    GoodStep e e' := by
  refine ⟨tidy_idle hb hs (hf.npcs h hscripts hcount hnpc) hraised, ?_⟩
  refine endsClear_of_dead fun q hq => ?_
  rwa [hscripts, hf.dead_eq] at hq

end

/-- What is paused, or waits for its location, comes to its end. -/
theorem Tidy.waited (h : Tidy e) (hw : r ∈ e.pausedScripts ∨ r ∈ locScripts e)
    (hfree : ∀ npc ∈ (e.scripts r).madeBusy, e.npcBusy npc = false)
    (hscripts : e'.scripts = (e.die r).scripts) (hcount : e'.count = e.count)
    (hnpc : e'.npcBusy = e.npcBusy) (hraised : e'.raised = false)
    (hs : e'.stack = [] ∨ ∃ g : Frame, e'.stack = [g] ∧ g.script = none) (hb : Books e' []) :
    GoodStep e e' := by
  have hself : e'.scripts r = { e.scripts r with dead := true } := by
    rw [hscripts]
    exact Function.update_self ..
  have hother : ∀ q, q ≠ r → e'.scripts q = e.scripts q := by
    intro q hq
    rw [hscripts]
    exact Function.update_of_ne hq _ _
  have hpaused := (h.books.waiting r hw).1
  refine ⟨tidy_idle hb hs ?_ hraised, ?_⟩
  · intro npc hn
    rw [hnpc] at hn
    obtain ⟨q, hal, hmem⟩ := h.npcs npc hn
    have hq : q ≠ r := by
      rintro rfl
      rw [hfree npc hmem] at hn
      cases hn
    exact ⟨q, ⟨hcount ▸ hal.1, hother q hq ▸ hal.2⟩, hother q hq ▸ hmem⟩
  · intro q hq hq'
    have hqr : q = r := by
      by_contra hne
      rw [hother q hne, hq] at hq'
      cases hq'
    subst hqr
    constructor
    · refine hb.nowhere fun hn => ?_
      rw [hn.1.2] at hq'
      cases hq'
    · intro hp hc
      rw [hself] at hp hc
      rcases hpaused with ht | hn
      · rw [show (e.scripts q).paused = false from hp] at ht
        cases ht
      · exact absurd hn hc
    · intro npc hmem
      rw [hself] at hmem
      rw [hnpc]
      exact hfree npc hmem

section

variable {player : Nat} (h : Tidy e) (hhooks : hooks e.stack = [])
include h hhooks

theorem Tidy.books_idle : Books e [] := by
  have hb := h.books
  rw [hhooks] at hb
  exact hb

/-- A coroutine registered for its player yields in `multi`. -/
theorem Tidy.asks (hp : e.playerScripts player = some r) {f : PlayerScript → PlayerScript}
    (hf : Edits f) (hpaused : (f (e.scripts r)).paused = false)
    (hm : (f (e.scripts r)).inMulti = none ∨ (f (e.scripts r)).inMulti = some player)
    (busy : Nat → Bool) (active : Option Nat) :
    GoodStep e { e.modifyScript r f with
      playerBusy := busy, activeScript := active, stack := [] } := by
  have hb := h.books_idle hhooks
  obtain ⟨hplayer, -, hclean, -⟩ := hb.players player r hp
  have hdead := (hb.alive_of_player hp).1.2
  have hedit := (hb.unregister hp).edit ((hf.dead _).trans hdead)
  have hnone : ((e.register player none).modifyScript r f).playerScripts player = none :=
    Function.update_self ..
  have hself : ((e.register player none).modifyScript r f).scripts r = f (e.scripts r) :=
    Function.update_self ..
  have hroll := hedit.enroll hnone (by
    rw [hself]
    refine ⟨(hf.player _).trans hplayer, hpaused, ?_, hm⟩
    rw [hf.cleanUp]
    exact hclean)
  have hps : Function.update (Function.update e.playerScripts player none) player (some r) =
      e.playerScripts := by
    rw [Function.update_idem, ← hp, Function.update_eq_self]
  refine hf.step h rfl rfl rfl h.raised (.inl rfl) (hroll.same ?_)
  exact ⟨fun _ => .refl _, rfl, hps.symm, rfl, rfl⟩

/-- It pauses. -/
theorem Tidy.pauses (hp : e.playerScripts player = some r) {f : PlayerScript → PlayerScript}
    (hf : Edits f) (hfit : FitsPaused (f (e.scripts r))) (busy : Nat → Bool) :
    GoodStep e { (e.register player none).modifyScript r f with
      pausedScripts := e.pausedScripts ++ [r], playerBusy := busy, stack := [] } := by
  have hb := h.books_idle hhooks
  have hdead := (hb.alive_of_player hp).1.2
  have hedit := (hb.unregister hp).edit ((hf.dead _).trans hdead)
  have hself : ((e.register player none).modifyScript r f).scripts r = f (e.scripts r) :=
    Function.update_self ..
  have hin := hedit.enterPaused (hself.symm ▸ hfit)
  exact hf.step h rfl rfl rfl h.raised (.inl rfl) (hin.same ⟨fun _ => .refl _, rfl, rfl, rfl, rfl⟩)

theorem Tidy.addsLoc (hp : e.playerScripts player = some r) {f : PlayerScript → PlayerScript}
    (hf : Edits f) (hfit : FitsPaused (f (e.scripts r))) (busy : Nat → Bool) (timer : Int) :
    GoodStep e { (e.register player none).modifyScript r f with
      deleteLocs := e.deleteLocs ++ [DeleteLoc.mk timer r], playerBusy := busy, stack := [] } := by
  have hb := h.books_idle hhooks
  have hdead := (hb.alive_of_player hp).1.2
  have hedit := (hb.unregister hp).edit ((hf.dead _).trans hdead)
  have hself : ((e.register player none).modifyScript r f).scripts r = f (e.scripts r) :=
    Function.update_self ..
  have hin : Books { (e.register player none).modifyScript r f with
      deleteLocs := e.deleteLocs ++ [DeleteLoc.mk timer r] } [] :=
    hedit.enterLoc (hself.symm ▸ hfit)
  exact hf.step h rfl rfl rfl h.raised (.inl rfl) (hin.same ⟨fun _ => .refl _, rfl, rfl, rfl, rfl⟩)

variable {i : Nat}

/-- What the tick resumed pauses again. -/
theorem Tidy.pausesAgain (hi : e.pausedScripts[i]? = some r) {f : PlayerScript → PlayerScript}
    (hf : Edits f) (hfit : FitsPaused (f (e.scripts r))) (busy : Nat → Bool)
    (hnone : e.playerScripts player = none) :
    GoodStep e { (e.register player none).modifyScript r f with
      pausedScripts := (e.pausedScripts ++ [r]).eraseIdx i, playerBusy := busy,
      stack := [.pausedFrom i] } := by
  have hb := h.books_idle hhooks
  have hdead := (hb.alive_of_paused (List.mem_of_getElem? hi)).1.2
  have hedit := (hb.unpause hi).edit ((hf.dead _).trans hdead)
  have hself : ((e.modifyScript r f).scripts r) = f (e.scripts r) := Function.update_self ..
  have hin := hedit.enterPaused (hself.symm ▸ hfit)
  have hlt : i < e.pausedScripts.length := (List.getElem?_eq_some_iff.1 hi).1
  have hps : Function.update e.playerScripts player none = e.playerScripts := by
    rw [← hnone, Function.update_eq_self]
  refine hf.step h rfl rfl rfl h.raised (.inr ⟨_, rfl, rfl⟩) (hin.same ?_)
  exact ⟨fun _ => .refl _, rfl, hps, List.eraseIdx_append_of_lt_length hlt _, rfl⟩

theorem Tidy.addsLocAfter (hi : e.pausedScripts[i]? = some r) {f : PlayerScript → PlayerScript}
    (hf : Edits f) (hfit : FitsPaused (f (e.scripts r))) (busy : Nat → Bool)
    (hnone : e.playerScripts player = none) (timer : Int) :
    GoodStep e { (e.register player none).modifyScript r f with
      pausedScripts := e.pausedScripts.eraseIdx i
      deleteLocs := e.deleteLocs ++ [DeleteLoc.mk timer r], playerBusy := busy,
      stack := [.pausedFrom i] } := by
  have hb := h.books_idle hhooks
  have hdead := (hb.alive_of_paused (List.mem_of_getElem? hi)).1.2
  have hedit := (hb.unpause hi).edit ((hf.dead _).trans hdead)
  have hself : ((e.modifyScript r f).scripts r) = f (e.scripts r) := Function.update_self ..
  have hin : Books { e.modifyScript r f with
      pausedScripts := e.pausedScripts.eraseIdx i
      deleteLocs := e.deleteLocs ++ [DeleteLoc.mk timer r] } [] :=
    hedit.enterLoc (hself.symm ▸ hfit)
  have hps : Function.update e.playerScripts player none = e.playerScripts := by
    rw [← hnone, Function.update_eq_self]
  refine hf.step h rfl rfl rfl h.raised (.inr ⟨_, rfl, rfl⟩) (hin.same ?_)
  exact ⟨fun _ => .refl _, rfl, hps, rfl, rfl⟩

/-- It ends. -/
theorem Tidy.leavesPaused (hi : e.pausedScripts[i]? = some r)
    (hfree : ∀ npc ∈ (e.scripts r).madeBusy, e.npcBusy npc = false) :
    GoodStep e { e.die r with
      pausedScripts := e.pausedScripts.eraseIdx i, stack := [.pausedFrom i] } := by
  have hd := ((h.books_idle hhooks).unpause hi).die
  refine h.waited (.inl (List.mem_of_getElem? hi)) hfree rfl rfl rfl h.raised
    (.inr ⟨_, rfl, rfl⟩) (hd.same ?_)
  exact ⟨fun _ => .refl _, rfl, rfl, rfl, rfl⟩

theorem Tidy.leavesLoc (hi : (locScripts e)[i]? = some r)
    (hfree : ∀ npc ∈ (e.scripts r).madeBusy, e.npcBusy npc = false) :
    GoodStep e { e.die r with
      deleteLocs := e.deleteLocs.eraseIdx i, stack := [.locsFrom i] } := by
  have hd := ((h.books_idle hhooks).unloc hi).die
  refine h.waited (.inr (List.mem_of_getElem? hi)) hfree rfl rfl rfl h.raised
    (.inr ⟨_, rfl, rfl⟩) (hd.same ?_)
  exact ⟨fun _ => .refl _, rfl, rfl, rfl, rfl⟩

end

/-! ## New records -/

/-- What is on the stack does not mind a new record. -/
theorem FrameOk.grow {s : PlayerScript} {f : Frame} (h : FrameOk e f)
    (hal : ∀ player r, f = .kill player r → Alive e r)
    (hscripts : e'.scripts = (e.newPlayerScript s).scripts)
    (hps : e'.playerScripts = e.playerScripts) (hthere : e'.playerThere = e.playerThere)
    (hbusy : ∀ player, e.playerBusy player = true → e'.playerBusy player = true)
    (hpaused : e.pausedScripts <+: e'.pausedScripts) (hlocs : locScripts e' = locScripts e) :
    FrameOk e' f := by
  cases f with
  | process player r => exact ⟨hps ▸ h.1, hthere ▸ h.2⟩
  | answer player r => exact ⟨hps ▸ h.1, hthere ▸ h.2⟩
  | kill player r =>
      have hne : r ≠ e.count := Nat.ne_of_lt (hal player r rfl).1
      have hs : e'.scripts r = e.scripts r := by
        rw [hscripts]
        exact Function.update_of_ne hne _ _
      obtain ⟨hfit, hm, hnone, hb, hth⟩ := h
      exact ⟨hs ▸ hfit, hs ▸ hm, hps ▸ hnone, hbusy player hb, hthere ▸ hth⟩
  | paused i r =>
      obtain ⟨l, hl⟩ := hpaused
      have hlt : i < e.pausedScripts.length := (List.getElem?_eq_some_iff.1 h).1
      show e'.pausedScripts[i]? = some r
      rw [← hl, List.getElem?_append_left hlt]
      exact h
  | loc i r =>
      show (locScripts e')[i]? = some r
      rw [hlocs]
      exact h
  | pausedFrom i => trivial
  | locsFrom i => trivial

/-- The NPCs that were busy, and those the new script makes busy. -/
theorem Tidy.npcs_new (h : Tidy e) {s : PlayerScript} (hs : s.dead = false)
    (hscripts : e'.scripts = (e.newPlayerScript s).scripts) (hcount : e'.count = e.count + 1)
    (hnpc : ∀ npc, e'.npcBusy npc = true → e.npcBusy npc = true ∨ npc ∈ s.madeBusy) (npc : Nat)
    (hb : e'.npcBusy npc = true) : ∃ r, Alive e' r ∧ npc ∈ (e'.scripts r).madeBusy := by
  rcases hnpc npc hb with hold | hnew
  · obtain ⟨r, hal, hmem⟩ := h.npcs npc hold
    have hr : e'.scripts r = e.scripts r := by
      rw [hscripts]
      exact Function.update_of_ne (Nat.ne_of_lt hal.1) _ _
    refine ⟨r, ⟨?_, hr ▸ hal.2⟩, hr ▸ hmem⟩
    rw [hcount]
    exact Nat.lt_succ_of_lt hal.1
  · have hself : e'.scripts e.count = s := by
      rw [hscripts]
      exact Function.update_self ..
    refine ⟨e.count, ⟨?_, hself ▸ hs⟩, hself ▸ hnew⟩
    rw [hcount]
    exact Nat.lt_succ_self _

theorem endsClear_new {s : PlayerScript} (hs : s.dead = false)
    (hscripts : e'.scripts = (e.newPlayerScript s).scripts) : EndsClear e e' := by
  refine endsClear_of_dead fun q hq => ?_
  rw [hscripts] at hq
  by_cases hqc : q = e.count
  · subst hqc
    rw [show (e.newPlayerScript s).scripts e.count = s from Function.update_self .., hs] at hq
    cases hq
  · rwa [show (e.newPlayerScript s).scripts q = e.scripts q from
      Function.update_of_ne hqc _ _] at hq

theorem Tidy.faces (h : Tidy e) (player : Nat) :
    GoodStep e (scriptEngineNpcFacePlayer e player) := by
  let s : PlayerScript := { player := player, cleanUp := .nothing }
  have hb : Books (e.newPlayerScript s) _ := h.books.new rfl
  have hself : (e.newPlayerScript s).scripts e.count = s := Function.update_self ..
  have hin := hb.enterPaused (by
    rw [hself]
    exact ⟨.inr rfl, rfl⟩)
  refine ⟨⟨hin, h.stacked, h.players, fun f hf => ?_, ?_, h.raised, h.active⟩,
    endsClear_new (s := s) rfl rfl⟩
  · refine (h.frames f hf).grow (s := s) ?_ rfl rfl rfl (fun _ hb => hb)
      (List.prefix_append _ _) rfl
    rintro q r rfl
    exact h.books.unplaced r (List.mem_map_of_mem (mem_hooks.2 hf))
  · exact h.npcs_new (s := s) rfl rfl rfl fun npc hn => .inl hn

def madeBusy (npcBusy : Nat → Bool) : Option Nat → Nat → Bool
  | none => npcBusy
  | some npc => Function.update npcBusy npc true

theorem madeBusy_le {npcBusy : Nat → Bool} {o : Option Nat} {n : Nat}
    (h : madeBusy npcBusy o n = true) : npcBusy n = true ∨ n ∈ o.toList := by
  cases o with
  | none => exact .inl h
  | some npc =>
      by_cases hn : n = npc
      · exact .inr (List.mem_singleton.2 hn)
      · rw [madeBusy, Function.update_of_ne hn] at h
        exact .inl h

theorem Tidy.starts (h : Tidy e) (hs : e.stack = []) {player : Nat} {npc : Option Nat}
    (hnone : e.playerScripts player = none) :
    GoodStep e { (e.newPlayerScript { player := player, npc := npc, madeBusy := npc.toList }).register
        player (some e.count) with
      npcBusy := madeBusy e.npcBusy npc
      playerBusy := Function.update e.playerBusy player true } := by
  let s : PlayerScript := { player := player, npc := npc, madeBusy := npc.toList }
  have hb := h.books
  rw [hs] at hb
  have hnew : Books (e.newPlayerScript s) [e.count] := hb.new rfl
  have hself : (e.newPlayerScript s).scripts e.count = s := Function.update_self ..
  have hroll := hnew.enroll hnone (by
    rw [hself]
    exact ⟨rfl, rfl, CleanUp.noConfusion, .inl rfl⟩)
  refine ⟨tidy_idle (hroll.same ⟨fun _ => .refl _, rfl, rfl, rfl, rfl⟩) (.inl hs) ?_ h.raised,
    endsClear_new (s := s) rfl rfl⟩
  exact h.npcs_new (s := s) rfl rfl rfl fun n hn => madeBusy_le hn

theorem Tidy.hooks_alive (h : Tidy e) {player : Nat} (hf : Frame.kill player r ∈ e.stack) :
    Alive e r :=
  h.books.unplaced r (List.mem_map_of_mem (mem_hooks.2 hf))

/-- A kill hook runs: no other does for its player, who is not busy. -/
theorem Tidy.kills (h : Tidy e) {player npc : Nat} (hnone : e.playerScripts player = none)
    (hidle : e.playerBusy player = false) (hthere : e.playerThere player = true) :
    GoodStep e { e.newPlayerScript
        { player := player, npc := some npc, cleanUp := .playerFirst, madeBusy := [npc] } with
      playerBusy := Function.update e.playerBusy player true
      npcBusy := Function.update e.npcBusy npc true
      stack := .kill player e.count :: e.stack } := by
  let s : PlayerScript :=
    { player := player, npc := some npc, cleanUp := .playerFirst, madeBusy := [npc] }
  have hnew : Books (e.newPlayerScript s) _ := h.books.new rfl
  have hself : (e.newPlayerScript s).scripts e.count = s := Function.update_self ..
  have hfirst : player ∉ (hooks e.stack).map Prod.fst := by
    intro hmem
    obtain ⟨⟨q, r⟩, hq, rfl⟩ := List.mem_map.1 hmem
    have hbusy := (h.frames _ (mem_hooks.1 hq)).2.2.2.1
    rw [hidle] at hbusy
    cases hbusy
  refine ⟨⟨hnew.same ⟨fun _ => .refl _, rfl, rfl, rfl, rfl⟩, .kill player _ h.stacked,
    List.nodup_cons.2 ⟨hfirst, h.players⟩, ?_, ?_, h.raised, ?_⟩, endsClear_new (s := s) rfl rfl⟩
  · intro f hf
    rcases List.mem_cons.1 hf with rfl | hf
    · show FitsPlayer ((e.newPlayerScript s).scripts e.count) player ∧ _ ∧ _ ∧
        Function.update e.playerBusy player true player = true ∧ _
      rw [hself, Function.update_self]
      exact ⟨⟨rfl, rfl, CleanUp.noConfusion, .inl rfl⟩, rfl, hnone, rfl, hthere⟩
    · refine (h.frames f hf).grow (s := s) ?_ rfl rfl rfl ?_ List.prefix_rfl rfl
      · rintro q r rfl
        exact h.hooks_alive hf
      · intro q hq
        show Function.update e.playerBusy player true q = true
        by_cases hqp : q = player
        · subst hqp
          exact Function.update_self ..
        · rwa [Function.update_of_ne hqp]
  · refine h.npcs_new (s := s) rfl rfl rfl fun n hn => ?_
    by_cases hnn : n = npc
    · exact .inr (List.mem_singleton.2 hnn)
    · have hold : Function.update e.npcBusy npc true n = true := hn
      rw [Function.update_of_ne hnn] at hold
      exact .inl hold
  · intro f hf hset
    rcases List.mem_cons.1 hf with rfl | hf
    · exact hset.elim
    · exact h.active f hf hset

/-- A kill hook yields for the first time, and is registered. -/
theorem Tidy.hooked (h : Tidy e) {player : Nat} {rest : List Frame}
    (hs : e.stack = .kill player r :: rest) {f : PlayerScript → PlayerScript} (hf : Edits f)
    (hpaused : (f (e.scripts r)).paused = false)
    (hm : (f (e.scripts r)).inMulti = none ∨ (f (e.scripts r)).inMulti = some player)
    (busy : Nat → Bool) (hbusy : ∀ q, q ≠ player → busy q = e.playerBusy q) :
    GoodStep e { (e.modifyScript r f).register player (some r) with
      playerBusy := busy, stack := rest } := by
  have hmem : Frame.kill player r ∈ e.stack := hs ▸ List.mem_cons_self ..
  obtain ⟨hfit, -, hnone, -, -⟩ := h.frames _ hmem
  have hal := h.hooks_alive hmem
  have hhooks : hooks e.stack = (player, r) :: hooks rest := by rw [hs]; rfl
  have hb := h.books
  have hplayers := h.players
  rw [hhooks] at hb hplayers
  have hstacked := h.stacked
  rw [hs] at hstacked
  have hedit := hb.edit ((hf.dead _).trans hal.2)
  have hself : (e.modifyScript r f).scripts r = f (e.scripts r) := Function.update_self ..
  have hroll := hedit.enroll hnone (by
    rw [hself]
    refine ⟨(hf.player _).trans hfit.1, hpaused, ?_, hm⟩
    rw [hf.cleanUp]
    exact hfit.2.2.1)
  refine ⟨⟨hroll.same ⟨fun _ => .refl _, rfl, rfl, rfl, rfl⟩, hstacked.tail,
    (List.nodup_cons.1 hplayers).2, ?_, hf.npcs h rfl rfl rfl, h.raised, ?_⟩, ?_⟩
  · intro g hg
    have hg' : g ∈ e.stack := hs ▸ List.mem_cons_of_mem _ hg
    have hok := h.frames g hg'
    have hother : ∀ q s, e.playerScripts q = some s →
        Function.update e.playerScripts player (some r) q = some s := by
      intro q s hq
      have hne : q ≠ player := by
        rintro rfl
        rw [hnone] at hq
        cases hq
      rwa [Function.update_of_ne hne]
    cases g with
    | process q s => exact ⟨hother q s hok.1, hok.2⟩
    | answer q s => exact ⟨hother q s hok.1, hok.2⟩
    | kill q s =>
        have hqs : (q, s) ∈ hooks rest := mem_hooks.2 hg
        have hq : q ≠ player := by
          rintro rfl
          exact (List.nodup_cons.1 hplayers).1 (List.mem_map.2 ⟨_, hqs, rfl⟩)
        have hsr : s ≠ r := by
          rintro rfl
          exact (List.nodup_cons.1 hb.distinct).1 (List.mem_map.2 ⟨_, hqs, rfl⟩)
        have hscr : (e.modifyScript r f).scripts s = e.scripts s :=
          Function.update_of_ne hsr _ _
        show FitsPlayer ((e.modifyScript r f).scripts s) q ∧
          ((e.modifyScript r f).scripts s).inMulti = none ∧
          Function.update e.playerScripts player (some r) q = none ∧ busy q = true ∧ _
        rw [hscr, Function.update_of_ne hq, hbusy q hq]
        exact hok
    | paused i s => exact hok
    | loc i s => exact hok
    | pausedFrom i => trivial
    | locsFrom i => trivial
  · intro g hg
    exact h.active g (hs ▸ List.mem_cons_of_mem _ hg)
  · refine endsClear_of_dead fun q hq => ?_
    have hq' : ((e.modifyScript r f).scripts q).dead = true := hq
    rwa [hf.dead_eq] at hq'

end Sundae.Proofs
