import Mathlib.Data.Finite.Prod
import Mathlib.Data.Fintype.Pi
import Mathlib.Dynamics.PeriodicPts.Lemmas
import Mathlib.Data.Nat.ModEq
import Sundae.Lib.Lossless
import Sundae.Ref.Random

/-!
# What the generators keep

A turn of `doisaac` loses nothing of the internal state: the new word of `mm`
tells where `bb` was read, and so the old word, `aa` and `bb`. A set of 256
words is then a permutation of the states, which `cc` alone keeps from closing
before 2³² sets, and whatever `randrsl` is seeded with can be told from the
state at any later time: the second pass of `isaac_init` leaves in `mm` what
the first had there, and that is the seed, fed through `mix`. The small
generator is a permutation of its states too.
-/

namespace Sundae.Proofs

open Function
open Sundae.Lib
open Sundae.Ref

/-! ## A set of words -/

theorem scramble_injective (i : Fin 256) : Injective (scramble i) := by
  intro a b h
  simp only [scramble] at h
  split at h
  · exact xor_shiftLeft_injective (by decide) h
  · exact xor_ushiftRight_injective (by decide) h
  · exact xor_shiftLeft_injective (by decide) h
  · exact xor_ushiftRight_injective (by decide) h

theorem isaacTurn_injective (i : Fin 256) : Injective fun s => isaacTurn s i := by
  intro s t h
  simp only [isaacTurn, IsaacState.mk.injEq] at h
  obtain ⟨hmm, haa, hbb, hcc⟩ := h
  have hy := congrFun hmm i
  simp only [update_self] at hy
  -- `bb` was read from the new `mm`
  have hx : s.mm i = t.mm i := by
    rw [hmm, hy] at hbb
    exact add_left_cancel hbb
  have hold : s.mm = t.mm := by
    funext j
    by_cases hj : j = i
    · rw [hj, hx]
    · have hjth := congrFun hmm j
      rwa [update_of_ne hj, update_of_ne hj] at hjth
  have haa' : s.aa = t.aa := by
    rw [hold] at haa
    exact scramble_injective i (add_left_cancel haa)
  have hbb' : s.bb = t.bb := by
    rw [haa, hold] at hy
    exact add_left_cancel hy
  cases s
  cases t
  simp_all

/-- What a set of words leaves of the state. -/
def nextState (s : IsaacState) : IsaacState :=
  (List.finRange 256).foldl isaacTurn { s with cc := s.cc + 1, bb := s.bb + (s.cc + 1) }

theorem foldl_resultTurn_state (l : List (Fin 256)) (s : Isaac) :
    (l.foldl resultTurn s).state = l.foldl isaacTurn s.state := by
  induction l generalizing s with
  | nil => rfl
  | cons i l ih => rw [List.foldl_cons, List.foldl_cons, ih]; rfl

theorem doisaac_state (s : Isaac) : (doisaac s).state = nextState s.state :=
  foldl_resultTurn_state _ _

theorem nextState_injective : Injective nextState := by
  intro s t h
  have hstart := foldl_injective isaacTurn_injective _ h
  simp only [IsaacState.mk.injEq] at hstart
  obtain ⟨hmm, haa, hbb, hcc⟩ := hstart
  have hcc' := add_right_cancel hcc
  rw [hcc'] at hbb
  have hbb' := add_right_cancel hbb
  cases s
  cases t
  simp_all

theorem foldl_isaacTurn_cc (l : List (Fin 256)) (s : IsaacState) :
    (l.foldl isaacTurn s).cc = s.cc := by
  induction l generalizing s with
  | nil => rfl
  | cons i l ih => rw [List.foldl_cons, ih]; rfl

theorem nextState_cc (n : Nat) (s : IsaacState) :
    (nextState^[n] s).cc = s.cc + BitVec.ofNat 32 n := by
  induction n generalizing s with
  | zero => simp
  | succ n ih =>
      rw [iterate_succ_apply, ih, nextState, foldl_isaacTurn_cc, BitVec.ofNat_add, add_assoc,
        add_comm (BitVec.ofNat 32 n)]
      rfl

/-- The words of a set are those of the state it begins in. -/
theorem foldl_resultTurn_congr {l : List (Fin 256)} {s t : Isaac} {i : Fin 256}
    (hstate : s.state = t.state) (hi : i ∈ l ∨ s.randrsl i = t.randrsl i) :
    (l.foldl resultTurn s).randrsl i = (l.foldl resultTurn t).randrsl i := by
  induction l generalizing s t with
  | nil => exact hi.resolve_left List.not_mem_nil
  | cons j l ih =>
      refine ih (congrArg (isaacTurn · j) hstate) ?_
      by_cases hij : i = j
      · subst hij
        simp [resultTurn, hstate]
      · refine hi.imp (fun h => ?_) (fun h => ?_)
        · exact (List.mem_cons.1 h).resolve_left hij
        · simpa [resultTurn, hij] using h

theorem doisaac_randrsl {s t : Isaac} (hstate : s.state = t.state) :
    (doisaac s).randrsl = (doisaac t).randrsl := by
  funext i
  unfold doisaac
  exact foldl_resultTurn_congr (by rw [hstate]) (Or.inl (List.mem_finRange i))

theorem foldl_resultTurn_withCnt (l : List (Fin 256)) (s : Isaac) (c : Fin 257) :
    l.foldl resultTurn { s with randcnt := c } =
      { l.foldl resultTurn s with randcnt := c } := by
  induction l generalizing s with
  | nil => rfl
  | cons i l ih => exact ih (resultTurn s i)

theorem doisaac_withCnt (s : Isaac) (c : Fin 257) :
    doisaac { s with randcnt := c } = { doisaac s with randcnt := c } :=
  foldl_resultTurn_withCnt (List.finRange 256)
    { s with state := { s.state with cc := s.state.cc + 1, bb := s.state.bb + (s.state.cc + 1) } } c

/-! ## One word after another -/

def isaacAfter (n : Nat) (s : Isaac) : Isaac := (fun s => (isaacNext s).2)^[n] s

def isaacWord (n : Nat) (s : Isaac) : Word := (isaacNext (isaacAfter n s)).1

theorem isaacAfter_succ (n : Nat) (s : Isaac) :
    isaacAfter (n + 1) s = (isaacNext (isaacAfter n s)).2 :=
  iterate_succ_apply' _ _ _

theorem isaacNext_zero {s : Isaac} (h : s.randcnt = 0) :
    isaacNext s = ((doisaac s).randrsl 255, { doisaac s with randcnt := 255 }) := by
  simp [isaacNext, h]

theorem isaacNext_pos {s : Isaac} {c : Nat} (hc : c < 256) (h : s.randcnt.val = c + 1) :
    isaacNext s = (s.randrsl ⟨c, hc⟩, { s with randcnt := ⟨c, by omega⟩ }) := by
  have hne : s.randcnt ≠ 0 := by
    intro hzero
    rw [hzero] at h
    exact absurd h (by simp)
  simp [isaacNext, hne, h]

/-- The words of a set are handed out from the last to the first. -/
theorem isaacNext_after {s : Isaac} (hfull : s.randcnt = 256) (n : Nat) :
    isaacNext (isaacAfter n s) =
      ((doisaac^[n / 256] s).randrsl ⟨255 - n % 256, by omega⟩,
        { doisaac^[n / 256] s with randcnt := ⟨255 - n % 256, by omega⟩ }) := by
  induction n with
  | zero => exact isaacNext_pos (by decide) (by rw [isaacAfter, iterate_zero, id, hfull]; rfl)
  | succ n ih =>
      rw [isaacAfter_succ, ih]
      by_cases hlast : n % 256 = 255
      · have hset : (n + 1) / 256 = n / 256 + 1 := by omega
        have hword : (n + 1) % 256 = 0 := by omega
        rw [isaacNext_zero (Fin.ext (by simp [hlast]))]
        simp only [doisaac_withCnt, ← iterate_succ_apply' doisaac, hset, hword]
        rfl
      · have hset : (n + 1) / 256 = n / 256 := by omega
        have hword : 255 - n % 256 = 255 - (n + 1) % 256 + 1 := by omega
        rw [isaacNext_pos (c := 255 - (n + 1) % 256) (by omega) hword]
        simp only [hset]

theorem iterate_doisaac_state (n : Nat) (s : Isaac) :
    (doisaac^[n] s).state = nextState^[n] s.state := by
  induction n generalizing s with
  | zero => rfl
  | succ n ih => rw [iterate_succ_apply, iterate_succ_apply, ih, doisaac_state]

/-- The words of the set that begins in a state. -/
def wordsOf (s : IsaacState) : Fin 256 → Word :=
  (doisaac { Isaac.unseeded with state := s }).randrsl

theorem doisaac_words (s : Isaac) : (doisaac s).randrsl = wordsOf s.state := by
  rw [wordsOf]
  exact doisaac_randrsl rfl

/-- What `isaac_init` leaves for the first set to begin in. -/
def seedState (flag : Bool) (s : Isaac) : IsaacState := { mm := seededMm flag s.randrsl }

theorem isaacInit_state (s : Isaac) (flag : Bool) :
    (isaacInit s flag).state = nextState (seedState flag s) := by
  unfold isaacInit seedState
  exact doisaac_state { s with state := { mm := seededMm flag s.randrsl } }

theorem isaacInit_randrsl (s : Isaac) (flag : Bool) (n : Nat) :
    (doisaac^[n] (isaacInit s flag)).randrsl = wordsOf (nextState^[n] (seedState flag s)) := by
  cases n with
  | zero =>
      simp only [iterate_zero_apply, isaacInit]
      rw [doisaac_words, seedState]
  | succ n =>
      rw [iterate_succ_apply', doisaac_words, iterate_doisaac_state, isaacInit_state,
        ← iterate_succ_apply]

theorem isaacAfter_state (s : Isaac) (flag : Bool) (n : Nat) :
    (isaacAfter (n + 1) (isaacInit s flag)).state =
      nextState^[n / 256 + 1] (seedState flag s) := by
  rw [isaacAfter_succ, isaacNext_after rfl]
  change (doisaac^[n / 256] (isaacInit s flag)).state = _
  rw [iterate_doisaac_state, isaacInit_state, ← iterate_succ_apply]

theorem isaacWord_eq (s : Isaac) (flag : Bool) (n : Nat) :
    isaacWord n (isaacInit s flag) =
      wordsOf (nextState^[n / 256] (seedState flag s)) ⟨255 - n % 256, by omega⟩ := by
  rw [isaacWord, isaacNext_after rfl, isaacInit_randrsl]

/-- A state is its four parts. -/
def IsaacState.parts (s : IsaacState) : (Fin 256 → Word) × Word × Word × Word :=
  (s.mm, s.aa, s.bb, s.cc)

instance : Finite Word := Finite.of_injective _ BitVec.toFin_injective

instance : Finite IsaacState :=
  Finite.of_injective IsaacState.parts fun s t h => by
    cases s
    cases t
    simp_all [IsaacState.parts]

/-- Both generators of a session hand out the same words over and over, after
some whole number of sets, and a state comes back only when 2³² sets, or a
multiple, have gone by. -/
theorem isaac_cycle (s : Isaac) (flag : Bool) :
    (∃ p > 0, ∀ n, isaacWord (n + 256 * p) (isaacInit s flag) = isaacWord n (isaacInit s flag)) ∧
    ∀ m n, (isaacAfter (m + 1) (isaacInit s flag)).state =
      (isaacAfter (n + 1) (isaacInit s flag)).state → m / 256 ≡ n / 256 [MOD 2 ^ 32] := by
  constructor
  · obtain ⟨p, hp, hback⟩ := nextState_injective.mem_periodicPts (seedState flag s)
    refine ⟨p, hp, fun n => ?_⟩
    have hset : (n + 256 * p) / 256 = n / 256 + p := by omega
    have hword : (n + 256 * p) % 256 = n % 256 := by omega
    simp only [isaacWord_eq, hset, hword, iterate_add_apply, hback.eq]
  · intro m n h
    have hcc := congrArg IsaacState.cc h
    rw [isaacAfter_state, isaacAfter_state, nextState_cc, nextState_cc] at hcc
    have hval := congrArg BitVec.toNat (add_left_cancel hcc)
    simp only [BitVec.toNat_ofNat] at hval
    exact Nat.ModEq.add_right_cancel' 1 hval

/-! ## Seeds -/

theorem mixLine_injective (x : Fin 8) (f : Word → Word) : Injective (mixLine x f) := by
  have hne : ∀ x : Fin 8, x + 1 ≠ x ∧ x ≠ x + 3 ∧ x + 2 ≠ x + 1 := by decide
  obtain ⟨h₁, h₃, h₂⟩ := hne x
  have hxor : Injective fun m : Octet => update m x (m x ^^^ f (m (x + 1))) :=
    update_injective (f := fun m v => v ^^^ f (m (x + 1)))
      (fun m v => by simp only [update_of_ne h₁]) (fun m a b h => by simpa using h)
  have hnext : Injective fun m : Octet => update m (x + 3) (m (x + 3) + m x) :=
    update_injective (f := fun m v => v + m x)
      (fun m v => by simp only [update_of_ne h₃]) (fun m a b h => by simpa using h)
  have hlast : Injective fun m : Octet => update m (x + 1) (m (x + 1) + m (x + 2)) :=
    update_injective (f := fun m v => v + m (x + 2))
      (fun m v => by simp only [update_of_ne h₂]) (fun m a b h => by simpa using h)
  exact hlast.comp (hnext.comp hxor)

theorem mix_injective : Injective mix := by
  unfold mix
  exact (mixLine_injective 7 _).comp <| (mixLine_injective 6 _).comp <|
    (mixLine_injective 5 _).comp <| (mixLine_injective 4 _).comp <|
    (mixLine_injective 3 _).comp <| (mixLine_injective 2 _).comp <|
    (mixLine_injective 1 _).comp (mixLine_injective 0 _)

/-- A turn of either loop. -/
def mixIn (m x : Octet) : Octet := mix (m + x)

theorem mixIn_injective (m : Octet) : Injective (mixIn m) := by
  intro x y h
  exact add_left_cancel (mix_injective h)

theorem place_val {n : Nat} (hn : n < 32) (j : Fin 8) : (place n j).val = 8 * n + j.val :=
  Nat.mod_eq_of_lt (by omega)

theorem octetAt_putOctet {n k : Nat} (hk : k < 32) (mm : Fin 256 → Word) (m : Octet) :
    octetAt (putOctet mm n m) k = if k = n then m else octetAt mm k := by
  funext j
  have hblock : (8 * k + j.val) / 8 = k := by omega
  have hplace : (Fin.ofNat 8 (8 * k + j.val) : Fin 8) = j := by
    refine Fin.ext ?_
    simp only [Fin.ofNat]
    omega
  simp only [octetAt, putOctet, place_val hk, hblock, hplace]
  split <;> rfl

theorem eq_of_blocks {mm mm' : Fin 256 → Word}
    (h : ∀ k < 32, octetAt mm k = octetAt mm' k) : mm = mm' := by
  funext i
  have hblock := congrFun (h (i.val / 8) (by omega)) ⟨i.val % 8, by omega⟩
  have hplace : place (i.val / 8) ⟨i.val % 8, by omega⟩ = i := by
    refine Fin.ext ?_
    rw [place_val (by omega)]
    exact Nat.div_add_mod i.val 8
  simpa only [octetAt, hplace] using hblock

/-- The first loop feeds the seed through `mix` and writes down every octet. -/
theorem fillLoop_fed (randrsl : Fin 256 → Word) (p : Octet × (Fin 256 → Word)) (n : Nat)
    (hn : n < 32) :
    (fillLoop true randrsl (n + 1) p).1 = fed mixIn p.1 (octetAt randrsl) n ∧
      ∀ k ≤ n, octetAt (fillLoop true randrsl (n + 1) p).2 k =
        fed mixIn p.1 (octetAt randrsl) k := by
  induction n with
  | zero =>
      refine ⟨rfl, fun k hk => ?_⟩
      obtain rfl : k = 0 := by omega
      rw [fillLoop, octetAt_putOctet (by decide), if_pos rfl]
      rfl
  | succ n ih =>
      obtain ⟨hlast, hblocks⟩ := ih (by omega)
      have hm : (fillLoop true randrsl (n + 2) p).1 =
          fed mixIn p.1 (octetAt randrsl) (n + 1) := by
        rw [fillLoop, fed, ← hlast]
        rfl
      refine ⟨hm, fun k hk => ?_⟩
      rw [fillLoop, octetAt_putOctet (by omega)]
      by_cases hk' : k = n + 1
      · rw [if_pos hk', hk', ← hm]
        rfl
      · rw [if_neg hk']
        exact hblocks k (by omega)

/-- The second loop feeds what it has not reached yet. -/
theorem spreadLoop_fed (p : Octet × (Fin 256 → Word)) (n : Nat) (hn : n < 32) :
    (spreadLoop (n + 1) p).1 = fed mixIn p.1 (octetAt p.2) n ∧
      ∀ k < 32, octetAt (spreadLoop (n + 1) p).2 k =
        if k ≤ n then fed mixIn p.1 (octetAt p.2) k else octetAt p.2 k := by
  induction n with
  | zero =>
      refine ⟨rfl, fun k hk => ?_⟩
      rw [spreadLoop, octetAt_putOctet hk]
      by_cases hk' : k = 0
      · rw [if_pos hk', if_pos (by omega), hk']
        rfl
      · rw [if_neg hk', if_neg (by omega)]
        rfl
  | succ n ih =>
      obtain ⟨hlast, hblocks⟩ := ih (by omega)
      have hunread : octetAt (spreadLoop (n + 1) p).2 (n + 1) = octetAt p.2 (n + 1) := by
        rw [hblocks (n + 1) hn, if_neg (by omega)]
      have hm : (spreadLoop (n + 2) p).1 = fed mixIn p.1 (octetAt p.2) (n + 1) := by
        rw [spreadLoop, fed, ← hlast, ← hunread]
        rfl
      refine ⟨hm, fun k hk => ?_⟩
      rw [spreadLoop, octetAt_putOctet hk]
      by_cases hk' : k = n + 1
      · rw [if_pos hk', if_pos (by omega), hk', ← hm]
        rfl
      · rw [if_neg hk']
        refine (hblocks k hk).trans ?_
        by_cases hle : k ≤ n
        · rw [if_pos hle, if_pos (by omega)]
        · rw [if_neg hle, if_neg (by omega)]

theorem seededMm_injective : Injective (seededMm true) := by
  intro r r' h
  -- what the first loop leaves, and the octet it ends with
  have hfill := fun r => fillLoop_fed r (golden, fun _ => 0) 31 (by decide)
  have hspread := fun r =>
    (spreadLoop_fed (fillLoop true r 32 (golden, fun _ => 0)) 31 (by decide)).2
  have hends : ∀ r, (fillLoop true r 32 (golden, fun _ => 0)).1 =
      octetAt (fillLoop true r 32 (golden, fun _ => 0)).2 31 := fun r => by
    rw [(hfill r).1, (hfill r).2 31 (by decide)]
  have hfilled : ∀ k ≤ 31, octetAt (fillLoop true r 32 (golden, fun _ => 0)).2 k =
      octetAt (fillLoop true r' 32 (golden, fun _ => 0)).2 k := by
    refine refed_injective mixIn_injective (by decide) fun k hk => ?_
    have hkth := congrArg (octetAt · k) h
    simp only [seededMm, if_true] at hkth
    rwa [hspread r k (by omega), hspread r' k (by omega), if_pos hk, if_pos hk, hends r,
      hends r'] at hkth
  refine eq_of_blocks (fed_injective mixIn_injective (a := golden) fun k hk => ?_)
  rw [← (hfill r).2 k (by omega), ← (hfill r').2 k (by omega), hfilled k (by omega)]

/-- Whatever `randrsl` holds when `isaac_init` is called, the four words of a
session key and what earlier words left after them, can be told from the state
after any number of words: sessions with different keys never share a state. -/
theorem seeds_apart (n : Nat) :
    Injective fun randrsl => (isaacAfter n (isaacInit { randrsl := randrsl } true)).state := by
  have hstate : ∃ k, ∀ randrsl, (isaacAfter n (isaacInit { randrsl := randrsl } true)).state =
      nextState^[k] (seedState true { randrsl := randrsl }) := by
    cases n with
    | zero => exact ⟨1, fun _ => isaacInit_state _ true⟩
    | succ n => exact ⟨n / 256 + 1, fun _ => isaacAfter_state _ true n⟩
  obtain ⟨k, hk⟩ := hstate
  intro r r' h
  simp only [hk] at h
  have hseed := nextState_injective.iterate k h
  have hmm := congrArg IsaacState.mm hseed
  simp only [seedState] at hmm
  exact seededMm_injective hmm

/-! ## The small generator -/

theorem ranval_injective : Injective fun x => (ranval x).2 := by
  intro x y h
  simp only [ranval, Ranctx.mk.injEq] at h
  obtain ⟨ha, hb, hc, hd⟩ := h
  rw [ha] at hd
  have he := add_right_cancel hd
  rw [he] at hc
  have hd' := add_right_cancel hc
  rw [hd'] at hb
  have hc' := add_right_cancel hb
  rw [hc'] at ha
  have hb' : x.b = y.b := by simpa using ha
  rw [hb'] at he
  have ha' := sub_left_injective he
  cases x
  cases y
  simp_all

def Ranctx.parts (x : Ranctx) : Word × Word × Word × Word := (x.a, x.b, x.c, x.d)

instance : Finite Ranctx :=
  Finite.of_injective Ranctx.parts fun x y h => by
    cases x
    cases y
    simp_all [Ranctx.parts]

/-- The generator that `server_random` draws from comes back to where its seed
put it, and two seeds never share a state. -/
theorem flea_cycle (n : Nat) :
    (∀ seed, ∃ p > 0, (fun x => (ranval x).2)^[p] (raninit seed) = raninit seed) ∧
    Injective fun seed => (fun x => (ranval x).2)^[n] (raninit seed) := by
  constructor
  · intro seed
    exact ranval_injective.mem_periodicPts (raninit seed)
  · refine (ranval_injective.iterate n).comp ((ranval_injective.iterate 20).comp ?_)
    intro seed seed' h
    exact congrArg Ranctx.b h

end Sundae.Proofs
