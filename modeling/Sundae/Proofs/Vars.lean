import Sundae.Lib.Run
import Sundae.Ref.Database
import Sundae.Ref.Vars

/-!
# What a variable reads

Each name is a variable of its own, up to the case of its letters. The number
that was written comes back unless it was negative: the last of the four types
has no sign, and Lua has 64 bits.
-/

namespace Sundae.Proofs

open Sundae.Lib Sundae.Ref

variable {p p' : PlayerVars} {e : SetVar} {name : List Char}

/-! ## Names and numbers -/

/-- What names are compared by. -/
def nameKey (name : List Char) : List Char := name.map Char.toLower

theorem strcasecmp_nameKey {a b : List Char} : strcasecmp a b = true ↔ nameKey b = nameKey a := by
  rw [strcasecmp, beq_iff_eq]
  exact eq_comm

theorem strcasecmp_congr {a b c : List Char} (h : strcasecmp a b = true) :
    strcasecmp c b = strcasecmp c a := by
  rw [Bool.eq_iff_iff, strcasecmp_nameKey, strcasecmp_nameKey, strcasecmp_nameKey.1 h]

theorem strcasecmp_comm (a b : List Char) : strcasecmp a b = strcasecmp b a := by
  rw [Bool.eq_iff_iff, strcasecmp_nameKey, strcasecmp_nameKey]
  exact eq_comm

/-- What is stored of a number that a script writes is what is read of it,
without its sign. -/
theorem stored_back (n : Int) :
    (asUint32 (wrap32 (asUint32 (wrap32 n))) : Int) = n % 4294967296 := by
  simp only [asUint32, wrap32, Int.bmod_def]
  omega

theorem wrap32_of_range {n : Int} (h : -2147483648 ≤ n ∧ n < 2147483648) : wrap32 n = n := by
  rw [wrap32, Int.bmod_def]
  omega

/-! ## One write -/

structure VarsWf (p : PlayerVars) : Prop where
  distinct : (p.vars.map fun v => nameKey v.name).Nodup
  room : p.room = p.variableMax
  length_le : p.vars.length ≤ p.variableMax

/-- The write needs more memory. -/
def GrowsArray (p : PlayerVars) (e : SetVar) : Prop :=
  (∀ v ∈ p.vars, strcasecmp e.name v.name = false) ∧ p.variableMax ≤ p.vars.length

/-- The value of the entry that a name finds. -/
def entryOf (p : PlayerVars) (name : List Char) : Option Nat :=
  (p.vars.find? fun v => strcasecmp name v.name).map PlayerVar.value

theorem scriptGetvar_eq (p : PlayerVars) (name : List Char) :
    scriptGetvar p name =
      ((entryOf p name).map fun n : Nat => (asUint32 (wrap32 n) : Int)).getD 0 := by
  unfold scriptGetvar PlayerVars.playerVariableGet entryOf
  cases p.vars.find? fun v => strcasecmp name v.name with
  | none => rfl
  | some v => rfl

/-- What a write that goes through does to the entries: that of its own name is
the number, or none for a zero that found one; no other name sees it. -/
structure WritesOne (p p' : PlayerVars) (e : SetVar) : Prop where
  wf : VarsWf p'
  own : scriptGetvar p' e.name = e.value % 4294967296
  others : ∀ name, strcasecmp name e.name = false → scriptGetvar p' name = scriptGetvar p name

theorem key_iff (name : List Char) (v : PlayerVar) :
    strcasecmp name v.name = true ↔ nameKey v.name = nameKey name := strcasecmp_nameKey

/-- A name that is not the one written does not find what the one written does. -/
theorem other_name {a b c : List Char} (h : strcasecmp c a = false) (hb : strcasecmp a b = true) :
    strcasecmp c b = false := by
  rw [strcasecmp_congr hb, h]

/-- The write of an entry that is there. -/
theorem writesOne_amend (h : VarsWf p) {vars : List PlayerVar}
    (hvars : amendFirst (fun v => strcasecmp e.name v.name)
      (fun v => if e.value = 0 then none else some { v with value := asUint32 e.value }) p.vars =
        some vars) : WritesOne p { p with vars := vars } e := by
  have hkeep : ∀ v w : PlayerVar,
      (if e.value = 0 then none else some { v with value := asUint32 e.value }) = some w →
        w.name = v.name := by
    intro v w hw
    split at hw
    · cases hw
    · exact Option.some.inj hw ▸ rfl
  have hkey : ∀ v w : PlayerVar,
      (if e.value = 0 then none else some { v with value := asUint32 e.value }) = some w →
        nameKey w.name = nameKey v.name := fun v w hw => congrArg nameKey (hkeep v w hw)
  refine ⟨⟨nodup_amendFirst hkey hvars h.distinct, h.room,
    Nat.le_trans (length_amendFirst_le hvars) h.length_le⟩, ?_, fun name hname => ?_⟩
  · obtain ⟨s, v, t, hsplit, hv, -, -⟩ := amendFirst_eq_some hvars
    have hfound : ∃ w, p.vars.find? (fun v => strcasecmp e.name v.name) = some w := by
      refine Option.isSome_iff_exists.1 (List.find?_isSome.2 ⟨v, ?_, hv⟩)
      rw [hsplit]
      exact List.mem_append_right s List.mem_cons_self
    obtain ⟨w, hw⟩ := hfound
    rw [scriptGetvar_eq, entryOf]
    dsimp only
    rw [find?_amendFirst_self (key_iff e.name) hkey hvars h.distinct, hw, Option.bind_some]
    split
    · next hzero =>
      rw [hzero]
      rfl
    · have hback := stored_back e.value
      rw [wrap32_of_range e.in_range] at hback
      exact hback
  · rw [scriptGetvar_eq, scriptGetvar_eq, entryOf, entryOf]
    dsimp only
    rw [find?_amendFirst_ne hvars (fun v hv => other_name hname hv)
      fun v w hw => by rw [hkeep v w hw]]

/-- And of one that is new, where there is room. -/
theorem writesOne_append (h : VarsWf p) (hnew : ∀ v ∈ p.vars, strcasecmp e.name v.name = false)
    {max room : Nat} (hmax : room = max) (hroom : p.vars.length < max) :
    WritesOne p
      { vars := p.vars ++ [⟨e.name, asUint32 e.value⟩], variableMax := max, room := room } e := by
  refine ⟨⟨?_, hmax, ?_⟩, ?_, fun name hname => ?_⟩
  · rw [List.map_append, List.nodup_append]
    refine ⟨h.distinct, by simp, ?_⟩
    rintro a ha b hb rfl
    obtain ⟨v, hv, hkey⟩ := List.mem_map.1 ha
    have hsame := (key_iff e.name v).2 (hkey.trans (List.mem_singleton.1 hb))
    exact absurd (hnew v hv) (by simp [hsame])
  · rw [List.length_append, List.length_singleton]
    exact hroom
  · have hself : strcasecmp e.name e.name = true := strcasecmp_nameKey.2 rfl
    have hnone : p.vars.find? (fun v => strcasecmp e.name v.name) = none :=
      List.find?_eq_none.2 fun v hv => by simp [hnew v hv]
    have hback := stored_back e.value
    rw [wrap32_of_range e.in_range] at hback
    rw [scriptGetvar_eq, entryOf]
    dsimp only
    rw [List.find?_append, hnone, Option.none_or,
      List.find?_cons_of_pos (p := fun v : PlayerVar => strcasecmp e.name v.name) hself]
    exact hback
  · rw [scriptGetvar_eq, scriptGetvar_eq, entryOf, entryOf]
    dsimp only
    rw [List.find?_append, List.find?_cons_of_neg (by simp [hname]), List.find?_nil,
      Option.or_none]

/-- A write goes through unless it needs memory that there is not. -/
theorem setVarStep_cases (h : VarsWf p) (e : SetVar) :
    (GrowsArray p e ∧ e.memory = false ∧ setVarStep p e = .error .outside) ∨
      ¬ (GrowsArray p e ∧ e.memory = false) ∧ ∃ p', setVarStep p e = .ok p' ∧ WritesOne p p' e := by
  unfold setVarStep scriptSetvar PlayerVars.playerVariableSet
  rw [wrap32_of_range e.in_range]
  dsimp only
  cases hvars : amendFirst (fun v => strcasecmp e.name v.name)
      (fun v => if e.value = 0 then none else some { v with value := asUint32 e.value })
      p.vars with
  | some vars =>
      refine .inr ⟨fun hgrows => ?_, _, rfl, writesOne_amend h hvars⟩
      rw [amendFirst_eq_none.2 hgrows.1.1] at hvars
      cases hvars
  | none =>
      have hnew := amendFirst_eq_none.1 hvars
      have hlen := h.length_le
      unfold PlayerVars.growVariables
      by_cases hroom : p.vars.length < p.variableMax
      · refine .inr ⟨fun hgrows => Nat.not_le_of_lt hroom hgrows.1.2, ?_⟩
        rw [if_pos hroom]
        dsimp only
        rw [if_pos (by rw [h.room]; exact hroom)]
        exact ⟨_, rfl, writesOne_append h hnew h.room hroom⟩
      · have hgrows : GrowsArray p e := ⟨hnew, Nat.le_of_not_lt hroom⟩
        rw [if_neg hroom]
        cases hmem : e.memory with
        | true =>
            have hmore : p.vars.length < p.variableMax + playerVarIncSize := by
              unfold playerVarIncSize
              omega
            refine .inr ⟨fun hbad => (by cases hbad.2), _, ?_, writesOne_append h hnew rfl hmore⟩
            simp [reallocarr, hmore]
        | false =>
            refine .inl ⟨hgrows, rfl, ?_⟩
            have hfull : ¬ p.vars.length < p.room := by rw [h.room]; exact hroom
            simp [reallocarr, hfull]

theorem varsWf_run {tr : List (PlayerVars × SetVar)} (hrun : Run VarsWf setVarStep tr p) :
    VarsWf p := by
  refine hrun.always (fun _ h => h) fun p e p' h hstep => ?_
  rcases setVarStep_cases h e with ⟨-, -, herror⟩ | ⟨-, p'', hstep', hone⟩
  · rw [hstep] at herror
    cases herror
  · exact Except.ok.inj (hstep'.symm.trans hstep) ▸ hone.wf

/-! ## The variables that are saved -/

/-- The entries as the database has them, with their sign. -/
def signedRows (p : PlayerVars) : List (List Char × Int) :=
  p.vars.map fun v => (v.name, wrap32 v.value)

theorem signedRows_find (p : PlayerVars) (name : List Char) :
    (signedRows p).find? (fun v => strcasecmp name v.1) =
      (p.vars.find? fun v => strcasecmp name v.name).map fun v => (v.name, wrap32 v.value) := by
  rw [signedRows, List.find?_map]
  simp only [Function.comp_def]

theorem PlayerVars.playerVariableGet_eq (p : PlayerVars) (name : List Char) :
    p.playerVariableGet name =
      ((p.vars.find? fun v => strcasecmp name v.name).map fun v => wrap32 v.value).getD 0 := by
  unfold PlayerVars.playerVariableGet
  split
  · next v h => rw [h, Option.map_some, Option.getD_some]
  · next h => rw [h]; rfl

theorem signedRows_get (p : PlayerVars) (q : Profile) (name : List Char) :
    playerVariableGet { q with playerVariables := signedRows p } name =
      p.playerVariableGet name := by
  have hget : playerVariableGet { q with playerVariables := signedRows p } name =
      (((signedRows p).find? fun v => strcasecmp name v.1).map Prod.snd).getD 0 := rfl
  rw [hget, signedRows_find, PlayerVars.playerVariableGet_eq, Option.map_map]
  simp only [Function.comp_def]

theorem wrap32_asUint32 {n : Int} (h : -2147483648 ≤ n ∧ n < 2147483648) :
    wrap32 (asUint32 n) = n := by
  simp only [asUint32, wrap32, Int.bmod_def]
  omega

/-- The test for a failed growth never succeeds: `reallocarr` answers 0 or
`errno`. -/
theorem PlayerVars.growVariables_isSome (p : PlayerVars) (memory : Bool) :
    (p.growVariables memory).isSome = true := by
  unfold PlayerVars.growVariables reallocarr
  split
  · rfl
  · cases memory <;> rfl

theorem PlayerVars.growVariables_vars {memory : Bool} (h : p.growVariables memory = some p') :
    p'.vars = p.vars := by
  unfold PlayerVars.growVariables reallocarr at h
  split at h
  · exact Option.some.inj h ▸ rfl
  · cases memory <;> exact Option.some.inj h ▸ rfl

/-- A write that goes through does to the signed entries what the write of the
database's rows does. -/
theorem signedRows_set (q : Profile) (hstep : setVarStep p e = .ok p') :
    (playerVariableSet (e.name, e.value)
      { q with playerVariables := signedRows p }).playerVariables = signedRows p' := by
  unfold setVarStep scriptSetvar PlayerVars.playerVariableSet at hstep
  rw [wrap32_of_range e.in_range] at hstep
  dsimp only at hstep
  have hfind : (signedRows p).findIdx? (fun v => strcasecmp e.name v.1) =
      p.vars.findIdx? fun v => strcasecmp e.name v.name := by
    rw [signedRows, List.findIdx?_map]
    simp only [Function.comp_def]
  unfold playerVariableSet
  dsimp only
  rw [hfind]
  cases hvars : amendFirst (fun v => strcasecmp e.name v.name)
      (fun v => if e.value = 0 then none else some { v with value := asUint32 e.value })
      p.vars with
  | some vars =>
      rw [hvars] at hstep
      obtain rfl := Except.ok.inj hstep
      obtain ⟨s, a, t, hsplit, ha, hs, rfl⟩ := amendFirst_eq_some hvars
      have hidx : p.vars.findIdx? (fun v => strcasecmp e.name v.name) = some s.length := by
        rw [hsplit, List.findIdx?_append, List.findIdx?_eq_none_iff.2 hs, List.findIdx?_cons, ha]
        simp
      rw [hidx]
      simp only [signedRows, hsplit, List.map_append, List.map_cons]
      have hlen : s.length = (s.map fun v => (v.name, wrap32 v.value)).length := by
        rw [List.length_map]
      rw [hlen]
      split
      · simp [List.eraseIdx_append_of_length_le]
      · rw [modify_append_cons]
        simp [wrap32_asUint32 e.in_range]
  | none =>
      rw [hvars] at hstep
      have hidx : p.vars.findIdx? (fun v => strcasecmp e.name v.name) = none :=
        List.findIdx?_eq_none_iff.2 (amendFirst_eq_none.1 hvars)
      rw [hidx]
      dsimp only at hstep ⊢
      cases hgrow : p.growVariables e.memory with
      | none =>
          have hsome := PlayerVars.growVariables_isSome p e.memory
          rw [hgrow] at hsome
          cases hsome
      | some p₁ =>
          rw [hgrow] at hstep
          dsimp only at hstep
          split at hstep
          · obtain rfl := Except.ok.inj hstep
            simp only [signedRows, List.map_append, List.map_cons, List.map_nil,
              PlayerVars.growVariables_vars hgrow, wrap32_asUint32 e.in_range]
          · cases hstep

/-! ## Histories -/

/-- The last number written to a name, and `v` if there is none. -/
def lastWritten (writes : List SetVar) (name : List Char) (v : Int) : Int :=
  writes.foldl (fun v e => if strcasecmp name e.name then e.value else v) v

/-- Every name reads what was last written to it, and has one entry at most. -/
structure VarsRight (writes : List SetVar) (p : PlayerVars) : Prop where
  reads : ∀ name, scriptGetvar p name = lastWritten writes name 0
  distinct : (p.vars.map fun v => nameKey v.name).Nodup

/-- The number has no sign, and the array grows if it has to. -/
def VarOk (p : PlayerVars) (e : SetVar) : Prop :=
  0 ≤ e.value ∧ (GrowsArray p e → e.memory = true)

theorem scriptGetvar_congr {a b : List Char} (h : strcasecmp a b = true) :
    scriptGetvar p a = scriptGetvar p b := by
  have hsame : (fun v : PlayerVar => strcasecmp a v.name) = fun v => strcasecmp b v.name := by
    funext v
    rw [strcasecmp_comm a, strcasecmp_comm b, strcasecmp_congr h]
  rw [scriptGetvar_eq, scriptGetvar_eq, entryOf, entryOf, hsame]

/-- A good write is read back by its name, in any case, and by no other. -/
theorem WritesOne.reads (h : WritesOne p p' e) (hpos : 0 ≤ e.value) (name : List Char) :
    scriptGetvar p' name = if strcasecmp name e.name then e.value else scriptGetvar p name := by
  split
  · next hsame =>
    rw [scriptGetvar_congr hsame, h.own]
    exact Int.emod_eq_of_lt hpos (by have := e.in_range; omega)
  · next hother => exact h.others name (by simpa using hother)

/-- A number with a sign is not. -/
theorem WritesOne.unread (h : WritesOne p p' e) (hneg : e.value < 0) :
    scriptGetvar p' e.name ≠ e.value := by
  have hback := h.own
  omega

/-- The history from `p` on is kept: at every moment each name reads the last
number written since, or what it read before. -/
def KeptFrom (p : PlayerVars) (es : List SetVar) : Prop :=
  ∀ pre, pre <+: es → ∃ tr p', exec setVarStep p pre = .ok (tr, p') ∧ VarsWf p' ∧
    ∀ name, scriptGetvar p' name = lastWritten pre name (scriptGetvar p name)

theorem KeptFrom.first {es : List SetVar} (h : KeptFrom p (e :: es)) (hwf : VarsWf p) :
    VarOk p e := by
  obtain ⟨tr, p', hexec, -, hreads⟩ := h [e] ⟨es, rfl⟩
  rcases setVarStep_cases hwf e with ⟨-, -, herror⟩ | ⟨hgrows, p'', hstep, hone⟩
  · simp only [exec, herror] at hexec
    cases hexec
  · obtain ⟨tr', -, hnil⟩ := (exec_cons_ok hstep).1 hexec
    obtain ⟨-, rfl⟩ := Prod.mk.inj (Except.ok.inj hnil)
    have hself : strcasecmp e.name e.name = true := strcasecmp_nameKey.2 rfl
    have hown : scriptGetvar p'' e.name = e.value := by
      simpa [lastWritten, hself] using hreads e.name
    refine ⟨Int.not_lt.1 fun hneg => hone.unread hneg hown, fun hg => ?_⟩
    cases hmem : e.memory with
    | true => rfl
    | false => exact absurd ⟨hg, hmem⟩ hgrows

theorem keptFrom_cons {es : List SetVar} (hwf : VarsWf p) :
    KeptFrom p (e :: es) ↔ VarOk p e ∧ ∀ p', setVarStep p e = .ok p' → KeptFrom p' es := by
  constructor
  · intro h
    have hok := h.first hwf
    refine ⟨hok, fun p' hstep pre hpre => ?_⟩
    rcases setVarStep_cases hwf e with ⟨-, -, herror⟩ | ⟨-, p'', hstep', hone⟩
    · rw [hstep] at herror
      cases herror
    · obtain rfl := Except.ok.inj (hstep.symm.trans hstep')
      obtain ⟨tr, p'', hexec, hwf'', hreads⟩ :=
        h (e :: pre) (List.cons_prefix_cons.2 ⟨rfl, hpre⟩)
      obtain ⟨tr', -, hrest⟩ := (exec_cons_ok hstep).1 hexec
      refine ⟨tr', p'', hrest, hwf'', fun name => ?_⟩
      rw [hone.reads hok.1 name]
      exact hreads name
  · rintro ⟨hok, hrest⟩ pre hpre
    cases pre with
    | nil => exact ⟨[], p, rfl, hwf, fun name => rfl⟩
    | cons e' pre =>
        obtain ⟨rfl, hpre'⟩ := List.cons_prefix_cons.1 hpre
        rcases setVarStep_cases hwf e' with ⟨hg, hmem, -⟩ | ⟨-, p', hstep, hone⟩
        · rw [hok.2 hg] at hmem
          cases hmem
        · obtain ⟨tr, p'', hexec, hwf'', hreads⟩ := hrest p' hstep pre hpre'
          refine ⟨_, p'', (exec_cons_ok hstep).2 ⟨tr, rfl, hexec⟩, hwf'', fun name => ?_⟩
          rw [hreads name, hone.reads hok.1 name]
          rfl

theorem keptFrom_iff (es : List SetVar) :
    ∀ {p : PlayerVars}, VarsWf p → (KeptFrom p es ↔ Along setVarStep VarOk p es) := by
  induction es with
  | nil =>
      refine fun hwf => iff_of_true (fun pre hpre => ?_) trivial
      obtain rfl := List.prefix_nil.1 hpre
      exact ⟨[], _, rfl, hwf, fun name => rfl⟩
  | cons e es ih =>
      intro p hwf
      rw [keptFrom_cons hwf, Along]
      refine and_congr_right fun _ => forall₂_congr fun p' hstep => ?_
      rcases setVarStep_cases hwf e with ⟨-, -, herror⟩ | ⟨-, p'', hstep', hone⟩
      · rw [hstep] at herror
        cases herror
      · obtain rfl := Except.ok.inj (hstep.symm.trans hstep')
        exact ih hone.wf

/-- Over every history of writes, each name reads at every moment what was last
written to it, with one entry at most, exactly when no number that is written
has a sign and the array always grows when it has to. -/
theorem vars_kept_iff (es : List SetVar) :
    (∀ pre, pre <+: es → ∃ tr p, exec setVarStep {} pre = .ok (tr, p) ∧ VarsRight pre p) ↔
      Along setVarStep VarOk {} es := by
  have hwf : VarsWf {} := ⟨List.nodup_nil, rfl, Nat.le_refl _⟩
  rw [← keptFrom_iff es hwf]
  constructor
  · intro h pre hpre
    obtain ⟨tr, p, hexec, hright⟩ := h pre hpre
    exact ⟨tr, p, hexec, varsWf_run (Run.of_exec pre hwf hexec), hright.reads⟩
  · intro h pre hpre
    obtain ⟨tr, p, hexec, hwf, hreads⟩ := h pre hpre
    exact ⟨tr, p, hexec, hreads, hwf.distinct⟩

/-- `setvar(player, "luck", -1)` reads 4294967295. -/
theorem minus_one_read_back : ¬ ∀ es pre, pre <+: es →
    ∃ tr p, exec setVarStep {} pre = .ok (tr, p) ∧ VarsRight pre p := by
  intro hall
  obtain ⟨tr, p, hexec, hright⟩ := hall [⟨['l'], -1, true, by decide⟩] _ List.prefix_rfl
  have hread := hright.reads ['l']
  obtain ⟨-, rfl⟩ := Prod.mk.inj (Except.ok.inj hexec)
  exact absurd hread (by decide)

end Sundae.Proofs
