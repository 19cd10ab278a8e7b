import Mathlib.Logic.Basic

/-!
# Pairs

Entries of a table that are engaged with one another. Each of the two names the
other in its own record, so one side can be written without the other; what
keeps the table paired is that an engagement begins and ends on both sides.
-/

namespace Sundae.Lib

/-- How an entry is read: whether it is engaged, whom it names, and what a
record has to be for its key. -/
structure Engagement (κ σ : Type) where
  engaged : σ → Bool
  names : σ → κ → Prop
  ok : κ → σ → Prop

namespace Engagement

variable {κ σ : Type} (E : Engagement κ σ) (t t' : κ → Option σ)

/-- An entry is there, is engaged and names one other, and nobody else. -/
def Faces (a b : κ) : Prop :=
  ∃ s, t a = some s ∧ E.engaged s = true ∧ ∀ c, E.names s c ↔ c = b

/-- An entry is not engaged, or not there. -/
def Idle (a : κ) : Prop := ∀ s, t a = some s → E.engaged s = false

/-- Who is engaged has a partner that is engaged with it. -/
structure Paired : Prop where
  pair : ∀ a s, t a = some s → E.engaged s = true → ∃ b, E.Faces t a b ∧ E.Faces t b a
  ok : ∀ a s, t a = some s → E.ok a s

/-- Every entry is as it was or engaged no longer, and then its partner is
neither. -/
structure Ends : Prop where
  rest : ∀ a, t' a = t a ∨ E.Idle t' a ∧ ∀ s, t' a = some s → E.ok a s
  both : ∀ a b, E.Faces t a b → E.Faces t b a → E.Idle t' a → E.Idle t' b

variable {E t t'}

theorem Faces.unique {a b c : κ} (hb : E.Faces t a b) (hc : E.Faces t a c) : b = c := by
  obtain ⟨s, hs, -, hnames⟩ := hb
  obtain ⟨s', hs', -, hnames'⟩ := hc
  obtain rfl := Option.some.inj (hs.symm.trans hs')
  exact ((hnames' b).1 ((hnames b).2 rfl))

theorem Faces.not_idle {a b : κ} (h : E.Faces t a b) : ¬ E.Idle t a := by
  obtain ⟨s, hs, hengaged, -⟩ := h
  intro hidle
  rw [hidle s hs] at hengaged
  cases hengaged

theorem Faces.congr {a b : κ} (h : E.Faces t a b) (heq : t' a = t a) : E.Faces t' a b := by
  obtain ⟨s, hs, hrest⟩ := h
  exact ⟨s, heq.trans hs, hrest⟩

theorem Idle.congr {a : κ} (h : E.Idle t a) (heq : t' a = t a) : E.Idle t' a :=
  fun s hs => h s (heq ▸ hs)

/-- One that names who is not engaged, alone, is not engaged itself. -/
theorem Paired.idle_of_names (h : E.Paired t) {a b : κ} {s : σ} (hs : t a = some s)
    (hnames : E.names s b) (hb : E.Idle t b) : E.Idle t a := by
  intro s' hs'
  obtain rfl := Option.some.inj (hs.symm.trans hs')
  cases hengaged : E.engaged s with
  | false => rfl
  | true =>
      obtain ⟨c, hac, hca⟩ := h.pair a s hs hengaged
      obtain ⟨s', hs', -, honly⟩ := hac
      obtain rfl := Option.some.inj (hs.symm.trans hs')
      obtain rfl := (honly b).1 hnames
      exact absurd hb hca.not_idle

namespace Ends

variable {t'' : κ → Option σ}

theorem refl (t : κ → Option σ) : E.Ends t t :=
  ⟨fun _ => .inl rfl, fun _ _ hab _ ha => absurd ha hab.not_idle⟩

theorem idle (h : E.Ends t t') {a : κ} (ha : E.Idle t a) : E.Idle t' a := by
  rcases h.rest a with heq | hidle
  · exact ha.congr heq
  · exact hidle.1

theorem trans (h : E.Ends t t') (h' : E.Ends t' t'') : E.Ends t t'' := by
  refine ⟨fun a => ?_, fun a b hab hba ha'' => ?_⟩
  · rcases h'.rest a with heq' | hidle'
    · rcases h.rest a with heq | hidle
      · exact .inl (heq'.trans heq)
      · exact .inr ⟨hidle.1.congr heq', fun s hs => hidle.2 s (heq' ▸ hs)⟩
    · exact .inr hidle'
  · by_cases ha' : E.Idle t' a
    · exact h'.idle (h.both a b hab hba ha')
    · have hb' : ¬ E.Idle t' b := fun hb => ha' (h.both b a hba hab hb)
      have heqa := (h.rest a).resolve_right fun hidle => ha' hidle.1
      have heqb := (h.rest b).resolve_right fun hidle => hb' hidle.1
      exact h'.both a b (hab.congr heqa) (hba.congr heqb) ha''

/-- A write to an entry that is not engaged before nor after. -/
theorem write {a : κ} (hother : ∀ c, c ≠ a → t' c = t c) (ha : E.Idle t a) (ha' : E.Idle t' a)
    (hok : ∀ s, t' a = some s → E.ok a s) : E.Ends t t' := by
  refine ⟨fun c => ?_, fun c d hcd _ hc => ?_⟩
  · by_cases hca : c = a
    · subst hca
      exact .inr ⟨ha', hok⟩
    · exact .inl (hother c hca)
  · by_cases hca : c = a
    · subst hca
      exact absurd ha hcd.not_idle
    · exact absurd (hc.congr (hother c hca).symm) hcd.not_idle

/-- A pair that parts. -/
theorem part {a b : κ} (hab : E.Faces t a b) (hba : E.Faces t b a)
    (hother : ∀ c, c ≠ a → c ≠ b → t' c = t c) (ha : E.Idle t' a) (hb : E.Idle t' b)
    (hoka : ∀ s, t' a = some s → E.ok a s) (hokb : ∀ s, t' b = some s → E.ok b s) :
    E.Ends t t' := by
  refine ⟨fun c => ?_, fun c d hcd hdc hc => ?_⟩
  · by_cases hca : c = a
    · subst hca
      exact .inr ⟨ha, hoka⟩
    · by_cases hcb : c = b
      · subst hcb
        exact .inr ⟨hb, hokb⟩
      · exact .inl (hother c hca hcb)
  · by_cases hca : c = a
    · subst hca
      obtain rfl := hcd.unique hab
      exact hb
    · by_cases hcb : c = b
      · subst hcb
        obtain rfl := hcd.unique hba
        exact ha
      · exact absurd (hc.congr (hother c hca hcb).symm) hcd.not_idle

end Ends

namespace Paired

theorem ends (h : E.Paired t) (hends : E.Ends t t') : E.Paired t' := by
  refine ⟨fun a s hs hengaged => ?_, fun a s hs => ?_⟩
  · have hbusy : ¬ E.Idle t' a := fun hidle => by
      rw [hidle s hs] at hengaged
      cases hengaged
    have heqa := (hends.rest a).resolve_right fun hidle => hbusy hidle.1
    obtain ⟨b, hab, hba⟩ := h.pair a s (heqa ▸ hs) hengaged
    have heqb := (hends.rest b).resolve_right fun hidle =>
      hbusy (hends.both b a hba hab hidle.1)
    exact ⟨b, hab.congr heqa, hba.congr heqb⟩
  · rcases hends.rest a with heq | hidle
    · exact h.ok a s (heq ▸ hs)
    · exact hidle.2 s hs

/-- Two that are not engaged, or one with itself, begin. -/
theorem begins (h : E.Paired t) {a b : κ} (ha : E.Idle t a) (hb : E.Idle t b)
    (hother : ∀ c, c ≠ a → c ≠ b → t' c = t c) (hab : E.Faces t' a b) (hba : E.Faces t' b a)
    (hoka : ∀ s, t' a = some s → E.ok a s) (hokb : ∀ s, t' b = some s → E.ok b s) :
    E.Paired t' := by
  refine ⟨fun c s hs hengaged => ?_, fun c s hs => ?_⟩
  · by_cases hca : c = a
    · subst hca
      exact ⟨b, hab, hba⟩
    · by_cases hcb : c = b
      · subst hcb
        exact ⟨a, hba, hab⟩
      · have heqc := hother c hca hcb
        obtain ⟨d, hcd, hdc⟩ := h.pair c s (heqc ▸ hs) hengaged
        have hda : d ≠ a := fun heq => (heq ▸ hdc).not_idle ha
        have hdb : d ≠ b := fun heq => (heq ▸ hdc).not_idle hb
        exact ⟨d, hcd.congr heqc, hdc.congr (hother d hda hdb)⟩
  · by_cases hca : c = a
    · subst hca
      exact hoka s hs
    · by_cases hcb : c = b
      · subst hcb
        exact hokb s hs
      · exact h.ok c s (hother c hca hcb ▸ hs)

end Paired

variable (E t t') in
/-- One entry is reset together with its partner; who else is reset was named
by it. -/
structure Releases (reset : σ → σ) (r : κ) : Prop where
  self : t' r = (t r).map reset
  others : ∀ a, a ≠ r → t' a = t a ∨
    t' a = (t a).map reset ∧ ∃ s, t r = some s ∧ E.names s a
  partner : ∀ b, b ≠ r → E.Faces t r b → t' b = (t b).map reset

/-- It does no harm unless one that is not engaged names one that is. -/
theorem Releases.ends {reset : σ → σ} {r : κ} (h : E.Releases t t' reset r)
    (hidle : ∀ s, E.engaged (reset s) = false) (hok : ∀ a s, E.ok a (reset s)) (hpaired : E.Paired t)
    (hloose : E.Idle t r → ∀ s, t r = some s → ∀ b, E.names s b → E.Idle t b) : E.Ends t t' := by
  have hreset : ∀ a, t' a = (t a).map reset → E.Idle t' a ∧ ∀ s, t' a = some s → E.ok a s := by
    intro a ha
    refine ⟨fun s hs => ?_, fun s hs => ?_⟩
    · rw [ha] at hs
      obtain ⟨s₀, -, rfl⟩ := Option.map_eq_some_iff.1 hs
      exact hidle s₀
    · rw [ha] at hs
      obtain ⟨s₀, -, rfl⟩ := Option.map_eq_some_iff.1 hs
      exact hok a s₀
  refine ⟨fun a => ?_, fun a b hab hba ha => ?_⟩
  · by_cases har : a = r
    · subst har
      exact .inr (hreset a h.self)
    · rcases h.others a har with heq | ⟨heq, -⟩
      · exact .inl heq
      · exact .inr (hreset a heq)
  · by_cases har : a = r
    · subst har
      by_cases hba' : b = a
      · subst hba'
        exact ha
      · exact (hreset b (h.partner b hba' hab)).1
    · rcases h.others a har with heq | ⟨-, s, hs, hnames⟩
      · exact absurd (ha.congr heq.symm) hab.not_idle
      · -- named by `r`, which is then engaged, with `a`
        by_cases hr : E.Idle t r
        · exact absurd (hloose hr s hs a hnames) hab.not_idle
        · have hengaged : E.engaged s = true := by
            cases hb : E.engaged s with
            | true => rfl
            | false =>
                refine absurd (fun s' hs' => ?_) hr
                rwa [← Option.some.inj (hs.symm.trans hs')]
          obtain ⟨c, hrc, hcr⟩ := hpaired.pair r s hs hengaged
          obtain ⟨s', hs', -, honly⟩ := id hrc
          obtain rfl := Option.some.inj (hs.symm.trans hs')
          obtain rfl := (honly a).1 hnames
          obtain rfl := hab.unique hcr
          exact (hreset b h.self).1

end Engagement

end Sundae.Lib
