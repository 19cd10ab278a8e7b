import Mathlib.Data.List.Perm.Subperm
import Mathlib.Data.List.Perm.Lattice

/-!
# A list kept up to date from afar

One party keeps a list of tagged entries, the other only their keys, in some
order. Keys taken out and put in as the entries are keep the two together, and
two lists without a repeated tag whose tags are the same have the same keys.
-/

namespace Sundae.Lib

variable {α κ τ : Type}

section Edits

variable [DecidableEq κ]

theorem append_diff_left (l m : List κ) : (l ++ m).diff l = m := by
  induction l with
  | nil => rfl
  | cons a l ih => rw [List.cons_append, List.diff_cons, List.erase_cons_head, ih]

/-- The keys of what goes are taken out and those of what comes put in front. -/
theorem perm_update {key : α → κ} (gone : α → Bool) {entries new : List α} {held : List κ}
    (h : held.Perm (entries.map key)) :
    ((new.map key).reverse ++ held.diff ((entries.filter gone).map key)).Perm
      ((entries.filter (fun a => !gone a) ++ new).map key) := by
  have hsplit : (entries.filter gone ++ entries.filter fun a => !gone a).Perm entries :=
    List.filter_append_perm gone entries
  have hheld : (held.diff ((entries.filter gone).map key)).Perm
      ((entries.filter fun a => !gone a).map key) := by
    have hkeys := h.trans (hsplit.map key).symm
    rw [List.map_append] at hkeys
    have hdiff := hkeys.diff_right ((entries.filter gone).map key)
    rwa [append_diff_left] at hdiff
  rw [List.map_append]
  exact (List.Perm.append (List.reverse_perm _) hheld).trans List.perm_append_comm

end Edits

/-- Lists of the same tags, each once, have the same keys. -/
theorem perm_of_tags (tag : α → τ) {key : α → κ} {l m : List α} (hl : (l.map tag).Nodup)
    (hm : (m.map tag).Nodup) (hkey : ∀ a ∈ l, ∀ b ∈ m, tag a = tag b → key a = key b)
    (hlm : ∀ a ∈ l, ∃ b ∈ m, tag b = tag a) (hml : ∀ b ∈ m, ∃ a ∈ l, tag a = tag b) :
    (l.map key).Perm (m.map key) := by
  have hpair : ((l.map fun a => (tag a, key a))).Perm (m.map fun b => (tag b, key b)) := by
    refine (List.perm_ext_iff_of_nodup ?_ ?_).2 fun p => ?_
    · exact List.Nodup.of_map Prod.fst (by simpa [List.map_map, Function.comp_def] using hl)
    · exact List.Nodup.of_map Prod.fst (by simpa [List.map_map, Function.comp_def] using hm)
    · constructor
      · intro hp
        obtain ⟨a, ha, rfl⟩ := List.mem_map.1 hp
        obtain ⟨b, hb, htag⟩ := hlm a ha
        exact List.mem_map.2 ⟨b, hb, by rw [htag, hkey a ha b hb htag.symm]⟩
      · intro hp
        obtain ⟨b, hb, rfl⟩ := List.mem_map.1 hp
        obtain ⟨a, ha, htag⟩ := hml b hb
        exact List.mem_map.2 ⟨a, ha, by rw [htag, hkey a ha b hb htag]⟩
  have hsnd := hpair.map Prod.snd
  simpa [List.map_map, Function.comp_def] using hsnd

end Sundae.Lib
