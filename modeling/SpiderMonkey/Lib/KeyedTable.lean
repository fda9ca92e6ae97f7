import Mathlib.Data.List.Basic
import Mathlib.Data.List.Nodup
import Mathlib.Tactic

/-!
# Tables with keys

A table is a list of entries with different keys.  Its entries can be visited one after the other; what is
seen of one key after all of them depends on the entry of that key only (`KeyedTable.foldl_obs`).
-/

structure KeyedTable (κ β : Type*) where
  entries : List (κ × β)
  nodup : (entries.map Prod.fst).Nodup

namespace KeyedTable

open List

variable {κ β γ σ : Type*}

/-! ## Entries -/

lemma value_eq (t : KeyedTable κ β) {k : κ} {b b' : β} (h : (k, b) ∈ t.entries) (h' : (k, b') ∈ t.entries) :
    b = b' := by
  have hinj := inj_on_of_nodup_map t.nodup h h' rfl
  exact congrArg Prod.snd hinj

def empty : KeyedTable κ β := ⟨[], nodup_nil⟩

variable [DecidableEq κ]

def find (t : KeyedTable κ β) (k : κ) : Option β := (t.entries.find? fun e => decide (e.1 = k)).map Prod.snd

variable (t : KeyedTable κ β) {k k' : κ} {b : β}

lemma find_eq_some : t.find k = some b ↔ (k, b) ∈ t.entries := by
  constructor
  · intro h
    obtain ⟨⟨k', b'⟩, hfind, rfl⟩ := Option.map_eq_some_iff.1 h
    obtain rfl : k' = k := by simpa using find?_some hfind
    exact mem_of_find?_eq_some hfind
  · intro h
    cases hfind : t.entries.find? fun e => decide (e.1 = k) with
    | none => simpa using find?_eq_none.1 hfind _ h
    | some e =>
      obtain ⟨k', b'⟩ := e
      obtain rfl : k' = k := by simpa using find?_some hfind
      have hvalue := t.value_eq (mem_of_find?_eq_some hfind) h
      rw [find, hfind, hvalue]
      rfl

lemma find_eq_none : t.find k = none ↔ ∀ b, (k, b) ∉ t.entries := by
  rw [Option.eq_none_iff_forall_ne_some]
  exact forall_congr' fun b => not_congr t.find_eq_some

lemma find_congr {t' : KeyedTable κ γ} {f : β → Option γ}
    (h : ∀ c, (k, c) ∈ t'.entries ↔ ∃ b, (k, b) ∈ t.entries ∧ f b = some c) : t'.find k = (t.find k).bind f := by
  refine Option.ext fun c => ?_
  simp [find_eq_some, h, Option.bind_eq_some_iff]

/-! ## Changes -/

def filterMapValues (f : κ → β → Option γ) : KeyedTable κ γ where
  entries := t.entries.filterMap fun e => (f e.1 e.2).map (Prod.mk e.1)
  nodup := by
    refine List.Nodup.sublist ?_ t.nodup
    generalize t.entries = l
    induction l with
    | nil => exact List.Sublist.slnil
    | cons e l ih =>
      cases h : f e.1 e.2 with
      | none =>
        rw [filterMap_cons_none (by rw [h]; rfl), map_cons]
        exact ih.cons _
      | some c =>
        rw [filterMap_cons_some (by rw [h]; rfl), map_cons, map_cons]
        exact ih.cons_cons _

lemma find_filterMapValues (f : κ → β → Option γ) : (t.filterMapValues f).find k = (t.find k).bind (f k) := by
  refine t.find_congr fun c => ?_
  simp only [filterMapValues, mem_filterMap, Option.map_eq_some_iff, Prod.mk.injEq, Prod.exists]
  simp

def mapValues (f : κ → β → γ) : KeyedTable κ γ := t.filterMapValues fun k b => some (f k b)

lemma find_mapValues (f : κ → β → γ) : (t.mapValues f).find k = (t.find k).map (f k) := by
  rw [mapValues, find_filterMapValues]
  exact Option.map_eq_bind.symm

def erase (k : κ) : KeyedTable κ β := t.filterMapValues fun k' b => if k' = k then none else some b

lemma find_erase_self : (t.erase k).find k = none := by
  rw [erase, find_filterMapValues]
  simp

lemma find_erase_of_ne (h : k' ≠ k) : (t.erase k).find k' = t.find k' := by
  rw [erase, find_filterMapValues]
  simp [h]

/-- The value of a key is replaced, or a first value is added. -/
def insert (k : κ) (b : β) : KeyedTable κ β where
  entries := (t.erase k).entries ++ [(k, b)]
  nodup := by
    rw [map_append, nodup_append]
    refine ⟨(t.erase k).nodup, nodup_singleton _, fun x hx y hy => ?_⟩
    obtain rfl := mem_singleton.1 hy
    rintro rfl
    obtain ⟨⟨k', b'⟩, hmem, rfl⟩ := mem_map.1 hx
    exact (t.erase k').find_eq_none.1 t.find_erase_self b' hmem

lemma find_insert : (t.insert k b).find k' = if k' = k then some b else t.find k' := by
  split_ifs with h
  · subst h
    exact (find_eq_some _).2 (mem_append_right _ (mem_singleton_self _))
  · rw [← t.find_erase_of_ne h]
    refine Option.ext fun c => ?_
    rw [find_eq_some, find_eq_some]
    refine ⟨fun hmem => (mem_append.1 hmem).resolve_right fun hmem => h ?_, mem_append_left _⟩
    exact congrArg Prod.fst (mem_singleton.1 hmem)

/-! ## Visiting the entries -/

lemma foldl_obs (g : σ → κ × β → σ) (obs : σ → γ) (h : β → γ → γ) (k : κ)
    (hne : ∀ e ∈ t.entries, e.1 ≠ k → ∀ s, obs (g s e) = obs s)
    (heq : ∀ b, (k, b) ∈ t.entries → ∀ s, obs (g s (k, b)) = h b (obs s)) (s : σ) :
    obs (t.entries.foldl g s) = (t.find k).elim (obs s) fun b => h b (obs s) := by
  have hrest : ∀ (l : List (κ × β)) (s : σ), l ⊆ t.entries → (∀ e ∈ l, e.1 ≠ k) → obs (l.foldl g s) = obs s := by
    intro l
    induction l with
    | nil => exact fun s _ _ => rfl
    | cons e l ih =>
      intro s hsub hl
      rw [foldl_cons, ih _ (fun x hx => hsub (mem_cons_of_mem e hx))
        fun x hx => hl x (mem_cons_of_mem e hx)]
      exact hne e (hsub mem_cons_self) (hl e mem_cons_self) s
  cases hfind : t.find k with
  | none =>
    refine hrest _ s (List.Subset.refl _) fun e he hk => ?_
    exact t.find_eq_none.1 hfind e.2 (hk ▸ he)
  | some b =>
    -- the entries before and after the one of the key are not seen
    have hmem := t.find_eq_some.1 hfind
    obtain ⟨l₁, l₂, hl⟩ := append_of_mem hmem
    have hnodup := t.nodup
    rw [hl, map_append, map_cons, nodup_append, nodup_cons] at hnodup
    obtain ⟨-, ⟨hnot, -⟩, hdisj⟩ := hnodup
    have h₁ : ∀ e ∈ l₁, e.1 ≠ k := fun e he =>
      hdisj e.1 (mem_map_of_mem he) k mem_cons_self
    have h₂ : ∀ e ∈ l₂, e.1 ≠ k := by
      rintro e he rfl
      exact hnot (mem_map.2 ⟨e, he, rfl⟩)
    rw [hl, foldl_append, foldl_cons, hrest l₂ _ (fun e he => ?_) h₂, heq b hmem, hrest l₁ _ (fun e he => ?_) h₁]
    · rfl
    · simp [hl, he]
    · simp [hl, he]

end KeyedTable
