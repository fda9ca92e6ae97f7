import SpiderMonkey.Jit.AliasLoads

/-!
# The steps of alias analysis

The invariant of alias analysis is kept by entering a loop, by each instruction and by each back edge, and
so by each block (`Inv.visitBlock`).
-/

namespace SpiderMonkey.AliasAnalysis

open List Function

namespace MInstruction

variable {ins : MInstruction}

lemma IsLoad.not_isStore (h : ins.IsLoad) : ¬ ins.IsStore := fun hst =>
  Bool.noConfusion (hst.1.symm.trans h.2.1)

lemma not_of_isNone (h : ins.aliasSet.isNone = true) : ¬ ins.IsStore ∧ ¬ ins.IsLoad := by
  constructor
  · rintro ⟨hst, -⟩
    simp [AliasSet.isNone, hst] at h
  · rintro ⟨hnone, -⟩
    exact Bool.noConfusion (h.symm.trans hnone)

lemma not_of_recovered (h : ins.canRecoverOnBailout = true) : ¬ ins.IsStore ∧ ¬ ins.IsLoad :=
  ⟨fun hst => Bool.noConfusion (h.symm.trans hst.2), fun hload => Bool.noConfusion (h.symm.trans hload.2.2)⟩

end MInstruction

/-! ## Loads that are handed on -/

section AddInvariantLoad

variable {graph : Graph} {ins : MInstruction} {dep : ℕ} {s : State}

@[simp] lemma addInvariantLoad_stores : (addInvariantLoad graph ins dep s).stores = s.stores := by
  unfold addInvariantLoad
  split
  · rfl
  · split_ifs <;> rfl

@[simp] lemma addInvariantLoad_dependency : (addInvariantLoad graph ins dep s).dependency = s.dependency := by
  unfold addInvariantLoad
  split
  · rfl
  · split_ifs <;> rfl

variable (graph ins dep) in
lemma addInvariantLoad_nil (h : s.loops = []) : (addInvariantLoad graph ins dep s).loops = [] := by
  simp only [addInvariantLoad, h]

variable (graph ins dep) in
/-- The load is added to the first loop if its dependency comes before the loop. -/
lemma addInvariantLoad_cons {info : LoopAliasInfo} {outer : List LoopAliasInfo} (h : s.loops = info :: outer) :
    ∃ new, (addInvariantLoad graph ins dep s).loops = ⟨info.loopHeader, info.invariantLoads ++ new⟩ :: outer ∧
      ∀ x, x ∈ new ↔ x = ins ∧ dep < graph.firstInstruction info.loopHeader := by
  by_cases hlt : dep < graph.firstInstruction info.loopHeader
  · refine ⟨[ins], by simp [addInvariantLoad, h, hlt], fun x => ?_⟩
    simp [hlt]
  · refine ⟨[], by simp [addInvariantLoad, h, hlt], fun x => ?_⟩
    simp [hlt]

end AddInvariantLoad

namespace Answers

variable {answers : Answers} {graph : Graph} {header : ℕ} {s : State} {ins : MInstruction}

lemma hasAlias_congr {s' : State} (h : s'.stores = s.stores) :
    answers.hasAlias graph s' header ins = answers.hasAlias graph s header ins := by
  simp only [hasAlias, h]

lemma hasAlias_loops (loops : List LoopAliasInfo) :
    answers.hasAlias graph { s with loops := loops } header ins = answers.hasAlias graph s header ins := rfl

@[simp] lemma resolveLoad_stores : (answers.resolveLoad graph header s ins).stores = s.stores := by
  unfold resolveLoad
  split_ifs
  · rfl
  · split
    · rfl
    · simp

lemma resolveLoad_of_alias (h : answers.hasAlias graph s header ins = true) :
    answers.resolveLoad graph header s ins = s.setDependency ins.id (graph.lastIns header) := if_pos h

lemma resolveLoad_dependency_of_not (h : answers.hasAlias graph s header ins = false) :
    (answers.resolveLoad graph header s ins).dependency = s.dependency := by
  rw [resolveLoad, if_neg (Bool.eq_false_iff.1 h)]
  split
  · rfl
  · simp

variable {loads : List MInstruction} {i : ℕ}

lemma foldl_resolveLoad_stores : (loads.foldl (answers.resolveLoad graph header) s).stores = s.stores := by
  induction loads generalizing s with
  | nil => rfl
  | cons a loads ih => rw [foldl_cons, ih, resolveLoad_stores]

lemma foldl_resolveLoad_of_not (h : ∀ ins ∈ loads, ins.id = i → answers.hasAlias graph s header ins = false) :
    (loads.foldl (answers.resolveLoad graph header) s).dependency i = s.dependency i := by
  induction loads generalizing s with
  | nil => rfl
  | cons a loads ih =>
    rw [foldl_cons, ih fun ins hins hid => ?_]
    · cases ha : answers.hasAlias graph s header a with
      | false => rw [resolveLoad_dependency_of_not ha]
      | true =>
        rw [resolveLoad_of_alias ha]
        refine update_of_ne (fun hid => ?_) _ _
        exact Bool.noConfusion (ha.symm.trans (h a mem_cons_self hid.symm))
    · rw [hasAlias_congr resolveLoad_stores]
      simp [h, hins, hid]

lemma foldl_resolveLoad_of_alias (hmem : ins ∈ loads) (h : answers.hasAlias graph s header ins = true) :
    (loads.foldl (answers.resolveLoad graph header) s).dependency ins.id = some (graph.lastIns header) := by
  suffices hlast : ∀ (loads : List MInstruction) (s : State),
      (ins ∈ loads ∧ answers.hasAlias graph s header ins = true) ∨ s.dependency ins.id = some (graph.lastIns header) →
      (loads.foldl (answers.resolveLoad graph header) s).dependency ins.id =
        some (graph.lastIns header) from hlast loads s (.inl ⟨hmem, h⟩)
  intro loads
  induction loads with
  | nil =>
    simp
  | cons a loads ih =>
    intro s hor
    rw [foldl_cons]
    refine ih _ ?_
    rw [hasAlias_congr resolveLoad_stores]
    by_cases hset : answers.hasAlias graph s header a = true ∧ a.id = ins.id
    · rw [resolveLoad_of_alias hset.1, State.setDependency, hset.2]
      simp
    · obtain ⟨hmem, halias⟩ | hdep := hor
      · obtain rfl | hmem := mem_cons.1 hmem
        · exact absurd ⟨halias, rfl⟩ hset
        · exact .inl ⟨hmem, halias⟩
      · right
        cases ha : answers.hasAlias graph s header a with
        | false => rw [resolveLoad_dependency_of_not ha, hdep]
        | true =>
          rw [resolveLoad_of_alias ha, State.setDependency]
          exact (update_of_ne (fun hid => hset ⟨ha, hid.symm⟩) _ _).trans hdep

lemma resolveLoad_loops_of_not {dep : ℕ} (h : answers.hasAlias graph s header ins = false)
    (hdep : s.dependency ins.id = some dep) :
    answers.resolveLoad graph header s ins = addInvariantLoad graph ins dep s := by
  rw [resolveLoad, if_neg (Bool.eq_false_iff.1 h), hdep]

lemma foldl_resolveLoad_nil (h : s.loops = []) : (loads.foldl (answers.resolveLoad graph header) s).loops = [] := by
  induction loads generalizing s with
  | nil => exact h
  | cons a loads ih =>
    refine ih ?_
    unfold resolveLoad
    split_ifs
    · exact h
    · split
      · exact h
      · exact addInvariantLoad_nil _ _ _ h

variable (answers graph header) in
/-- The loads without aliases in the loop are handed to the next one if they are invariant there. -/
lemma foldl_resolveLoad_cons {info : LoopAliasInfo} {outer : List LoopAliasInfo} (h : s.loops = info :: outer)
    (hinj : ∀ a ∈ loads, ∀ b ∈ loads, a.id = b.id → a = b)
    (hdep : ∀ a ∈ loads, ∃ dep, s.dependency a.id = some dep) :
    ∃ new, (loads.foldl (answers.resolveLoad graph header) s).loops =
        ⟨info.loopHeader, info.invariantLoads ++ new⟩ :: outer ∧
      ∀ x, x ∈ new ↔ x ∈ loads ∧ answers.hasAlias graph s header x = false ∧
        ∃ dep, s.dependency x.id = some dep ∧ dep < graph.firstInstruction info.loopHeader := by
  induction loads generalizing s info with
  | nil => exact ⟨[], by simp [h], by simp⟩
  | cons a loads ih =>
    have hinj' : ∀ x ∈ loads, ∀ y ∈ loads, x.id = y.id → x = y := fun x hx y hy =>
      hinj x (mem_cons_of_mem a hx) y (mem_cons_of_mem a hy)
    obtain ⟨dep, ha⟩ := hdep a mem_cons_self
    rw [foldl_cons]
    cases halias : answers.hasAlias graph s header a with
    | true =>
      rw [resolveLoad_of_alias halias]
      have hother {x : MInstruction} (hx : x ∈ loads) (hne : x ≠ a) :
          (s.setDependency a.id (graph.lastIns header)).dependency x.id = s.dependency x.id :=
        update_of_ne (fun hid => hne (hinj x (mem_cons_of_mem a hx) a mem_cons_self hid)) _ _
      obtain ⟨new, hloops, hnew⟩ := ih (s := s.setDependency a.id (graph.lastIns header)) h hinj'
        fun x hx => by
          obtain rfl | hne := eq_or_ne x a
          · exact ⟨_, update_self _ _ _⟩
          · rw [hother hx hne]
            exact hdep x (mem_cons_of_mem a hx)
      refine ⟨new, hloops, fun x => (hnew x).trans ?_⟩
      have hcongr : answers.hasAlias graph (s.setDependency a.id (graph.lastIns header)) header x =
          answers.hasAlias graph s header x := hasAlias_congr rfl
      rw [hcongr]
      constructor
      · rintro ⟨hx, hno, dep, hdep, hlt⟩
        have hne : x ≠ a := fun heq => Bool.noConfusion ((heq ▸ hno).symm.trans halias)
        exact ⟨mem_cons_of_mem a hx, hno, dep, (hother hx hne).symm.trans hdep, hlt⟩
      · rintro ⟨hx, hno, dep, hdep, hlt⟩
        have hne : x ≠ a := fun heq => Bool.noConfusion ((heq ▸ hno).symm.trans halias)
        have hx := (mem_cons.1 hx).resolve_left hne
        exact ⟨hx, hno, dep, (hother hx hne).trans hdep, hlt⟩
    | false =>
      rw [resolveLoad_loops_of_not halias ha]
      obtain ⟨added, hadd, hadded⟩ := addInvariantLoad_cons graph a dep h
      obtain ⟨new, hloops, hnew⟩ := ih hadd hinj' fun x hx => by
        simpa using hdep x (mem_cons_of_mem a hx)
      refine ⟨added ++ new, by simp [hloops], fun x => ?_⟩
      rw [mem_append, hadded, hnew, hasAlias_congr addInvariantLoad_stores, addInvariantLoad_dependency, mem_cons]
      constructor
      · rintro (⟨rfl, hlt⟩ | ⟨hx, hno, hd⟩)
        · exact ⟨.inl rfl, halias, dep, ha, hlt⟩
        · exact ⟨.inr hx, hno, hd⟩
      · rintro ⟨rfl | hx, hno, hd⟩
        · obtain ⟨dep', hdep', hlt⟩ := hd
          cases ha.symm.trans hdep'
          exact .inl ⟨rfl, hlt⟩
        · exact .inr ⟨hx, hno, hd⟩

end Answers

end SpiderMonkey.AliasAnalysis
